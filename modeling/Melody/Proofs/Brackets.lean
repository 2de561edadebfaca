import Melody.Proofs.Continuity

/-!
# What a listener is told is well bracketed

The cues of a score mirror its voices: a note is told at its start and at once at its end, and a
sequence encloses what is told while it lasts.

* `Balanced`: cues in which starts and ends belong together; `addsBalanced_unrollBlock`;
* `Cue.time`, `clock`: when a cue is told, and the end of the last note so far;
* `Walk.Mirrors`: the cues of a walk and its voices; `Walk.Goes.mirrors`;
* `Walk.Goes.rising_cues`: no cue is told before an earlier one;
* **`cues_mirror_voices`**: bracketing, labels and moments of the cues of a score.
-/

namespace Melody

open Sound (Event Settings Voice)

/-- Cues in which a note ends at once, and a sequence after all that it encloses. -/
inductive Balanced : List Cue → Prop
  | nil : Balanced []
  | note {label : String} {start stop : Float} {rest : List Cue} (h : Balanced rest) :
    Balanced (.noteStart label start :: .noteEnd label stop :: rest)
  | sequence {name : String} {start stop : Float} {inner rest : List Cue} (hinner : Balanced inner)
    (hrest : Balanced rest) :
    Balanced (.sequenceStart name start :: (inner ++ .sequenceEnd name stop :: rest))

theorem Balanced.append {cs ds : List Cue} (hcs : Balanced cs) (hds : Balanced ds) :
    Balanced (cs ++ ds) := by
  induction hcs with
  | nil => exact hds
  | note _ ih => exact .note ih
  | @sequence name start stop inner rest hinner _ _ ih =>
    rw [List.cons_append, List.append_assoc, List.cons_append]
    exact .sequence hinner ih

/-- A walk along the trace adds balanced cues. -/
def AddsBalanced (settings : Settings) (trace : List Step) : Prop :=
  ∀ w : Walk, (trace.foldl (Walk.take settings) w).fault = none →
    ∃ cues, (trace.foldl (Walk.take settings) w).cues = w.cues ++ cues ∧ Balanced cues

section Unroll

variable {settings : Settings}

theorem addsBalanced_nil : AddsBalanced settings [] :=
  fun _ _ => ⟨[], (List.append_nil _).symm, .nil⟩

theorem AddsBalanced.append {trace trace' : List Step} (h : AddsBalanced settings trace)
    (h' : AddsBalanced settings trace') : AddsBalanced settings (trace ++ trace') := by
  intro w hfault
  rw [List.foldl_append] at hfault ⊢
  obtain ⟨cues, hcues, hbalanced⟩ := h w (Walk.fault_eq_none_of_foldl hfault)
  obtain ⟨cues', hcues', hbalanced'⟩ := h' _ hfault
  exact ⟨cues ++ cues', by rw [hcues', hcues, List.append_assoc], hbalanced.append hbalanced'⟩

theorem AddsBalanced.flatten_replicate {trace : List Step} (h : AddsBalanced settings trace)
    (n : Nat) : AddsBalanced settings (List.replicate n trace).flatten := by
  induction n with
  | zero => exact addsBalanced_nil
  | succ n ih =>
    rw [List.replicate_succ, List.flatten_cons]
    exact h.append ih

theorem addsBalanced_silent {s : Step}
    (hs : ∀ w w' : Walk, w.Goes settings s w' → w'.cues = w.cues) : AddsBalanced settings [s] := by
  intro w hfault
  obtain ⟨w', hgoes, hfoldl⟩ := Walk.foldl_cons_of_fault hfault
  exact ⟨[], by rw [hfoldl, List.foldl_nil, hs w w' hgoes, List.append_nil], .nil⟩

theorem addsBalanced_note (n : Note) : AddsBalanced settings [.note n] := by
  intro w hfault
  obtain ⟨w', hgoes, hfoldl⟩ := Walk.foldl_cons_of_fault hfault
  rw [hfoldl]
  cases hgoes with
  | note h => exact ⟨_, rfl, .note .nil⟩

theorem Walk.Goes.cues_enter {w w' : Walk} {name : String} (h : w.Goes settings (.enter name) w') :
    w'.cues = w.cues ++ [.sequenceStart name w.cursor] := by
  cases h
  rfl

theorem Walk.Goes.cues_leave {w w' : Walk} {name : String} (h : w.Goes settings (.leave name) w') :
    w'.cues = w.cues ++ [.sequenceEnd name w.cursor] := by
  cases h
  rfl

theorem AddsBalanced.sequence {trace : List Step} (h : AddsBalanced settings trace)
    (name : String) : AddsBalanced settings (.enter name :: (trace ++ [.leave name])) := by
  intro w hfault
  obtain ⟨w', hgoes, hfoldl⟩ := Walk.foldl_cons_of_fault hfault
  rw [hfoldl, List.foldl_append] at hfault ⊢
  obtain ⟨cues, hcues, hbalanced⟩ := h w' (Walk.fault_eq_none_of_foldl hfault)
  obtain ⟨w'', hgoes', hfoldl'⟩ := Walk.foldl_cons_of_fault hfault
  rw [hfoldl', List.foldl_nil, hgoes'.cues_leave, hcues, hgoes.cues_enter]
  generalize (trace.foldl (Walk.take settings) w').cursor = stop
  refine ⟨.sequenceStart name w.cursor :: (cues ++ [.sequenceEnd name stop]), ?_,
    .sequence hbalanced .nil⟩
  simp only [List.append_assoc, List.cons_append, List.nil_append]

mutual

theorem addsBalanced_unroll : ∀ s : Statement, AddsBalanced settings s.unroll
  | .tempo _ _ | .volume _ _ => addsBalanced_silent fun w w' h => by cases h; rfl
  | .sequence _ name body => (addsBalanced_unrollBlock body).sequence name
  | .repetition _ count body => (addsBalanced_unrollBlock body).flatten_replicate count.toNat
  | .note n => addsBalanced_note n

/-- **The cues of statements are balanced.** -/
theorem addsBalanced_unrollBlock : ∀ ss : List Statement, AddsBalanced settings (unrollBlock ss)
  | [] => addsBalanced_nil
  | s :: ss => (addsBalanced_unroll s).append (addsBalanced_unrollBlock ss)

end

end Unroll

/-! ## Moments -/

namespace Cue

/-- When a cue is told. -/
def time : Cue → Float
  | sequenceStart _ time | sequenceEnd _ time | noteStart _ time | noteEnd _ time => time

/-- Is it told of a note? -/
def isNote : Cue → Bool
  | noteStart _ _ | noteEnd _ _ => true
  | sequenceStart _ _ | sequenceEnd _ _ => false

/-- Where a note ends, if the cue tells it. -/
def noteEnd? : Cue → Option Float
  | noteEnd _ time => some time
  | _ => none

theorem noteEnd?_of_not_isNote {cue : Cue} (h : cue.isNote = false) : cue.noteEnd? = none := by
  cases cue <;> first | rfl | cases h

end Cue

/-- What is told of a voice. -/
def Sound.Voice.cues (v : Voice) : List Cue :=
  [.noteStart v.event.label v.event.start, .noteEnd v.event.label v.event.stop]

/-- The end of the last note that is told, or `now` before the first one. -/
def clock (now : Float) (cues : List Cue) : Float :=
  (cues.filterMap Cue.noteEnd?).getLast?.getD now

variable {settings : Settings} {w w' : Walk} {s : Step} {now : Float}

theorem clock_concat_of_not_isNote {cues : List Cue} {cue : Cue} (h : cue.isNote = false) :
    clock now (cues ++ [cue]) = clock now cues := by
  rw [clock, List.filterMap_append, List.filterMap_cons, Cue.noteEnd?_of_not_isNote h,
    List.filterMap_nil, List.append_nil, clock]

theorem clock_append_voice_cues (cues : List Cue) (v : Voice) :
    clock now (cues ++ v.cues) = v.event.stop := by
  rw [clock, List.filterMap_append]
  exact congrArg (·.getD now) List.getLast?_concat

/-! ## Cues and voices -/

/-- The cues of a walk mirror its voices: each voice has its two cues, in the same order, and all
other cues are told when the last voice before them ends. -/
structure Walk.Mirrors (now : Float) (w : Walk) : Prop where
  notes : w.cues.filter Cue.isNote = w.voices.flatMap Voice.cues
  cursor : w.cursor = clock now w.cues
  marks : ∀ before cue, before ++ [cue] <+: w.cues → cue.isNote = false →
    cue.time = clock now before

theorem eq_or_front_of_concat {before cues : List Cue} {cue last : Cue}
    (h : before ++ [cue] <+: cues ++ [last]) :
    before = cues ∧ cue = last ∨ before ++ [cue] <+: cues := by
  rcases List.prefix_concat_iff.mp h with heq | hfront
  · obtain ⟨hbefore, hlast⟩ := List.append_inj' heq rfl
    exact .inl ⟨hbefore, List.singleton_inj.mp hlast⟩
  · exact .inr hfront

theorem Walk.Mirrors.mark {cue : Cue} (hw : w.Mirrors now) (hcue : cue.isNote = false)
    (htime : cue.time = w.cursor) (hvoices : w'.voices = w.voices) (hcursor : w'.cursor = w.cursor)
    (hcues : w'.cues = w.cues ++ [cue]) : w'.Mirrors now where
  notes := by
    rw [hcues, hvoices, ← hw.notes, List.filter_append, List.filter_singleton, hcue]
    exact List.append_nil _
  cursor := by rw [hcursor, hcues, clock_concat_of_not_isNote hcue, hw.cursor]
  marks := by
    intro before cue' hfront hcue'
    rw [hcues] at hfront
    rcases eq_or_front_of_concat hfront with ⟨rfl, rfl⟩ | hfront
    · rw [htime, hw.cursor]
    · exact hw.marks before cue' hfront hcue'

theorem Walk.Mirrors.voice {v : Voice} (hw : w.Mirrors now)
    (hvoices : w'.voices = w.voices ++ [v]) (hcursor : w'.cursor = v.event.stop)
    (hcues : w'.cues = w.cues ++ v.cues) : w'.Mirrors now where
  notes := by
    rw [hcues, hvoices, List.filter_append, hw.notes, List.flatMap_append, List.flatMap_singleton]
    rfl
  cursor := by rw [hcursor, hcues, clock_append_voice_cues]
  marks := by
    intro before cue hfront hcue
    rw [hcues, Voice.cues, List.append_cons w.cues] at hfront
    -- neither of the two cues is told of anything but a note
    rcases eq_or_front_of_concat hfront with ⟨-, rfl⟩ | hfront
    · cases hcue
    · rcases eq_or_front_of_concat hfront with ⟨-, rfl⟩ | hfront
      · cases hcue
      · exact hw.marks before cue hfront hcue

theorem Walk.Goes.mirrors (h : w.Goes settings s w') (hw : w.Mirrors now) : w'.Mirrors now := by
  cases h with
  | tempo | volume => exact ⟨hw.notes, hw.cursor, hw.marks⟩
  | enter | leave => exact hw.mark rfl rfl rfl rfl rfl
  | note hevent =>
    obtain ⟨frequency, beats, -, -, rfl⟩ := Stage.event_eq_ok_iff.mp hevent
    exact hw.voice rfl rfl rfl

/-- **No cue is told before an earlier one.** -/
theorem Walk.Goes.rising_cues (h : w.Goes settings s w') (htempo : tempoAfter w.taken ≠ 0)
    (hw : Rising (w.cues.map Cue.time ++ [w.cursor])) :
    Rising (w'.cues.map Cue.time ++ [w'.cursor]) := by
  have hnumber : w.cursor.isNaN = false := hw.1 w.cursor (by simp)
  have hcursor := h.cursor_le htempo hnumber
  cases h with
  | tempo | volume => exact hw
  | enter | leave =>
    have hagain := hw.concat hnumber (Binary64.le_refl hnumber)
    rw [Walk.pass, List.map_append]
    exact hagain
  | note hevent =>
    obtain ⟨frequency, beats, -, -, rfl⟩ := Stage.event_eq_ok_iff.mp hevent
    have hlater := hw.concat hcursor.1 hcursor.2
    have hagain := hlater.concat hcursor.1 (Binary64.le_refl hcursor.1)
    rw [List.append_assoc _ [w.cursor]] at hagain
    rw [Walk.sound, List.map_append]
    exact hagain

/-- **The cues of a score are well bracketed and mirror its voices**, whatever the settings: each
note is told with the label, the start and the end of its voice, and a sequence starts and ends when
the last note before that cue ends. No cue is told before an earlier one if the first moment is a
number. -/
theorem cues_mirror_voices {player : Player} {score : Score} {now : Float} {voices : List Voice}
    (h : (player.execute score now).1.voices player.settings = .ok voices) :
    let cues := (player.execute score now).1.recital.cues
    Balanced cues ∧ cues.filter Cue.isNote = voices.flatMap Voice.cues ∧
      (∀ before cue, before ++ [cue] <+: cues → cue.isNote = false →
        cue.time = clock now before) ∧
      (now.isNaN = false → (cues.map Cue.time).Pairwise (· ≤ ·)) := by
  obtain ⟨_, rfl, hfault, -, rfl, hcues, -⟩ := exists_walk h
  rw [← hcues]
  intro cues
  have hstart : (Walk.start now).Mirrors now :=
    ⟨rfl, rfl, fun before cue hfront => absurd hfront (by simp [Walk.start])⟩
  have hmirrors := Walk.foldl_induction (P := Walk.Mirrors now)
    (fun w s w' hgoes hw => hgoes.mirrors hw) hfault hstart
  refine ⟨?_, hmirrors.notes, hmirrors.marks, fun hnow => ?_⟩
  · obtain ⟨added, hadded, hbalanced⟩ := addsBalanced_unrollBlock score.statements _ hfault
    rw [show cues = added from hadded]
    exact hbalanced
  · have hrising := Walk.foldl_induction_of_tempo
      (P := fun w => Rising (w.cues.map Cue.time ++ [w.cursor]))
      (fun w s w' hgoes htempo hw => hgoes.rising_cues htempo hw) hfault (rising_singleton hnow)
    exact (List.pairwise_append.mp hrising.2).1

theorem cues_mirror_voices_short :
    let cues := ((Player.new .standard).execute .short 0).1.recital.cues
    ∃ (voices : List Voice) (first : Cue),
      ((Player.new .standard).execute .short 0).1.voices (Player.new .standard).settings =
        .ok voices ∧
      Balanced cues ∧ cues.filter Cue.isNote = voices.flatMap Voice.cues ∧
        cues.head? = some first ∧ first.time = clock 0 [] ∧
        (cues.map Cue.time).Pairwise (· ≤ ·) := by
  intro cues
  obtain ⟨voices, h⟩ := exists_voices_short
  obtain ⟨hbalanced, hnotes, hmarks, hrising⟩ := cues_mirror_voices h
  have hnow : Float.isNaN 0 = false := rfl
  -- the score begins with a sequence
  have hfirst : cues.head?.map Cue.isNote = some false := by decide +kernel
  obtain ⟨first, hhead, hfirst⟩ := Option.map_eq_some_iff.mp hfirst
  obtain ⟨rest, hcues⟩ := List.head?_eq_some_iff.mp hhead
  exact ⟨voices, first, h, hbalanced, hnotes, hhead,
    hmarks [] first ⟨rest, hcues.symm⟩ hfirst, hrising hnow⟩

end Melody
