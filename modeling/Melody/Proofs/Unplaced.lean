import Melody.Proofs.Relocation
import Melody.Tune

/-!
# Places do not matter to performances and tunes

Places are carried along while a score is played, into the notes that are noted down and into the
fault that ends the performance; nothing is decided by them.

* `Recital.relocate`, `Performance.relocate`: the same with other places;
* **`playBlock_relocate`**: playing commutes with relocation; `Performance.of_relocate`;
* `Recital.cues_relocate`, `Performance.voices_relocate`: what is heard has no places;
* `Score.tune_relocate`: nor has a tune.
-/

namespace Melody

open Sound (Settings)

variable (f : Position → Position)

/-- The fault, standing elsewhere. -/
def Fault.relocate (fault : Fault) : Fault := { fault with pos := f fault.pos }

/-- What happens when its note stands elsewhere. -/
def Happening.relocate : Happening → Happening
  | .note n event => .note (n.relocate f) event
  | h => h

/-- What has happened, with notes that stand elsewhere. -/
def Recital.relocate (r : Recital) : Recital :=
  { r with happenings := r.happenings.map (Happening.relocate f) }

/-- What a part of a performance comes to, with other places. -/
def relocateResult : EStateM.Result Fault Recital Unit → EStateM.Result Fault Recital Unit
  | .ok _ r => .ok () (r.relocate f)
  | .error fault r => .error (fault.relocate f) (r.relocate f)

/-- A performance of statements that stand elsewhere. -/
def Performance.relocate (p : Performance) : Performance :=
  ⟨p.recital.relocate f, p.fault.map (Fault.relocate f)⟩

/-! ## Playing -/

theorem setTempo_relocate (r : Recital) (bpm : UInt32) :
    (r.relocate f).setTempo bpm = (r.setTempo bpm).relocate f := by
  simp [Recital.setTempo, Recital.relocate, Happening.relocate]

theorem setVolume_relocate (r : Recital) (percent : UInt32) :
    (r.relocate f).setVolume percent = (r.setVolume percent).relocate f := by
  simp [Recital.setVolume, Recital.relocate, Happening.relocate]

theorem enter_relocate (r : Recital) (name : String) :
    (r.relocate f).enter name = (r.enter name).relocate f := by
  simp [Recital.enter, Recital.relocate, Happening.relocate]

theorem leave_relocate (r : Recital) (name : String) :
    (r.relocate f).leave name = (r.leave name).relocate f := by
  simp [Recital.leave, Recital.relocate, Happening.relocate]

theorem sound_relocate (r : Recital) (n : Note) (event : Sound.Event) :
    (r.relocate f).sound (n.relocate f) event = (r.sound n event).relocate f := by
  simp [Recital.sound, Recital.relocate, Happening.relocate]

theorem times_relocate {part part' : Play}
    (h : ∀ r, part' (r.relocate f) = relocateResult f (part r)) (n : Nat) (r : Recital) :
    part'.times n (r.relocate f) = relocateResult f (part.times n r) := by
  induction n generalizing r with
  | zero => rfl
  | succ n ih =>
    rw [Play.times, Play.times, h r]
    cases part r with
    | ok _ r' => exact ih r'
    | error fault r' => rfl

mutual

theorem play_relocate : ∀ (s : Statement) (r : Recital),
    (s.relocate f).play (r.relocate f) = relocateResult f (s.play r)
  | .tempo pos bpm, r => by
    rw [Statement.relocate, Statement.play, Statement.play]
    split
    · rfl
    · rw [setTempo_relocate]
      rfl
  | .volume pos percent, r => by
    rw [Statement.relocate, Statement.play, Statement.play]
    split
    · rfl
    · rw [setVolume_relocate]
      rfl
  | .sequence pos name body, r => by
    rw [Statement.relocate, Statement.play, Statement.play, enter_relocate,
      playBlock_relocate body]
    cases playBlock body (r.enter name) with
    | ok _ r' =>
      simp only [relocateResult]
      rw [leave_relocate]
    | error fault r' => rfl
  | .repetition pos count body, r => by
    rw [Statement.relocate, Statement.play, Statement.play]
    exact times_relocate f (playBlock_relocate body) count.toNat r
  | .note n, r => by
    rw [Statement.relocate, Statement.play, Statement.play]
    have hevent : (r.relocate f).stage.event (n.relocate f) = r.stage.event n := rfl
    rw [hevent]
    cases r.stage.event n with
    | ok event =>
      simp only [relocateResult]
      rw [sound_relocate]
    | error cause => rfl

/-- **Playing commutes with relocation.** -/
theorem playBlock_relocate : ∀ (ss : List Statement) (r : Recital),
    playBlock (relocateBlock f ss) (r.relocate f) = relocateResult f (playBlock ss r)
  | [], _ => rfl
  | s :: ss, r => by
    rw [relocateBlock, playBlock, playBlock, play_relocate s]
    cases s.play r with
    | ok _ r' => exact playBlock_relocate ss r'
    | error fault r' => rfl

end

theorem Performance.of_relocate (score : Score) (now : Float) :
    of (score.relocate f) now = (of score now).relocate f := by
  have hplay := playBlock_relocate f score.statements (.opening now)
  have hopening : (Recital.opening now).relocate f = .opening now := by
    simp [Recital.relocate, Recital.opening]
  rw [hopening] at hplay
  unfold of
  rw [Score.relocate, hplay]
  cases playBlock score.statements (.opening now) <;> rfl

/-- Scores that are the same up to their places have performances that are. -/
theorem Performance.relocate_of_eq {score score' : Score}
    (h : score'.relocate f = score.relocate f) (now : Float) :
    (of score' now).relocate f = (of score now).relocate f := by
  rw [← of_relocate, ← of_relocate, h]

@[simp] theorem Happening.cues_relocate (h : Happening) : (h.relocate f).cues = h.cues := by
  cases h <;> rfl

theorem Happening.event?_relocate (h : Happening) : (h.relocate f).event? = h.event? := by
  cases h <;> rfl

theorem Recital.cues_relocate (r : Recital) : (r.relocate f).cues = r.cues := by
  simp [cues, relocate, List.flatMap_map]

theorem Recital.events_relocate (r : Recital) : (r.relocate f).events = r.events := by
  have hevent : Happening.event? ∘ Happening.relocate f = Happening.event? := by
    funext h
    exact h.event?_relocate f
  simp only [events, relocate, Array.toList_map, List.filterMap_map, hevent]

theorem Performance.voices_relocate (p : Performance) (settings : Settings) :
    ((p.relocate f).voices settings).mapError Fault.cause =
      (p.voices settings).mapError Fault.cause := by
  obtain ⟨recital, fault⟩ := p
  cases fault with
  | none => simp [voices, relocate, Recital.events_relocate]
  | some fault => rfl

/-! ## Tunes -/

mutual

theorem notes_relocate : ∀ s : Statement, (s.relocate f).notes = s.notes.map (Note.relocate f)
  | .tempo _ _ => rfl
  | .volume _ _ => rfl
  | .sequence _ _ body => blockNotes_relocate body
  | .repetition _ count body => by
    rw [Statement.relocate, Statement.notes, Statement.notes, blockNotes_relocate body]
    simp only [repeated, List.isEmpty_map]
    split
    · rfl
    · rw [List.map_flatten, List.map_replicate]
  | .note _ => rfl

theorem blockNotes_relocate : ∀ ss : List Statement,
    blockNotes (relocateBlock f ss) = (blockNotes ss).map (Note.relocate f)
  | [] => rfl
  | s :: ss => by
    rw [relocateBlock, blockNotes, blockNotes, notes_relocate s, blockNotes_relocate ss,
      List.map_append]

end

theorem bars_map {α β : Type} (g : α → β) (xs : List α) :
    bars (xs.map g) = (bars xs).map (List.map g) := by
  fun_induction bars xs with
  | case1 => simp [bars]
  | case2 x xs ih => simp [bars, ← List.map_take, ← List.map_drop, ih]

theorem Score.tune_relocate (score : Score) : (score.relocate f).tune = score.tune := by
  have hbpm : Statement.bpm? ∘ Statement.relocate f = Statement.bpm? := by
    funext s
    cases s <;> rfl
  have htempo : (score.relocate f).tuneTempo = score.tuneTempo := by
    simp only [tuneTempo, relocate, relocateBlock_eq_map, List.filterMap_map, hbpm]
  have hnotes : (score.relocate f).notes = score.notes.map (Note.relocate f) :=
    blockNotes_relocate f score.statements
  have hbar : barText ∘ List.map (Note.relocate f) = barText := by
    funext bar
    rw [Function.comp_apply, barText, List.map_map]
    rfl
  rw [tune, tune, htempo, hnotes, tuneBody, tuneBody, bars_map, List.map_map, hbar]

end Melody
