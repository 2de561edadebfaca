import Melody.Proofs.Trace

/-!
# Walks to the end

A score that is played without a fault is walked along its whole trace. What one step of such a walk
does is said once, for each kind of step; what every step preserves holds at the end of the walk.

* `Stage.event_eq_ok_iff`: the tone of a note, and when it has one;
* `Walk.Goes`: a step that is taken, and where it leads; `Walk.goes_step`;
* `Walk.foldl_cons_of_fault`, `Walk.foldl_induction`: the first step of a walk to the end, and what
  all its steps preserve;
* **`exists_walk`**: the voices, cues and stage of a performance are those of a walk to the end;
* `Score.short`: a score that can be played.
-/

namespace Melody

open Sound (Event Settings Voice frequency?)

theorem frequency?_eq_some {s : Spelling} {octave : UInt32} {frequency : Float}
    (h : frequency? s octave = some frequency) : ∃ base, Sound.baseFrequency? s = some base := by
  unfold frequency? at h
  cases hbase : Sound.baseFrequency? s with
  | none =>
    rw [hbase] at h
    cases h
  | some base => exact ⟨base, rfl⟩

/-- A note has a tone iff its pitch has a frequency and its length has beats. -/
theorem Stage.event_eq_ok_iff {stage : Stage} {n : Note} {event : Event} :
    stage.event n = .ok event ↔ ∃ frequency beats,
      frequency? n.spelling n.octave = some frequency ∧ beats? n.length = some beats ∧
        event = ⟨frequency, stage.cursor, beats * 60 / stage.tempo.toFloat,
          stage.volume.toFloat / 100⟩ := by
  unfold Stage.event
  constructor
  · intro h
    split at h
    · cases h
    · split at h
      · cases h
      · rename_i frequency hfrequency
        split at h
        · cases h
        · rename_i beats hbeats
          exact ⟨frequency, beats, hfrequency, hbeats, (Except.ok.inj h).symm⟩
  · rintro ⟨frequency, beats, hfrequency, hbeats, rfl⟩
    obtain ⟨base, hbase⟩ := frequency?_eq_some hfrequency
    simp [hbase, hfrequency, hbeats]

namespace Walk

/-! ## Steps that are taken -/

/-- The note `n` is played as `event`. -/
def sound (settings : Settings) (w : Walk) (n : Note) (event : Event) : Walk :=
  { w.pass (.note n) with
    cursor := w.cursor + event.duration
    voices := w.voices ++ [settings.voice event]
    cues := w.cues ++ [.noteStart event.label event.start, .noteEnd event.label event.stop] }

/-- A walk that has not ended takes a step, and where it gets to. -/
inductive Goes (settings : Settings) (w : Walk) : Step → Walk → Prop
  | tempo {pos : Position} {bpm : UInt32} (h : bpm ≠ 0) :
    Goes settings w (.tempo pos bpm) (w.pass (.tempo pos bpm))
  | volume {pos : Position} {percent : UInt32} (h : ¬ 100 < percent) :
    Goes settings w (.volume pos percent) (w.pass (.volume pos percent))
  | enter {name : String} : Goes settings w (.enter name)
      { w.pass (.enter name) with cues := w.cues ++ [.sequenceStart name w.cursor] }
  | leave {name : String} : Goes settings w (.leave name)
      { w.pass (.leave name) with cues := w.cues ++ [.sequenceEnd name w.cursor] }
  | note {n : Note} {event : Event} (h : w.stage.event n = .ok event) :
    Goes settings w (.note n) (w.sound settings n event)

variable {settings : Settings} {w : Walk} {s : Step} {trace : List Step}

theorem goes_step (h : (w.step settings s).fault = none) :
    w.Goes settings s (w.step settings s) := by
  cases s with
  | tempo pos bpm =>
    rw [step] at h ⊢
    by_cases hbpm : bpm = 0
    · rw [if_pos hbpm] at h
      cases h
    · rw [if_neg hbpm]
      exact .tempo hbpm
  | volume pos percent =>
    rw [step] at h ⊢
    by_cases hpercent : 100 < percent
    · rw [if_pos hpercent] at h
      cases h
    · rw [if_neg hpercent]
      exact .volume hpercent
  | enter name => exact .enter
  | leave name => exact .leave
  | note n =>
    cases hevent : w.stage.event n with
    | error cause =>
      rw [step, hevent] at h
      cases h
    | ok event =>
      rw [step, hevent]
      exact .note hevent

theorem Goes.taken {w' : Walk} (h : w.Goes settings s w') : w'.taken = w.taken ++ [s] := by
  cases h <;> rfl

theorem fault_eq_none_of_foldl (h : (trace.foldl (take settings) w).fault = none) :
    w.fault = none := by
  cases hw : w.fault with
  | none => rfl
  | some fault =>
    rw [foldl_take_of_fault hw, hw] at h
    exact h

theorem foldl_cons_of_fault (h : ((s :: trace).foldl (take settings) w).fault = none) :
    ∃ w', w.Goes settings s w' ∧
      (s :: trace).foldl (take settings) w = trace.foldl (take settings) w' := by
  have hw := fault_eq_none_of_foldl h
  rw [List.foldl_cons, take_of_none hw] at h
  rw [List.foldl_cons, take_of_none hw]
  exact ⟨_, goes_step (fault_eq_none_of_foldl h), rfl⟩

/-- **What every step preserves** holds at the end of a walk. -/
theorem foldl_induction {P : Walk → Prop} (hstep : ∀ w s w', w.Goes settings s w' → P w → P w')
    (h : (trace.foldl (take settings) w).fault = none) (hw : P w) :
    P (trace.foldl (take settings) w) := by
  induction trace generalizing w with
  | nil => exact hw
  | cons s trace ih =>
    obtain ⟨w', hgoes, hfoldl⟩ := foldl_cons_of_fault h
    rw [hfoldl] at h ⊢
    exact ih h (hstep w s w' hgoes hw)

end Walk

/-- **A score that is played without a fault** is walked along to the end of its trace. -/
theorem exists_walk {player : Player} {score : Score} {now : Float} {voices : List Voice}
    (h : (player.execute score now).1.voices player.settings = .ok voices) :
    ∃ w : Walk, (unrollBlock score.statements).foldl (Walk.take player.settings) (.start now) = w ∧
      w.fault = none ∧ w.taken = unrollBlock score.statements ∧ w.voices = voices ∧
      w.cues = (player.execute score now).1.recital.cues ∧
      w.stage = (player.execute score now).2.stage := by
  obtain ⟨htracks, -⟩ := tracks_execute player score now
  have htaken := Walk.taken_foldl player.settings (.start now) (unrollBlock score.statements)
  rw [voices_execute] at h
  obtain ⟨hfault, hvoices⟩ := Walk.outcome_eq_ok_iff.mp h
  exact ⟨_, rfl, hfault, htaken.2 hfault, hvoices, htracks.cues.symm, htracks.stage.symm⟩

theorem exists_voices_of_fault {performance : Performance} (settings : Settings)
    (h : performance.fault = none) : ∃ voices, performance.voices settings = .ok voices := by
  rw [Performance.voices, h]
  exact ⟨_, rfl⟩

/-- A score with every kind of block: it sets a tempo, has a note in a sequence, and repeats one. -/
def Score.short : Score :=
  ⟨[.tempo .start 60, .sequence .start "a" [.note ⟨.start, ⟨.c, .natural⟩, 4, "1/4"⟩],
    .repetition .start 2 [.note ⟨.start, ⟨.a, .natural⟩, 4, "1/8"⟩]]⟩

theorem exists_voices_short : ∃ voices,
    ((Player.new .standard).execute .short 0).1.voices (Player.new .standard).settings =
      .ok voices :=
  exists_voices_of_fault _ (by decide +kernel)

end Melody
