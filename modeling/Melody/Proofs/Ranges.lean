import Melody.Proofs.Binary64.Arithmetic
import Melody.Proofs.Brackets
import Melody.Proofs.Sessions

/-!
# Tempo and loudness stay in range

The statements of a score may ask for any tempo and any loudness. A player takes a tempo only if it
is not zero and a loudness only if it is at most a hundred, so that no score and no session of
scores leads it to a stage on which a note has no duration or is too loud, whether the scores are
played to their end or not.

* `Stage.InRange`, `Happening.InRange`, `Event.InRange`: stages that notes can be played on, what
  happens on them, and the tones that notes have there;
* `Recital.Keeps`: what all that can happen in a performance preserves; `Recital.Keeps.playBlock`:
  it is preserved by a whole performance, also by one that a fault ends;
* `keeps_inRange`, `Player.inRange_after`: performances and sessions stay in range;
* **`session_in_range`**: the stages that a player can get to are those in range, and all that it
  plays has been computed on such stages.
-/

namespace Melody

open Sound (Event Settings Voice)

/-- The tempo is not zero, and the loudness is at most full. -/
structure Stage.InRange (stage : Stage) : Prop where
  tempo : 1 ≤ stage.tempo
  volume : stage.volume ≤ 100

/-- The tempo or loudness that is set is in range, or the note is played on a stage in range. -/
def Happening.InRange : Happening → Prop
  | tempo bpm _ => 1 ≤ bpm
  | volume percent _ => percent ≤ 100
  | sequenceStart _ _ => True
  | sequenceEnd _ _ => True
  | note n event => ∃ stage : Stage, stage.InRange ∧ stage.event n = .ok event

/-- A tone of four beats, two, one, half a beat or a quarter, at a tempo that is not zero, and with
the amplitude of a whole number of percents. -/
def Sound.Event.InRange (e : Event) : Prop :=
  ∃ stage : Stage, stage.InRange ∧ 0 < stage.tempo.toFloat ∧
    (∃ beats ∈ [4, 2, 1, 0.5, 0.25], e.duration = beats * 60 / stage.tempo.toFloat) ∧
    e.amplitude = stage.volume.toFloat / 100

theorem Stage.inRange_opening (now : Float) : (opening now).InRange where
  tempo := (by decide : 1 ≤ standardTempo)
  volume := (by decide : standardVolume ≤ 100)

theorem mem_of_beats? {text : String} {beats : Float} (h : beats? text = some beats) :
    beats ∈ [4, 2, 1, 0.5, 0.25] := by
  unfold beats? at h
  split at h <;> cases h <;> simp

theorem one_le_iff_ne_zero {n : UInt32} : 1 ≤ n ↔ n ≠ 0 := by
  rw [UInt32.le_iff_toNat_le, ne_eq, ← UInt32.toNat_inj]
  exact Nat.one_le_iff_ne_zero

/-- **A note that is played on a stage in range has a tone in range.** -/
theorem Stage.InRange.event {stage : Stage} {n : Note} {event : Event} (h : stage.InRange)
    (hevent : stage.event n = .ok event) : event.InRange := by
  obtain ⟨frequency, beats, -, hbeats, rfl⟩ := Stage.event_eq_ok_iff.mp hevent
  exact ⟨stage, h, Binary64.toFloat_pos (one_le_iff_ne_zero.mp h.tempo),
    ⟨beats, mem_of_beats? hbeats, rfl⟩, rfl⟩

/-! ## What a performance preserves -/

namespace Recital

/-- Whatever can happen in a performance preserves `P`. -/
structure Keeps (P : Recital → Prop) : Prop where
  tempo : ∀ r bpm, bpm ≠ 0 → P r → P (r.setTempo bpm)
  volume : ∀ r percent, ¬ 100 < percent → P r → P (r.setVolume percent)
  enter : ∀ r name, P r → P (r.enter name)
  leave : ∀ r name, P r → P (r.leave name)
  sound : ∀ r n event, r.stage.event n = .ok event → P r → P (r.sound n event)

/-- What has happened in a part of a performance, whether it came to its end or not. -/
def left : EStateM.Result Fault Recital Unit → Recital
  | .ok _ r => r
  | .error _ r => r

variable {P : Recital → Prop}

theorem left_times {part : Play} (h : ∀ r, P r → P (left (part r))) (n : Nat) :
    ∀ r, P r → P (left (part.times n r)) := by
  induction n with
  | zero => exact fun r hr => hr
  | succ n ih =>
    intro r hr
    have hfirst := h r hr
    unfold Play.times
    cases hpart : part r with
    | ok _ r' =>
      rw [hpart] at hfirst
      exact ih r' hfirst
    | error fault r' =>
      rw [hpart] at hfirst
      exact hfirst

mutual

theorem Keeps.play (h : Keeps P) : ∀ (s : Statement) (r : Recital), P r → P (left (s.play r))
  | .tempo pos bpm, r, hr => by
    rw [Statement.play]
    split_ifs with hbpm
    · exact hr
    · exact h.tempo r bpm hbpm hr
  | .volume pos percent, r, hr => by
    rw [Statement.play]
    split_ifs with hpercent
    · exact hr
    · exact h.volume r percent hpercent hr
  | .sequence pos name body, r, hr => by
    have hbody := h.playBlock body (r.enter name) (h.enter r name hr)
    rw [Statement.play]
    cases hplay : Melody.playBlock body (r.enter name) with
    | ok _ r' =>
      rw [hplay] at hbody
      exact h.leave r' name hbody
    | error fault r' =>
      rw [hplay] at hbody
      exact hbody
  | .repetition pos count body, r, hr => by
    rw [Statement.play]
    exact left_times (h.playBlock body) count.toNat r hr
  | .note n, r, hr => by
    rw [Statement.play]
    cases hevent : r.stage.event n with
    | ok event => exact h.sound r n event hevent hr
    | error cause => exact hr

/-- **What everything that happens preserves** is preserved by a whole performance, wherever it
ends. -/
theorem Keeps.playBlock (h : Keeps P) :
    ∀ (ss : List Statement) (r : Recital), P r → P (left (Melody.playBlock ss r))
  | [], r, hr => hr
  | s :: ss, r, hr => by
    have hs := h.play s r hr
    rw [Melody.playBlock]
    cases hplay : s.play r with
    | ok _ r' =>
      rw [hplay] at hs
      exact h.playBlock ss r' hs
    | error fault r' =>
      rw [hplay] at hs
      exact hs

end

theorem Keeps.performance (h : Keeps P) (score : Score) (now : Float) (hstart : P (.opening now)) :
    P (Performance.of score now).recital := by
  have hend := h.playBlock score.statements (.opening now) hstart
  unfold Performance.of
  cases hplay : Melody.playBlock score.statements (.opening now) with
  | ok _ r =>
    rw [hplay] at hend
    exact hend
  | error fault r =>
    rw [hplay] at hend
    exact hend

/-! ## Performances and sessions stay in range -/

/-- The stage is in range, and so is all that has happened. -/
structure InRange (r : Recital) : Prop where
  stage : r.stage.InRange
  happenings : ∀ happening ∈ r.happenings.toList, happening.InRange

theorem inRange_opening (now : Float) : (opening now).InRange where
  stage := Stage.inRange_opening now
  happenings := nofun

theorem InRange.push {r : Recital} (h : r.InRange) {stage : Stage} {happening : Happening}
    (hstage : stage.InRange) (hhappening : happening.InRange) :
    InRange ⟨stage, r.happenings.push happening⟩ where
  stage := hstage
  happenings := by
    rw [Array.toList_push, List.forall_mem_append, List.forall_mem_singleton]
    exact ⟨h.happenings, hhappening⟩

theorem keeps_inRange : Keeps InRange where
  tempo _ _ hbpm h :=
    h.push ⟨one_le_iff_ne_zero.mpr hbpm, h.stage.volume⟩ (one_le_iff_ne_zero.mpr hbpm)
  volume _ _ hpercent h :=
    h.push ⟨h.stage.tempo, UInt32.not_lt.mp hpercent⟩ (UInt32.not_lt.mp hpercent)
  enter _ _ h := h.push h.stage trivial
  leave _ _ h := h.push h.stage trivial
  sound _ _ _ hevent h := h.push ⟨h.stage.tempo, h.stage.volume⟩ ⟨_, h.stage, hevent⟩

end Recital

theorem Performance.inRange_of (score : Score) (now : Float) : (of score now).recital.InRange :=
  Recital.keeps_inRange.performance score now (Recital.inRange_opening now)

namespace Player

theorem inRange_serve {p : Player} (h : p.stage.InRange) (request : Request) :
    (p.serve request).stage.InRange := by
  cases request with
  | adjust change => exact h
  | execute score now => exact (Performance.inRange_of score now).stage

theorem inRange_after {p : Player} (h : p.stage.InRange) (requests : List Request) :
    (p.after requests).stage.InRange := by
  induction requests generalizing p with
  | nil => exact h
  | cons request requests ih => exact ih (inRange_serve h request)

/-- Every stage in range is left by a score that sets its tempo and its loudness. -/
theorem exists_after_of_inRange (p : Player) {stage : Stage} (h : stage.InRange) :
    ∃ requests, (p.after requests).stage = stage := by
  have hbpm := one_le_iff_ne_zero.mp h.tempo
  have hpercent := UInt32.not_lt.mpr h.volume
  refine ⟨[.execute ⟨[.tempo .start stage.tempo, .volume .start stage.volume]⟩ stage.cursor], ?_⟩
  simp [after, serve, execute, Performance.of, playBlock, Statement.play, hbpm, hpercent,
    Recital.opening, Recital.setTempo, Recital.setVolume, Stage.opening]

end Player

theorem Recital.InRange.event {r : Recital} (h : r.InRange) {event : Event}
    (hevent : event ∈ r.events) : event.InRange := by
  obtain ⟨happening, hmem, hsome⟩ := List.mem_filterMap.mp hevent
  cases happening with
  | note n event' =>
    cases hsome
    obtain ⟨stage, hstage, hevent⟩ := h.happenings _ hmem
    exact hstage.event hevent
  | tempo | volume | sequenceStart | sequenceEnd => cases hsome

theorem Happening.filter_cues (happening : Happening) (settings : Settings) :
    happening.cues.filter Cue.isNote =
      (happening.event?.toList.map settings.voice).flatMap Voice.cues := by
  cases happening <;> rfl

/-- **The notes that a listener is told of** are the tones that are played, each with its start and
its end, whether the performance came to its end or not. -/
theorem Recital.filter_cues (r : Recital) (settings : Settings) :
    r.cues.filter Cue.isNote = (r.events.map settings.voice).flatMap Voice.cues := by
  unfold Recital.cues Recital.events
  induction r.happenings.toList with
  | nil => rfl
  | cons happening happenings ih =>
    have hhead := happening.filter_cues settings
    rw [List.flatMap_cons, List.filter_append, ih, hhead, List.filterMap_cons]
    cases happening.event? <;> rfl

/-- **Tempo and loudness stay in range** in every session of a player, whatever the scores and
whether they are played to their end or not. The stages that a player can be left on are those in
range and no others. All that happens in a performance is in range, and each tone that is returned
as a voice or told to a listener has been computed at a tempo and a loudness in range. -/
theorem session_in_range (settings : Settings) :
    (∀ stage, (∃ requests, ((Player.new settings).after requests).stage = stage) ↔
      stage.InRange) ∧
    ∀ requests score now,
      let player := (Player.new settings).after requests
      let performance := (player.execute score now).1
      let voices := performance.recital.events.map player.settings.voice
      (∀ happening ∈ performance.recital.happenings.toList, happening.InRange) ∧
        (∀ v ∈ voices, v.event.InRange) ∧
        (∀ returned, performance.voices player.settings = .ok returned → returned = voices) ∧
        performance.recital.cues.filter Cue.isNote = voices.flatMap Voice.cues := by
  refine ⟨fun stage => ⟨?_, Player.exists_after_of_inRange _⟩, ?_⟩
  · rintro ⟨requests, rfl⟩
    exact Player.inRange_after (Stage.inRange_opening 0) requests
  · intro requests score now player performance voices
    have hrange := Performance.inRange_of score now
    refine ⟨hrange.happenings, ?_, fun returned hreturned => ?_,
      performance.recital.filter_cues player.settings⟩
    · intro v hv
      obtain ⟨event, hevent, rfl⟩ := List.mem_map.mp hv
      exact hrange.event hevent
    · rw [Performance.voices] at hreturned
      split at hreturned
      · cases hreturned
      · exact (Except.ok.inj hreturned).symm

/-- A score that sets the lowest tempo and fails in the first round of a repetition, behind its
first note. -/
theorem session_in_range_failing :
    let score : Score := ⟨[.sequence .start "a" [.tempo .start 1, .repetition .start 2
      [.note ⟨.start, ⟨.c, .natural⟩, 4, "1/16"⟩, .volume .start 101]]]⟩
    let player := (Player.new .standard).after [.adjust ({ · with wave := .sine }),
      .execute score 0]
    player.stage.tempo = 1 ∧ player.stage.InRange ∧
      ∃ v, (player.execute score 0).1.recital.events.map player.settings.voice = [v] ∧
        v.event.InRange := by
  intro score player
  obtain ⟨hstages, hplayed⟩ := session_in_range .standard
  obtain ⟨-, hvoices, -⟩ := hplayed [.adjust ({ · with wave := .sine }), .execute score 0] score 0
  have hlength : ((player.execute score 0).1.recital.events.map player.settings.voice).length = 1 :=
    by decide +kernel
  obtain ⟨v, hv⟩ := List.length_eq_one_iff.mp hlength
  refine ⟨by decide +kernel, (hstages _).mp ⟨_, rfl⟩, v, hv, hvoices v ?_⟩
  rw [hv]
  exact List.mem_singleton_self v

end Melody
