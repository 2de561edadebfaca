import Melody.Proofs.Sessions
import Melody.Proofs.Walks

/-!
# What settings and the first moment have no say in

Two players with any settings play a score from any two moments on. They fail alike, or play the
same tones in the same order; the moment only says when a tone sounds, and the settings only how.

* `Event.tone`, `Cue.untimed`: a tone and a cue, whenever they come;
* `Stage.event_move`: the tone of a note on a stage of another moment;
* `Walk.Parallel`: two walks along one trace that differ in their moments; `Walk.Parallel.step`,
  `Walk.Parallel.foldl`;
* `execute_parallel`: two performances of one score;
* `Voice.tone`, `Voice.colour`: what is played of a voice, and how it sounds;
* **`report_independent`**: what two reports on one score agree in.
-/

namespace Melody

open Sound (Event LowPass Settings Sweep Voice Wave)

/-- Frequency, duration and amplitude, whenever the tone sounds. -/
def Sound.Event.tone (e : Event) : Float × Float × Float := (e.frequency, e.duration, e.amplitude)

/-- The cue, whenever it is told. -/
def Cue.untimed : Cue → Cue
  | noteStart label _ => .noteStart label 0
  | noteEnd label _ => .noteEnd label 0
  | sequenceStart name _ => .sequenceStart name 0
  | sequenceEnd name _ => .sequenceEnd name 0

/-- On a stage of another moment a note has the same tone at that moment, or fails alike. -/
theorem Stage.event_move (stage : Stage) (n : Note) (time : Float) :
    { stage with cursor := time }.event n =
      (stage.event n).map fun e => { e with start := time } := by
  unfold Stage.event
  cases Sound.baseFrequency? n.spelling with
  | none => rfl
  | some base =>
    cases Sound.frequency? n.spelling n.octave with
    | none => rfl
    | some frequency => cases beats? n.length <;> rfl

/-! ## Two walks along one trace -/

namespace Walk

variable {settings settings' : Settings} {w w' : Walk}

/-- Two walks have come equally far on one trace, and have told the same at moments of their own. -/
structure Parallel (w w' : Walk) : Prop where
  taken : w.taken = w'.taken
  events : w.voices.map (·.event.tone) = w'.voices.map (·.event.tone)
  cues : w.cues.map Cue.untimed = w'.cues.map Cue.untimed
  fault : w.fault = w'.fault

theorem parallel_start (now now' : Float) : (start now).Parallel (start now') :=
  ⟨rfl, rfl, rfl, rfl⟩

theorem Parallel.stage (h : w.Parallel w') : w'.stage = { w.stage with cursor := w'.cursor } := by
  unfold Walk.stage
  rw [h.taken]

theorem Parallel.pass (h : w.Parallel w') (s : Step) : (w.pass s).Parallel (w'.pass s) :=
  ⟨congrArg (· ++ [s]) h.taken, h.events, h.cues, h.fault⟩

theorem Parallel.stop (h : w.Parallel w') (pos : Position) (cause : SemanticCause) :
    (w.stop pos cause).Parallel (w'.stop pos cause) :=
  ⟨h.taken, h.events, h.cues, rfl⟩

theorem Parallel.tell (h : w.Parallel w') {cues cues' : List Cue}
    (hcues : cues.map Cue.untimed = cues'.map Cue.untimed) :
    { w with cues := w.cues ++ cues }.Parallel { w' with cues := w'.cues ++ cues' } :=
  ⟨h.taken, h.events, by rw [List.map_append, List.map_append, h.cues, hcues], h.fault⟩

theorem Parallel.sound (h : w.Parallel w') (n : Note) (event : Event) (time : Float) :
    (w.sound settings n event).Parallel (w'.sound settings' n { event with start := time }) where
  taken := congrArg (· ++ [Step.note n]) h.taken
  events := by
    rw [Walk.sound, Walk.sound, List.map_append, List.map_append, h.events]
    rfl
  cues := by
    rw [Walk.sound, Walk.sound, List.map_append, List.map_append, h.cues]
    rfl
  fault := h.fault

/-- **One step keeps walks parallel**, whatever the settings of each. -/
theorem Parallel.step (h : w.Parallel w') (s : Step) :
    (w.step settings s).Parallel (w'.step settings' s) := by
  cases s with
  | tempo pos bpm =>
    rw [Walk.step, Walk.step]
    by_cases hbpm : bpm = 0
    · rw [if_pos hbpm, if_pos hbpm]
      exact h.stop pos _
    · rw [if_neg hbpm, if_neg hbpm]
      exact h.pass _
  | volume pos percent =>
    rw [Walk.step, Walk.step]
    by_cases hpercent : 100 < percent
    · rw [if_pos hpercent, if_pos hpercent]
      exact h.stop pos _
    · rw [if_neg hpercent, if_neg hpercent]
      exact h.pass _
  | enter name => exact (h.pass (.enter name)).tell rfl
  | leave name => exact (h.pass (.leave name)).tell rfl
  | note n =>
    have hevent := w.stage.event_move n w'.cursor
    rw [← h.stage] at hevent
    rw [Walk.step, Walk.step, hevent]
    cases w.stage.event n with
    | error cause => exact h.stop n.pos cause
    | ok event => exact h.sound n event w'.cursor

theorem Parallel.take (h : w.Parallel w') (s : Step) :
    (w.take settings s).Parallel (w'.take settings' s) :=
  take_rel h h.fault (h.step s)

theorem Parallel.foldl (h : w.Parallel w') (settings settings' : Settings) (trace : List Step) :
    (trace.foldl (Walk.take settings) w).Parallel (trace.foldl (Walk.take settings') w') :=
  List.foldl_rel h fun s _ _ _ h => h.take s

end Walk

/-! ## Two performances of one score -/

theorem Tracks.events {settings : Settings} {r : Recital} {w : Walk} (h : Tracks settings r w) :
    r.events = w.voices.map (·.event) := by
  rw [← h.voices, List.map_map]
  exact (List.map_id _).symm

/-- **Two performances of one score** differ in their moments only. -/
theorem execute_parallel (player player' : Player) (score : Score) (now now' : Float) :
    let p := (player.execute score now).1
    let p' := (player'.execute score now').1
    p.fault = p'.fault ∧
      p.recital.events.map Event.tone = p'.recital.events.map Event.tone ∧
      p.recital.cues.map Cue.untimed = p'.recital.cues.map Cue.untimed ∧
      p.recital.stage.tempo = p'.recital.stage.tempo ∧
      p.recital.stage.volume = p'.recital.stage.volume := by
  intro p p'
  have hparallel := (Walk.parallel_start now now').foldl player.settings player'.settings
    (unrollBlock score.statements)
  obtain ⟨htracks, hfault⟩ := tracks_execute player score now
  obtain ⟨htracks', hfault'⟩ := tracks_execute player' score now'
  refine ⟨?_, ?_, ?_, ?_, ?_⟩
  · exact hfault.trans (hparallel.fault.trans hfault'.symm)
  · rw [htracks.events, htracks'.events, List.map_map, List.map_map]
    exact hparallel.events
  · rw [htracks.cues, htracks'.cues]
    exact hparallel.cues
  · rw [htracks.stage, htracks'.stage]
    exact congrArg tempoAfter hparallel.taken
  · rw [htracks.stage, htracks'.stage]
    exact congrArg volumeAfter hparallel.taken

/-- What is played of a voice: its frequency, duration, amplitude and label. -/
def Sound.Voice.tone (v : Voice) : Float × Float × Float × String :=
  (v.event.frequency, v.event.duration, v.event.amplitude, v.event.label)

/-- How a voice sounds: its wave, its filter and the gains of its envelope. -/
def Sound.Voice.colour (v : Voice) : Wave × Option Sweep × List Float :=
  (v.wave, v.sweep, v.contour.toList.map (·.gain))

theorem Performance.map_voices_congr {α : Type} {p p' : Performance} {settings settings' : Settings}
    {f : Voice → α} {g : Event → α} (hf : ∀ e, f (settings.voice e) = g e)
    (hf' : ∀ e, f (settings'.voice e) = g e) (hfault : p.fault = p'.fault)
    (hevents : p.recital.events.map g = p'.recital.events.map g) :
    (p.voices settings).map (List.map f) = (p'.voices settings').map (List.map f) := by
  have hmap : ∀ {s : Settings}, (∀ e, f (s.voice e) = g e) → ∀ es : List Event,
      (es.map s.voice).map f = es.map g := by
    intro s hs es
    rw [List.map_map]
    exact List.map_congr_left fun e _ => hs e
  unfold Performance.voices
  rw [← hfault]
  cases p.fault with
  | some fault => rfl
  | none =>
    simp only [Except.map]
    rw [hmap hf, hmap hf', hevents]

theorem map_congr_tone {α : Type} {es es' : List Event} {g : Event → α}
    {k : Float × Float × Float → α} (hg : ∀ e, g e = k e.tone)
    (h : es.map Event.tone = es'.map Event.tone) : es.map g = es'.map g := by
  have hmap : ∀ es : List Event, es.map g = (es.map Event.tone).map k := by
    intro es
    rw [List.map_map]
    exact List.map_congr_left fun e _ => hg e
  rw [hmap es, h, hmap es']

theorem Sound.Settings.colour_voice (s : Settings) (e : Event) : (s.voice e).colour =
    (s.wave, s.filter.map LowPass.sweep, [0, e.amplitude,
      e.amplitude * (s.envelope.fit e.duration).sustain,
      e.amplitude * (s.envelope.fit e.duration).sustain, 0]) := rfl

/-- **Settings and the first moment have no say in what is played.** Two players report the same
fault of a score, or voices with the same tones; they tell the same cues in the same order, and
leave the same tempo and loudness. Voices and cues come at the same moments if the first moment is
the same, and voices sound alike if the settings are. -/
theorem report_independent (player player' : Player) (score : Score) (now now' : Float) :
    let r := player.report score now
    let r' := player'.report score now'
    r.outcome.map (List.map Voice.tone) = r'.outcome.map (List.map Voice.tone) ∧
      r.cues.map Cue.untimed = r'.cues.map Cue.untimed ∧
      r.stage.tempo = r'.stage.tempo ∧ r.stage.volume = r'.stage.volume ∧
      (now = now' →
        r.outcome.map (List.map (·.event.start)) = r'.outcome.map (List.map (·.event.start)) ∧
          r.cues = r'.cues ∧ r.stage.cursor = r'.stage.cursor) ∧
      (player.settings = player'.settings →
        r.outcome.map (List.map Voice.colour) = r'.outcome.map (List.map Voice.colour)) := by
  intro r r'
  obtain ⟨hfault, hevents, hcues, htempo, hvolume⟩ := execute_parallel player player' score now now'
  refine ⟨?_, hcues, htempo, hvolume, ?_, ?_⟩
  · have htones := map_congr_tone
      (g := fun e => (e.frequency, e.duration, e.amplitude, e.label))
      (k := fun t => (t.1, t.2.1, t.2.2, Decimal.fixed 2 t.1 ++ " Hz")) (fun _ => rfl) hevents
    exact Performance.map_voices_congr (fun _ => rfl) (fun _ => rfl) hfault htones
  · rintro rfl
    exact ⟨Performance.map_voices_congr (g := Event.start) (fun _ => rfl) (fun _ => rfl) rfl rfl,
      rfl, rfl⟩
  · intro hsettings
    refine Performance.map_voices_congr (player.settings.colour_voice) (fun e => ?_) hfault
      (map_congr_tone (k := fun t => (_, _, [0, t.2.2,
        t.2.2 * (player.settings.envelope.fit t.2.1).sustain,
        t.2.2 * (player.settings.envelope.fit t.2.1).sustain, 0])) (fun _ => rfl) hevents)
    rw [← hsettings, Settings.colour_voice]

/-- A short score for a triangle with a filter and for a sine without one, at the same moments; and
for the triangle from two moments on, with the same sound. -/
theorem report_independent_short :
    let plain : Settings := { Settings.standard with wave := .sine, filter := none }
    let r := (Player.new .standard).report .short 0
    r.outcome.map (List.map (·.event.start)) =
        ((Player.new plain).report .short 0).outcome.map (List.map (·.event.start)) ∧
      r.outcome.map (List.map Voice.colour) =
        ((Player.new .standard).report .short 2.5).outcome.map (List.map Voice.colour) := by
  intro plain r
  obtain ⟨-, -, -, -, hmoments, -⟩ :=
    report_independent (.new .standard) (.new plain) .short 0 0
  obtain ⟨-, -, -, -, -, hcolour⟩ :=
    report_independent (.new .standard) (.new .standard) .short 0 2.5
  exact ⟨(hmoments rfl).1, hcolour rfl⟩

end Melody
