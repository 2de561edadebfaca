import Melody.Proofs.Independence
import Melody.Proofs.Relocation

/-!
# Tempo and loudness are independent controls

Two scores that differ in their loudnesses only are played at the same moments, with the same
tones; two that differ in their tempos only are played with the same loudness. Neither control
leaves a trace in what the other one decides.

* `Statement.view`, `blockView`: what is seen of statements when tempos or loudnesses are not;
  `unrollBlock_view`;
* `Score.SameButVolumes`, `Score.SameButTempos`: scores that differ in one control only;
* `Walk.GoesBoth`, `Walk.foldl_induction₂`: two walks that take a step each in which the same is
  seen, and what every such pair of steps preserves;
* `Sound.Voice.timing`, `Sound.Voice.loudness`: what of a voice belongs to which control;
* `Walk.InTime`, `Walk.InTune`: two walks that agree so far in what one control decides;
* **`controls_independent`**: what the performances of two such scores agree in.
-/

namespace Melody

open Sound (Event LowPass Settings Sweep Voice Wave)

section View

variable (tempo volume : UInt32 → UInt32)

/-- The note, wherever it stands. -/
def Note.unplaced (n : Note) : Note := n.relocate fun _ => .start

mutual

/-- The statement, wherever it stands, with what is seen of its tempos and loudnesses. -/
def Statement.view : Statement → Statement
  | .tempo _ bpm => .tempo .start (tempo bpm)
  | .volume _ percent => .volume .start (volume percent)
  | .sequence _ name body => .sequence .start name (blockView body)
  | .repetition _ count body => .repetition .start count (blockView body)
  | .note n => .note n.unplaced

/-- The statements of a block, wherever they stand, with what is seen of them. -/
def blockView : List Statement → List Statement
  | [] => []
  | s :: ss => s.view :: blockView ss

end

/-- What is seen of a step. -/
def Step.view : Step → Step
  | .tempo _ bpm => .tempo .start (tempo bpm)
  | .volume _ percent => .volume .start (volume percent)
  | .enter name => .enter name
  | .leave name => .leave name
  | .note n => .note n.unplaced

mutual

theorem unroll_view : ∀ s : Statement,
    (s.view tempo volume).unroll = s.unroll.map (Step.view tempo volume)
  | .tempo _ _ | .volume _ _ | .note _ => rfl
  | .sequence _ name body => by
    simp only [Statement.view, Statement.unroll, unrollBlock_view body, List.map_cons,
      List.map_append, List.map_nil]
    rfl
  | .repetition _ count body => by
    rw [Statement.view, Statement.unroll, Statement.unroll, unrollBlock_view body,
      List.map_flatten, List.map_replicate]

theorem unrollBlock_view : ∀ ss : List Statement,
    unrollBlock (blockView tempo volume ss) = (unrollBlock ss).map (Step.view tempo volume)
  | [] => rfl
  | s :: ss => by
    rw [blockView, unrollBlock, unrollBlock, unroll_view s, unrollBlock_view ss, List.map_append]

end

end View

/-- The scores are the same but for their loudnesses, wherever their statements stand. -/
def Score.SameButVolumes (score score' : Score) : Prop :=
  blockView id (fun _ => 0) score.statements = blockView id (fun _ => 0) score'.statements

/-- The scores are the same but for their tempos, wherever their statements stand. -/
def Score.SameButTempos (score score' : Score) : Prop :=
  blockView (fun _ => 0) id score.statements = blockView (fun _ => 0) id score'.statements

/-! ## Two walks to the end -/

namespace Walk

section Pairs

variable (tempo volume : UInt32 → UInt32) (settings : Settings)

/-- Two walks take a step each, in which the same is seen, and where they get to. -/
inductive GoesBoth (w w' : Walk) : Walk → Walk → Prop
  | tempo {pos pos' : Position} {bpm bpm' : UInt32} (h : tempo bpm = tempo bpm') :
    GoesBoth w w' (w.pass (.tempo pos bpm)) (w'.pass (.tempo pos' bpm'))
  | volume {pos pos' : Position} {percent percent' : UInt32}
      (h : volume percent = volume percent') :
    GoesBoth w w' (w.pass (.volume pos percent)) (w'.pass (.volume pos' percent'))
  | enter {name : String} : GoesBoth w w'
      { w.pass (.enter name) with cues := w.cues ++ [.sequenceStart name w.cursor] }
      { w'.pass (.enter name) with cues := w'.cues ++ [.sequenceStart name w'.cursor] }
  | leave {name : String} : GoesBoth w w'
      { w.pass (.leave name) with cues := w.cues ++ [.sequenceEnd name w.cursor] }
      { w'.pass (.leave name) with cues := w'.cues ++ [.sequenceEnd name w'.cursor] }
  | note {n n' : Note} {e e' : Event} (hn : n.unplaced = n'.unplaced)
      (he : w.stage.event n = .ok e) (he' : w'.stage.event n' = .ok e') :
    GoesBoth w w' (w.sound settings n e) (w'.sound settings n' e')

variable {tempo volume settings}
variable {w w' v v' : Walk} {s s' : Step} {trace trace' : List Step}

theorem Goes.both (hgoes : w.Goes settings s v) (hgoes' : w'.Goes settings s' v')
    (hview : s.view tempo volume = s'.view tempo volume) :
    GoesBoth tempo volume settings w w' v v' := by
  -- steps of two kinds are never seen as the same
  cases hgoes with
  | tempo =>
    cases hgoes' with
    | tempo => exact .tempo (by simpa [Step.view] using hview)
    | _ => cases hview
  | volume =>
    cases hgoes' with
    | volume => exact .volume (by simpa [Step.view] using hview)
    | _ => cases hview
  | enter =>
    cases hgoes' with
    | enter =>
      cases hview
      exact .enter
    | _ => cases hview
  | leave =>
    cases hgoes' with
    | leave =>
      cases hview
      exact .leave
    | _ => cases hview
  | note he =>
    cases hgoes' with
    | note he' => exact .note (by simpa [Step.view] using hview) he he'
    | _ => cases hview

/-- **What each pair of steps preserves** holds of two walks to the end along traces in which the
same is seen. -/
theorem foldl_induction₂ {R : Walk → Walk → Prop}
    (hstep : ∀ w w' v v', GoesBoth tempo volume settings w w' v v' → R w w' → R v v')
    (htrace : trace.map (Step.view tempo volume) = trace'.map (Step.view tempo volume))
    (h : (trace.foldl (take settings) w).fault = none)
    (h' : (trace'.foldl (take settings) w').fault = none) (hw : R w w') :
    R (trace.foldl (take settings) w) (trace'.foldl (take settings) w') := by
  induction trace generalizing trace' w w' with
  | nil =>
    obtain rfl := List.map_eq_nil_iff.mp htrace.symm
    exact hw
  | cons s trace ih =>
    obtain ⟨s', rest, rfl, hs, hrest⟩ := List.map_eq_cons_iff.mp htrace.symm
    obtain ⟨v, hgoes, hfoldl⟩ := foldl_cons_of_fault h
    obtain ⟨v', hgoes', hfoldl'⟩ := foldl_cons_of_fault h'
    rw [hfoldl] at h ⊢
    rw [hfoldl'] at h' ⊢
    exact ih hrest.symm h h' (hstep w w' v v' (hgoes.both hgoes' hs.symm) hw)

end Pairs

end Walk

/-! ## What belongs to which control -/

/-- The tones of one note on two stages have the same frequency; each of the other properties is the
same if the stages agree in what it depends on. -/
theorem Stage.event_of_unplaced {stage stage' : Stage} {n n' : Note} {e e' : Event}
    (hn : n.unplaced = n'.unplaced) (h : stage.event n = .ok e) (h' : stage'.event n' = .ok e') :
    e.frequency = e'.frequency ∧ (stage.cursor = stage'.cursor → e.start = e'.start) ∧
      (stage.tempo = stage'.tempo → e.duration = e'.duration) ∧
      (stage.volume = stage'.volume → e.amplitude = e'.amplitude) := by
  obtain ⟨frequency, beats, hfrequency, hbeats, rfl⟩ := Stage.event_eq_ok_iff.mp h
  obtain ⟨frequency', beats', hfrequency', hbeats', rfl⟩ := Stage.event_eq_ok_iff.mp h'
  obtain ⟨pos, spelling, octave, length⟩ := n
  obtain ⟨pos', spelling', octave', length'⟩ := n'
  obtain ⟨rfl, rfl, rfl⟩ : spelling = spelling' ∧ octave = octave' ∧ length = length' := by
    simpa [Note.unplaced, Note.relocate] using hn
  obtain rfl : frequency = frequency' := Option.some.inj (hfrequency.symm.trans hfrequency')
  obtain rfl : beats = beats' := Option.some.inj (hbeats.symm.trans hbeats')
  exact ⟨rfl, id, fun htempo => by rw [htempo], fun hvolume => by rw [hvolume]⟩

namespace Sound

/-- When a voice sounds, and its tone: all but how loud it is. -/
def Voice.timing (v : Voice) :
    Float × Float × Float × String × Wave × Option Sweep × List Float :=
  (v.event.start, v.event.duration, v.event.frequency, v.event.label, v.wave, v.sweep,
    v.contour.toList.map (·.time))

/-- How loud a voice is, and its tone: all but when it sounds. -/
def Voice.loudness (v : Voice) : Float × Float × String × Wave × Option Sweep × List Float :=
  (v.event.frequency, v.event.amplitude, v.event.label, v.wave, v.sweep,
    v.contour.toList.map (·.gain))

variable {e e' : Event}

theorem Settings.timing_voice (s : Settings) (hfrequency : e.frequency = e'.frequency)
    (hstart : e.start = e'.start) (hduration : e.duration = e'.duration) :
    (s.voice e).timing = (s.voice e').timing := by
  have htimes : ∀ e : Event, (s.voice e).contour.toList.map (·.time) =
      (s.envelope.contour e.start e.duration 0).toList.map (·.time) := fun e =>
    s.envelope.times_contour e.start e.duration e.amplitude 0
  unfold Voice.timing
  rw [htimes, htimes]
  simp only [Settings.voice, Event.label, hfrequency, hstart, hduration]

/-- Neither start nor duration has a part in the loudness: a short note has shorter phases, but the
same gains. -/
theorem Settings.loudness_voice (s : Settings) (hfrequency : e.frequency = e'.frequency)
    (hamplitude : e.amplitude = e'.amplitude) : (s.voice e).loudness = (s.voice e').loudness := by
  have hgains : ∀ e : Event, (s.voice e).contour.toList.map (·.gain) =
      [0, e.amplitude, e.amplitude * s.envelope.sustain, e.amplitude * s.envelope.sustain, 0] :=
    fun e => s.envelope.gains_contour e.start e.duration e.amplitude
  unfold Voice.loudness
  rw [hgains, hgains]
  simp only [Settings.voice, Event.label, hfrequency, hamplitude]

end Sound

namespace Walk

variable {settings : Settings} {w w' v v' : Walk}

/-- Two walks have told the same at the same moments, and played alike but for the loudness. -/
structure InTime (w w' : Walk) : Prop where
  tempo : w.stage.tempo = w'.stage.tempo
  cursor : w.cursor = w'.cursor
  voices : w.voices.map Voice.timing = w'.voices.map Voice.timing
  cues : w.cues = w'.cues

theorem InTime.pass (h : w.InTime w') (s s' : Step) (hbpm : s.bpm? = s'.bpm?) :
    (w.pass s).InTime (w'.pass s') where
  tempo := by rw [stage_pass_eq, stage_pass_eq, hbpm, h.tempo]
  cursor := h.cursor
  voices := h.voices
  cues := h.cues

theorem InTime.tell (h : w.InTime w') {cues cues' : List Cue} (hcues : cues = cues') :
    { w with cues := w.cues ++ cues }.InTime { w' with cues := w'.cues ++ cues' } :=
  ⟨h.tempo, h.cursor, h.voices, by rw [h.cues, hcues]⟩

theorem InTime.sound (h : w.InTime w') {n n' : Note} {e e' : Event}
    (hn : n.unplaced = n'.unplaced) (he : w.stage.event n = .ok e)
    (he' : w'.stage.event n' = .ok e') :
    (w.sound settings n e).InTime (w'.sound settings n' e') := by
  obtain ⟨hfrequency, hstart, hduration, -⟩ := Stage.event_of_unplaced hn he he'
  have hstart : e.start = e'.start := hstart h.cursor
  have hduration : e.duration = e'.duration := hduration h.tempo
  refine ⟨(h.pass (.note n) (.note n') rfl).tempo, ?_, ?_, ?_⟩
  · simp only [Walk.sound, h.cursor, hduration]
  · simp only [Walk.sound, List.map_append, List.map_cons, List.map_nil, h.voices,
      settings.timing_voice hfrequency hstart hduration]
  · simp only [Walk.sound, h.cues, Event.label, Event.stop, hfrequency, hstart, hduration]

theorem InTime.goes (hgoes : GoesBoth id (fun _ => 0) settings w w' v v') (h : w.InTime w') :
    v.InTime v' := by
  cases hgoes with
  | tempo hbpm => exact h.pass _ _ (congrArg some hbpm)
  | volume => exact h.pass _ _ rfl
  | enter => exact (h.pass _ _ rfl).tell (by rw [h.cursor])
  | leave => exact (h.pass _ _ rfl).tell (by rw [h.cursor])
  | note hn he he' => exact h.sound hn he he'

/-- Two walks have told the same, and played alike but for the moments. -/
structure InTune (w w' : Walk) : Prop where
  volume : w.stage.volume = w'.stage.volume
  voices : w.voices.map Voice.loudness = w'.voices.map Voice.loudness
  cues : w.cues.map Cue.untimed = w'.cues.map Cue.untimed

theorem InTune.pass (h : w.InTune w') (s s' : Step) (hpercent : s.percent? = s'.percent?) :
    (w.pass s).InTune (w'.pass s') where
  volume := by rw [stage_pass_eq, stage_pass_eq, hpercent, h.volume]
  voices := h.voices
  cues := h.cues

theorem InTune.tell (h : w.InTune w') {cues cues' : List Cue}
    (hcues : cues.map Cue.untimed = cues'.map Cue.untimed) :
    { w with cues := w.cues ++ cues }.InTune { w' with cues := w'.cues ++ cues' } :=
  ⟨h.volume, h.voices, by rw [List.map_append, List.map_append, h.cues, hcues]⟩

theorem InTune.sound (h : w.InTune w') {n n' : Note} {e e' : Event}
    (hn : n.unplaced = n'.unplaced) (he : w.stage.event n = .ok e)
    (he' : w'.stage.event n' = .ok e') :
    (w.sound settings n e).InTune (w'.sound settings n' e') := by
  obtain ⟨hfrequency, -, -, hamplitude⟩ := Stage.event_of_unplaced hn he he'
  have hamplitude : e.amplitude = e'.amplitude := hamplitude h.volume
  refine ⟨(h.pass (.note n) (.note n') rfl).volume, ?_, ?_⟩
  · simp only [Walk.sound, List.map_append, List.map_cons, List.map_nil, h.voices,
      settings.loudness_voice hfrequency hamplitude]
  · simp only [Walk.sound, List.map_append, List.map_cons, List.map_nil, h.cues, Cue.untimed,
      Event.label, hfrequency]

theorem InTune.goes (hgoes : GoesBoth (fun _ => 0) id settings w w' v v') (h : w.InTune w') :
    v.InTune v' := by
  cases hgoes with
  | tempo => exact h.pass _ _ rfl
  | volume hpercent => exact h.pass _ _ (congrArg some hpercent)
  | enter => exact (h.pass _ _ rfl).tell rfl
  | leave => exact (h.pass _ _ rfl).tell rfl
  | note hn he he' => exact h.sound hn he he'

end Walk

theorem exists_walks {R : Walk → Walk → Prop} {tempo volume : UInt32 → UInt32} {player : Player}
    {score score' : Score} {now : Float} {voices voices' : List Voice}
    (h : (player.report score now).outcome = .ok voices)
    (h' : (player.report score' now).outcome = .ok voices')
    (hsame : blockView tempo volume score.statements = blockView tempo volume score'.statements)
    (hstep : ∀ w w' v v', Walk.GoesBoth tempo volume player.settings w w' v v' → R w w' → R v v')
    (hstart : R (.start now) (.start now)) :
    ∃ w w' : Walk, R w w' ∧ w.voices = voices ∧ w'.voices = voices' ∧
      w.cues = (player.report score now).cues ∧ w'.cues = (player.report score' now).cues ∧
      w.stage = (player.report score now).stage ∧ w'.stage = (player.report score' now).stage := by
  obtain ⟨w, rfl, hfault, -, hvoices, hcues, hstage⟩ := exists_walk h
  obtain ⟨w', rfl, hfault', -, hvoices', hcues', hstage'⟩ := exists_walk h'
  have htrace := congrArg unrollBlock hsame
  rw [unrollBlock_view, unrollBlock_view] at htrace
  exact ⟨_, _, Walk.foldl_induction₂ hstep htrace hfault hfault' hstart, hvoices, hvoices',
    hcues, hcues', hstage, hstage'⟩

/-- **Tempo and loudness are independent controls.** Two scores that are the same but for their
loudnesses, and that can both be played, have voices at the same moments with the same tones, the
same cues, and leave the same tempo and cursor. Two that are the same but for their tempos have
voices with the same tones and loudnesses, cues of the same kinds in the same order with the same
names, and leave the same loudness. -/
theorem controls_independent {player : Player} {score score' : Score} {now : Float}
    {voices voices' : List Voice} (h : (player.report score now).outcome = .ok voices)
    (h' : (player.report score' now).outcome = .ok voices') :
    let r := player.report score now
    let r' := player.report score' now
    (score.SameButVolumes score' →
      voices.map Voice.timing = voices'.map Voice.timing ∧ r.cues = r'.cues ∧
        r.stage.tempo = r'.stage.tempo ∧ r.stage.cursor = r'.stage.cursor) ∧
    (score.SameButTempos score' →
      voices.map Voice.loudness = voices'.map Voice.loudness ∧
        r.cues.map Cue.untimed = r'.cues.map Cue.untimed ∧
        r.stage.volume = r'.stage.volume) := by
  intro r r'
  constructor
  · intro hsame
    obtain ⟨w, w', hin, rfl, rfl, hcues, hcues', hstage, hstage'⟩ :=
      exists_walks h h' hsame (fun _ _ _ _ => Walk.InTime.goes) ⟨rfl, rfl, rfl, rfl⟩
    rw [← hcues, ← hcues', ← hstage, ← hstage']
    exact ⟨hin.voices, hin.cues, hin.tempo, hin.cursor⟩
  · intro hsame
    obtain ⟨w, w', hin, rfl, rfl, hcues, hcues', hstage, hstage'⟩ :=
      exists_walks h h' hsame (fun _ _ _ _ => Walk.InTune.goes) ⟨rfl, rfl, rfl⟩
    rw [← hcues, ← hcues', ← hstage, ← hstage']
    exact ⟨hin.voices, hin.cues, hin.volume⟩

/-- A score that sets both controls, within a repetition and outside of it. -/
def Score.controlled (bpm percent : UInt32) : Score :=
  ⟨[.tempo .start bpm,
    .repetition .start 2 [.note ⟨.start, ⟨.c, .natural⟩, 4, "1/4"⟩, .volume .start percent],
    .sequence .start "a" [.note ⟨.start, ⟨.a, .natural⟩, 4, "1/8"⟩]]⟩

/-- The score with another loudness, and with another tempo. -/
theorem controls_independent_controlled :
    let r := fun bpm percent => (Player.new .standard).report (.controlled bpm percent) 0
    ∃ plain loud fast, (r 60 30).outcome = .ok plain ∧ (r 60 90).outcome = .ok loud ∧
      (r 90 30).outcome = .ok fast ∧ plain.map Voice.timing = loud.map Voice.timing ∧
      (r 60 30).cues = (r 60 90).cues ∧ plain.map Voice.loudness = fast.map Voice.loudness ∧
      (r 60 30).stage.volume = (r 90 30).stage.volume := by
  intro r
  have hplays : ∀ bpm percent,
      ((Player.new .standard).execute (.controlled bpm percent) 0).1.fault = none →
        ∃ voices, (r bpm percent).outcome = .ok voices :=
    fun _ _ hfault => exists_voices_of_fault _ hfault
  obtain ⟨plain, hplain⟩ := hplays 60 30 (by decide +kernel)
  obtain ⟨loud, hloud⟩ := hplays 60 90 (by decide +kernel)
  obtain ⟨fast, hfast⟩ := hplays 90 30 (by decide +kernel)
  obtain ⟨htiming, hcues, -, -⟩ := (controls_independent hplain hloud).1 rfl
  obtain ⟨hloudness, -, hvolume⟩ := (controls_independent hplain hfast).2 rfl
  exact ⟨plain, loud, fast, hplain, hloud, hfast, htiming, hcues, hloudness, hvolume⟩

end Melody
