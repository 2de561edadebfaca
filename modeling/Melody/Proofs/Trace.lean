import Melody.Player

/-!
# Playing a score is walking along its trace

The trace of a score is the row of its steps with every repetition written out. Playing the score
is a left fold over the trace, in which nothing is known about the nesting of the blocks.

* `Step`, `unrollBlock`: the trace of statements;
* `Walk`, `Walk.step`, `Walk.take`: how far a trace has been walked, and one step more; tempo and
  loudness are looked up among the steps taken;
* `Walk.step_of_stage_eq`: what a step does depends on the stage alone;
* `Agrees`: a part of a performance and a walk tell the same; `agrees_play`, `agrees_playBlock`;
  `tracks_execute`, `voices_execute`: so do a performance and the walk along its trace;
* **`execute_eq_foldl`**: a player tells of a score what the walk along its trace tells.
-/

namespace Melody

open Sound (Settings Voice)

/-- What a statement does at once. -/
inductive Step
  | tempo (pos : Position) (bpm : UInt32)
  | volume (pos : Position) (percent : UInt32)
  | enter (name : String)
  | leave (name : String)
  | note (note : Note)

mutual

/-- The steps of a statement: a sequence puts a step before and a step behind its body, a
repetition is its body so many times. -/
def Statement.unroll : Statement → List Step
  | .tempo pos bpm => [.tempo pos bpm]
  | .volume pos percent => [.volume pos percent]
  | .sequence _ name body => .enter name :: (unrollBlock body ++ [.leave name])
  | .repetition _ count body => (List.replicate count.toNat (unrollBlock body)).flatten
  | .note n => [.note n]

/-- The steps of statements one after the other. -/
def unrollBlock : List Statement → List Step
  | [] => []
  | s :: ss => s.unroll ++ unrollBlock ss

end

theorem unrollBlock_append (ss ts : List Statement) :
    unrollBlock (ss ++ ts) = unrollBlock ss ++ unrollBlock ts := by
  induction ss with
  | nil => rfl
  | cons s ss ih => rw [List.cons_append, unrollBlock, unrollBlock, ih, List.append_assoc]

/-- The tempo that a step sets. -/
def Step.bpm? : Step → Option UInt32
  | tempo _ bpm => some bpm
  | _ => none

/-- The loudness that a step sets. -/
def Step.percent? : Step → Option UInt32
  | volume _ percent => some percent
  | _ => none

/-- The tempo after a trace: that of its last step that sets one, or 120. -/
def tempoAfter (trace : List Step) : UInt32 := (trace.filterMap Step.bpm?).getLast?.getD 120

/-- The loudness after a trace: that of its last step that sets one, or 80. -/
def volumeAfter (trace : List Step) : UInt32 := (trace.filterMap Step.percent?).getLast?.getD 80

/-! ## Walks -/

/-- How far a trace has been walked. -/
structure Walk where
  /-- The steps taken, in their order. -/
  taken : List Step
  cursor : Float
  voices : List Voice
  cues : List Cue
  /-- What ended the walk. -/
  fault : Option Fault

namespace Walk

/-- No step has been taken. -/
def start (now : Float) : Walk := ⟨[], now, [], [], none⟩

/-- What the next note depends on. -/
def stage (w : Walk) : Stage := ⟨tempoAfter w.taken, volumeAfter w.taken, w.cursor⟩

/-- The voices of a walk to the end, or what ended it before. -/
def outcome (w : Walk) : Except Fault (List Voice) :=
  match w.fault with
  | none => .ok w.voices
  | some fault => .error fault

theorem outcome_eq_ok_iff {w : Walk} {voices : List Voice} :
    w.outcome = .ok voices ↔ w.fault = none ∧ w.voices = voices := by
  unfold outcome
  cases w.fault <;> simp

/-- The step `s` is taken. -/
def pass (w : Walk) (s : Step) : Walk := { w with taken := w.taken ++ [s] }

/-- The step that comes next cannot be taken. -/
def stop (w : Walk) (pos : Position) (cause : SemanticCause) : Walk :=
  { w with fault := some ⟨pos, .semantic cause⟩ }

/-- The step `s` is taken, or ends the walk. -/
def step (settings : Settings) (w : Walk) (s : Step) : Walk :=
  match s with
  | .tempo pos bpm => if bpm = 0 then w.stop pos (.invalidTempo bpm) else w.pass s
  | .volume pos percent =>
    if 100 < percent then w.stop pos (.volumeOutOfRange percent) else w.pass s
  | .enter name => { w.pass s with cues := w.cues ++ [.sequenceStart name w.cursor] }
  | .leave name => { w.pass s with cues := w.cues ++ [.sequenceEnd name w.cursor] }
  | .note n =>
    match w.stage.event n with
    | .error cause => w.stop n.pos cause
    | .ok event =>
      { w.pass s with
        cursor := w.cursor + event.duration
        voices := w.voices ++ [settings.voice event]
        cues := w.cues ++ [.noteStart event.label event.start, .noteEnd event.label event.stop] }

/-- One step more, unless the walk has ended. -/
def take (settings : Settings) (w : Walk) (s : Step) : Walk :=
  if w.fault.isSome then w else w.step settings s

theorem take_of_fault {settings : Settings} {w : Walk} {fault : Fault} (h : w.fault = some fault)
    (s : Step) : w.take settings s = w := by
  rw [take, h]
  rfl

theorem take_of_none {settings : Settings} {w : Walk} (h : w.fault = none) (s : Step) :
    w.take settings s = w.step settings s := by
  rw [take, h]
  rfl

/-- What a step of two walks preserves is preserved if they may have ended for the same reason. -/
theorem take_rel {R : Walk → Walk → Prop} {settings settings' : Settings} {w w' : Walk}
    {s s' : Step} (h : R w w') (hfault : w.fault = w'.fault)
    (hstep : R (w.step settings s) (w'.step settings' s')) :
    R (w.take settings s) (w'.take settings' s') := by
  unfold take
  rw [hfault]
  split
  · exact h
  · exact hstep

theorem foldl_take_of_fault {settings : Settings} {w : Walk} {fault : Fault}
    (h : w.fault = some fault) (trace : List Step) : trace.foldl (take settings) w = w := by
  induction trace with
  | nil => rfl
  | cons s trace ih => rw [List.foldl_cons, take_of_fault h, ih]

theorem taken_step (settings : Settings) (w : Walk) (s : Step) :
    (w.step settings s).taken = w.taken ++ [s] ∨
      (w.step settings s).taken = w.taken ∧ (w.step settings s).fault.isSome = true := by
  unfold step
  split
  · split
    · exact .inr ⟨rfl, rfl⟩
    · exact .inl rfl
  · split
    · exact .inr ⟨rfl, rfl⟩
    · exact .inl rfl
  · exact .inl rfl
  · exact .inl rfl
  · split
    · exact .inr ⟨rfl, rfl⟩
    · exact .inl rfl

theorem taken_take (settings : Settings) (w : Walk) (s : Step) :
    (w.take settings s).taken = w.taken ++ [s] ∨
      (w.take settings s).taken = w.taken ∧ (w.take settings s).fault.isSome = true := by
  cases hfault : w.fault with
  | none =>
    rw [take_of_none hfault]
    exact w.taken_step settings s
  | some fault =>
    rw [take_of_fault hfault, hfault]
    exact .inr ⟨rfl, rfl⟩

/-- The steps taken are the front of the trace, and all of it if nothing ended the walk. -/
theorem taken_foldl (settings : Settings) (w : Walk) (trace : List Step) :
    (trace.foldl (take settings) w).taken <+: w.taken ++ trace ∧
      ((trace.foldl (take settings) w).fault = none →
        (trace.foldl (take settings) w).taken = w.taken ++ trace) := by
  induction trace generalizing w with
  | nil => simp
  | cons s trace ih =>
    rw [List.foldl_cons]
    rcases w.taken_take settings s with htaken | ⟨htaken, hfault⟩
    · have h := ih (w.take settings s)
      rw [htaken, List.append_assoc] at h
      exact h
    · -- the walk ends here and stays where it is
      obtain ⟨fault, hfault⟩ := Option.isSome_iff_exists.mp hfault
      rw [foldl_take_of_fault hfault, htaken, hfault]
      exact ⟨List.prefix_append _ _, nofun⟩

end Walk

theorem tempoAfter_tempo (trace : List Step) (pos : Position) (bpm : UInt32) :
    tempoAfter (trace ++ [.tempo pos bpm]) = bpm := by
  simp [tempoAfter, Step.bpm?]

theorem tempoAfter_other (trace : List Step) {s : Step} (h : s.bpm? = none) :
    tempoAfter (trace ++ [s]) = tempoAfter trace := by
  simp [tempoAfter, h]

theorem volumeAfter_volume (trace : List Step) (pos : Position) (percent : UInt32) :
    volumeAfter (trace ++ [.volume pos percent]) = percent := by
  simp [volumeAfter, Step.percent?]

theorem volumeAfter_other (trace : List Step) {s : Step} (h : s.percent? = none) :
    volumeAfter (trace ++ [s]) = volumeAfter trace := by
  simp [volumeAfter, h]

theorem Walk.stage_pass (w : Walk) {s : Step} (hbpm : s.bpm? = none)
    (hpercent : s.percent? = none) : (w.pass s).stage = w.stage := by
  simp only [Walk.stage, Walk.pass, tempoAfter_other _ hbpm, volumeAfter_other _ hpercent]

namespace Walk

variable {w w' : Walk}

theorem stage_pass_eq (w : Walk) (s : Step) : (w.pass s).stage =
    ⟨s.bpm?.getD w.stage.tempo, s.percent?.getD w.stage.volume, w.stage.cursor⟩ := by
  cases s with
  | tempo pos bpm =>
    have hvolume := volumeAfter_other w.taken (s := .tempo pos bpm) rfl
    simp only [stage, pass, tempoAfter_tempo, hvolume]
    rfl
  | volume pos percent =>
    have htempo := tempoAfter_other w.taken (s := .volume pos percent) rfl
    simp only [stage, pass, volumeAfter_volume, htempo]
    rfl
  | enter | leave | note => exact w.stage_pass rfl rfl

/-- **What a step does depends on the stage alone**: two walks on the same stage get to the same
stage, add the same voices and cues, and end for the same reason or not at all. -/
theorem step_of_stage_eq (settings : Settings) (hstage : w.stage = w'.stage)
    (hfault : w.fault = w'.fault) (s : Step) :
    (w.step settings s).stage = (w'.step settings s).stage ∧
      (w.step settings s).fault = (w'.step settings s).fault ∧
      ∃ voices cues, (w.step settings s).voices = w.voices ++ voices ∧
        (w'.step settings s).voices = w'.voices ++ voices ∧
        (w.step settings s).cues = w.cues ++ cues ∧
        (w'.step settings s).cues = w'.cues ++ cues := by
  have hpass : (w.pass s).stage = (w'.pass s).stage := by
    rw [stage_pass_eq, stage_pass_eq, hstage]
  have hcursor : w.cursor = w'.cursor := congrArg Stage.cursor hstage
  cases s with
  | tempo pos bpm =>
    by_cases hbpm : bpm = 0
    · simp only [step, if_pos hbpm]
      exact ⟨hstage, rfl, [], [], by simp [stop]⟩
    · simp only [step, if_neg hbpm]
      exact ⟨hpass, hfault, [], [], by simp [pass]⟩
  | volume pos percent =>
    by_cases hpercent : 100 < percent
    · simp only [step, if_pos hpercent]
      exact ⟨hstage, rfl, [], [], by simp [stop]⟩
    · simp only [step, if_neg hpercent]
      exact ⟨hpass, hfault, [], [], by simp [pass]⟩
  | enter name =>
    refine ⟨hpass, hfault, [], [.sequenceStart name w.cursor], ?_⟩
    simp [step, pass, hcursor]
  | leave name =>
    refine ⟨hpass, hfault, [], [.sequenceEnd name w.cursor], ?_⟩
    simp [step, pass, hcursor]
  | note n =>
    simp only [step, ← hstage]
    cases w.stage.event n with
    | error cause => exact ⟨hstage, rfl, [], [], by simp [stop]⟩
    | ok event =>
      refine ⟨?_, hfault, _, _, rfl, rfl, rfl, rfl⟩
      rw [hcursor]
      exact congrArg (fun stage => { stage with cursor := w'.cursor + event.duration }) hpass

end Walk

/-! ## Performances and walks tell the same -/

/-- A recital and a walk have come equally far and have told the same. -/
structure Tracks (settings : Settings) (r : Recital) (w : Walk) : Prop where
  stage : r.stage = w.stage
  voices : r.events.map settings.voice = w.voices
  cues : r.cues = w.cues

/-- A part of a performance and a walk have told the same and have the same fault, if any. -/
def Agrees (settings : Settings) : EStateM.Result Fault Recital Unit → Walk → Prop
  | .ok _ r, w => Tracks settings r w ∧ w.fault = none
  | .error fault r, w => Tracks settings r w ∧ w.fault = some fault

section Simulation

variable {settings : Settings} {r : Recital} {w : Walk}

theorem Recital.events_push (stage : Stage) (happenings : Array Happening) (x : Happening) :
    (⟨stage, happenings.push x⟩ : Recital).events =
      (⟨stage, happenings⟩ : Recital).events ++ x.event?.toList := by
  rw [Recital.events, Recital.events, Array.toList_push, List.filterMap_append,
    List.filterMap_cons]
  cases x.event? <;> rfl

theorem Recital.cues_push (stage : Stage) (happenings : Array Happening) (x : Happening) :
    (⟨stage, happenings.push x⟩ : Recital).cues =
      (⟨stage, happenings⟩ : Recital).cues ++ x.cues := by
  simp [Recital.cues]

theorem Tracks.push (h : Tracks settings r w) (x : Happening) {stage : Stage} {w' : Walk}
    (hstage : stage = w'.stage)
    (hvoices : w'.voices = w.voices ++ (x.event?.toList.map settings.voice))
    (hcues : w'.cues = w.cues ++ x.cues) :
    Tracks settings ⟨stage, r.happenings.push x⟩ w' where
  stage := hstage
  voices := by
    rw [Recital.events_push, List.map_append, hvoices, ← h.voices]
    rfl
  cues := by
    rw [Recital.cues_push, hcues, ← h.cues]
    rfl

theorem agrees_stop (h : Tracks settings r w) (pos : Position) (cause : SemanticCause) :
    Agrees settings (.error ⟨pos, .semantic cause⟩ r) (w.stop pos cause) :=
  ⟨⟨h.stage, h.voices, h.cues⟩, rfl⟩

theorem agrees_error {fault : Fault} (h : Agrees settings (.error fault r) w)
    (trace : List Step) :
    Agrees settings (.error fault r) (trace.foldl (Walk.take settings) w) := by
  rw [Walk.foldl_take_of_fault h.2]
  exact h

/-- A step that sets something, unless its value is refused. -/
theorem agrees_setting {refused : Prop} [Decidable refused] {s : Step} {x : Happening}
    {pos : Position} {cause : SemanticCause}
    (hstep : w.step settings s = if refused then w.stop pos cause else w.pass s)
    (hevent : x.event? = none) (hcues : x.cues = []) (h : Agrees settings (.ok () r) w) :
    Agrees settings
      (if refused then .error ⟨pos, .semantic cause⟩ r
        else .ok () ⟨⟨s.bpm?.getD r.stage.tempo, s.percent?.getD r.stage.volume, r.stage.cursor⟩,
          r.happenings.push x⟩) (w.take settings s) := by
  obtain ⟨h, hfault⟩ := h
  rw [Walk.take_of_none hfault, hstep]
  split
  · exact agrees_stop h pos cause
  · refine ⟨h.push x ?_ ?_ ?_, hfault⟩
    · rw [w.stage_pass_eq, h.stage]
    · rw [hevent]
      exact (List.append_nil _).symm
    · rw [hcues]
      exact (List.append_nil _).symm

/-- A step that is told, with the moment it is taken at, and does nothing else. -/
theorem agrees_mark {s : Step} (x : Float → Happening)
    (hstep : w.step settings s = { w.pass s with cues := w.cues ++ (x w.cursor).cues })
    (hbpm : s.bpm? = none) (hpercent : s.percent? = none) (hevent : (x w.cursor).event? = none)
    (h : Agrees settings (.ok () r) w) :
    Agrees settings (.ok () ⟨r.stage, r.happenings.push (x r.stage.cursor)⟩)
      (w.take settings s) := by
  obtain ⟨h, hfault⟩ := h
  have hcursor : r.stage.cursor = w.cursor := congrArg Stage.cursor h.stage
  rw [Walk.take_of_none hfault, hstep, hcursor]
  refine ⟨h.push _ (h.stage.trans (w.stage_pass hbpm hpercent).symm) ?_ rfl, hfault⟩
  rw [hevent]
  exact (List.append_nil _).symm

theorem agrees_note (n : Note) (h : Agrees settings (.ok () r) w) :
    Agrees settings ((Statement.note n).play r) (w.take settings (.note n)) := by
  obtain ⟨h, hfault⟩ := h
  rw [Walk.take_of_none hfault, Walk.step, Statement.play, h.stage]
  cases hevent : w.stage.event n with
  | error cause => exact agrees_stop h n.pos cause
  | ok event =>
    have hstage : { r.stage with cursor := r.stage.cursor + event.duration } =
        { (w.pass (.note n)).stage with cursor := w.cursor + event.duration } := by
      rw [h.stage, w.stage_pass rfl rfl]
      rfl
    exact ⟨h.push (.note n event) hstage rfl rfl, hfault⟩

theorem agrees_times {part : Play} {trace : List Step}
    (hpart : ∀ r w, Agrees settings (.ok () r) w →
      Agrees settings (part r) (trace.foldl (Walk.take settings) w)) (n : Nat) :
    ∀ r w, Agrees settings (.ok () r) w → Agrees settings (Play.times part n r)
      ((List.replicate n trace).flatten.foldl (Walk.take settings) w) := by
  induction n with
  | zero => exact fun r w h => h
  | succ n ih =>
    intro r w h
    rw [List.replicate_succ, List.flatten_cons, List.foldl_append]
    have hfirst := hpart r w h
    unfold Play.times
    cases hr : part r with
    | ok _ r' =>
      rw [hr] at hfirst
      exact ih r' _ hfirst
    | error fault r' =>
      rw [hr] at hfirst
      exact agrees_error hfirst _

mutual

theorem agrees_play : ∀ (s : Statement) (r : Recital) (w : Walk), Agrees settings (.ok () r) w →
    Agrees settings (s.play r) (s.unroll.foldl (Walk.take settings) w)
  | .tempo pos bpm, r, w, h =>
    agrees_setting (s := .tempo pos bpm) (x := .tempo bpm r.stage.cursor) rfl rfl rfl h
  | .volume pos percent, r, w, h =>
    agrees_setting (s := .volume pos percent) (x := .volume percent r.stage.cursor) rfl rfl rfl h
  | .sequence pos name body, r, w, h => by
    have henter : Agrees settings (.ok () (r.enter name)) (w.take settings (.enter name)) :=
      agrees_mark (.sequenceStart name) rfl rfl rfl rfl h
    have hbody := agrees_playBlock body _ _ henter
    rw [Statement.unroll, List.foldl_cons, List.foldl_append]
    rw [Statement.play]
    cases hr : playBlock body (r.enter name) with
    | ok _ r' =>
      rw [hr] at hbody
      exact agrees_mark (.sequenceEnd name) rfl rfl rfl rfl hbody
    | error fault r' =>
      rw [hr] at hbody
      exact agrees_error hbody _
  | .repetition pos count body, r, w, h => by
    rw [Statement.unroll, Statement.play]
    exact agrees_times (agrees_playBlock body) count.toNat r w h
  | .note n, r, w, h => agrees_note n h

theorem agrees_playBlock : ∀ (ss : List Statement) (r : Recital) (w : Walk),
    Agrees settings (.ok () r) w →
    Agrees settings (playBlock ss r) ((unrollBlock ss).foldl (Walk.take settings) w)
  | [], r, w, h => h
  | s :: ss, r, w, h => by
    have hs := agrees_play s r w h
    rw [unrollBlock, List.foldl_append, playBlock]
    cases hr : s.play r with
    | ok _ r' =>
      rw [hr] at hs
      exact agrees_playBlock ss r' _ hs
    | error fault r' =>
      rw [hr] at hs
      exact agrees_error hs _

end

end Simulation

theorem agrees_opening (settings : Settings) (now : Float) :
    Agrees settings (.ok () (.opening now)) (.start now) :=
  ⟨⟨rfl, rfl, rfl⟩, rfl⟩

theorem tracks_execute (player : Player) (score : Score) (now : Float) :
    let w := (unrollBlock score.statements).foldl (Walk.take player.settings) (.start now)
    Tracks player.settings (player.execute score now).1.recital w ∧
      (player.execute score now).1.fault = w.fault := by
  intro w
  have hagrees := agrees_playBlock score.statements _ _ (agrees_opening player.settings now)
  unfold Player.execute Performance.of
  cases hr : playBlock score.statements (.opening now) with
  | ok _ r =>
    rw [hr] at hagrees
    exact ⟨hagrees.1, hagrees.2.symm⟩
  | error fault r =>
    rw [hr] at hagrees
    exact ⟨hagrees.1, hagrees.2.symm⟩

theorem voices_execute (player : Player) (score : Score) (now : Float) :
    (player.execute score now).1.voices player.settings = Walk.outcome
      ((unrollBlock score.statements).foldl (Walk.take player.settings) (.start now)) := by
  obtain ⟨htracks, hfault⟩ := tracks_execute player score now
  rw [Performance.voices, Walk.outcome, hfault, htracks.voices]
  cases Walk.fault _ <;> rfl

/-- **Playing a score is a left fold over its trace.** Voices or fault, cues, and the stage at the
end are those of the walk along the trace, whatever the player has played before. -/
theorem execute_eq_foldl (player : Player) (score : Score) (now : Float) :
    let trace := unrollBlock score.statements
    let w := trace.foldl (Walk.take player.settings) (.start now)
    let (performance, player') := player.execute score now
    performance.voices player.settings = w.outcome ∧ performance.recital.cues = w.cues ∧
      player' = ⟨player.settings, w.stage⟩ ∧
      w.taken <+: trace ∧ (w.fault = none → w.taken = trace) := by
  intro trace w
  have hagrees := agrees_playBlock score.statements _ _ (agrees_opening player.settings now)
  have htaken := Walk.taken_foldl player.settings (.start now) trace
  change Agrees player.settings _ w at hagrees
  unfold Player.execute Performance.of
  cases hr : playBlock score.statements (.opening now) with
  | ok _ r =>
    rw [hr] at hagrees
    obtain ⟨h, hfault⟩ := hagrees
    refine ⟨?_, h.cues, congrArg (Player.mk _) h.stage, htaken⟩
    simp only [Performance.voices, Walk.outcome, hfault, h.voices]
  | error fault r =>
    rw [hr] at hagrees
    obtain ⟨h, hfault⟩ := hagrees
    refine ⟨?_, h.cues, congrArg (Player.mk _) h.stage, htaken⟩
    simp only [Performance.voices, Walk.outcome, hfault]

end Melody
