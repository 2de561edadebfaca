import Melody.Proofs.Trace

/-!
# Sessions of a player

In a session a player is asked to play scores and to take other settings, in any order. What can be
seen of a score that is played is its outcome, its cues and the stage it leaves; all that a player
keeps for it from the requests before are the settings.

* `Request`, `Player.serve`, `Player.after`: requests, and the player that has served them;
* `Report`, `Player.report`, `Player.reports`: what can be seen of the scores that are played;
* `Player.report_congr`, `Player.settings_after`, `Player.stage_after`: what a report depends on,
  and what a player is left with;
* **`session_forgets`**: a player has no memory but its settings;
* `Walk.Follows`: a walk that goes on where another one has come back to an opening stage;
* **`report_append`**: statements are played at once or in two scores.
-/

namespace Melody

open Sound (Settings Voice)

/-- What a player can be asked. -/
inductive Request
  | adjust (change : Settings → Settings)
  | execute (score : Score) (now : Float)

/-- The change of settings, if one is asked for. -/
def Request.change? : Request → Option (Settings → Settings)
  | adjust change => some change
  | execute _ _ => none

/-- The settings with all changes that are asked for, in their order. -/
def adjusted (settings : Settings) (requests : List Request) : Settings :=
  (requests.filterMap Request.change?).foldl (fun settings change => change settings) settings

/-- What can be seen of a score that is played. -/
structure Report where
  outcome : Except Fault (List Voice)
  cues : List Cue
  /-- The stage when the score is over. -/
  stage : Stage

namespace Player

/-- What can be seen when the player plays the score. -/
def report (p : Player) (score : Score) (now : Float) : Report :=
  let (performance, p') := p.execute score now
  ⟨performance.voices p.settings, performance.recital.cues, p'.stage⟩

/-- The player when it has served the request. -/
def serve (p : Player) : Request → Player
  | .adjust change => p.adjust change
  | .execute score now => (p.execute score now).2

/-- The player when it has served the requests, one after the other. -/
def after (p : Player) (requests : List Request) : Player := requests.foldl serve p

/-- What can be seen of all scores that are played in a session. -/
def reports (p : Player) : List Request → List Report
  | [] => []
  | .adjust change :: requests => (p.adjust change).reports requests
  | .execute score now :: requests => p.report score now :: (p.execute score now).2.reports requests

/-! ## What a player keeps -/

variable {p p' : Player}

theorem settings_serve (p : Player) (request : Request) :
    (p.serve request).settings = adjusted p.settings [request] := by
  cases request <;> rfl

theorem settings_after (p : Player) (requests : List Request) :
    (p.after requests).settings = adjusted p.settings requests := by
  induction requests generalizing p with
  | nil => rfl
  | cons request requests ih =>
    rw [after, List.foldl_cons, ← after, ih, settings_serve]
    cases request <;> rfl

/-- **A report depends on the settings alone.** -/
theorem report_congr (h : p.settings = p'.settings) (score : Score) (now : Float) :
    p.report score now = p'.report score now := by
  unfold report execute
  rw [h]

theorem reports_congr (h : p.settings = p'.settings) (requests : List Request) :
    p.reports requests = p'.reports requests := by
  induction requests generalizing p p' with
  | nil => rfl
  | cons request requests ih =>
    cases request with
    | adjust change => exact ih (congrArg change h)
    | execute score now =>
      rw [reports, reports, report_congr h]
      exact congrArg (p'.report score now :: ·) (ih h)

theorem reports_append (p : Player) (before after : List Request) :
    p.reports (before ++ after) = p.reports before ++ (p.after before).reports after := by
  induction before generalizing p with
  | nil => rfl
  | cons request before ih =>
    cases request with
    | adjust change => exact ih _
    | execute score now => exact congrArg (p.report score now :: ·) (ih _)

theorem stage_after (p : Player) (requests : List Request) :
    (p.after requests).stage = ((p.reports requests).map Report.stage).getLast?.getD p.stage := by
  induction requests generalizing p with
  | nil => rfl
  | cons request requests ih =>
    rw [after, List.foldl_cons, ← after, ih]
    cases request with
    | adjust change => rfl
    | execute score now =>
      rw [reports, List.map_cons, List.getLast?_cons]
      rfl

end Player

/-- **A player has no memory but its settings.** After any requests, its settings are the first ones
with the changes asked for so far. It plays a score as a new player with these settings does, and so
all the scores that it is asked for from then on. Other settings do not change the stage, which is
that of the last report, and playing a score does not change the settings. -/
theorem session_forgets (settings : Settings) (before : List Request) :
    let player := (Player.new settings).after before
    let fresh := Player.new (adjusted settings before)
    player.settings = adjusted settings before ∧
      (∀ score now, player.report score now = fresh.report score now) ∧
      (∀ after, (Player.new settings).reports (before ++ after) =
        (Player.new settings).reports before ++ fresh.reports after) ∧
      player.stage =
        (((Player.new settings).reports before).map Report.stage).getLast?.getD (.opening 0) ∧
      (∀ change, (player.adjust change).stage = player.stage) ∧
      ∀ score now, (player.execute score now).2.settings = player.settings := by
  intro player fresh
  have hsettings : player.settings = fresh.settings := (Player.new settings).settings_after before
  refine ⟨hsettings, Player.report_congr hsettings, fun after => ?_,
    (Player.new settings).stage_after before, fun _ => rfl, fun _ _ => rfl⟩
  rw [Player.reports_append, Player.reports_congr hsettings]

/-! ## Two scores as one -/

namespace Walk

variable {first w w' : Walk} {settings : Settings}

/-- `w` has told what `first` has told and then what `w'` has, and has got to the same stage. -/
structure Follows (first w w' : Walk) : Prop where
  stage : w.stage = w'.stage
  voices : w.voices = first.voices ++ w'.voices
  cues : w.cues = first.cues ++ w'.cues
  fault : w.fault = w'.fault

/-- A walk that has come back to an opening stage follows itself as one that begins there does. -/
theorem follows_start {c : Float} (hstage : first.stage = .opening c)
    (hfault : first.fault = none) : first.Follows first (.start c) where
  stage := hstage
  voices := (List.append_nil _).symm
  cues := (List.append_nil _).symm
  fault := hfault

theorem Follows.take (h : first.Follows w w') (s : Step) :
    first.Follows (w.take settings s) (w'.take settings s) := by
  obtain ⟨hstage, hfault, voices, cues, hvoices, hvoices', hcues, hcues'⟩ :=
    step_of_stage_eq settings h.stage h.fault s
  refine take_rel h h.fault ⟨hstage, ?_, ?_, hfault⟩
  · rw [hvoices, hvoices', h.voices, List.append_assoc]
  · rw [hcues, hcues', h.cues, List.append_assoc]

/-- **A walk that goes on from another** tells the same as one that begins there. -/
theorem Follows.foldl (h : first.Follows w w') (settings : Settings) (trace : List Step) :
    first.Follows (trace.foldl (Walk.take settings) w) (trace.foldl (Walk.take settings) w') :=
  List.foldl_rel h fun s _ _ _ h => h.take s

/-- What can be seen of a walk. -/
def report (w : Walk) : Report := ⟨w.outcome, w.cues, w.stage⟩

theorem Follows.report (h : first.Follows w w') :
    w.report = ⟨w'.outcome.map (first.voices ++ ·), first.cues ++ w'.cues, w'.stage⟩ := by
  have houtcome : w.outcome = w'.outcome.map (first.voices ++ ·) := by
    rw [outcome, outcome, h.fault, h.voices]
    cases w'.fault <;> rfl
  rw [Walk.report, houtcome, h.cues, h.stage]

end Walk

theorem Player.report_eq (player : Player) (score : Score) (now : Float) :
    player.report score now =
      ((unrollBlock score.statements).foldl (Walk.take player.settings) (.start now)).report := by
  obtain ⟨htracks, -⟩ := tracks_execute player score now
  have hstage : (player.execute score now).2.stage = _ := htracks.stage
  rw [Player.report, Walk.report, ← voices_execute, ← htracks.cues, ← hstage]

/-- **A score can be cut and played in two.** Where its first part is played without a fault and
leaves the stage with the tempo and loudness that every score begins with, the whole score is the
first part and then, from the moment it ends, the second part played by the same player: the voices
of both, or the fault of the second part, the cues of both, and the stage that the second leaves. -/
theorem report_append (player : Player) (p q : List Statement) {now c : Float}
    {voices : List Voice} (houtcome : (player.report ⟨p⟩ now).outcome = .ok voices)
    (hstage : (player.report ⟨p⟩ now).stage = ⟨120, 80, c⟩) :
    let first := player.report ⟨p⟩ now
    let second := (player.execute ⟨p⟩ now).2.report ⟨q⟩ c
    player.report ⟨p ++ q⟩ now =
      ⟨second.outcome.map (voices ++ ·), first.cues ++ second.cues, second.stage⟩ := by
  intro first second
  have hfirst : first = Walk.report _ := player.report_eq ⟨p⟩ now
  have hsecond : second = Walk.report _ := Player.report_eq _ ⟨q⟩ c
  have hwhole := player.report_eq ⟨p ++ q⟩ now
  simp only [unrollBlock_append, List.foldl_append] at hwhole
  change first.outcome = _ at houtcome
  change first.stage = _ at hstage
  rw [hfirst] at houtcome hstage ⊢
  -- the walk along `p` has come to the end, and the one along `q` begins where it is
  obtain ⟨hfault, hvoices⟩ := Walk.outcome_eq_ok_iff.mp houtcome
  have hfollows := (Walk.follows_start hstage hfault).foldl player.settings (unrollBlock q)
  rw [hwhole, hfollows.report, hsecond, hvoices]
  rfl

/-- A sequence with a tempo and a loudness of its own and a repetition in it, and two notes of which
the second has no tone. -/
theorem report_append_failing :
    let player := Player.new .standard
    let note : Statement := .note ⟨.start, ⟨.c, .natural⟩, 4, "1/4"⟩
    let p : List Statement := [.sequence .start "a" [.tempo .start 60, .volume .start 50,
      .repetition .start 2 [note], .tempo .start 120, .volume .start 80]]
    let q : List Statement := [note, .note ⟨.start, ⟨.c, .natural⟩, 4, "1/3"⟩]
    ∃ voices c, (player.report ⟨p⟩ 0).outcome = .ok voices ∧
      (player.report ⟨p⟩ 0).stage = ⟨120, 80, c⟩ ∧
      player.report ⟨p ++ q⟩ 0 =
        ⟨((player.execute ⟨p⟩ 0).2.report ⟨q⟩ c).outcome.map (voices ++ ·),
          (player.report ⟨p⟩ 0).cues ++ ((player.execute ⟨p⟩ 0).2.report ⟨q⟩ c).cues,
          ((player.execute ⟨p⟩ 0).2.report ⟨q⟩ c).stage⟩ := by
  intro player note p q
  obtain ⟨hfault, htempo, hvolume⟩ : (player.execute ⟨p⟩ 0).1.fault = none ∧
      (player.report ⟨p⟩ 0).stage.tempo = 120 ∧ (player.report ⟨p⟩ 0).stage.volume = 80 := by
    decide +kernel
  have houtcome : (player.report ⟨p⟩ 0).outcome =
      .ok ((player.execute ⟨p⟩ 0).1.recital.events.map player.settings.voice) := by
    change (player.execute ⟨p⟩ 0).1.voices player.settings = _
    rw [Performance.voices, hfault]
  have hstage : (player.report ⟨p⟩ 0).stage = ⟨120, 80, (player.report ⟨p⟩ 0).stage.cursor⟩ := by
    rw [← htempo, ← hvolume]
  exact ⟨_, _, houtcome, hstage, report_append player p q houtcome hstage⟩

end Melody
