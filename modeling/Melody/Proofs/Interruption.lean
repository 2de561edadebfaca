import Melody.Proofs.Brackets
import Melody.Proofs.Defects

/-!
# Performances that end with a fault

A fault ends a performance at one statement of the score. All that is told before it depends on what
stands before that statement alone, the sequences around it are left open, and the stage is left as
the last complete statement has left it.

* `Site`: a place for one statement in a score; `Site.fill`, `Site.complete`, `Site.names`;
* `Score.FailsAt`: the statement that ends a performance; `exists_site_of_playBlock`;
* `Site.unrollBlock_fill`, `Site.alike_steps`, `Site.unclosed_steps`: the steps up to a site, and
  what is told on the way;
* `Walk.cues_foldl`: a walk takes back nothing that it has told;
* **`fault_stops_cleanly`**: what a performance with a fault leaves behind.
-/

namespace Melody

open Sound (Event Settings Voice)

/-- A place for one statement among those of a score, inside any number of blocks. -/
inductive Site
  | here (before after : List Statement)
  | inside (before : List Statement) (block : Block) (inner : Site) (after : List Statement)

namespace Site

/-- The statements of the score with `s` at the site. -/
def fill (s : Statement) : Site → List Statement
  | here before after => before ++ s :: after
  | inside before block inner after => before ++ block.statement (inner.fill s) :: after

/-- The statements that are complete when the site is reached. -/
def complete : Site → List Statement
  | here before _ => before
  | inside before _ inner _ => before ++ inner.complete

/-- The names of the sequences around the site, the outermost first. -/
def names : Site → List String
  | here _ _ => []
  | inside _ (.sequence _ name) inner _ => name :: inner.names
  | inside _ (.repetition _ _) inner _ => inner.names

/-- No repetition of zero times is around the site. -/
def Played : Site → Prop
  | here _ _ => True
  | inside _ (.sequence _ _) inner _ => inner.Played
  | inside _ (.repetition _ count) inner _ => count ≠ 0 ∧ inner.Played

/-- The steps of a score before it first comes to the site. -/
def steps : Site → List Step
  | here before _ => unrollBlock before
  | inside before (.sequence _ name) inner _ => unrollBlock before ++ .enter name :: inner.steps
  | inside before (.repetition _ _) inner _ => unrollBlock before ++ inner.steps

/-- The site behind one more statement. -/
def cons (s : Statement) : Site → Site
  | here before after => here (s :: before) after
  | inside before block inner after => inside (s :: before) block inner after

variable (site : Site) (s t : Statement)

@[simp] theorem fill_cons : (site.cons s).fill t = s :: site.fill t := by cases site <;> rfl

@[simp] theorem complete_cons : (site.cons s).complete = s :: site.complete := by
  cases site <;> rfl

theorem played_cons : (site.cons s).Played ↔ site.Played := by
  cases site with
  | here => rfl
  | inside _ block => cases block <;> rfl

end Site

/-! ## Where a performance fails -/

/-- No statement that is played has a defect. -/
def Playable (ss : List Statement) : Prop :=
  ∀ p ∈ blockPlaces [] ss, p.Played → ¬ p.statement.Invalid

/-- The statement at the site is played and has a defect, and none before it has. -/
structure Score.FailsAt (score : Score) (site : Site) (s : Statement) (cause : SemanticCause) :
    Prop where
  statements : score.statements = site.fill s
  played : site.Played
  complete : Playable site.complete
  defect : Defect s cause

/-- Whether statements can be played does not depend on what has happened before. -/
theorem playable_iff_faultOf (ss : List Statement) (r : Recital) :
    Playable ss ↔ faultOf (playBlock ss r) = none := by
  rw [fault_playBlock ss [] r (List.forall_mem_nil _), List.findSome?_eq_none_iff]
  simp only [Playable, Place.fault?_eq_none_iff]

theorem playable_cons_of_play {s : Statement} {ss : List Statement} {r r' : Recital}
    (hs : s.play r = .ok () r') (hss : Playable ss) : Playable (s :: ss) := by
  rw [playable_iff_faultOf _ r, playBlock, hs]
  exact (playable_iff_faultOf ss r').mp hss

theorem Score.FailsAt.cons {s t : Statement} {ss : List Statement} {site : Site}
    {cause : SemanticCause} {r r' : Recital} (hs : s.play r = .ok () r')
    (h : Score.FailsAt ⟨ss⟩ site t cause) : Score.FailsAt ⟨s :: ss⟩ (site.cons s) t cause where
  statements := by
    rw [site.fill_cons]
    exact congrArg (s :: ·) h.statements
  played := (site.played_cons s).mpr h.played
  complete := by
    rw [site.complete_cons]
    exact playable_cons_of_play hs h.complete
  defect := h.defect

theorem defect_of_faultOf_note {n : Note} {r : Recital} {fault : Fault}
    (h : faultOf ((Statement.note n).play r) = some fault) :
    ∃ cause, Defect (.note n) cause ∧ fault = ⟨n.pos, .semantic cause⟩ := by
  rw [faultOf_note, Option.map_eq_some_iff] at h
  obtain ⟨cause, hcause, rfl⟩ := h
  exact ⟨cause, (n.defect?_eq_some_iff cause).mp hcause, rfl⟩

mutual

theorem exists_site_of_play : ∀ (s : Statement) (ss : List Statement) (r : Recital) (fault : Fault),
    faultOf (s.play r) = some fault → ∃ site t cause,
      Score.FailsAt ⟨s :: ss⟩ site t cause ∧ fault = ⟨t.pos, .semantic cause⟩
  | .tempo pos bpm, ss, r, fault, h => by
    rw [Statement.play] at h
    by_cases hbpm : bpm = 0
    · subst hbpm
      obtain rfl := Option.some.inj h
      exact ⟨.here [] ss, _, _, ⟨rfl, trivial, nofun, .tempo pos⟩, rfl⟩
    · rw [if_neg hbpm] at h
      cases h
  | .volume pos percent, ss, r, fault, h => by
    rw [Statement.play] at h
    by_cases hpercent : 100 < percent
    · rw [if_pos hpercent] at h
      obtain rfl := Option.some.inj h
      exact ⟨.here [] ss, _, _, ⟨rfl, trivial, nofun, .volume pos hpercent⟩, rfl⟩
    · rw [if_neg hpercent] at h
      cases h
  | .sequence pos name body, ss, r, fault, h => by
    have hbody : faultOf (playBlock body (r.enter name)) = some fault := by
      rw [← h, Statement.play]
      cases playBlock body (r.enter name) <;> rfl
    obtain ⟨site, t, cause, hfails, rfl⟩ := exists_site_of_playBlock body _ fault hbody
    obtain ⟨rfl, hplayed, hcomplete, hdefect⟩ := hfails
    exact ⟨.inside [] (.sequence pos name) site ss, t, cause,
      ⟨rfl, hplayed, hcomplete, hdefect⟩, rfl⟩
  | .repetition pos count body, ss, r, fault, h => by
    -- every round fails alike, so that the first one fails
    have hround := fun r => fault_playBlock body [] r (List.forall_mem_nil _)
    rw [Statement.play, faultOf_times hround] at h
    by_cases hcount : count.toNat = 0
    · rw [if_pos hcount] at h
      cases h
    · rw [if_neg hcount, ← hround r] at h
      obtain ⟨site, t, cause, hfails, rfl⟩ := exists_site_of_playBlock body r fault h
      obtain ⟨rfl, hplayed, hcomplete, hdefect⟩ := hfails
      have hne : count ≠ 0 := fun h0 => hcount (by rw [h0]; rfl)
      exact ⟨.inside [] (.repetition pos count) site ss, t, cause,
        ⟨rfl, ⟨hne, hplayed⟩, hcomplete, hdefect⟩, rfl⟩
  | .note n, ss, r, fault, h => by
    obtain ⟨cause, hdefect, rfl⟩ := defect_of_faultOf_note h
    exact ⟨.here [] ss, _, cause, ⟨rfl, trivial, nofun, hdefect⟩, rfl⟩

/-- **A fault comes from a statement of the score**, and nothing before that has a defect. -/
theorem exists_site_of_playBlock : ∀ (ss : List Statement) (r : Recital) (fault : Fault),
    faultOf (playBlock ss r) = some fault → ∃ site t cause,
      Score.FailsAt ⟨ss⟩ site t cause ∧ fault = ⟨t.pos, .semantic cause⟩
  | [], r, fault, h => by cases h
  | s :: ss, r, fault, h => by
    cases hs : s.play r with
    | error fault' r' =>
      rw [playBlock, hs] at h
      exact exists_site_of_play s ss r fault (by rw [hs]; exact h)
    | ok _ r' =>
      rw [playBlock, hs] at h
      obtain ⟨site, t, cause, hfails, rfl⟩ := exists_site_of_playBlock ss r' fault h
      exact ⟨site.cons s, t, cause, hfails.cons hs, rfl⟩

end

/-! ## The way to a site -/

/-- **What comes before a site** does not depend on the statement there. -/
theorem Site.unrollBlock_fill (site : Site) (h : site.Played) :
    ∃ rest : Statement → List Step,
      ∀ s, unrollBlock (site.fill s) = site.steps ++ (s.unroll ++ rest s) := by
  induction site with
  | here before after =>
    refine ⟨fun _ => unrollBlock after, fun s => ?_⟩
    simp only [fill, steps, unrollBlock_append, unrollBlock]
  | inside before block inner after ih =>
    cases block with
    | sequence pos name =>
      obtain ⟨rest, hrest⟩ := ih h
      refine ⟨fun s => rest s ++ (.leave name :: unrollBlock after), fun s => ?_⟩
      simp only [fill, steps, Block.statement, unrollBlock_append, unrollBlock, Statement.unroll,
        hrest, List.append_assoc, List.cons_append, List.nil_append]
    | repetition pos count =>
      obtain ⟨hcount, hplayed⟩ := h
      obtain ⟨rest, hrest⟩ := ih hplayed
      -- the site is first come to in the first round
      obtain ⟨n, hn⟩ := Nat.exists_eq_succ_of_ne_zero fun h0 => hcount (UInt32.toNat_inj.mp h0)
      refine ⟨fun s => rest s ++ ((List.replicate n (unrollBlock (inner.fill s))).flatten ++
        unrollBlock after), fun s => ?_⟩
      simp only [fill, steps, Block.statement, unrollBlock_append, unrollBlock, Statement.unroll,
        hn, List.replicate_succ, List.flatten_cons, hrest, List.append_assoc]

variable {settings : Settings}

namespace Walk

/-- Two walks have got to the same stage and played the same notes. -/
structure Alike (w w' : Walk) : Prop where
  stage : w.stage = w'.stage
  voices : w.voices = w'.voices
  fault : w.fault = w'.fault

variable {w w' : Walk}

theorem Alike.refl (w : Walk) : w.Alike w := ⟨rfl, rfl, rfl⟩

theorem Alike.step (h : w.Alike w') (s : Step) :
    (w.step settings s).Alike (w'.step settings s) := by
  obtain ⟨hstage, hfault, voices, cues, hvoices, hvoices', -⟩ :=
    step_of_stage_eq settings h.stage h.fault s
  exact ⟨hstage, by rw [hvoices, hvoices', h.voices], hfault⟩

theorem Alike.take (h : w.Alike w') (s : Step) :
    (w.take settings s).Alike (w'.take settings s) :=
  take_rel h h.fault (h.step s)

theorem Alike.foldl (h : w.Alike w') (settings : Settings) (trace : List Step) :
    (trace.foldl (Walk.take settings) w).Alike (trace.foldl (Walk.take settings) w') :=
  List.foldl_rel h fun s _ _ _ h => h.take s

theorem Alike.enter (h : w.Alike w') (name : String) :
    (w.take settings (.enter name)).Alike w' := by
  unfold Walk.take
  split
  · exact h
  · exact ⟨(w.stage_pass rfl rfl).trans h.stage, h.voices, h.fault⟩

theorem cues_take (w : Walk) (s : Step) : w.cues <+: (w.take settings s).cues := by
  unfold take
  split
  · exact List.prefix_rfl
  · cases s with
    | tempo pos bpm | volume pos percent =>
      rw [step]
      split <;> exact List.prefix_rfl
    | enter name | leave name => exact List.prefix_append _ _
    | note n =>
      rw [step]
      cases w.stage.event n with
      | error cause => exact List.prefix_rfl
      | ok event => exact List.prefix_append _ _

theorem cues_foldl (w : Walk) (trace : List Step) :
    w.cues <+: (trace.foldl (take settings) w).cues := by
  induction trace generalizing w with
  | nil => exact List.prefix_rfl
  | cons s trace ih => exact (w.cues_take s).trans (ih _)

theorem mirrors_foldl {trace : List Step} {now : Float}
    (h : (trace.foldl (take settings) (.start now)).fault = none) :
    (trace.foldl (take settings) (.start now)).Mirrors now := by
  have hstart : (start now).Mirrors now :=
    ⟨rfl, rfl, fun before cue hfront => absurd hfront (by simp [start])⟩
  exact foldl_induction (fun w s w' hgoes hw => hgoes.mirrors hw) h hstart

theorem event_of_defect {stage : Stage} {n : Note} {cause : SemanticCause}
    (h : Defect (.note n) cause) : stage.event n = .error cause := by
  have hfault := faultOf_note n ⟨stage, #[]⟩
  rw [(n.defect?_eq_some_iff cause).mpr h, Statement.play] at hfault
  cases hevent : stage.event n with
  | ok event =>
    rw [hevent] at hfault
    cases hfault
  | error cause' =>
    rw [hevent] at hfault
    cases hfault
    rfl

/-- **A defect ends a walk** and leaves the rest of it as it was. -/
theorem foldl_unroll_of_defect (settings : Settings) {s : Statement} {cause : SemanticCause}
    (h : Defect s cause) (hw : w.fault = none) (rest : List Step) :
    (s.unroll ++ rest).foldl (take settings) w = w.stop s.pos cause := by
  have hstep : ∃ x, s.unroll = [x] ∧ w.step settings x = w.stop s.pos cause := by
    cases s with
    | tempo pos bpm =>
      cases h
      exact ⟨_, rfl, rfl⟩
    | volume pos percent =>
      cases h with
      | volume _ hpercent => exact ⟨_, rfl, if_pos hpercent⟩
    | sequence | repetition => cases h
    | note n =>
      refine ⟨_, rfl, ?_⟩
      rw [step, event_of_defect h]
      rfl
  obtain ⟨x, hx, hstop⟩ := hstep
  rw [hx, List.cons_append, List.foldl_cons, take_of_none hw, hstop]
  exact foldl_take_of_fault rfl _

end Walk

namespace Site

/-- The way to a site leads where playing the complete statements leads. -/
theorem alike_steps (site : Site) (settings : Settings) {w w' : Walk} (h : w.Alike w') :
    (site.steps.foldl (Walk.take settings) w).Alike
      ((unrollBlock site.complete).foldl (Walk.take settings) w') := by
  induction site generalizing w w' with
  | here before after => exact h.foldl settings _
  | inside before block inner after ih =>
    have hbefore := h.foldl settings (unrollBlock before)
    cases block with
    | sequence pos name =>
      simp only [steps, complete, unrollBlock_append, List.foldl_append, List.foldl_cons]
      exact ih (hbefore.enter name)
    | repetition pos count =>
      simp only [steps, complete, unrollBlock_append, List.foldl_append]
      exact ih hbefore

end Site

/-! ## What is told on the way -/

/-- Cues in which some sequences have started and not ended, the outermost first, and nothing else
is out of balance. -/
inductive Unclosed : List String → List Cue → Prop
  | balanced {cues : List Cue} (h : Balanced cues) : Unclosed [] cues
  | start {name : String} {time : Float} {names : List String} {before after : List Cue}
    (hbefore : Balanced before) (hafter : Unclosed names after) :
    Unclosed (name :: names) (before ++ .sequenceStart name time :: after)

theorem Unclosed.append {names : List String} {before after : List Cue} (hbefore : Balanced before)
    (h : Unclosed names after) : Unclosed names (before ++ after) := by
  cases h with
  | balanced h => exact .balanced (hbefore.append h)
  | start hbefore' hafter =>
    rw [← List.append_assoc]
    exact .start (hbefore.append hbefore') hafter

/-- **The sequences around a site are open** when it is reached, and no others. -/
theorem Site.unclosed_steps (site : Site) {w : Walk}
    (h : (site.steps.foldl (Walk.take settings) w).fault = none) :
    ∃ cues, (site.steps.foldl (Walk.take settings) w).cues = w.cues ++ cues ∧
      Unclosed site.names cues := by
  induction site generalizing w with
  | here before after =>
    obtain ⟨cues, hcues, hbalanced⟩ := addsBalanced_unrollBlock before w h
    exact ⟨cues, hcues, .balanced hbalanced⟩
  | inside before block inner after ih =>
    cases block with
    | sequence pos name =>
      rw [steps, List.foldl_append] at h ⊢
      obtain ⟨w', hgoes, hfoldl⟩ := Walk.foldl_cons_of_fault h
      have hadds : AddsBalanced settings (unrollBlock before) := addsBalanced_unrollBlock before
      obtain ⟨cues, hcues, hbalanced⟩ := hadds w (Walk.fault_eq_none_of_foldl h)
      have henter := hgoes.cues_enter
      rw [hfoldl] at h ⊢
      obtain ⟨cues', hcues', hunclosed⟩ := ih h
      rw [hcues', henter, hcues]
      generalize (List.foldl (Walk.take settings) w (unrollBlock before)).cursor = time
      refine ⟨cues ++ .sequenceStart name time :: cues', ?_, .start hbalanced hunclosed⟩
      simp only [List.append_assoc, List.cons_append, List.nil_append]
    | repetition pos count =>
      rw [steps, List.foldl_append] at h ⊢
      have hadds : AddsBalanced settings (unrollBlock before) := addsBalanced_unrollBlock before
      obtain ⟨cues, hcues, hbalanced⟩ := hadds w (Walk.fault_eq_none_of_foldl h)
      obtain ⟨cues', hcues', hunclosed⟩ := ih h
      exact ⟨cues ++ cues', by rw [hcues', hcues, List.append_assoc], hunclosed.append hbalanced⟩

theorem fault_execute_of_playable {ss : List Statement} (h : Playable ss) (player : Player)
    (now : Float) : (player.execute ⟨ss⟩ now).1.fault = none := by
  rw [playable_iff_faultOf ss (.opening now)] at h
  unfold Player.execute Performance.of
  cases hr : playBlock ss (.opening now) with
  | ok _ r => rfl
  | error fault r =>
    rw [hr] at h
    cases h

/-- The way to a site where the score fails is walked to its end. There the performance stops, and
with another statement at the site it goes on from there. -/
theorem Score.FailsAt.exists_walk {score : Score} {site : Site} {s : Statement}
    {cause : SemanticCause} (h : score.FailsAt site s cause) (player : Player) (now : Float) :
    ∃ w : Walk, site.steps.foldl (Walk.take player.settings) (.start now) = w ∧ w.fault = none ∧
      w.Alike ((unrollBlock site.complete).foldl (Walk.take player.settings) (.start now)) ∧
      Tracks player.settings (player.execute score now).1.recital (w.stop s.pos cause) ∧
      (player.execute score now).1.fault = some ⟨s.pos, .semantic cause⟩ ∧
      ∀ t, w.cues <+: (player.execute ⟨site.fill t⟩ now).1.recital.cues := by
  obtain ⟨rest, hrest⟩ := site.unrollBlock_fill h.played
  have halike := site.alike_steps player.settings (Walk.Alike.refl (.start now))
  have hcomplete := (tracks_execute player ⟨site.complete⟩ now).2
  rw [fault_execute_of_playable h.complete] at hcomplete
  have hfault := halike.fault.trans hcomplete.symm
  -- the performance is the walk to the site, the statement there, and the rest
  have htracks := fun t => tracks_execute player ⟨site.fill t⟩ now
  simp only [hrest, List.foldl_append] at htracks
  refine ⟨_, rfl, hfault, halike, ?_⟩
  have hstop := Walk.foldl_unroll_of_defect player.settings h.defect hfault (rest s)
  rw [List.foldl_append] at hstop
  obtain ⟨hrecital, hend⟩ := htracks s
  rw [hstop, ← h.statements] at hrecital hend
  refine ⟨hrecital, hend, fun t => ?_⟩
  rw [(htracks t).1.cues]
  exact (Walk.cues_foldl _ _).trans (Walk.cues_foldl _ _)

/-- **A fault stops a performance cleanly** at the first statement that has a defect and is played.
What has been told is the beginning of what is told with any other statement in its place; each note
that was played is told from its start to its end, the sequences around the statement have started
and not ended, all others have ended. The stage is that after the statements which are complete, and
the settings stay. A text without a score tells nothing. -/
theorem fault_stops_cleanly (player : Player) (score : Score) (now : Float) :
    let run := player.execute score now
    (∀ fault, run.1.voices player.settings = .error fault ↔
      ∃ site s cause, score.FailsAt site s cause ∧ fault = ⟨s.pos, .semantic cause⟩) ∧
    (∀ site s cause, score.FailsAt site s cause →
      let before := player.execute ⟨site.complete⟩ now
      (∀ t, run.1.recital.cues <+: (player.execute ⟨site.fill t⟩ now).1.recital.cues) ∧
      Unclosed site.names run.1.recital.cues ∧
      (∃ voices, before.1.voices player.settings = .ok voices ∧
        run.1.recital.cues.filter Cue.isNote = voices.flatMap Voice.cues) ∧
      run.2 = ⟨player.settings, before.2.stage⟩) ∧
    ∀ source fault, Score.ofSource source = .error fault →
      (Performance.ofSource source now).fault = some fault ∧
        (Performance.ofSource source now).recital.cues = [] := by
  intro run
  refine ⟨fun fault => ?_, fun site s cause h => ?_, fun source fault h => ?_⟩
  · rw [voices_eq_error_iff_fault]
    constructor
    · intro hfault
      refine exists_site_of_playBlock score.statements (.opening now) fault ?_
      rw [← voices_eq_error_iff_faultOf player score now fault]
      exact (voices_eq_error_iff_fault _ _ fault).mpr hfault
    · rintro ⟨site, s, cause, h, rfl⟩
      obtain ⟨w, -, -, -, -, hfault, -⟩ := h.exists_walk player now
      exact hfault
  · intro before
    obtain ⟨w, hw, hfault, halike, htracks, -, hfront⟩ := h.exists_walk player now
    obtain ⟨hbefore, -⟩ := tracks_execute player ⟨site.complete⟩ now
    have hcues : run.1.recital.cues = w.cues := htracks.cues
    rw [hcues]
    refine ⟨hfront, ?_, ⟨w.voices, ?_, ?_⟩, ?_⟩
    · obtain ⟨cues, hadded, hunclosed⟩ := site.unclosed_steps (hw ▸ hfault)
      rw [hw] at hadded
      rw [hadded]
      exact hunclosed
    · rw [Performance.voices, fault_execute_of_playable h.complete, hbefore.voices, halike.voices]
    · subst hw
      exact (Walk.mirrors_foldl hfault).notes
    · have hstage : run.1.recital.stage = before.1.recital.stage :=
        htracks.stage.trans (halike.stage.trans hbefore.stage.symm)
      exact congrArg (Player.mk player.settings) hstage
  · rw [Performance.ofSource, h]
    exact ⟨rfl, rfl⟩

/-- Two notes in a sequence, and a tempo of zero in the first round of a repetition between them. -/
theorem fault_stops_cleanly_between_notes :
    let note : Statement := .note ⟨.start, ⟨.c, .natural⟩, 4, "1/4"⟩
    let site : Site := .inside [] (.sequence .start "a")
      (.inside [note] (.repetition .start 2) (.here [] [note]) [note]) []
    let run := (Player.new .standard).execute ⟨site.fill (.tempo .start 0)⟩ 0
    Score.FailsAt ⟨site.fill (.tempo .start 0)⟩ site (.tempo .start 0) (.invalidTempo 0) ∧
      run.1.voices (Player.new .standard).settings = .error ⟨.start, .semantic (.invalidTempo 0)⟩ ∧
      run.1.recital.cues <+: ((Player.new .standard).execute ⟨site.fill note⟩ 0).1.recital.cues ∧
      Unclosed ["a"] run.1.recital.cues := by
  intro note site run
  have hcount : (2 : UInt32) ≠ 0 := by decide
  have hcomplete : Playable site.complete :=
    (playable_iff_faultOf _ (.opening 0)).mpr (by decide +kernel)
  have hfails : Score.FailsAt ⟨site.fill (.tempo .start 0)⟩ site (.tempo .start 0)
      (.invalidTempo 0) := ⟨rfl, ⟨hcount, trivial⟩, hcomplete, .tempo .start⟩
  obtain ⟨hfault, hrun, -⟩ := fault_stops_cleanly (.new .standard) ⟨site.fill (.tempo .start 0)⟩ 0
  obtain ⟨hfront, hunclosed, -, -⟩ := hrun _ _ _ hfails
  exact ⟨hfails, (hfault _).mpr ⟨_, _, _, hfails, rfl⟩, hfront note, hunclosed⟩

end Melody
