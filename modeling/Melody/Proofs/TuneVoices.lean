import Mathlib.Data.List.Forall2
import Melody.Proofs.TuneLayout
import Melody.Proofs.Walks

/-!
# The tune of a score has the notes that are played

A tune is written without playing the score, and yet it has a note for each tone, in the same
order. Its tempo is the one at the end of the performance, unless a block sets a tempo.

* `playedFrom`, `Score.played`: the notes of a trace, each with the tempo it is played at;
* `Note.Gives`: the tone of a note at a tempo; `Walk.gives_foldl`;
* `filterMap_bpm?_unrollBlock`: the trace of a score has its tempos, if no block sets one;
* **`tune_mirrors_voices`**: notes and tones correspond, one by one.
-/

namespace Melody

open Sound (Settings Voice frequency?)

/-- The notes of a trace, each with the tempo it is played at, if the tempo is `bpm` at first. -/
def playedFrom (bpm : UInt32) : List Step → List (Note × UInt32)
  | [] => []
  | .note n :: trace => (n, bpm) :: playedFrom bpm trace
  | s :: trace => playedFrom (s.bpm?.getD bpm) trace

/-- The notes of a score in the order they are played in, each with its tempo. -/
def Score.played (score : Score) : List (Note × UInt32) :=
  playedFrom Stage.standardTempo (unrollBlock score.statements)

theorem map_fst_playedFrom (bpm : UInt32) (trace : List Step) :
    (playedFrom bpm trace).map Prod.fst = trace.filterMap Step.note? := by
  induction trace generalizing bpm with
  | nil => rfl
  | cons s trace ih => cases s <;> simp [playedFrom, List.filterMap_cons, Step.note?, ih]

/-- The voice has the frequency of the note, and lasts as long as the note does at the tempo. -/
def Note.Gives (n : Note) (bpm : UInt32) (v : Voice) : Prop :=
  frequency? n.spelling n.octave = some v.event.frequency ∧
    ∃ beats, beats? n.length = some beats ∧ v.event.duration = beats * 60 / bpm.toFloat

theorem tempoAfter_concat (trace : List Step) (s : Step) :
    tempoAfter (trace ++ [s]) = s.bpm?.getD (tempoAfter trace) := by
  cases s with
  | tempo pos bpm => exact tempoAfter_tempo trace pos bpm
  | _ => exact tempoAfter_other trace rfl

theorem Walk.gives_foldl {settings : Settings} {w : Walk} {trace : List Step}
    (h : (trace.foldl (Walk.take settings) w).fault = none) :
    ∃ voices, (trace.foldl (Walk.take settings) w).voices = w.voices ++ voices ∧
      List.Forall₂ (fun p v => p.1.Gives p.2 v) (playedFrom (tempoAfter w.taken) trace) voices := by
  induction trace generalizing w with
  | nil => exact ⟨[], (List.append_nil _).symm, .nil⟩
  | cons s trace ih =>
    obtain ⟨w', hgoes, hfoldl⟩ := foldl_cons_of_fault h
    rw [hfoldl] at h ⊢
    obtain ⟨voices, hvoices, hgives⟩ := ih h
    rw [hgoes.taken, tempoAfter_concat] at hgives
    cases hgoes with
    | tempo | volume | enter | leave => exact ⟨voices, hvoices, hgives⟩
    | @note n event hevent =>
      obtain ⟨frequency, beats, hfrequency, hbeats, rfl⟩ := Stage.event_eq_ok_iff.mp hevent
      have hgiven : n.Gives (tempoAfter w.taken) (settings.voice ⟨frequency, w.stage.cursor,
          beats * 60 / w.stage.tempo.toFloat, w.stage.volume.toFloat / 100⟩) :=
        ⟨hfrequency, beats, hbeats, rfl⟩
      exact ⟨_, hvoices.trans (List.append_assoc ..), .cons hgiven hgives⟩

/-! ## Notes and tempos of a trace -/

mutual

theorem eq_or_lt_of_mem_listing : ∀ (s : Statement) (depth : Nat),
    ∀ p ∈ s.listing depth, p = (depth, s) ∨ depth < p.1
  | .tempo _ _, _, _, hp | .volume _ _, _, _, hp | .note _, _, _, hp =>
    .inl (List.mem_singleton.mp hp)
  | .sequence _ _ body, depth, p, hp | .repetition _ _ body, depth, p, hp =>
    (List.mem_cons.mp hp).imp_right (le_of_mem_blockListing body (depth + 1) p)

theorem le_of_mem_blockListing :
    ∀ (ss : List Statement) (depth : Nat), ∀ p ∈ blockListing depth ss, depth ≤ p.1
  | [], depth, p, hp => by cases hp
  | s :: ss, depth, p, hp => by
    rw [blockListing, List.mem_append] at hp
    rcases hp with hp | hp
    · rcases eq_or_lt_of_mem_listing s depth p hp with rfl | hlt
      · exact Nat.le_refl _
      · exact Nat.le_of_lt hlt
    · exact le_of_mem_blockListing ss depth p hp

end

mutual

theorem filterMap_bpm?_unroll_eq_nil : ∀ (s : Statement) (depth : Nat),
    (∀ p ∈ s.listing depth, p.2.bpm? = none) → s.unroll.filterMap Step.bpm? = []
  | .tempo pos bpm, depth, h => by
    have hbpm := h _ List.mem_cons_self
    cases hbpm
  | .volume pos percent, depth, h | .note n, depth, h => rfl
  | .sequence pos name body, depth, h => by
    rw [Statement.listing, List.forall_mem_cons] at h
    rw [Statement.unroll, List.filterMap_cons, List.filterMap_append,
      filterMap_bpm?_unrollBlock_eq_nil body _ h.2]
    rfl
  | .repetition pos count body, depth, h => by
    rw [Statement.listing, List.forall_mem_cons] at h
    rw [Statement.unroll, filterMap_flatten_replicate,
      filterMap_bpm?_unrollBlock_eq_nil body _ h.2]
    simp

theorem filterMap_bpm?_unrollBlock_eq_nil : ∀ (ss : List Statement) (depth : Nat),
    (∀ p ∈ blockListing depth ss, p.2.bpm? = none) → (unrollBlock ss).filterMap Step.bpm? = []
  | [], depth, h => rfl
  | s :: ss, depth, h => by
    rw [blockListing, List.forall_mem_append] at h
    rw [unrollBlock, List.filterMap_append, filterMap_bpm?_unroll_eq_nil s depth h.1,
      filterMap_bpm?_unrollBlock_eq_nil ss depth h.2]
    rfl

end

/-- If no block sets a tempo, the tempos of the trace are those outside of all blocks. -/
theorem filterMap_bpm?_unrollBlock {ss : List Statement}
    (h : ∀ p ∈ blockListing 0 ss, p.2.bpm? ≠ none → p.1 = 0) :
    (unrollBlock ss).filterMap Step.bpm? = ss.filterMap Statement.bpm? := by
  induction ss with
  | nil => rfl
  | cons s ss ih =>
    rw [blockListing, List.forall_mem_append] at h
    rw [unrollBlock, List.filterMap_append, ih h.2, List.filterMap_cons]
    cases hbpm : s.bpm? with
    | some bpm =>
      cases s <;> cases hbpm
      rfl
    | none =>
      rw [filterMap_bpm?_unroll_eq_nil s 0 ?_]
      · rfl
      · intro p hp
        rcases eq_or_lt_of_mem_listing s 0 p hp with rfl | hlt
        · exact hbpm
        · by_contra hp'
          exact absurd (h.1 p hp hp') (Nat.ne_of_gt hlt)

theorem notes_eq_map_fst_played (score : Score) : score.notes = score.played.map Prod.fst := by
  rw [notes_eq_filterMap, Score.played, map_fst_playedFrom]

/-- **The notes of a tune are those that are played**: below its header, it has one note for each
voice and in the same order, whatever the settings and the first moment, and when its rows are split
at the blanks, the texts of these notes are found in it and no others. The tempo of the tune is the
last one of the performance if no block sets a tempo. -/
theorem tune_mirrors_voices {player : Player} {score : Score} {now : Float} {voices : List Voice}
    (h : (player.execute score now).1.voices player.settings = .ok voices) :
    let notes := score.played.map Prod.fst
    score.tune.toList = (tuneHeaderRows score.tuneTempo).flatMap (· ++ ['\n']) ++
        (notes.mapIdx (markedNote notes.length)).flatten ++ ['|', ']'] ∧
      ((Text.lines score.tune.toList).drop 6).flatMap (fun row => (row.splitOn ' ').dropLast) =
        notes.map (·.tuneText.toList) ∧
      List.Forall₂ (fun p v => p.1.Gives p.2 v) score.played voices ∧
      ((∀ p ∈ score.listing, p.2.bpm? ≠ none → p.1 = 0) →
        score.tuneTempo = (player.execute score now).2.stage.tempo) := by
  intro notes
  have hnotes : score.notes = notes := notes_eq_map_fst_played score
  obtain ⟨w, hw, hfault, htaken, hvoices, -, hstage⟩ := exists_walk h
  refine ⟨hnotes ▸ toList_tune score, hnotes ▸ splitOn_lines_tune score, ?_, ?_⟩
  · obtain ⟨added, hadded, hgives⟩ := Walk.gives_foldl (hw ▸ hfault)
    rw [hw, hvoices] at hadded
    obtain rfl : voices = added := hadded
    exact hgives
  · intro htempo
    rw [← hstage, Walk.stage, htaken, tempoAfter, filterMap_bpm?_unrollBlock htempo]
    rfl

theorem tune_mirrors_voices_short : ∃ voices,
    ((Player.new .standard).execute .short 0).1.voices (Player.new .standard).settings =
      .ok voices ∧
    Score.short.tune = "X:1\nT:Score\nM:4/4\nL:1/4\nQ:1/4=60\nK:C\nC A/2 A/2 |]" ∧
    ((Text.lines Score.short.tune.toList).drop 6).flatMap (fun row => (row.splitOn ' ').dropLast) =
      [['C'], ['A', '/', '2'], ['A', '/', '2']] ∧
    List.Forall₂ (fun p v => p.1.Gives p.2 v) Score.short.played voices ∧
      Score.short.tuneTempo = ((Player.new .standard).execute .short 0).2.stage.tempo := by
  obtain ⟨voices, h⟩ := exists_voices_short
  obtain ⟨htune, hsplit, hgives, htempo⟩ := tune_mirrors_voices h
  refine ⟨voices, h, String.toList_inj.mp (htune.trans (by decide +kernel)),
    hsplit.trans (by decide +kernel), hgives, htempo ?_⟩
  simp [Score.short, Score.listing, blockListing, Statement.listing, Statement.bpm?]

end Melody
