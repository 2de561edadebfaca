import Melody.Proofs.Binary64.Arithmetic
import Melody.Proofs.Walks

/-!
# Voices follow each other

Each voice begins at the very number that the one before it ends at, and its envelope spans it from
its first moment to its last. No voice lasts a negative time, so that nothing goes back.

* `Walk.starts`, `Walk.Goes.starts_eq`: where the voices begin, and where they end;
* `Walk.foldl_induction_of_tempo`: what steps preserve, knowing that the tempo is never zero;
* `duration_nonneg`: a note lasts a finite time that is not negative;
* `Rising`: moments of which none is before an earlier one; `Walk.Goes.rising_starts`;
* **`voices_continuous`**: the timeline of a score has no gap and no overlap.
-/

namespace Melody

open Sound (Event Settings Voice)
open Binary64

variable {settings : Settings} {w w' : Walk} {s : Step} {now : Float}

/-- Where the voices of a walk begin, and where the next one would. -/
def Walk.starts (w : Walk) : List Float := w.voices.map (·.event.start) ++ [w.cursor]

/-- The envelope of the voice begins and ends with its event. -/
def Sound.Voice.IsSpanned (v : Voice) : Prop :=
  v.contour.toList.head?.map (·.time) = some v.event.start ∧
    v.contour.toList.getLast?.map (·.time) = some v.event.stop

/-- A step adds no voice and stays, or adds one and moves to its end. -/
theorem Walk.Goes.voices (h : w.Goes settings s w') :
    w'.voices = w.voices ∧ w'.cursor = w.cursor ∨
      ∃ n event, w.stage.event n = .ok event ∧ event.start = w.cursor ∧
        w'.voices = w.voices ++ [settings.voice event] ∧ w'.cursor = event.stop := by
  cases h with
  | tempo | volume | enter | leave => exact .inl ⟨rfl, rfl⟩
  | @note n event hevent =>
    obtain ⟨frequency, beats, -, -, rfl⟩ := Stage.event_eq_ok_iff.mp hevent
    exact .inr ⟨n, _, hevent, rfl, rfl, rfl⟩

theorem Walk.Goes.starts (h : w.Goes settings s w') :
    (w'.starts = w.starts ∧ w'.voices = w.voices) ∨
      ∃ v : Voice, w'.starts = w.starts ++ [v.event.stop] ∧ w'.voices = w.voices ++ [v] ∧
        w'.cursor = v.event.stop := by
  rcases h.voices with ⟨hvoices, hcursor⟩ | ⟨n, event, -, hstart, hvoices, hcursor⟩
  · exact .inl ⟨by rw [Walk.starts, hvoices, hcursor, Walk.starts], hvoices⟩
  · refine .inr ⟨_, ?_, hvoices, hcursor⟩
    rw [Walk.starts, Walk.starts, hvoices, hcursor, List.map_append, ← hstart]
    rfl

theorem Walk.Goes.starts_eq (h : w.Goes settings s w')
    (hw : w.starts = now :: w.voices.map (·.event.stop)) :
    w'.starts = now :: w'.voices.map (·.event.stop) := by
  rcases h.starts with ⟨hstarts, hvoices⟩ | ⟨v, hstarts, hvoices, -⟩
  · rw [hstarts, hvoices, hw]
  · rw [hstarts, hvoices, hw, List.map_append, List.cons_append]
    rfl

theorem Walk.Goes.isSpanned (h : w.Goes settings s w') (hw : ∀ v ∈ w.voices, v.IsSpanned) :
    ∀ v ∈ w'.voices, v.IsSpanned := by
  rcases h.voices with ⟨hvoices, -⟩ | ⟨n, event, -, -, hvoices, -⟩
  · rw [hvoices]
    exact hw
  · rw [hvoices, List.forall_mem_append, List.forall_mem_singleton]
    exact ⟨hw, rfl, rfl⟩

/-! ## No way back -/

theorem Walk.Goes.tempoAfter_ne_zero (h : w.Goes settings s w') (hw : tempoAfter w.taken ≠ 0) :
    tempoAfter w'.taken ≠ 0 := by
  rw [h.taken]
  cases h with
  | tempo hbpm =>
    rw [tempoAfter_tempo]
    exact hbpm
  | volume | enter | leave | note =>
    rw [tempoAfter_other _ rfl]
    exact hw

/-- **What every step preserves** while the tempo is not zero, which it never is. -/
theorem Walk.foldl_induction_of_tempo {trace : List Step} {P : Walk → Prop}
    (hstep : ∀ w s w', w.Goes settings s w' → tempoAfter w.taken ≠ 0 → P w → P w')
    (h : (trace.foldl (take settings) (.start now)).fault = none) (hstart : P (.start now)) :
    P (trace.foldl (take settings) (.start now)) := by
  have htempo : tempoAfter [] ≠ 0 := by decide
  have hinvariant := foldl_induction (P := fun w => tempoAfter w.taken ≠ 0 ∧ P w)
    (fun w s w' hgoes hw => ⟨hgoes.tempoAfter_ne_zero hw.1, hstep w s w' hgoes hw.1 hw.2⟩)
    h ⟨htempo, hstart⟩
  exact hinvariant.2

theorem beats_nonneg {text : String} {beats : Float} (h : beats? text = some beats) :
    (beats * 60).isFinite = true ∧ 0 ≤ beats * 60 := by
  unfold beats? at h
  split at h <;> cases h <;> decide +kernel

/-- **A note lasts a finite time** that is not negative. -/
theorem duration_nonneg {stage : Stage} {n : Note} {event : Event}
    (h : stage.event n = .ok event) (htempo : stage.tempo ≠ 0) :
    event.duration.isFinite = true ∧ 0 ≤ event.duration := by
  obtain ⟨frequency, beats, -, hbeats, rfl⟩ := Stage.event_eq_ok_iff.mp h
  obtain ⟨hfinite, hnonneg⟩ := beats_nonneg hbeats
  exact div_toFloat_nonneg hfinite hnonneg htempo

/-- Moments, none of which is before an earlier one. -/
def Rising (ts : List Float) : Prop := (∀ t ∈ ts, t.isNaN = false) ∧ ts.Pairwise (· ≤ ·)

theorem rising_singleton {t : Float} (h : t.isNaN = false) : Rising [t] :=
  ⟨List.forall_mem_singleton.mpr h, List.pairwise_singleton _ _⟩

theorem Rising.concat {ts : List Float} {c d : Float} (h : Rising (ts ++ [c]))
    (hd : d.isNaN = false) (hcd : c ≤ d) : Rising (ts ++ [c] ++ [d]) := by
  obtain ⟨hnumbers, hpairs⟩ := h
  have hc : c.isNaN = false := hnumbers c (by simp)
  refine ⟨List.forall_mem_append.mpr ⟨hnumbers, List.forall_mem_singleton.mpr hd⟩, ?_⟩
  rw [List.pairwise_append]
  refine ⟨hpairs, List.pairwise_singleton _ _, fun t ht d' hd' => ?_⟩
  obtain rfl := List.mem_singleton.mp hd'
  -- every moment before is at most `c`
  have htc : t ≤ c := by
    rcases List.mem_append.mp ht with ht' | ht'
    · exact (List.pairwise_append.mp hpairs).2.2 t ht' c (List.mem_singleton_self c)
    · rw [List.mem_singleton.mp ht']
      exact Binary64.le_refl hc
  exact Binary64.le_trans (hnumbers t ht) hc hd htc hcd

theorem Walk.Goes.cursor_le (h : w.Goes settings s w') (htempo : tempoAfter w.taken ≠ 0)
    (hw : w.cursor.isNaN = false) : w'.cursor.isNaN = false ∧ w.cursor ≤ w'.cursor := by
  rcases h.voices with ⟨-, hcursor⟩ | ⟨n, event, hevent, hstart, -, hcursor⟩
  · rw [hcursor]
    exact ⟨hw, Binary64.le_refl hw⟩
  · obtain ⟨hfinite, hnonneg⟩ := duration_nonneg hevent htempo
    rw [hcursor, Event.stop, hstart]
    exact Binary64.le_add_of_nonneg hw hfinite hnonneg

theorem Walk.Goes.rising_starts (h : w.Goes settings s w') (htempo : tempoAfter w.taken ≠ 0)
    (hw : Rising w.starts) : Rising w'.starts := by
  have hcursor := h.cursor_le htempo (hw.1 w.cursor (by simp [Walk.starts]))
  rcases h.starts with ⟨hstarts, -⟩ | ⟨v, hstarts, -, hstop⟩
  · rw [hstarts]
    exact hw
  · rw [hstarts, ← hstop]
    exact hw.concat hcursor.1 hcursor.2

/-- **The timeline of a score has no gap and no overlap**, whatever the settings: the first voice
begins at the first moment, each other one where the one before it ends, and the cursor is left at
the end of the last one. Envelopes span their voices. Nothing goes back if the first moment is a
number. -/
theorem voices_continuous {player : Player} {score : Score} {now : Float} {voices : List Voice}
    (h : (player.execute score now).1.voices player.settings = .ok voices) :
    let starts := voices.map (·.event.start) ++ [(player.execute score now).2.stage.cursor]
    starts = now :: voices.map (·.event.stop) ∧
      (∀ v ∈ voices, v.contour.toList.head?.map (·.time) = some v.event.start ∧
        v.contour.toList.getLast?.map (·.time) = some v.event.stop) ∧
      (now.isNaN = false → starts.Pairwise (· ≤ ·)) := by
  obtain ⟨_, rfl, hfault, -, rfl, -, hstage⟩ := exists_walk h
  rw [← hstage]
  intro starts
  refine ⟨?_, ?_, fun hnow => ?_⟩
  · exact Walk.foldl_induction (P := fun w => w.starts = now :: w.voices.map (·.event.stop))
      (fun w s w' hgoes hw => hgoes.starts_eq hw) hfault rfl
  · exact Walk.foldl_induction (P := fun w => ∀ v ∈ w.voices, v.IsSpanned)
      (fun w s w' hgoes hw => hgoes.isSpanned hw) hfault nofun
  · have hrising := Walk.foldl_induction_of_tempo (P := fun w => Rising w.starts)
      (fun w s w' hgoes htempo hw => hgoes.rising_starts htempo hw) hfault (rising_singleton hnow)
    exact hrising.2

theorem voices_continuous_short : ∃ voices : List Voice,
    let starts := voices.map (·.event.start) ++
      [((Player.new .standard).execute .short 0).2.stage.cursor]
    ((Player.new .standard).execute .short 0).1.voices (Player.new .standard).settings =
      .ok voices ∧
    starts = 0 :: voices.map (·.event.stop) ∧ starts.Pairwise (· ≤ ·) := by
  obtain ⟨voices, h⟩ := exists_voices_short
  obtain ⟨hstarts, -, hrising⟩ := voices_continuous h
  have hnow : Float.isNaN 0 = false := rfl
  exact ⟨voices, h, hstarts, hrising hnow⟩

end Melody
