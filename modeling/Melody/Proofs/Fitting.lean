import Mathlib.Algebra.Order.Field.Basic
import Mathlib.Tactic.FieldSimp
import Mathlib.Tactic.NormNum
import Mathlib.Tactic.Ring
import Melody.Sound.Envelope

/-!
# Fitting an envelope to a note

An envelope is fitted to a note by shortening its three phases by one factor, and only if the note
is too short for them. Over numbers that are not rounded the fitted phases then fill the note, and
it makes no difference whether an envelope is fitted at once or by way of a longer note.

* `Envelope.IsPhased`: no phase has a negative length; `IsPhased.fit`: nor has one when it is
  fitted;
* `Envelope.fit_of_le`, `Envelope.fit_of_lt`: the two cases, of which neither divides by zero;
* `Envelope.total_fit`: the fitted phases take as long as they did, or fill the note;
* `Envelope.exists_fit_eq_scale`: they are shortened by one factor;
* `Envelope.fit_fit`: the shorter of two notes decides;
* **`fit_rescales`**: what fitting does to an envelope.
-/

namespace Melody.Sound

namespace Envelope

/-- No phase has a negative length; the sustained level may be any number. -/
structure IsPhased {K : Type} [Zero K] [LE K] (e : Envelope K) : Prop where
  attack : 0 ≤ e.attack
  decay : 0 ≤ e.decay
  release : 0 ≤ e.release

section Scale

variable {K : Type} [Field K] (e : Envelope K)

theorem total_scale (factor : K) : (e.scale factor).total = e.total * factor := by
  simp only [total, scale]
  ring

theorem scale_one : e.scale 1 = e := by
  simp [scale]

theorem scale_scale (a b : K) : (e.scale a).scale b = e.scale (a * b) := by
  simp [scale, mul_assoc]

end Scale

/-! ## Notes that are long enough, and others -/

variable {K : Type} [Field K] [LinearOrder K] {e : Envelope K} {duration shorter : K}

theorem fit_of_le (h : e.total ≤ duration) : e.fit duration = e := if_pos (.inl h)

/-- An envelope that is too long for a note has a length to divide by. -/
theorem fit_of_lt (hduration : 0 ≤ duration) (h : duration < e.total) :
    e.fit duration = e.scale (duration / e.total) :=
  if_neg (not_or.mpr ⟨not_le.mpr h, not_le.mpr (hduration.trans_lt h)⟩)

/-- **The fitted phases fill a note that is too short**, and otherwise take as long as before. -/
theorem total_fit (e : Envelope K) (hduration : 0 ≤ duration) :
    (e.fit duration).total = min e.total duration := by
  rcases le_or_gt e.total duration with h | h
  · rw [fit_of_le h, min_eq_left h]
  · have htotal : e.total ≠ 0 := (hduration.trans_lt h).ne'
    rw [fit_of_lt hduration h, total_scale, mul_div_cancel₀ duration htotal, min_eq_right h.le]

theorem total_fit_le (e : Envelope K) (hduration : 0 ≤ duration) :
    (e.fit duration).total ≤ duration :=
  (e.total_fit hduration).trans_le (min_le_right _ _)

/-- **It makes no difference to fit an envelope to a longer note first.** -/
theorem fit_fit (hshorter : 0 ≤ shorter) (h : shorter ≤ duration) :
    (e.fit duration).fit shorter = e.fit shorter := by
  have hduration : 0 ≤ duration := hshorter.trans h
  rcases le_or_gt e.total duration with hfits | htotal
  · rw [fit_of_le hfits]
  · have hfilled : (e.fit duration).total = duration := by
      rw [e.total_fit hduration, min_eq_right htotal.le]
    rcases h.eq_or_lt with rfl | hlt
    · exact fit_of_le hfilled.le
    · have hne : duration ≠ 0 := (hshorter.trans_lt hlt).ne'
      have hfactor : duration / e.total * (shorter / duration) = shorter / e.total := by
        field_simp
      calc (e.fit duration).fit shorter
          = (e.fit duration).scale (shorter / duration) := by
            rw [fit_of_lt hshorter (hlt.trans_eq hfilled.symm), hfilled]
        _ = e.scale (shorter / e.total) := by
            rw [fit_of_lt hduration htotal, scale_scale, hfactor]
        _ = e.fit shorter := (fit_of_lt hshorter (hlt.trans htotal)).symm

variable [IsStrictOrderedRing K]

/-- **All three phases are shortened by one factor.** -/
theorem exists_fit_eq_scale (e : Envelope K) (hduration : 0 ≤ duration) :
    ∃ factor, 0 ≤ factor ∧ factor ≤ 1 ∧ e.fit duration = e.scale factor := by
  rcases le_or_gt e.total duration with h | h
  · exact ⟨1, zero_le_one, le_rfl, by rw [fit_of_le h, scale_one]⟩
  · have htotal : 0 < e.total := hduration.trans_lt h
    exact ⟨duration / e.total, div_nonneg hduration htotal.le, (div_le_one htotal).mpr h.le,
      fit_of_lt hduration h⟩

theorem IsPhased.fit (he : e.IsPhased) (hduration : 0 ≤ duration) :
    (e.fit duration).IsPhased := by
  obtain ⟨factor, hfactor, -, hfit⟩ := e.exists_fit_eq_scale hduration
  rw [hfit]
  exact ⟨mul_nonneg he.attack hfactor, mul_nonneg he.decay hfactor, mul_nonneg he.release hfactor⟩

end Envelope

/-- **Fitting rescales an envelope consistently** where nothing is rounded. The fitted phases take
as long as before or as the note, whichever is less; they are in the same proportion as before,
none is longer, and the sustained level stays. An envelope that is short enough is not changed.
Fitting it again to a shorter note is fitting it to that note at once, and fitting it again to the
same note changes nothing. -/
theorem fit_rescales {K : Type} [Field K] [LinearOrder K] [IsStrictOrderedRing K]
    {e : Envelope K} {duration : K} (he : e.IsPhased) (hduration : 0 ≤ duration) :
    let fitted := e.fit duration
    fitted.total = min e.total duration ∧
      (∃ factor, 0 ≤ factor ∧ factor ≤ 1 ∧ fitted.attack = e.attack * factor ∧
        fitted.decay = e.decay * factor ∧ fitted.release = e.release * factor) ∧
      (fitted.attack ≤ e.attack ∧ fitted.decay ≤ e.decay ∧ fitted.release ≤ e.release) ∧
      fitted.sustain = e.sustain ∧
      (e.total ≤ duration → fitted = e) ∧
      (∀ shorter, 0 ≤ shorter → shorter ≤ duration → fitted.fit shorter = e.fit shorter) ∧
      fitted.fit duration = fitted := by
  intro fitted
  obtain ⟨factor, hfactor, hfactor', hfit⟩ := e.exists_fit_eq_scale hduration
  refine ⟨e.total_fit hduration, ⟨factor, hfactor, hfactor', ?_⟩, ?_,
    e.sustain_fit duration, Envelope.fit_of_le, fun _ => Envelope.fit_fit,
    Envelope.fit_fit hduration le_rfl⟩
  · change (e.fit duration).attack = _ ∧ (e.fit duration).decay = _ ∧ (e.fit duration).release = _
    rw [hfit]
    exact ⟨rfl, rfl, rfl⟩
  · change (e.fit duration).attack ≤ _ ∧ (e.fit duration).decay ≤ _ ∧ (e.fit duration).release ≤ _
    rw [hfit]
    exact ⟨mul_le_of_le_one_right he.attack hfactor', mul_le_of_le_one_right he.decay hfactor',
      mul_le_of_le_one_right he.release hfactor'⟩

/-- An envelope of two seconds, fitted to a note of one second and then to one of half a second. -/
theorem fit_rescales_twice :
    let e : Envelope ℚ := ⟨1 / 2, 1 / 2, 1 / 2, 1⟩
    e.IsPhased ∧ (0 : ℚ) ≤ 1 ∧ (e.fit 1).total = 1 ∧ (e.fit 1).fit (1 / 2) = e.fit (1 / 2) ∧
      (e.fit (1 / 2)).release = 1 / 4 := by
  intro e
  have he : e.IsPhased := ⟨by norm_num [e], by norm_num [e], by norm_num [e]⟩
  obtain ⟨htotal, -, -, -, -, hfit, -⟩ := fit_rescales he (zero_le_one' ℚ)
  refine ⟨he, zero_le_one, ?_, hfit (1 / 2) (by norm_num) (by norm_num), ?_⟩
  · rw [htotal]
    norm_num [e, Envelope.total]
  · norm_num [e, Envelope.fit, Envelope.total, Envelope.scale]

end Melody.Sound
