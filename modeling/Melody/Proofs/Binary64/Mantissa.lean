import Melody.Proofs.Binary64.Rounding

/-!
# Mantissas with the digits behind them

Operations on floating-point numbers carry a mantissa together with two bits that say enough about
the digits behind it for rounding. Such an extended mantissa stands for a rational number, and
shifting and rounding it are halving and rounding that number.

* `extended`: a rational number as an extended mantissa;
* `shiftRight_extended`: shifting halves;
* `ofMantissaAndAccuracy_exact`, `ofMantissaAndAccuracy_div`: whole numbers and quotients;
* **`roundedMantissa_extended`**: rounding goes to the next whole number.
-/

namespace Melody.Binary64

open Float.Model.UnpackedFloat

/-- A number cut off behind its unit digit, the next digit, and whether others follow. -/
def extended (q : ℚ) : ExtendedMantissa :=
  ⟨⌊q⌋₊, ⌊2 * q⌋₊ % 2 != 0, decide ((⌊2 * q⌋₊ : ℚ) ≠ 2 * q)⟩

theorem floor_eq_self_iff {q : ℚ} :
    (⌊q⌋₊ : ℚ) = q ↔ ⌊2 * q⌋₊ % 2 = 0 ∧ (⌊2 * q⌋₊ : ℚ) = 2 * q := by
  constructor
  · intro h
    have htwo : 2 * q = ((2 * ⌊q⌋₊ : ℕ) : ℚ) := by
      push_cast
      rw [h]
    rw [htwo, Nat.floor_natCast]
    exact ⟨Nat.mul_mod_right 2 _, rfl⟩
  · rintro ⟨heven, h⟩
    obtain ⟨k, hk⟩ := Nat.dvd_of_mod_eq_zero heven
    have hq : q = (k : ℚ) := by
      rw [hk] at h
      push_cast at h
      linarith
    rw [hq, Nat.floor_natCast]

theorem shiftRightOne_extended (q : ℚ) : (extended q).shiftRightOne = extended (q / 2) := by
  have hhalf : 2 * (q / 2) = q := by ring
  have hfloor : ⌊q / 2⌋₊ = ⌊q⌋₊ / 2 := by
    exact_mod_cast Nat.floor_div_natCast q 2
  have hsticky : (⌊2 * q⌋₊ % 2 != 0 || decide ((⌊2 * q⌋₊ : ℚ) ≠ 2 * q)) =
      decide ((⌊q⌋₊ : ℚ) ≠ q) := by
    rw [Bool.eq_iff_iff]
    simp only [Bool.or_eq_true, bne_iff_ne, decide_eq_true_eq, ne_eq]
    rw [floor_eq_self_iff (q := q)]
    tauto
  simp only [extended, ExtendedMantissa.shiftRightOne, hhalf, hfloor, hsticky]

theorem shiftRight_extended (q : ℚ) (n : ℕ) : extended q >>> n = extended (q / 2 ^ n) := by
  induction n with
  | zero => simp [HShiftRight.hShiftRight, Nat.repeat]
  | succ n ih =>
    have hsucc : extended q >>> (n + 1) = (extended q >>> n).shiftRightOne := rfl
    rw [hsucc, ih, shiftRightOne_extended, div_div, pow_succ]

/-! ## Rounding -/

/-- The two bits say where the digits behind the unit digit lie between zero, a half and one. -/
theorem extended_add (n : ℕ) {f : ℚ} (hf : 0 ≤ f) (hf1 : f < 1) :
    extended (n + f) = ⟨n, decide (1 / 2 ≤ f), decide (f ≠ 0 ∧ f ≠ 1 / 2)⟩ := by
  have hfloor : ⌊(n : ℚ) + f⌋₊ = n := by
    rw [Nat.floor_eq_iff (by positivity)]
    exact ⟨by linarith, by linarith⟩
  have htwo : ⌊2 * ((n : ℚ) + f)⌋₊ = if 1 / 2 ≤ f then 2 * n + 1 else 2 * n := by
    rw [Nat.floor_eq_iff (by positivity)]
    split_ifs <;> push_cast <;> constructor <;> linarith
  rw [extended, hfloor, htwo]
  by_cases hhalf : 1 / 2 ≤ f
  · have hsticky : ((2 * n + 1 : ℕ) : ℚ) ≠ 2 * (n + f) ↔ f ≠ 0 ∧ f ≠ 1 / 2 := by
      push_cast
      constructor
      · exact fun h => ⟨fun h0 => by linarith, fun h1 => h (by linarith)⟩
      · exact fun h hsum => h.2 (by linarith)
    simp only [if_pos hhalf, hsticky, decide_eq_true hhalf, Nat.mul_add_mod_self_left]
    rfl
  · have hsticky : ((2 * n : ℕ) : ℚ) ≠ 2 * (n + f) ↔ f ≠ 0 ∧ f ≠ 1 / 2 := by
      push_cast
      constructor
      · exact fun h => ⟨fun h0 => h (by linarith), fun h1 => hhalf h1.ge⟩
      · exact fun h hsum => h.1 (by linarith)
    simp only [if_neg hhalf, hsticky, decide_eq_false hhalf, Nat.mul_mod_right]
    rfl

/-- **Rounding an extended mantissa** goes to the whole number next to what it stands for. -/
theorem roundedMantissa_extended {q : ℚ} (hq : 0 ≤ q) :
    (extended q).roundedMantissa = toWhole q := by
  have hlow := Nat.floor_le hq
  have hhigh := Nat.lt_floor_add_one q
  have hsplit : q = ⌊q⌋₊ + (q - ⌊q⌋₊) := by ring
  have hextended := extended_add ⌊q⌋₊ (f := q - ⌊q⌋₊) (by linarith) (by linarith)
  rw [← hsplit] at hextended
  rw [hextended, toWhole]
  generalize q - ⌊q⌋₊ = f
  rcases lt_trichotomy f (1 / 2) with h | rfl | h
  · have hround : decide (1 / 2 ≤ f) = false := decide_eq_false h.not_ge
    rw [if_pos h, hround]
    cases decide (f ≠ 0 ∧ f ≠ 1 / 2) <;> rfl
  · norm_num [ExtendedMantissa.roundedMantissa, ExtendedMantissa.accuracy,
      Accuracy.roundToNearestEven]
  · have hround : decide (1 / 2 ≤ f) = true := decide_eq_true h.le
    have hsticky : decide (f ≠ 0 ∧ f ≠ 1 / 2) = true := decide_eq_true ⟨by linarith, h.ne'⟩
    rw [if_neg h.not_gt, if_pos h, hround, hsticky]
    rfl

theorem ofMantissaAndAccuracy_exact (m : ℕ) :
    ExtendedMantissa.ofMantissaAndAccuracy m .exact = extended m := by
  have h := extended_add m le_rfl one_pos
  rw [add_zero] at h
  rw [h]
  norm_num [ExtendedMantissa.ofMantissaAndAccuracy]

theorem ofMantissaAndAccuracy_div (a : ℕ) {b : ℕ} (hb : 0 < b) :
    ExtendedMantissa.ofMantissaAndAccuracy (a / b) (accuracyOfFraction (a % b) b) =
      extended ((a : ℚ) / b) := by
  have hbpos : (0 : ℚ) < b := by exact_mod_cast hb
  have hsplit : (a : ℚ) / b = (a / b : ℕ) + (a % b : ℕ) / (b : ℚ) := by
    have hdiv : (b : ℚ) * (a / b : ℕ) + (a % b : ℕ) = a := by exact_mod_cast Nat.div_add_mod a b
    field_simp
    linarith
  have hlt := Nat.mod_lt a hb
  generalize a % b = r at hsplit hlt ⊢
  have hrest : (r : ℚ) / b < 1 := (div_lt_one hbpos).mpr (by exact_mod_cast hlt)
  rw [hsplit, extended_add _ (by positivity) hrest]
  have hhalf : 1 / 2 ≤ (r : ℚ) / b ↔ b ≤ 2 * r := by
    rw [div_le_div_iff₀ two_pos hbpos, one_mul, mul_comm (r : ℚ)]
    exact_mod_cast Iff.rfl
  have heq : (r : ℚ) / b = 1 / 2 ↔ 2 * r = b := by
    rw [div_eq_div_iff hbpos.ne' two_ne_zero, one_mul, mul_comm (r : ℚ)]
    exact_mod_cast Iff.rfl
  have hzero : (r : ℚ) / b = 0 ↔ r = 0 := by simp [hb.ne']
  simp only [ne_eq, hhalf, heq, hzero]
  unfold accuracyOfFraction
  by_cases hr : r = 0
  · simp [hr, ExtendedMantissa.ofMantissaAndAccuracy, hb.ne']
  · rw [if_neg hr]
    rcases lt_trichotomy (2 * r) b with h | h | h
    · simp [Nat.compare_eq_lt.mpr h, ExtendedMantissa.ofMantissaAndAccuracy, hr, h.ne, h.not_ge]
    · simp [ExtendedMantissa.ofMantissaAndAccuracy, hr, h]
    · simp [Nat.compare_eq_gt.mpr h, ExtendedMantissa.ofMantissaAndAccuracy, hr, h.ne', h.le]

end Melody.Binary64
