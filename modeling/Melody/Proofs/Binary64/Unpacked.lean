import Mathlib
import Melody.Proofs.Binary64.Mantissa

/-!
# What operations on unpacked numbers come to

* `units`: the value of an unpacked number; `Aligned`: no other one has the same value;
* `Rounded`: an unpacked number is a rational one, rounded;
* **`rounded_roundWithAccuracy`**: so it is with an extended mantissa that has enough digits;
* `rounded_normalize`: and with a whole mantissa;
* **`rounded_add`**, **`rounded_sub`**, **`rounded_mul`**, **`rounded_div`**: results are the
  rational ones, rounded.
-/

namespace Melody.Binary64

open Float.Model Float.Model.UnpackedFloat

/-- The absolute value in units of the smallest positive number. -/
def magnitude : UnpackedFloat → ℕ
  | .infinity _ => infinity
  | .notANumber => 0
  | .zero _ => 0
  | .finite _ m e _ => m * 2 ^ (e + 1074).toNat

/-- The sign; what is no number has none, and counts as positive. -/
def sign : UnpackedFloat → Sign
  | .infinity s => s
  | .notANumber => .positive
  | .zero s => s
  | .finite s _ _ _ => s

/-- The value in units; numbers that are too large count as infinite. -/
def units (u : UnpackedFloat) : ℤ := (sign u).apply (min (magnitude u) infinity : ℕ)

/-- A mantissa of fifty-three digits, or of fewer at the least exponent. -/
def Aligned : UnpackedFloat → Prop
  | .finite _ m e _ => m < 2 ^ 53 ∧ -1074 ≤ e ∧ (2 ^ 52 ≤ m ∨ e = -1074)
  | _ => True

/-- The finite number that `q` units are rounded to, however large. -/
structure Rounded (q : ℚ) (u : UnpackedFloat) : Prop where
  isFinite : u.isFinite = true
  aligned : Aligned u
  units : units u = nearest q

/-- A number with a sign. -/
def signed : Sign → ℚ → ℚ
  | .negative, q => -q
  | .positive, q => q

theorem nearest_signed (s : Sign) {q : ℚ} (hq : 0 ≤ q) :
    nearest (signed s q) = s.apply (min (toGrid q) infinity : ℕ) := by
  cases s with
  | negative => exact (nearest_neg q).trans (congrArg _ (nearest_of_nonneg hq))
  | positive => exact nearest_of_nonneg hq

/-! ## Shifting -/

theorem targetExponent_eq (x : ℤ) :
    Format.binary64.targetExponent x = max (x - 53) (-1074) := rfl

theorem targetExponent_totalExponent (m : ℕ) (e : ℤ) :
    Format.binary64.targetExponent (totalExponent m e) = max (m.log2 + e - 52) (-1074) := by
  rw [targetExponent_eq, totalExponent]
  congr 1
  omega

theorem log2_le_of_lt {m : ℕ} (hm : m < 2 ^ 53) : m.log2 ≤ 52 := by
  by_cases hzero : m = 0
  · simp [hzero]
  · have := (Nat.log2_lt hzero).mpr hm
    omega

theorem shiftToTargetExponent_of_lt {m : ℕ} {e : ℤ} (hm : m < 2 ^ 53) (he : -1074 ≤ e) :
    shiftToTargetExponent Format.binary64 m e .exact = (extended m, e) := by
  have hlog := log2_le_of_lt hm
  have hshift : (max ((m.log2 : ℤ) + e - 52) (-1074) - e).toNat = 0 := by omega
  rw [shiftToTargetExponent, targetExponent_totalExponent, shiftToExponent, hshift,
    ofMantissaAndAccuracy_exact, shiftRight_extended]
  simp

theorem shiftToTargetExponent_two_pow {e : ℤ} (he : -1074 ≤ e) :
    shiftToTargetExponent Format.binary64 (2 ^ 53) e .exact =
      (extended ((2 ^ 52 : ℕ) : ℚ), e + 1) := by
  have hshift : (max (((2 ^ 53).log2 : ℕ) + e - 52) (-1074) - e).toNat = 1 := by
    rw [Nat.log2_two_pow]
    omega
  rw [shiftToTargetExponent, targetExponent_totalExponent, shiftToExponent, hshift,
    ofMantissaAndAccuracy_exact, shiftRight_extended]
  norm_num

theorem rounded_of_parts (s : Sign) {m : ℕ} {e : ℤ} {q : ℚ} (hq : 0 ≤ q) (hm : m < 2 ^ 53)
    (he : -1074 ≤ e) (hdigits : 2 ^ 52 ≤ m ∨ e = -1074)
    (hgrid : m * 2 ^ (e + 1074).toNat = toGrid q) :
    Rounded (signed s q) (if h : m = 0 then .zero s else .finite s m e (Nat.pos_of_ne_zero h)) := by
  by_cases hzero : m = 0
  · rw [dif_pos hzero]
    refine ⟨rfl, trivial, ?_⟩
    rw [nearest_signed s hq, ← hgrid, hzero, Nat.zero_mul]
    rfl
  · rw [dif_neg hzero]
    refine ⟨rfl, ⟨hm, he, hdigits⟩, ?_⟩
    rw [nearest_signed s hq, ← hgrid]
    rfl

@[simp] theorem mantissa_extended_natCast (m : ℕ) : (extended (m : ℚ)).mantissa = m :=
  Nat.floor_natCast m

/-- What is left to do once the digits behind the mantissa are dropped: they are rounded, and the
mantissa may have got one digit more. -/
theorem rounded_of_shift (s : Sign) {m : ℕ} {e t : ℤ} {a : Accuracy} {q r : ℚ} (hq : 0 ≤ q)
    (hshift : shiftToTargetExponent Format.binary64 m e a = (extended q, t)) (ht : -1074 ≤ t)
    (hhigh : q ≤ 2 ^ 53) (hlow : 2 ^ 52 ≤ q ∨ t = -1074) (hr : 0 ≤ r)
    (hgrid : toWhole q * 2 ^ (t + 1074).toNat = toGrid r) :
    Rounded (signed s r) (roundWithAccuracy Format.binary64 s m e a) := by
  have hwhole : toWhole q ≤ 2 ^ 53 := by
    have h := toWhole_mono (q := q) (r := (2 ^ 53 : ℕ)) (by exact_mod_cast hhigh)
    rwa [toWhole_natCast] at h
  have hdigits : 2 ^ 52 ≤ toWhole q ∨ t = -1074 := by
    refine hlow.imp_left fun h => ?_
    have h := toWhole_mono (q := (2 ^ 52 : ℕ)) (r := q) (by exact_mod_cast h)
    rwa [toWhole_natCast] at h
  unfold roundWithAccuracy
  rw [hshift]
  dsimp only
  rw [roundedMantissa_extended hq]
  generalize toWhole q = w at hwhole hdigits hgrid
  rcases hwhole.lt_or_eq with hlt | rfl
  · rw [shiftToTargetExponent_of_lt hlt ht]
    refine rounded_of_parts s hr ?_ ht ?_ ?_ <;> rwa [mantissa_extended_natCast]
  · rw [shiftToTargetExponent_two_pow ht]
    refine rounded_of_parts s hr ?_ (by omega) (.inl ?_) ?_ <;> rw [mantissa_extended_natCast]
    · norm_num
    · have hexp : (t + 1 + 1074).toNat = (t + 1074).toNat + 1 := by omega
      rw [← hgrid, hexp, pow_succ]
      ring

theorem grain_scaled {q : ℚ} {n : ℕ} {e : ℤ} (hlow : 2 ^ n ≤ q ∨ n + e ≤ 52)
    (hhigh : q < 2 ^ (n + 1)) : grain (q * 2 ^ e) = (n + e - 52).toNat := by
  have hhigh' : q * 2 ^ e < (2 : ℚ) ^ ((n : ℤ) + 1 + e) := by
    rw [zpow_add₀ two_ne_zero]
    refine mul_lt_mul_of_pos_right ?_ (by positivity)
    exact_mod_cast hhigh
  have hgrain : grain (q * 2 ^ e) = ((n : ℤ) + e).toNat - 52 := by
    refine grain_eq ?_ ?_
    · by_cases hsmall : (n : ℤ) + e ≤ 52
      · exact .inr (by omega)
      · left
        have hexp : (2 : ℚ) ^ ((n : ℤ) + e).toNat = 2 ^ n * 2 ^ e := by
          rw [← zpow_natCast, Int.toNat_of_nonneg (by omega), zpow_add₀ two_ne_zero, zpow_natCast]
        rw [hexp]
        exact mul_le_mul_of_nonneg_right (hlow.resolve_right hsmall) (by positivity)
    · refine hhigh'.trans_le ?_
      rw [← zpow_natCast]
      exact zpow_le_zpow_right₀ one_le_two (by omega)
  omega

/-- **Rounding a mantissa with the digits behind it** is rounding the number that they stand for,
as long as there are enough digits. -/
theorem rounded_roundWithAccuracy (s : Sign) {m : ℕ} {e : ℤ} {a : Accuracy} {q : ℚ} (hq : 0 ≤ q)
    (ha : ExtendedMantissa.ofMantissaAndAccuracy m a = extended q) (hm : ⌊q⌋₊ = m)
    (he : e ≤ max (m.log2 + e - 52) (-1074)) :
    Rounded (signed s (q * 2 ^ (e + 1074))) (roundWithAccuracy Format.binary64 s m e a) := by
  obtain ⟨k, hk⟩ := Int.eq_ofNat_of_zero_le (sub_nonneg.mpr he)
  have ht : e + k = max (m.log2 + e - 52) (-1074) := by omega
  have hshift : shiftToTargetExponent Format.binary64 m e a = (extended (q / 2 ^ k), e + k) := by
    rw [shiftToTargetExponent, targetExponent_totalExponent, shiftToExponent, ha, hk,
      shiftRight_extended]
    rfl
  have hhigh : q < 2 ^ (m.log2 + 1) := hm ▸ lt_two_pow_log2 q
  have hlow : m ≠ 0 → (2 : ℚ) ^ m.log2 ≤ q := fun hne => by
    have h := Nat.log2_self_le hne
    rw [← hm] at h ⊢
    exact_mod_cast (Nat.le_floor_iff' (by positivity)).mp h
  have hgrain : grain (q * 2 ^ (e + 1074)) = (e + k + 1074).toNat := by
    rw [grain_scaled (n := m.log2) ?_ hhigh]
    · omega
    · by_cases hzero : m = 0
      · rw [hzero, Nat.log2_zero] at he ⊢
        exact .inr (by omega)
      · exact .inl (hlow hzero)
  refine rounded_of_shift s (by positivity) hshift (by omega) ?_ ?_ (by positivity) ?_
  · rw [div_le_iff₀ (by positivity), ← pow_add]
    exact hhigh.le.trans (pow_le_pow_right₀ (by norm_num) (by omega))
  · by_cases hleast : e + k = -1074
    · exact .inr hleast
    · left
      have hzero : m ≠ 0 := fun hzero => by
        rw [hzero, Nat.log2_zero] at ht
        omega
      rw [le_div_iff₀ (by positivity), ← pow_add]
      exact (pow_le_pow_right₀ (by norm_num) (by omega)).trans (hlow hzero)
  · have hscale : q * 2 ^ (e + 1074) / 2 ^ (e + k + 1074).toNat = q / 2 ^ k := by
      rw [← zpow_natCast (2 : ℚ) (e + k + 1074).toNat, Int.toNat_of_nonneg (by omega),
        ← zpow_natCast (2 : ℚ) k, add_right_comm e, zpow_add₀ two_ne_zero (e + 1074)]
      field_simp
    rw [toGrid, hgrain, hscale]

@[simp] theorem units_zero (s : Sign) : units (.zero s) = 0 := by
  cases s <;> simp [units, sign, magnitude, Sign.apply]

theorem rounded_zero (s : Sign) : Rounded 0 (.zero s) := by
  refine ⟨rfl, trivial, ?_⟩
  rw [units_zero, nearest_zero]

theorem log2_shiftLeft {m : ℕ} (hm : m ≠ 0) (k : ℕ) : (m <<< k).log2 = m.log2 + k := by
  have hlow := Nat.log2_self_le hm
  have hhigh := @Nat.lt_log2_self m
  rw [Nat.shiftLeft_eq, Nat.log2_eq_iff (by positivity), pow_add, add_right_comm, pow_add]
  exact ⟨Nat.mul_le_mul_right _ hlow, Nat.mul_lt_mul_of_pos_right hhigh (Nat.two_pow_pos k)⟩

theorem rounded_round (s : Sign) {m : ℕ} (hm : m ≠ 0) (e : ℤ) :
    Rounded (signed s (m * 2 ^ (e + 1074))) (UnpackedFloat.round Format.binary64 s m e) := by
  unfold UnpackedFloat.round decreaseExponent
  rw [targetExponent_totalExponent]
  dsimp only
  have hk : ∃ k : ℕ, k = (e - max ((m.log2 : ℤ) + e - 52) (-1074)).toNat := ⟨_, rfl⟩
  obtain ⟨k, hk⟩ := hk
  rw [← hk]
  have hvalue : (m : ℚ) * 2 ^ (e + 1074) = ((m <<< k : ℕ) : ℚ) * 2 ^ (e - k + 1074) := by
    have hexp : e + 1074 = k + (e - k + 1074) := by omega
    rw [hexp, zpow_add₀ two_ne_zero, zpow_natCast, Nat.shiftLeft_eq]
    push_cast
    ring
  rw [hvalue]
  refine rounded_roundWithAccuracy s (Nat.cast_nonneg _) (ofMantissaAndAccuracy_exact _)
    (Nat.floor_natCast _) ?_
  rw [log2_shiftLeft hm]
  omega

theorem rounded_normalize (m e : ℤ) (s : Sign) :
    Rounded (m * 2 ^ (e + 1074)) (UnpackedFloat.normalize Format.binary64 m e s) := by
  unfold UnpackedFloat.normalize
  rcases lt_trichotomy m 0 with h | rfl | h
  · have hround := rounded_round .negative (m := (-m).toNat) (by omega) e
    have hcast : (((-m).toNat : ℕ) : ℚ) = -m := by
      exact_mod_cast congrArg (Int.cast : ℤ → ℚ) (Int.toNat_of_nonneg (a := -m) (by omega))
    rw [hcast, signed, neg_mul, neg_neg] at hround
    rw [compare_lt_iff_lt.mpr h]
    exact hround
  · rw [compare_eq_iff_eq.mpr rfl, Int.cast_zero, zero_mul]
    exact rounded_zero s
  · have hround := rounded_round .positive (m := m.toNat) (by omega) e
    have hcast : ((m.toNat : ℕ) : ℚ) = m := by
      exact_mod_cast congrArg (Int.cast : ℤ → ℚ) (Int.toNat_of_nonneg h.le)
    rw [hcast] at hround
    rw [compare_gt_iff_gt.mpr h]
    exact hround

/-! ## Sums and differences -/

/-- What bits can say: an aligned number that is not too large. -/
def Canonical : UnpackedFloat → Prop
  | .finite _ m e _ => m < 2 ^ 53 ∧ -1074 ≤ e ∧ e ≤ 971 ∧ (2 ^ 52 ≤ m ∨ e = -1074)
  | _ => True

theorem cast_apply (s : Sign) (n : ℕ) : ((s.apply n : ℤ) : ℚ) = signed s n := by
  cases s <;> simp [Sign.apply, signed]

section Finite

variable {s : Sign} {m : ℕ} {e : ℤ} {hm : 0 < m}

theorem magnitude_lt (h : Canonical (.finite s m e hm)) :
    m * 2 ^ (e + 1074).toNat < infinity := by
  obtain ⟨hdigits, -, hexp, -⟩ := h
  exact mul_two_pow_lt_infinity hdigits (by omega)

theorem units_finite (h : Canonical (.finite s m e hm)) :
    units (.finite s m e hm) = s.apply (m * 2 ^ (e + 1074).toNat : ℕ) :=
  congrArg (fun n : ℕ => s.apply n) (Nat.min_eq_left (magnitude_lt h).le)

theorem rounded_self (h : Canonical (.finite s m e hm)) :
    Rounded (units (.finite s m e hm)) (.finite s m e hm) := by
  refine ⟨rfl, ⟨h.1, h.2.1, h.2.2.2⟩, ?_⟩
  rw [units_finite h, cast_apply, nearest_signed s (Nat.cast_nonneg _), toGrid_of_lt h.1,
    Nat.min_eq_left (magnitude_lt h).le]

end Finite

theorem cast_mul_two_pow {m : ℕ} {e : ℤ} (he : -1074 ≤ e) :
    ((m * 2 ^ (e + 1074).toNat : ℕ) : ℚ) = m * 2 ^ (e + 1074) := by
  rw [Nat.cast_mul, Nat.cast_pow, ← zpow_natCast, Int.toNat_of_nonneg (by omega)]
  rfl

theorem cast_shiftLeft_mul {m : ℕ} {e t : ℤ} (hte : t ≤ e) :
    ((m <<< (e - t).toNat : ℕ) : ℚ) * 2 ^ (t + 1074) = m * 2 ^ (e + 1074) := by
  have hexp : e + 1074 = (e - t).toNat + (t + 1074) := by omega
  rw [hexp, zpow_add₀ two_ne_zero ((e - t).toNat : ℤ), zpow_natCast, Nat.shiftLeft_eq]
  push_cast
  ring

theorem signed_mul (s : Sign) (q r : ℚ) : signed s q * r = signed s (q * r) := by
  cases s <;> simp [signed]

/-- **A sum is the rational one, rounded.** -/
theorem rounded_add {u v : UnpackedFloat} (hu : u.isFinite = true) (hv : v.isFinite = true)
    (cu : Canonical u) (cv : Canonical v) :
    Rounded (units u + units v) (UnpackedFloat.add Format.binary64 u v) := by
  cases u with
  | infinity s => cases hu
  | notANumber => cases hu
  | zero s =>
    cases v with
    | infinity s' => cases hv
    | notANumber => cases hv
    | zero s' =>
      rw [units_zero, units_zero, UnpackedFloat.add, Int.cast_zero, add_zero]
      split_ifs <;> exact rounded_zero _
    | finite s' m' e' hm' =>
      rw [units_zero, Int.cast_zero, zero_add]
      exact rounded_self cv
  | finite s m e hm =>
    cases v with
    | infinity s' => cases hv
    | notANumber => cases hv
    | zero s' =>
      rw [units_zero, Int.cast_zero, add_zero]
      exact rounded_self cu
    | finite s' m' e' hm' =>
      have hsum : (units (.finite s m e hm) : ℚ) + units (.finite s' m' e' hm') =
          (s.apply (m <<< (e - min e e').toNat : ℕ) + s'.apply (m' <<< (e' - min e e').toNat : ℕ) :
            ℤ) * 2 ^ (min e e' + 1074) := by
        rw [units_finite cu, units_finite cv, Int.cast_add, add_mul]
        simp only [cast_apply, signed_mul, cast_shiftLeft_mul (min_le_left e e'),
          cast_shiftLeft_mul (min_le_right e e'), cast_mul_two_pow cu.2.1, cast_mul_two_pow cv.2.1]
      rw [hsum]
      exact rounded_normalize _ _ _

theorem apply_neg (s : Sign) (n : ℤ) : (-s).apply n = -s.apply n := by
  cases s
  · exact (neg_neg n).symm
  · rfl

theorem sub_eq_add (u v : UnpackedFloat) : UnpackedFloat.sub Format.binary64 u v =
    UnpackedFloat.add Format.binary64 u (UnpackedFloat.neg v) := by
  cases u with
  | finite s m e hm =>
    cases v with
    | finite s' m' e' hm' =>
      simp only [UnpackedFloat.sub, UnpackedFloat.add, UnpackedFloat.neg, apply_neg,
        Int.sub_eq_add_neg]
    | _ => rfl
  | _ => cases v <;> rfl

theorem units_neg (u : UnpackedFloat) : units (UnpackedFloat.neg u) = -units u := by
  cases u with
  | notANumber => simp [UnpackedFloat.neg, units, sign, magnitude, Sign.apply]
  | _ => exact apply_neg _ _

theorem canonical_neg {u : UnpackedFloat} (h : Canonical u) : Canonical (UnpackedFloat.neg u) := by
  cases u with
  | finite s m e hm => exact h
  | _ => trivial

theorem isFinite_neg {u : UnpackedFloat} (h : u.isFinite = true) :
    (UnpackedFloat.neg u).isFinite = true := by
  cases u <;> exact h

theorem rounded_sub {u v : UnpackedFloat} (hu : u.isFinite = true) (hv : v.isFinite = true)
    (cu : Canonical u) (cv : Canonical v) :
    Rounded (units u - units v) (UnpackedFloat.sub Format.binary64 u v) := by
  have h := rounded_add hu (isFinite_neg hv) cu (canonical_neg cv)
  rw [units_neg, Int.cast_neg, ← sub_eq_add, ← sub_eq_add_neg] at h
  exact h

/-! ## Products and quotients -/

theorem signed_mul_signed (s t : Sign) (q r : ℚ) :
    signed (s * t) (q * r) = signed s q * signed t r := by
  cases s <;> cases t
  · exact (neg_mul_neg q r).symm
  · exact (neg_mul q r).symm
  · exact (mul_neg q r).symm
  · rfl

/-- The product of mantissas has enough digits, unless its exponent is less than any other. -/
theorem exponent_mul_le {m m' : ℕ} {e e' : ℤ} (hm : 0 < m) (hm' : 0 < m')
    (h : 2 ^ 52 ≤ m ∨ e = -1074) (h' : 2 ^ 52 ≤ m' ∨ e' = -1074) :
    e + e' ≤ max ((m * m').log2 + (e + e') - 52) (-1074) := by
  have hlog : 2 ^ 52 ≤ m ∨ 2 ^ 52 ≤ m' → 52 ≤ (m * m').log2 := by
    intro hlarge
    refine (Nat.le_log2 (Nat.mul_pos hm hm').ne').mpr ?_
    rcases hlarge with hlarge | hlarge
    · exact hlarge.trans (Nat.le_mul_of_pos_right m hm')
    · exact hlarge.trans (Nat.le_mul_of_pos_left m' hm)
  rcases h with h | rfl
  · have := hlog (.inl h)
    omega
  · rcases h' with h' | rfl
    · have := hlog (.inr h')
      omega
    · omega

/-- **A product is the rational one, rounded.** -/
theorem rounded_mul {u v : UnpackedFloat} (hu : u.isFinite = true) (hv : v.isFinite = true)
    (cu : Canonical u) (cv : Canonical v) :
    Rounded (units u * units v / 2 ^ 1074) (UnpackedFloat.mul Format.binary64 u v) := by
  cases u with
  | infinity s => cases hu
  | notANumber => cases hu
  | zero s =>
    rw [units_zero, Int.cast_zero, zero_mul, zero_div]
    cases v with
    | infinity s' => cases hv
    | notANumber => cases hv
    | _ => exact rounded_zero _
  | finite s m e hm =>
    cases v with
    | infinity s' => cases hv
    | notANumber => cases hv
    | zero s' =>
      rw [units_zero, Int.cast_zero, mul_zero, zero_div]
      exact rounded_zero _
    | finite s' m' e' hm' =>
      have hvalue : (units (.finite s m e hm) : ℚ) * units (.finite s' m' e' hm') / 2 ^ 1074 =
          signed (s * s') ((m * m' : ℕ) * 2 ^ (e + e' + 1074)) := by
        have hexp : e + e' + 1074 = (e + 1074) + (e' + 1074) - 1074 := by omega
        have hpow : (2 : ℚ) ^ (1074 : ℤ) = 2 ^ 1074 := zpow_natCast 2 1074
        rw [units_finite cu, units_finite cv, cast_apply, cast_apply, ← signed_mul_signed,
          cast_mul_two_pow cu.2.1, cast_mul_two_pow cv.2.1, hexp, zpow_sub₀ two_ne_zero,
          zpow_add₀ two_ne_zero (e + 1074), div_eq_mul_inv, signed_mul, hpow, Nat.cast_mul]
        congr 1
        generalize (2 : ℚ) ^ 1074 = p
        ring
      rw [hvalue]
      exact rounded_roundWithAccuracy (s * s') (Nat.cast_nonneg _) (ofMantissaAndAccuracy_exact _)
        (Nat.floor_natCast _) (exponent_mul_le hm hm' cu.2.2.2 cv.2.2.2)

theorem signed_div (s t : Sign) (q r : ℚ) : signed (s / t) (q / r) = signed s q / signed t r := by
  cases s <;> cases t
  · exact (neg_div_neg_eq q r).symm
  · exact (neg_div r q).symm
  · exact (div_neg q).symm
  · rfl

theorem log2_shiftLeft_div {m n k : ℕ} (hm : m ≠ 0) (hn : 0 < n) (h : n.log2 + 53 ≤ m.log2 + k) :
    52 ≤ (m <<< k / n).log2 := by
  have hlow := Nat.log2_self_le hm
  have hhigh := (@Nat.lt_log2_self n).le
  have hle : 2 ^ 52 ≤ m <<< k / n := by
    rw [Nat.le_div_iff_mul_le hn, Nat.shiftLeft_eq]
    calc 2 ^ 52 * n ≤ 2 ^ 52 * 2 ^ (n.log2 + 1) := Nat.mul_le_mul_left _ hhigh
      _ = 2 ^ (n.log2 + 53) := by rw [← pow_add, Nat.add_comm]
      _ ≤ 2 ^ (m.log2 + k) := Nat.pow_le_pow_right two_pos h
      _ = 2 ^ m.log2 * 2 ^ k := pow_add ..
      _ ≤ m * 2 ^ k := Nat.mul_le_mul_right _ hlow
  exact (Nat.le_log2 (by positivity)).mpr hle

theorem rounded_divCore (s : Sign) {m n : ℕ} (hm : m ≠ 0) (hn : 0 < n) (e e' : ℤ) :
    Rounded (signed s (m / n * 2 ^ (e - e' + 1074)))
      (let (w, t, a) := divCore Format.binary64 m e n e'
       roundWithAccuracy Format.binary64 s w t a) := by
  unfold divCore totalExponent
  rw [targetExponent_eq]
  dsimp only
  -- the quotient of the mantissas is taken at an exponent that leaves it enough digits
  obtain ⟨t, ht⟩ : ∃ t, t = min (e - e') (max (m.log2 + 1 + e - (n.log2 + 1 + e') - 53) (-1074)) :=
    ⟨_, rfl⟩
  rw [← ht]
  obtain ⟨k, hk⟩ : ∃ k, k = (e - e' - t).toNat := ⟨_, rfl⟩
  rw [← hk]
  have hvalue : (m : ℚ) / n * 2 ^ (e - e' + 1074) = ((m <<< k : ℕ) : ℚ) / n * 2 ^ (t + 1074) := by
    have hexp : e - e' + 1074 = k + (t + 1074) := by omega
    rw [hexp, zpow_add₀ two_ne_zero, zpow_natCast, Nat.shiftLeft_eq]
    push_cast
    ring
  rw [hvalue]
  refine rounded_roundWithAccuracy s (by positivity) (ofMantissaAndAccuracy_div _ hn)
    (Nat.floor_div_eq_div _ _) ?_
  by_cases hleast : t ≤ -1074
  · omega
  · have hlog := log2_shiftLeft_div (k := k) hm hn (by omega)
    omega

/-- **A quotient is the rational one, rounded.** -/
theorem rounded_div {u v : UnpackedFloat} (hu : u.isFinite = true) (hv : v.isFinite = true)
    (hzero : units v ≠ 0) (cu : Canonical u) (cv : Canonical v) :
    Rounded (units u / units v * 2 ^ 1074) (UnpackedFloat.div Format.binary64 u v) := by
  cases v with
  | infinity s' => cases hv
  | notANumber => cases hv
  | zero s' => exact absurd (units_zero s') hzero
  | finite s' m' e' hm' =>
    cases u with
    | infinity s => cases hu
    | notANumber => cases hu
    | zero s =>
      rw [units_zero, Int.cast_zero, zero_div, zero_mul]
      exact rounded_zero _
    | finite s m e hm =>
      have hvalue : (units (.finite s m e hm) : ℚ) / units (.finite s' m' e' hm') * 2 ^ 1074 =
          signed (s / s') (m / m' * 2 ^ (e - e' + 1074)) := by
        have hexp : e + 1074 = (e - e' + 1074) + (e' + 1074) - 1074 := by omega
        rw [units_finite cu, units_finite cv, cast_apply, cast_apply, ← signed_div, signed_mul,
          cast_mul_two_pow cu.2.1, cast_mul_two_pow cv.2.1, hexp, zpow_sub₀ two_ne_zero,
          zpow_add₀ two_ne_zero (e - e' + 1074)]
        congr 1
        field_simp
      rw [hvalue]
      exact rounded_divCore _ hm.ne' hm' e e'

end Melody.Binary64
