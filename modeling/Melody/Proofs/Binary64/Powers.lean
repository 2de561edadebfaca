import Melody.Proofs.Binary64.Arithmetic

/-!
# Powers of two

A power of two has its exponent bits alone, and multiplying by it is exact unless the product is
too large.

* `eq_of_unitsOf_eq`: numbers with the same units are the same, unless they are zero;
* `unitsOf_ofBits_power`: the number whose exponent bits are those of a power of two;
* `nearest_mul_two_pow`: rounding leaves the product of a number and a power of two as it is;
* **`unitsOf_mul_power`**: the product of a number and a power of two, in units;
* `isFinite_mul_of_infinite`: a product with infinity is not finite.
-/

namespace Melody.Binary64

open Float.Model Float.Model.UnpackedFloat

variable {x y : Float}

theorem isNaN_of_unitsOf_ne_zero (h : unitsOf x ≠ 0) : x.isNaN = false := by
  change (unpacked x).isNaN = false
  rw [unitsOf] at h
  generalize unpacked x = u at h
  cases u with
  | notANumber => exact absurd rfl h
  | _ => rfl

/-- **Numbers with the same units are the same**, unless they are zeros with different signs. -/
theorem eq_of_unitsOf_eq (h : unitsOf x = unitsOf y) (hne : unitsOf x ≠ 0) : x = y := by
  have hx := isNaN_of_unitsOf_ne_zero hne
  have hy := isNaN_of_unitsOf_ne_zero (h ▸ hne)
  have hcompare := compare_eq_some (canonical_unpacked x) (canonical_unpacked y) hx hy
  -- only zeros compare as equal without being the same
  have hbeq : (x == y) = true := by
    change ((unpacked x).compare (unpacked y) == some .eq) = true
    rw [hcompare, beq_iff_eq, Option.some.injEq, compare_eq_iff_eq]
    exact h
  obtain ⟨-, -, heq | ⟨rfl, -⟩ | ⟨rfl, -⟩⟩ := Float.beq_iff_ne_nan_and_eq.mp hbeq
  · exact heq
  · exact absurd unitsOf_zero hne
  · exact absurd (units_zero .negative) hne

theorem unpacked_ofBits (b : UInt64) :
    unpacked (Float.ofBits b) = UnpackedFloat.unpack Format.binary64 b.toBitVec :=
  unpack_pack_of_canonical (canonical_unpack _)

theorem toBitVec_power {n : ℕ} (h : n ≤ 1023) :
    (UInt64.ofNat ((1023 + n) * 2 ^ 52)).toBitVec =
      packComponents Format.binary64 .positive (BitVec.ofNat 11 (1023 + n)) 0#52 := by
  refine BitVec.eq_of_toNat_eq ?_
  have hexponent : (BitVec.ofNat 11 (1023 + n)).toNat = 1023 + n := by
    rw [BitVec.toNat_ofNat, Nat.mod_eq_of_lt (by omega)]
  have hbits : (packComponents Format.binary64 .positive (BitVec.ofNat 11 (1023 + n)) 0#52).toNat =
      (0#1 ++ BitVec.ofNat 11 (1023 + n) ++ 0#52).toNat := rfl
  rw [hbits, BitVec.toNat_append, BitVec.toNat_append, hexponent, UInt64.toNat_toBitVec,
    UInt64.toNat_ofNat_of_lt' (by rw [UInt64.size]; omega)]
  simp [Nat.shiftLeft_eq]

/-- **The number with the exponent bits of a power of two** is this power. -/
theorem unitsOf_ofBits_power {n : ℕ} (h : n ≤ 1023) :
    unitsOf (Float.ofBits (UInt64.ofNat ((1023 + n) * 2 ^ 52))) = (2 ^ (1074 + n) : ℕ) := by
  have hnumber : unpacked (Float.ofBits (UInt64.ofNat ((1023 + n) * 2 ^ 52))) =
      .finite .positive (2 ^ 52) (n - 52) (by positivity) := by
    have hexponent : 1023 + n = ((n : ℤ) - 52 + 1075).toNat := by omega
    have hmantissa : (0#52) = BitVec.ofNat 52 (2 ^ 52) := rfl
    rw [unpacked_ofBits, toBitVec_power h, unpack_packComponents, hexponent, hmantissa]
    exact assembled_normal le_rfl (by norm_num) (by omega) (by omega)
  have hcanonical := canonical_unpacked (Float.ofBits (UInt64.ofNat ((1023 + n) * 2 ^ 52)))
  have hpower : ((n : ℤ) - 52 + 1074).toNat = 1022 + n := by omega
  rw [unitsOf, hnumber]
  rw [hnumber] at hcanonical
  rw [units_finite hcanonical, hpower, ← pow_add, ← add_assoc]
  rfl

theorem isFinite_of_unitsOf_power {n : ℕ} (h : n < 2098) (hx : unitsOf x = (2 ^ n : ℕ)) :
    x.isFinite = true := by
  have hpos : 0 < 2 ^ n := by positivity
  have hlt : 2 ^ n < infinity :=
    (Nat.pow_lt_pow_right (by norm_num) n.lt_succ_self).trans_le (two_pow_le_infinity h)
  have hinf := infinity_pos
  rw [isFinite_iff (isNaN_of_unitsOf_ne_zero (by omega)), hx]
  omega

/-! ## Products with powers of two -/

/-- Rounding leaves a number times a power of two as it is, unless it is too large. -/
theorem nearest_mul_two_pow (hx : x.isFinite = true) (hnonneg : 0 ≤ unitsOf x) (n : ℕ) :
    nearest (unitsOf x * 2 ^ n) = min (unitsOf x * 2 ^ n) infinity := by
  obtain ⟨m, k, hm, habs⟩ := exists_natAbs_unitsOf hx
  have hunits : unitsOf x = (m * 2 ^ k : ℕ) := by
    rw [← habs, Int.natAbs_of_nonneg hnonneg]
  have hproduct : m * 2 ^ k * 2 ^ n = m * 2 ^ (k + n) := by rw [pow_add, mul_assoc]
  have hcast : (unitsOf x : ℚ) * 2 ^ n = (m * 2 ^ (k + n) : ℕ) := by
    rw [hunits, ← hproduct, Int.cast_natCast, Nat.cast_mul _ (2 ^ n), Nat.cast_pow, Nat.cast_ofNat]
  rw [hcast, nearest_of_nonneg (Nat.cast_nonneg _), toGrid_of_lt hm, hunits, ← hproduct]
  push_cast
  rfl

/-- **The product of a number and a power of two is exact**, unless it is too large. -/
theorem unitsOf_mul_power (hx : x.isFinite = true) (hnonneg : 0 ≤ unitsOf x)
    (hy : y.isFinite = true) {n : ℕ} (hpower : unitsOf y = (2 ^ (1074 + n) : ℕ)) :
    (x * y).isNaN = false ∧ unitsOf (x * y) = min (unitsOf x * 2 ^ n) infinity := by
  obtain ⟨hnan, hunits⟩ := unitsOf_mul hx hy
  refine ⟨hnan, ?_⟩
  have hquotient : (unitsOf x : ℚ) * unitsOf y / 2 ^ 1074 = unitsOf x * 2 ^ n := by
    have hpow : (2 : ℚ) ^ 1074 ≠ 0 := by positivity
    rw [hpower, Int.cast_natCast, Nat.cast_pow, Nat.cast_ofNat, pow_add, mul_comm (2 ^ 1074 : ℚ),
      ← mul_assoc, mul_div_cancel_right₀ _ hpow]
  rw [hunits, hquotient, nearest_mul_two_pow hx hnonneg]

theorem isFinite_mul_of_infinite (x : Float) (hy : y.isFinite = false) :
    (x * y).isFinite = false := by
  have hproduct : unpacked (x * y) = UnpackedFloat.unpack Format.binary64
      (UnpackedFloat.pack Format.binary64
        (UnpackedFloat.mul Format.binary64 (unpacked x) (unpacked y))) := rfl
  have hy' : (unpacked y).isFinite = false := hy
  have hmul : Canonical (UnpackedFloat.mul Format.binary64 (unpacked x) (unpacked y)) ∧
      (UnpackedFloat.mul Format.binary64 (unpacked x) (unpacked y)).isFinite = false := by
    generalize unpacked x = u
    generalize unpacked y = v at hy'
    cases v with
    | zero s => cases hy'
    | finite s m e hm => cases hy'
    | notANumber => cases u <;> exact ⟨trivial, rfl⟩
    | infinity s => cases u <;> exact ⟨trivial, rfl⟩
  change (unpacked (x * y)).isFinite = false
  rw [hproduct, unpack_pack_of_canonical hmul.1]
  exact hmul.2

end Melody.Binary64
