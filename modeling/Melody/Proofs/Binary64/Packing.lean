import Melody.Proofs.Binary64.Unpacked

/-!
# Numbers and their bits

* `canonical_unpack`: what bits say is canonical;
* `unpack_pack_of_canonical`, `unpack_pack_of_large`: packing keeps a canonical number, and makes
  infinity of one that is too large;
* **`unpack_pack_of_rounded`**: either way the units stay;
* **`compare_eq_some`**: canonical numbers are compared by their units.
-/

namespace Melody.Binary64

open Float.Model Float.Model.UnpackedFloat

theorem toNat_implicit (m : BitVec 52) : (1#1 ++ m).toNat = 2 ^ 52 + m.toNat := by
  rw [BitVec.toNat_append, ← Nat.shiftLeft_add_eq_or_of_lt m.isLt]
  rfl

/-- The number with given exponent bits and mantissa bits; all exponent bits are for what is not
finite, and none for numbers that have fewer digits. -/
def assembled (s : Sign) (w : BitVec 11) (v : BitVec 52) : UnpackedFloat :=
  if w = -1#11 then if v = 0#52 then .infinity s else .notANumber
  else if w = 0#11 then
    if h : v = 0#52 then .zero s
    else .finite s v.toNat (-1074) (by simpa [BitVec.toNat_pos, BitVec.pos_iff_ne_zero] using h)
  else .finite s (2 ^ 52 + v.toNat) (w.toNat - 1075) (by positivity)

theorem unpack_eq (b : BitVec Format.binary64.numBits) : UnpackedFloat.unpack Format.binary64 b =
    assembled (Sign.ofBitVec (unpackSign b))
      (unpackExponent b) (unpackMantissa b) := by
  have hbias : (Format.binary64.exponentBias : ℤ) + Format.binary64.mantissaBitsWithoutImplicit =
      1075 := rfl
  unfold UnpackedFloat.unpack assembled
  simp only [toNat_implicit, hbias]
  by_cases hnone : unpackExponent b = 0#11
  · rw [hnone]
    rfl
  · simp only [if_neg hnone]

theorem canonical_assembled (s : Sign) (w : BitVec 11) (v : BitVec 52) :
    Canonical (assembled s w v) := by
  have hv := v.isLt
  have hw := w.isLt
  unfold assembled
  split_ifs with hones hzero hnone hsub
  · trivial
  · trivial
  · trivial
  · exact ⟨by omega, by omega, by omega, .inr rfl⟩
  · have hlow : w.toNat ≠ 0 := fun h => hnone (BitVec.eq_of_toNat_eq h)
    have hhigh : w.toNat ≠ 2047 := fun h => hones (BitVec.eq_of_toNat_eq h)
    exact ⟨by omega, by omega, by omega, .inl (by omega)⟩

theorem canonical_unpack (b : BitVec Format.binary64.numBits) :
    Canonical (UnpackedFloat.unpack Format.binary64 b) := by
  rw [unpack_eq]
  exact canonical_assembled _ _ _

theorem unpack_packComponents (s : Sign) (w : BitVec 11) (v : BitVec 52) :
    UnpackedFloat.unpack Format.binary64 (packComponents Format.binary64 s w v) =
      assembled s w v := by
  rw [unpack_eq, unpackSign_packComponents, unpackExponent_packComponents,
    unpackMantissa_packComponents, Sign.ofBitVec_toBitVec]

section Finite

variable {s : Sign} {m : ℕ} {e : ℤ} {hm : 0 < m}

theorem pack_of_large (h : 971 < e) :
    UnpackedFloat.pack Format.binary64 (.finite s m e hm) = packedInfinity Format.binary64 s :=
  if_pos (show 2 ^ 11 ≤ (e + 1023 + 52).toNat + 1 by omega)

theorem pack_of_normal (h : e ≤ 971) (hlow : 2 ^ 52 ≤ m) (hdigits : m < 2 ^ 53) :
    UnpackedFloat.pack Format.binary64 (.finite s m e hm) = packComponents Format.binary64 s
      (BitVec.ofNat 11 (e + 1075).toNat) (BitVec.ofNat 52 m) := by
  have hlog : m.log2 + 1 = 53 := by
    rw [(Nat.log2_eq_iff hm.ne').mpr ⟨hlow, hdigits⟩]
  have hexp : e + 1075 = e + 1023 + 52 := by omega
  rw [hexp]
  exact (if_neg (show ¬ 2 ^ 11 ≤ (e + 1023 + 52).toNat + 1 by omega)).trans (if_pos hlog)

theorem pack_of_subnormal (hdigits : m < 2 ^ 52) :
    UnpackedFloat.pack Format.binary64 (.finite s m (-1074) hm) =
      packComponents Format.binary64 s 0#11 (BitVec.ofNat 52 m) := by
  have hlog : m.log2 + 1 ≠ 53 := by
    have := (Nat.log2_lt hm.ne').mpr hdigits
    omega
  have hexp : ¬ 2 ^ 11 ≤ (-1074 + 1023 + 52 : ℤ).toNat + 1 := by decide
  unfold UnpackedFloat.pack
  exact (if_neg hexp).trans ((if_neg hlog).trans rfl)

theorem assembled_normal (hlow : 2 ^ 52 ≤ m) (hdigits : m < 2 ^ 53) (he : -1074 ≤ e)
    (hle : e ≤ 971) :
    assembled s (BitVec.ofNat 11 (e + 1075).toNat) (BitVec.ofNat 52 m) = .finite s m e hm := by
  have hw : (BitVec.ofNat 11 (e + 1075).toNat).toNat = (e + 1075).toNat := by
    rw [BitVec.toNat_ofNat, Nat.mod_eq_of_lt (by omega)]
  have hones : BitVec.ofNat 11 (e + 1075).toNat ≠ -1#11 := fun h => by
    have h := hw.symm.trans (congrArg BitVec.toNat h)
    have hmax : (-1#11).toNat = 2047 := rfl
    omega
  have hnone : BitVec.ofNat 11 (e + 1075).toNat ≠ 0#11 := fun h => by
    have h := hw.symm.trans (congrArg BitVec.toNat h)
    have hmin : (0#11).toNat = 0 := rfl
    omega
  unfold assembled
  rw [if_neg hones, if_neg hnone, UnpackedFloat.finite.injEq, hw, BitVec.toNat_ofNat]
  exact ⟨rfl, by omega, by omega⟩

theorem assembled_subnormal (hdigits : m < 2 ^ 52) :
    assembled s 0#11 (BitVec.ofNat 52 m) = .finite s m (-1074) hm := by
  have hv : (BitVec.ofNat 52 m).toNat = m := by
    rw [BitVec.toNat_ofNat, Nat.mod_eq_of_lt hdigits]
  have hne : BitVec.ofNat 52 m ≠ 0#52 := fun h => by
    have h := hv.symm.trans (congrArg BitVec.toNat h)
    exact hm.ne' h
  unfold assembled
  rw [if_neg (by decide), if_pos rfl, dif_neg hne, UnpackedFloat.finite.injEq]
  exact ⟨rfl, hv, rfl⟩

end Finite

/-- **Packing keeps a canonical number.** -/
theorem unpack_pack_of_canonical {u : UnpackedFloat} (h : Canonical u) :
    UnpackedFloat.unpack Format.binary64 (UnpackedFloat.pack Format.binary64 u) = u := by
  cases u with
  | infinity s => exact unpack_packComponents s (-1) 0
  | notANumber => exact unpack_packComponents .positive (-1) _
  | zero s => exact unpack_packComponents s 0 0
  | finite s m e hm =>
    obtain ⟨hdigits, hlow, hhigh, hnormal⟩ := h
    by_cases hsub : m < 2 ^ 52
    · obtain rfl := hnormal.resolve_left hsub.not_ge
      rw [pack_of_subnormal hsub, unpack_packComponents, assembled_subnormal hsub]
    · rw [not_lt] at hsub
      rw [pack_of_normal hhigh hsub hdigits, unpack_packComponents,
        assembled_normal hsub hdigits hlow hhigh]

theorem unpack_pack_of_large {s : Sign} {m : ℕ} {e : ℤ} {hm : 0 < m} (h : 971 < e) :
    UnpackedFloat.unpack Format.binary64 (UnpackedFloat.pack Format.binary64 (.finite s m e hm)) =
      .infinity s := by
  rw [pack_of_large h]
  exact unpack_packComponents s (-1) 0

theorem magnitude_of_large {m : ℕ} {e : ℤ} (hm : 2 ^ 52 ≤ m) (he : 971 < e) :
    infinity ≤ m * 2 ^ (e + 1074).toNat := by
  calc infinity ≤ 2 ^ (52 + (e + 1074).toNat) := infinity_le_two_pow (by omega)
    _ = 2 ^ 52 * 2 ^ (e + 1074).toNat := pow_add ..
    _ ≤ m * 2 ^ (e + 1074).toNat := Nat.mul_le_mul_right _ hm

/-- **Packing keeps the units** of what a number is rounded to. -/
theorem unpack_pack_of_rounded {q : ℚ} {u : UnpackedFloat} (h : Rounded q u) :
    (UnpackedFloat.unpack Format.binary64 (UnpackedFloat.pack Format.binary64 u)).isNaN = false ∧
      units (UnpackedFloat.unpack Format.binary64 (UnpackedFloat.pack Format.binary64 u)) =
        nearest q := by
  rw [← h.units]
  have hfinite := h.isFinite
  have haligned := h.aligned
  cases u with
  | infinity s => cases hfinite
  | notANumber => cases hfinite
  | zero s =>
    rw [unpack_pack_of_canonical (u := .zero s) trivial]
    exact ⟨rfl, rfl⟩
  | finite s m e hm =>
    obtain ⟨hdigits, hlow, hnormal⟩ := haligned
    by_cases hlarge : 971 < e
    · have hmagnitude := magnitude_of_large (hnormal.resolve_right (by omega)) hlarge
      rw [unpack_pack_of_large hlarge]
      refine ⟨rfl, ?_⟩
      simp only [units, sign, magnitude, Nat.min_eq_right hmagnitude, Nat.min_self]
    · have hcanonical : Canonical (.finite s m e hm) := ⟨hdigits, hlow, by omega, hnormal⟩
      rw [unpack_pack_of_canonical hcanonical]
      exact ⟨rfl, rfl⟩

/-! ## Comparing -/

theorem units_infinity (s : Sign) : units (.infinity s) = s.apply infinity := by
  rw [units, magnitude, Nat.min_self, sign]

theorem compare_natCast (m n : ℕ) : compare (m : ℤ) n = compare m n := by
  rcases lt_trichotomy m n with h | rfl | h
  · rw [compare_lt_iff_lt.mpr h, compare_lt_iff_lt.mpr (Int.ofNat_lt.mpr h)]
  · rw [compare_eq_iff_eq.mpr rfl, compare_eq_iff_eq.mpr rfl]
  · rw [compare_gt_iff_gt.mpr h, compare_gt_iff_gt.mpr (Int.ofNat_lt.mpr h)]

theorem compare_mul_right {m n k : ℕ} (hk : 0 < k) : compare (m * k) (n * k) = compare m n := by
  rcases lt_trichotomy m n with h | rfl | h
  · rw [compare_lt_iff_lt.mpr h, compare_lt_iff_lt.mpr (Nat.mul_lt_mul_of_pos_right h hk)]
  · rw [compare_eq_iff_eq.mpr rfl, compare_eq_iff_eq.mpr rfl]
  · rw [compare_gt_iff_gt.mpr h, compare_gt_iff_gt.mpr (Nat.mul_lt_mul_of_pos_right h hk)]

theorem compare_neg (a b : ℤ) : compare (-a) (-b) = (compare a b).swap := by
  rcases lt_trichotomy a b with h | rfl | h
  · rw [compare_lt_iff_lt.mpr h, compare_gt_iff_gt.mpr (neg_lt_neg h)]
    rfl
  · rw [compare_eq_iff_eq.mpr rfl, compare_eq_iff_eq.mpr rfl]
    rfl
  · rw [compare_gt_iff_gt.mpr h, compare_lt_iff_lt.mpr (neg_lt_neg h)]
    rfl

/-- Of aligned mantissas the exponent counts first. -/
theorem compare_mantissa {s s' : Sign} {m m' : ℕ} {e e' : ℤ} {hm : 0 < m} {hm' : 0 < m'}
    (h : Canonical (.finite s m e hm)) (h' : Canonical (.finite s' m' e' hm')) :
    (compare e e').then (compare m m') =
      compare ((m * 2 ^ (e + 1074).toNat : ℕ) : ℤ) (m' * 2 ^ (e' + 1074).toNat : ℕ) := by
  have hexponent : ∀ {m m' : ℕ} {e e' : ℤ}, m < 2 ^ 53 → (2 ^ 52 ≤ m' ∨ e' = -1074) →
      -1074 ≤ e → e < e' → m * 2 ^ (e + 1074).toNat < m' * 2 ^ (e' + 1074).toNat := by
    intro m m' e e' hm hm' he hlt
    calc m * 2 ^ (e + 1074).toNat < 2 ^ 53 * 2 ^ (e + 1074).toNat :=
          Nat.mul_lt_mul_of_pos_right hm (Nat.two_pow_pos _)
      _ = 2 ^ 52 * 2 ^ ((e + 1074).toNat + 1) := by ring
      _ ≤ m' * 2 ^ (e' + 1074).toNat := Nat.mul_le_mul (hm'.resolve_right (by omega))
          (Nat.pow_le_pow_right two_pos (by omega))
  rcases lt_trichotomy e e' with hlt | rfl | hgt
  · rw [compare_lt_iff_lt.mpr hlt, Ordering.lt_then]
    exact (compare_lt_iff_lt.mpr (by exact_mod_cast hexponent h.1 h'.2.2.2 h.2.1 hlt)).symm
  · rw [compare_eq_iff_eq.mpr rfl, Ordering.eq_then, compare_natCast]
    exact (compare_mul_right (Nat.two_pow_pos _)).symm
  · rw [compare_gt_iff_gt.mpr hgt, Ordering.gt_then]
    exact (compare_gt_iff_gt.mpr (by exact_mod_cast hexponent h'.1 h.2.2.2 h'.2.1 hgt)).symm

theorem units_finite_bounds {m : ℕ} {e : ℤ} (hm : 0 < m)
    (h : ∀ s, Canonical (.finite s m e hm)) :
    (0 < units (.finite .positive m e hm) ∧ units (.finite .positive m e hm) < infinity) ∧
      -(infinity : ℤ) < units (.finite .negative m e hm) ∧
        units (.finite .negative m e hm) < 0 := by
  have hlt := magnitude_lt (h .positive)
  have hpos : 0 < m * 2 ^ (e + 1074).toNat := Nat.mul_pos hm (Nat.two_pow_pos _)
  rw [units_finite (h .positive), units_finite (h .negative)]
  simp only [Sign.apply]
  omega

theorem some_lt {a b : ℤ} (h : a < b) : some .lt = some (compare a b) :=
  congrArg some (compare_lt_iff_lt.mpr h).symm

theorem some_gt {a b : ℤ} (h : b < a) : some .gt = some (compare a b) :=
  congrArg some (compare_gt_iff_gt.mpr h).symm

theorem some_eq {a b : ℤ} (h : a = b) : some .eq = some (compare a b) :=
  congrArg some (compare_eq_iff_eq.mpr h).symm

theorem infinity_pos : (0 : ℤ) < infinity := by
  have h := two_pow_le_infinity (n := 0) (by norm_num)
  omega

section Compare

variable {u : UnpackedFloat}

theorem compare_infinity (s : Sign) (cu : Canonical u) (hu : u.isNaN = false) :
    (UnpackedFloat.infinity s).compare u = some (compare (units (.infinity s)) (units u)) := by
  have hinf := infinity_pos
  have hpos : units (.infinity .positive) = infinity := units_infinity .positive
  have hneg : units (.infinity .negative) = -infinity := units_infinity .negative
  cases u with
  | notANumber => cases hu
  | infinity s' =>
    cases s <;> cases s'
    · exact some_eq rfl
    · exact some_lt (by omega)
    · exact some_gt (by omega)
    · exact some_eq rfl
  | zero s' =>
    have hzero := units_zero s'
    cases s
    · exact some_lt (by omega)
    · exact some_gt (by omega)
  | finite s' m e hm =>
    have hbounds := units_finite_bounds hm (fun _ => cu)
    cases s <;> cases s'
    · exact some_lt (by omega)
    · exact some_lt (by omega)
    · exact some_gt (by omega)
    · exact some_gt (by omega)

theorem compare_zero (s : Sign) (cu : Canonical u) (hu : u.isNaN = false) :
    (UnpackedFloat.zero s).compare u = some (compare (units (.zero s)) (units u)) := by
  have hinf := infinity_pos
  have hzero := units_zero s
  cases u with
  | notANumber => cases hu
  | infinity s' =>
    have hunits := units_infinity s'
    cases s'
    · exact some_gt (by simp only [Sign.apply] at hunits; omega)
    · exact some_lt (by simp only [Sign.apply] at hunits; omega)
  | zero s' =>
    have hzero' := units_zero s'
    exact some_eq (by omega)
  | finite s' m e hm =>
    have hbounds := units_finite_bounds hm (fun _ => cu)
    cases s'
    · exact some_gt (by omega)
    · exact some_lt (by omega)

theorem compare_finite {s : Sign} {m : ℕ} {e : ℤ} {hm : 0 < m} (h : Canonical (.finite s m e hm))
    (cu : Canonical u) (hu : u.isNaN = false) :
    (UnpackedFloat.finite s m e hm).compare u =
      some (compare (units (.finite s m e hm)) (units u)) := by
  have hbounds := units_finite_bounds hm (fun _ => h)
  cases u with
  | notANumber => cases hu
  | infinity s' =>
    have hunits := units_infinity s'
    cases s' <;> cases s <;> simp only [Sign.apply] at hunits
    · exact some_gt (by omega)
    · exact some_gt (by omega)
    · exact some_lt (by omega)
    · exact some_lt (by omega)
  | zero s' =>
    have hzero := units_zero s'
    cases s
    · exact some_lt (by omega)
    · exact some_gt (by omega)
  | finite s' m' e' hm' =>
    have hbounds' := units_finite_bounds hm' (fun _ => cu)
    have hmantissa := compare_mantissa h cu
    cases s <;> cases s'
    · rw [units_finite h, units_finite cu]
      exact congrArg some ((congrArg Ordering.swap hmantissa).trans (compare_neg _ _).symm)
    · exact some_lt (by omega)
    · exact some_gt (by omega)
    · rw [units_finite h, units_finite cu]
      exact congrArg some hmantissa

end Compare

/-- **Canonical numbers are compared by their units.** -/
theorem compare_eq_some {u v : UnpackedFloat} (cu : Canonical u) (cv : Canonical v)
    (hu : u.isNaN = false) (hv : v.isNaN = false) :
    u.compare v = some (compare (units u) (units v)) := by
  cases u with
  | notANumber => cases hu
  | infinity s => exact compare_infinity s cv hv
  | zero s => exact compare_zero s cv hv
  | finite s m e hm => exact compare_finite cu cv hv

end Melody.Binary64
