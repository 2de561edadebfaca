import Melody.Proofs.Binary64.Packing

/-!
# Floating-point arithmetic

What the operations on floating-point numbers do, in units of the smallest positive one.

* `unpacked`, `unitsOf`: a number taken apart, and in units;
* `le_iff_unitsOf_le`, `lt_iff_unitsOf_lt`: the order is that of the units; `le_trans`;
* `unitsOf_add`, `unitsOf_sub`, `unitsOf_mul`, `unitsOf_div`, `unitsOf_toFloat`: results are the
  rational ones, rounded;
* `add_mono_right`: adding keeps the order;
* **`le_add_of_nonneg`**: adding something that is not negative does not make a number smaller;
* **`div_toFloat_nonneg`**: dividing by a whole number leaves a finite one that is not negative.
-/

namespace Melody.Binary64

open Float.Model (Format UnpackedFloat)

/-- The number that the bits say. -/
def unpacked (x : Float) : UnpackedFloat := x.toModel.unpack

/-- The value in units; of what is no number, zero. -/
def unitsOf (x : Float) : ℤ := units (unpacked x)

theorem canonical_unpacked (x : Float) : Canonical (unpacked x) := canonical_unpack _

theorem unitsOf_of_rounded {x : Float} {u : UnpackedFloat} {q : ℚ}
    (hx : x.toModel = Float.Model.pack u) (h : Rounded q u) :
    x.isNaN = false ∧ unitsOf x = nearest q := by
  have hpack := unpack_pack_of_rounded h
  have hunpacked : unpacked x =
      UnpackedFloat.unpack Format.binary64 (UnpackedFloat.pack Format.binary64 u) := by
    rw [unpacked, hx]
    rfl
  rw [← hunpacked] at hpack
  exact hpack

/-- **The order of numbers is that of their units.** -/
theorem le_iff_unitsOf_le {x y : Float} (hx : x.isNaN = false) (hy : y.isNaN = false) :
    x ≤ y ↔ unitsOf x ≤ unitsOf y := by
  have hcompare := compare_eq_some (canonical_unpacked x) (canonical_unpacked y) hx hy
  have hle : x ≤ y ↔ ((unpacked x).compare (unpacked y)).any (·.isLE) = true :=
    decide_eq_true_iff
  rw [hle, hcompare, Option.any_some, Ordering.isLE_iff_ne_gt, compare_gt_iff_gt, not_lt,
    unitsOf, unitsOf]

theorem lt_iff_unitsOf_lt {x y : Float} (hx : x.isNaN = false) (hy : y.isNaN = false) :
    x < y ↔ unitsOf x < unitsOf y := by
  have hcompare := compare_eq_some (canonical_unpacked x) (canonical_unpacked y) hx hy
  have hlt : x < y ↔ ((unpacked x).compare (unpacked y) == some .lt) = true := decide_eq_true_iff
  rw [hlt, hcompare, beq_iff_eq, Option.some.injEq, compare_lt_iff_lt, unitsOf, unitsOf]

theorem le_refl {x : Float} (hx : x.isNaN = false) : x ≤ x :=
  (le_iff_unitsOf_le hx hx).mpr le_rfl

theorem le_trans {x y z : Float} (hx : x.isNaN = false) (hy : y.isNaN = false)
    (hz : z.isNaN = false) (hxy : x ≤ y) (hyz : y ≤ z) : x ≤ z := by
  rw [le_iff_unitsOf_le hx hy] at hxy
  rw [le_iff_unitsOf_le hy hz] at hyz
  exact (le_iff_unitsOf_le hx hz).mpr (hxy.trans hyz)

theorem unitsOf_zero : unitsOf 0 = 0 := units_zero .positive

theorem zero_le_iff {x : Float} (hx : x.isNaN = false) : 0 ≤ x ↔ 0 ≤ unitsOf x := by
  rw [le_iff_unitsOf_le rfl hx, unitsOf_zero]

theorem isNaN_eq_false_of_isFinite {x : Float} (h : x.isFinite = true) : x.isNaN = false := by
  have h' : (unpacked x).isFinite = true := h
  change (unpacked x).isNaN = false
  generalize unpacked x = u at h'
  cases u with
  | notANumber => cases h'
  | _ => rfl

theorem isFinite_iff {x : Float} (hx : x.isNaN = false) :
    x.isFinite = true ↔ -(infinity : ℤ) < unitsOf x ∧ unitsOf x < infinity := by
  have hinf := infinity_pos
  have hx' : (unpacked x).isNaN = false := hx
  have hcanonical := canonical_unpacked x
  change (unpacked x).isFinite = true ↔ _
  rw [unitsOf]
  generalize unpacked x = u at hx' hcanonical ⊢
  cases u with
  | notANumber => cases hx'
  | infinity s =>
    rw [units_infinity]
    refine ⟨nofun, fun h => ?_⟩
    cases s <;> simp [Float.Model.UnpackedFloat.Sign.apply] at h
  | zero s =>
    rw [units_zero]
    exact ⟨fun _ => by omega, fun _ => rfl⟩
  | finite s m e hm =>
    have hbounds := units_finite_bounds hm (fun _ => hcanonical)
    refine ⟨fun _ => ?_, fun _ => rfl⟩
    cases s <;> omega

theorem nearest_unitsOf {x : Float} (hx : x.isFinite = true) : nearest (unitsOf x) = unitsOf x := by
  have hx' : (unpacked x).isFinite = true := hx
  have hcanonical := canonical_unpacked x
  rw [unitsOf]
  generalize unpacked x = u at hx' hcanonical ⊢
  cases u with
  | notANumber => cases hx'
  | infinity s => cases hx'
  | zero s =>
    rw [units_zero]
    exact nearest_zero
  | finite s m e hm => exact (rounded_self hcanonical).units.symm

/-- A finite number has fifty-three digits. -/
theorem exists_natAbs_unitsOf {x : Float} (hx : x.isFinite = true) :
    ∃ m k, m < 2 ^ 53 ∧ (unitsOf x).natAbs = m * 2 ^ k := by
  have hx' : (unpacked x).isFinite = true := hx
  have hcanonical := canonical_unpacked x
  rw [unitsOf]
  generalize unpacked x = u at hx' hcanonical ⊢
  cases u with
  | notANumber => cases hx'
  | infinity s => cases hx'
  | zero s =>
    rw [units_zero]
    exact ⟨0, 0, by norm_num, rfl⟩
  | finite s m e hm =>
    refine ⟨m, (e + 1074).toNat, hcanonical.1, ?_⟩
    rw [units_finite hcanonical]
    cases s
    · exact Int.natAbs_neg _
    · exact Int.natAbs_natCast _

/-! ## Operations -/

theorem unitsOf_add {x y : Float} (hx : x.isFinite = true) (hy : y.isFinite = true) :
    (x + y).isNaN = false ∧ unitsOf (x + y) = nearest (unitsOf x + unitsOf y) :=
  unitsOf_of_rounded rfl (rounded_add hx hy (canonical_unpacked x) (canonical_unpacked y))

theorem unitsOf_sub {x y : Float} (hx : x.isFinite = true) (hy : y.isFinite = true) :
    (x - y).isNaN = false ∧ unitsOf (x - y) = nearest (unitsOf x - unitsOf y) :=
  unitsOf_of_rounded rfl (rounded_sub hx hy (canonical_unpacked x) (canonical_unpacked y))

theorem unitsOf_mul {x y : Float} (hx : x.isFinite = true) (hy : y.isFinite = true) :
    (x * y).isNaN = false ∧ unitsOf (x * y) = nearest (unitsOf x * unitsOf y / 2 ^ 1074) :=
  unitsOf_of_rounded rfl (rounded_mul hx hy (canonical_unpacked x) (canonical_unpacked y))

theorem unitsOf_div {x y : Float} (hx : x.isFinite = true) (hy : y.isFinite = true)
    (hzero : unitsOf y ≠ 0) :
    (x / y).isNaN = false ∧ unitsOf (x / y) = nearest (unitsOf x / unitsOf y * 2 ^ 1074) :=
  unitsOf_of_rounded rfl (rounded_div hx hy hzero (canonical_unpacked x) (canonical_unpacked y))

theorem unitsOf_div_of_infinite {x y : Float} (hx : x.isFinite = true) (hy : y.isNaN = false)
    (hinf : y.isFinite = false) : (x / y).isNaN = false ∧ unitsOf (x / y) = 0 := by
  have hquotient : (x / y).toModel =
      Float.Model.pack (UnpackedFloat.div Format.binary64 (unpacked x) (unpacked y)) := rfl
  have hx' : (unpacked x).isFinite = true := hx
  have hy' : (unpacked y).isNaN = false := hy
  have hinf' : (unpacked y).isFinite = false := hinf
  have hzero : ∃ s, UnpackedFloat.div Format.binary64 (unpacked x) (unpacked y) = .zero s := by
    generalize unpacked x = u at hx'
    generalize unpacked y = v at hy' hinf'
    cases v with
    | notANumber => cases hy'
    | zero s => cases hinf'
    | finite s m e hm => cases hinf'
    | infinity s =>
      cases u with
      | notANumber => cases hx'
      | infinity s' => cases hx'
      | _ => exact ⟨_, rfl⟩
  obtain ⟨s, hs⟩ := hzero
  rw [hs] at hquotient
  have h := unitsOf_of_rounded hquotient (rounded_zero s)
  rw [nearest_zero] at h
  exact h

theorem add_mono_right {x y z : Float} (hx : x.isFinite = true) (hy : y.isFinite = true)
    (hz : z.isFinite = true) (h : y ≤ z) : x + y ≤ x + z := by
  rw [le_iff_unitsOf_le (isNaN_eq_false_of_isFinite hy) (isNaN_eq_false_of_isFinite hz)] at h
  obtain ⟨hy', hunits⟩ := unitsOf_add hx hy
  obtain ⟨hz', hunits'⟩ := unitsOf_add hx hz
  rw [le_iff_unitsOf_le hy' hz', hunits, hunits']
  exact nearest_mono (add_le_add_right (by exact_mod_cast h) _)

/-- Whole numbers of 32 bits have few enough digits. -/
theorem unitsOf_toFloat (n : UInt32) :
    n.toFloat.isFinite = true ∧ unitsOf n.toFloat = (n.toNat * 2 ^ 1074 : ℕ) := by
  have hdigits : n.toNat < 2 ^ 53 := n.toNat_lt.trans (by norm_num)
  have hlt : n.toNat * 2 ^ 1074 < infinity := mul_two_pow_lt_infinity hdigits (by norm_num)
  have hrounded := unitsOf_of_rounded (x := n.toFloat) rfl (rounded_normalize n.toNat 0 .positive)
  have hvalue : ((n.toNat : ℤ) : ℚ) * 2 ^ ((0 : ℤ) + 1074) = (n.toNat * 2 ^ 1074 : ℕ) := by
    have hpow : (2 : ℚ) ^ ((0 : ℤ) + 1074) = 2 ^ 1074 := zpow_natCast 2 1074
    rw [hpow, Int.cast_natCast, Nat.cast_mul, Nat.cast_pow, Nat.cast_ofNat]
  rw [hvalue, nearest_of_nonneg (Nat.cast_nonneg _), toGrid_of_lt hdigits,
    Nat.min_eq_left hlt.le] at hrounded
  refine ⟨(isFinite_iff hrounded.1).mpr ?_, hrounded.2⟩
  rw [hrounded.2]
  omega

theorem toFloat_pos {n : UInt32} (hn : n ≠ 0) : 0 < n.toFloat := by
  obtain ⟨hfinite, hunits⟩ := unitsOf_toFloat n
  have hpos : 0 < n.toNat := Nat.pos_of_ne_zero fun h => hn (UInt32.toNat_inj.mp h)
  have hzero : unitsOf 0 = 0 := units_zero .positive
  rw [lt_iff_unitsOf_lt rfl (isNaN_eq_false_of_isFinite hfinite), hzero, hunits]
  positivity

/-! ## What does not go down -/

theorem unpacked_add_of_infinite {x d : Float} (hx : x.isNaN = false) (hinf : x.isFinite = false)
    (hd : d.isFinite = true) : unpacked (x + d) = unpacked x := by
  have hx' : (unpacked x).isNaN = false := hx
  have hinf' : (unpacked x).isFinite = false := hinf
  have hd' : (unpacked d).isFinite = true := hd
  have hsum : unpacked (x + d) = UnpackedFloat.unpack Format.binary64 (UnpackedFloat.pack
      Format.binary64 (UnpackedFloat.add Format.binary64 (unpacked x) (unpacked d))) := rfl
  rw [hsum]
  generalize unpacked x = u at hx' hinf' ⊢
  generalize unpacked d = v at hd' ⊢
  cases u with
  | notANumber => cases hx'
  | zero s => cases hinf'
  | finite s m e hm => cases hinf'
  | infinity s =>
    have hadd : UnpackedFloat.add Format.binary64 (.infinity s) v = .infinity s := by
      cases v with
      | notANumber => cases hd'
      | infinity s' => cases hd'
      | _ => rfl
    rw [hadd]
    exact unpack_pack_of_canonical (u := .infinity s) trivial

/-- **Adding what is not negative** does not make a number smaller. -/
theorem le_add_of_nonneg {x d : Float} (hx : x.isNaN = false) (hd : d.isFinite = true)
    (hnonneg : 0 ≤ d) : (x + d).isNaN = false ∧ x ≤ x + d := by
  rw [zero_le_iff (isNaN_eq_false_of_isFinite hd)] at hnonneg
  cases hfinite : x.isFinite with
  | true =>
    obtain ⟨hnan, hunits⟩ := unitsOf_add hfinite hd
    refine ⟨hnan, (le_iff_unitsOf_le hx hnan).mpr ?_⟩
    rw [hunits]
    calc unitsOf x = nearest (unitsOf x) := (nearest_unitsOf hfinite).symm
      _ ≤ nearest (unitsOf x + unitsOf d) :=
        nearest_mono (le_add_of_nonneg_right (by exact_mod_cast hnonneg))
  | false =>
    have hsame := unpacked_add_of_infinite hx hfinite hd
    have hnan : (x + d).isNaN = false := by
      change (unpacked (x + d)).isNaN = false
      rw [hsame]
      exact hx
    refine ⟨hnan, (le_iff_unitsOf_le hx hnan).mpr ?_⟩
    rw [unitsOf, unitsOf, hsame]

theorem div_toFloat_nonneg {x : Float} (hx : x.isFinite = true) (hnonneg : 0 ≤ x) {n : UInt32}
    (hn : n ≠ 0) : (x / n.toFloat).isFinite = true ∧ 0 ≤ x / n.toFloat := by
  rw [zero_le_iff (isNaN_eq_false_of_isFinite hx)] at hnonneg
  obtain ⟨hfinite, hunits⟩ := unitsOf_toFloat n
  have hpos : 0 < n.toNat := Nat.pos_of_ne_zero fun h => hn (UInt32.toNat_inj.mp h)
  have hne : unitsOf n.toFloat ≠ 0 := by
    rw [hunits]
    positivity
  obtain ⟨hnan, hquotient⟩ := unitsOf_div hx hfinite hne
  have hvalue : (unitsOf x : ℚ) / unitsOf n.toFloat * 2 ^ 1074 = unitsOf x / n.toNat := by
    have hcancel : ∀ b : ℚ, b ≠ 0 → (unitsOf x : ℚ) / (n.toNat * b) * b = unitsOf x / n.toNat :=
      fun b hb => by field_simp
    rw [hunits, Int.cast_natCast, Nat.cast_mul, Nat.cast_pow]
    exact hcancel _ (by positivity)
  rw [hvalue] at hquotient
  have hx0 : (0 : ℚ) ≤ unitsOf x := by exact_mod_cast hnonneg
  have hlow : 0 ≤ unitsOf (x / n.toFloat) := by
    rw [hquotient, ← nearest_zero]
    exact nearest_mono (div_nonneg hx0 (Nat.cast_nonneg _))
  have hhigh : unitsOf (x / n.toFloat) ≤ unitsOf x := by
    calc unitsOf (x / n.toFloat) = nearest (unitsOf x / n.toNat) := hquotient
      _ ≤ nearest (unitsOf x) := nearest_mono (div_le_self hx0 (Nat.one_le_cast.mpr hpos))
      _ = unitsOf x := nearest_unitsOf hx
  have hbounds := (isFinite_iff (isNaN_eq_false_of_isFinite hx)).mp hx
  exact ⟨(isFinite_iff hnan).mpr ⟨by omega, by omega⟩, (zero_le_iff hnan).mpr hlow⟩

end Melody.Binary64
