import Mathlib.Algebra.Order.Floor.Semifield
import Mathlib.Data.Nat.Log
import Mathlib.Data.Rat.Floor
import Mathlib.Tactic.Linarith
import Mathlib.Tactic.NormNum
import Mathlib.Tactic.Positivity
import Mathlib.Tactic.Ring

/-!
# Rounding to binary digits

Floating-point numbers are counted in units of the smallest positive one, so that all of them are
whole. Between two powers of two they are the multiples of one power of two, the grain, which leaves
a number fifty-three digits; rounding goes to the nearest multiple.

* `toWhole`: the whole number next to a rational one; `toWhole_mono`, `toWhole_natCast`;
* `grain`, `toGrid`: the digits that are dropped, and the number without them;
* **`toGrid_mono`**: rounding keeps the order;
* `toGrid_of_lt`: numbers of fifty-three digits stay as they are;
* `nearest`: rounding with a sign, and not beyond infinity; `nearest_mono`, `nearest_neg`;
* `nearest_le_two_mul`: rounding at most doubles a number.
-/

namespace Melody.Binary64

/-- The whole number next to `q`, and the even one of two. -/
def toWhole (q : ℚ) : ℕ :=
  if q - ⌊q⌋₊ < 1 / 2 then ⌊q⌋₊
  else if 1 / 2 < q - ⌊q⌋₊ then ⌊q⌋₊ + 1
  else ⌊q⌋₊ + ⌊q⌋₊ % 2

theorem floor_le_toWhole (q : ℚ) : ⌊q⌋₊ ≤ toWhole q := by
  unfold toWhole
  split_ifs <;> omega

theorem toWhole_le_floor_add_one (q : ℚ) : toWhole q ≤ ⌊q⌋₊ + 1 := by
  unfold toWhole
  split_ifs <;> omega

@[simp] theorem toWhole_natCast (n : ℕ) : toWhole n = n := by
  simp [toWhole]

theorem toWhole_mono {q r : ℚ} (h : q ≤ r) : toWhole q ≤ toWhole r := by
  rcases (Nat.floor_le_floor h).lt_or_eq with hlt | heq
  · calc toWhole q ≤ ⌊q⌋₊ + 1 := toWhole_le_floor_add_one q
      _ ≤ ⌊r⌋₊ := hlt
      _ ≤ toWhole r := floor_le_toWhole r
  · have hr := toWhole_le_floor_add_one q
    unfold toWhole
    rw [heq]
    split_ifs <;> first | omega | linarith

theorem toWhole_le_two_mul {q : ℚ} (hq : 0 ≤ q) : (toWhole q : ℚ) ≤ 2 * q := by
  have hlow := Nat.floor_le hq
  unfold toWhole
  generalize ⌊q⌋₊ = n at hlow ⊢
  split_ifs with hless hmore
  · linarith
  · push_cast
    rcases Nat.eq_zero_or_pos n with rfl | hn
    · rw [Nat.cast_zero] at hmore ⊢
      linarith
    · have : (1 : ℚ) ≤ n := by exact_mod_cast hn
      linarith
  · have heven : n + n % 2 ≤ 2 * n := by omega
    calc ((n + n % 2 : ℕ) : ℚ) ≤ (2 * n : ℕ) := by exact_mod_cast heven
      _ ≤ 2 * q := by
        push_cast
        linarith

/-! ## Fifty-three digits -/

/-- How many binary digits of `q` are dropped to leave fifty-three. -/
def grain (q : ℚ) : ℕ := ⌊q⌋₊.log2 - 52

/-- The number next to `q` that has fifty-three digits. -/
def toGrid (q : ℚ) : ℕ := toWhole (q / 2 ^ grain q) * 2 ^ grain q

/-- The digits of a number between two powers of two are counted by their exponent. -/
theorem grain_eq {q : ℚ} {n : ℕ} (hlow : 2 ^ n ≤ q ∨ n ≤ 52) (hhigh : q < 2 ^ (n + 1)) :
    grain q = n - 52 := by
  unfold grain
  have hlog : ⌊q⌋₊ ≠ 0 → ⌊q⌋₊.log2 ≤ n := fun hne => by
    refine Nat.lt_succ_iff.mp ((Nat.log2_lt hne).mpr ((Nat.floor_lt' (by positivity)).mpr ?_))
    exact_mod_cast hhigh
  rcases hlow with hlow | hlow
  · have hfloor : 2 ^ n ≤ ⌊q⌋₊ := Nat.le_floor (by exact_mod_cast hlow)
    have hne : ⌊q⌋₊ ≠ 0 := by
      have := Nat.two_pow_pos n
      omega
    rw [Nat.le_antisymm (hlog hne) ((Nat.le_log2 hne).mpr hfloor)]
  · by_cases hne : ⌊q⌋₊ = 0
    · simp [hne]
      omega
    · have := hlog hne
      omega

theorem lt_two_pow_log2 (q : ℚ) : q < 2 ^ (⌊q⌋₊.log2 + 1) := by
  have h : ⌊q⌋₊ < 2 ^ (⌊q⌋₊.log2 + 1) := Nat.lt_log2_self
  exact_mod_cast (Nat.floor_lt' (by positivity)).mp h

theorem toGrid_of_lt {m : ℕ} (hm : m < 2 ^ 53) (k : ℕ) :
    toGrid ((m * 2 ^ k : ℕ) : ℚ) = m * 2 ^ k := by
  have hgrain : grain ((m * 2 ^ k : ℕ) : ℚ) ≤ k := by
    unfold grain
    rw [Nat.floor_natCast]
    by_cases hzero : m * 2 ^ k = 0
    · simp [hzero]
    · have hlt : m * 2 ^ k < 2 ^ (53 + k) := by
        rw [Nat.pow_add]
        exact Nat.mul_lt_mul_of_pos_right hm (Nat.two_pow_pos k)
      have := (Nat.log2_lt hzero).mpr hlt
      omega
  obtain ⟨j, hj⟩ := Nat.exists_eq_add_of_le hgrain
  have hwhole : ((m * 2 ^ k : ℕ) : ℚ) / 2 ^ grain ((m * 2 ^ k : ℕ) : ℚ) = (m * 2 ^ j : ℕ) := by
    rw [div_eq_iff (by positivity)]
    conv_lhs => rw [hj]
    push_cast
    ring
  rw [toGrid, hwhole, toWhole_natCast]
  conv_rhs => rw [hj]
  ring

theorem toGrid_le_of_le {q : ℚ} {n : ℕ} (hgrain : grain q ≤ n) (h : q ≤ 2 ^ n) :
    toGrid q ≤ 2 ^ n := by
  have hwhole : toWhole (q / 2 ^ grain q) ≤ toWhole ((2 ^ (n - grain q) : ℕ) : ℚ) := by
    refine toWhole_mono ?_
    rw [div_le_iff₀ (by positivity)]
    push_cast
    rwa [← pow_add, Nat.sub_add_cancel hgrain]
  rw [toWhole_natCast] at hwhole
  calc toGrid q ≤ 2 ^ (n - grain q) * 2 ^ grain q := Nat.mul_le_mul_right _ hwhole
    _ = 2 ^ n := by rw [← pow_add, Nat.sub_add_cancel hgrain]

theorem le_toGrid_of_le {q : ℚ} {n : ℕ} (hgrain : grain q ≤ n) (h : 2 ^ n ≤ q) :
    2 ^ n ≤ toGrid q := by
  have hwhole : toWhole ((2 ^ (n - grain q) : ℕ) : ℚ) ≤ toWhole (q / 2 ^ grain q) := by
    refine toWhole_mono ?_
    rw [le_div_iff₀ (by positivity)]
    push_cast
    rwa [← pow_add, Nat.sub_add_cancel hgrain]
  rw [toWhole_natCast] at hwhole
  calc 2 ^ n = 2 ^ (n - grain q) * 2 ^ grain q := by rw [← pow_add, Nat.sub_add_cancel hgrain]
    _ ≤ toGrid q := Nat.mul_le_mul_right _ hwhole

/-- **Rounding keeps the order.** -/
theorem toGrid_mono {q r : ℚ} (h : q ≤ r) : toGrid q ≤ toGrid r := by
  have hlog : ⌊q⌋₊.log2 ≤ ⌊r⌋₊.log2 := by
    rw [Nat.log2_eq_log_two, Nat.log2_eq_log_two]
    exact Nat.log_mono_right (Nat.floor_le_floor h)
  have hgrain : grain q ≤ grain r := Nat.sub_le_sub_right hlog 52
  rcases hgrain.eq_or_lt with heq | hlt
  · unfold toGrid
    rw [heq]
    exact Nat.mul_le_mul_right _ (toWhole_mono (by gcongr))
  · -- a power of two lies between the numbers, and is a multiple of both grains
    unfold grain at hlt
    have hq : q ≤ 2 ^ ⌊r⌋₊.log2 :=
      (lt_two_pow_log2 q).le.trans (pow_le_pow_right₀ (by norm_num) (by omega))
    have hr : (2 : ℚ) ^ ⌊r⌋₊.log2 ≤ r := by
      have hne : ⌊r⌋₊ ≠ 0 := fun hzero => by simp [hzero] at hlt
      have hle := Nat.log2_self_le hne
      exact_mod_cast (Nat.le_floor_iff' (by positivity)).mp hle
    calc toGrid q ≤ 2 ^ ⌊r⌋₊.log2 := toGrid_le_of_le (by unfold grain; omega) hq
      _ ≤ toGrid r := le_toGrid_of_le (by unfold grain; omega) hr

@[simp] theorem toGrid_zero : toGrid 0 = 0 := by
  have h := toGrid_of_lt (m := 0) (by norm_num) 0
  simpa using h

theorem toGrid_le_two_mul {q : ℚ} (hq : 0 ≤ q) : (toGrid q : ℚ) ≤ 2 * q := by
  have hpow : (0 : ℚ) < 2 ^ grain q := by positivity
  have hwhole := toWhole_le_two_mul (div_nonneg hq hpow.le)
  calc (toGrid q : ℚ) = toWhole (q / 2 ^ grain q) * 2 ^ grain q := by
        rw [toGrid, Nat.cast_mul, Nat.cast_pow, Nat.cast_ofNat]
    _ ≤ 2 * (q / 2 ^ grain q) * 2 ^ grain q := mul_le_mul_of_nonneg_right hwhole hpow.le
    _ = 2 * q := by rw [mul_assoc, div_mul_cancel₀ q hpow.ne']

/-- Infinity, in units: where the numbers would go on. -/
@[irreducible] def infinity : ℕ := 2 ^ 2098

theorem two_pow_le_infinity {n : ℕ} (h : n ≤ 2098) : 2 ^ n ≤ infinity := by
  unfold infinity
  generalize 2098 = k at h ⊢
  exact Nat.pow_le_pow_right two_pos h

theorem mul_two_pow_lt_infinity {m k : ℕ} (hm : m < 2 ^ 53) (hk : k ≤ 2045) :
    m * 2 ^ k < infinity := by
  calc m * 2 ^ k < 2 ^ 53 * 2 ^ k := Nat.mul_lt_mul_of_pos_right hm (Nat.two_pow_pos k)
    _ = 2 ^ (53 + k) := (pow_add ..).symm
    _ ≤ infinity := two_pow_le_infinity (by omega)

theorem infinity_le_two_pow {n : ℕ} (h : 2098 ≤ n) : infinity ≤ 2 ^ n := by
  unfold infinity
  generalize 2098 = k at h ⊢
  exact Nat.pow_le_pow_right two_pos h

/-- The units of the number that `q` units are rounded to. -/
def nearest (q : ℚ) : ℤ :=
  if q < 0 then -(min (toGrid (-q)) infinity : ℕ) else (min (toGrid q) infinity : ℕ)

@[simp] theorem nearest_zero : nearest 0 = 0 := by
  simp [nearest]

theorem nearest_of_nonneg {q : ℚ} (hq : 0 ≤ q) : nearest q = (min (toGrid q) infinity : ℕ) :=
  if_neg hq.not_gt

theorem nearest_neg (q : ℚ) : nearest (-q) = -nearest q := by
  rcases lt_trichotomy q 0 with h | rfl | h
  · rw [nearest_of_nonneg (neg_nonneg.mpr h.le), nearest, if_pos h, neg_neg]
  · simp
  · rw [nearest_of_nonneg h.le, nearest, if_pos (neg_neg_iff_pos.mpr h), neg_neg]

theorem nearest_mono {q r : ℚ} (h : q ≤ r) : nearest q ≤ nearest r := by
  have hmono : ∀ {q r : ℚ}, 0 ≤ q → q ≤ r → nearest q ≤ nearest r := fun hq h => by
    rw [nearest_of_nonneg hq, nearest_of_nonneg (hq.trans h), Int.ofNat_le]
    exact min_le_min_right _ (toGrid_mono h)
  rcases le_total 0 q with hq | hq
  · exact hmono hq h
  · rcases le_total 0 r with hr | hr
    · have hq' := hmono le_rfl (neg_nonneg.mpr hq)
      have hr' := hmono le_rfl hr
      rw [nearest_neg, nearest_zero] at hq'
      rw [nearest_zero] at hr'
      omega
    · have h' := hmono (neg_nonneg.mpr hr) (neg_le_neg h)
      rw [nearest_neg, nearest_neg] at h'
      omega

theorem nearest_nonneg {q : ℚ} (hq : 0 ≤ q) : 0 ≤ nearest q := by
  rw [← nearest_zero]
  exact nearest_mono hq

theorem nearest_le_two_mul {q : ℚ} (hq : 0 ≤ q) : (nearest q : ℚ) ≤ 2 * q := by
  rw [nearest_of_nonneg hq, Int.cast_natCast]
  exact (Nat.cast_le.mpr (Nat.min_le_left _ _)).trans (toGrid_le_two_mul hq)

theorem nearest_two_pow {n : ℕ} (h : n ≤ 2045) : nearest (2 ^ n) = (2 ^ n : ℕ) := by
  have hgrid := toGrid_of_lt (m := 1) (by norm_num) n
  have hlt := mul_two_pow_lt_infinity (m := 1) (by norm_num) h
  rw [one_mul, Nat.cast_pow, Nat.cast_ofNat] at hgrid
  rw [one_mul] at hlt
  rw [nearest_of_nonneg (by positivity), hgrid, Nat.min_eq_left hlt.le]

theorem cast_nearest_two_pow {n : ℕ} (h : n ≤ 2045) : (nearest (2 ^ n) : ℚ) = 2 ^ n := by
  rw [nearest_two_pow h, Int.cast_natCast, Nat.cast_pow, Nat.cast_ofNat]

theorem nearest_two_pow_lt {n : ℕ} (h : n ≤ 2045) : nearest (2 ^ n) < infinity := by
  have hlt := mul_two_pow_lt_infinity (m := 1) (by norm_num) h
  rw [one_mul] at hlt
  rw [nearest_two_pow h]
  exact Int.ofNat_lt.mpr hlt

end Melody.Binary64
