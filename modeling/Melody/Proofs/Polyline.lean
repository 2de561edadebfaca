import Mathlib.Data.List.Chain
import Mathlib.Tactic.Linarith
import Mathlib.Tactic.Simps.Basic
import Melody.Proofs.Fitting

/-!
# The gain curve as a polyline

The gain of a note is described twice: by its five corners, and by a formula for one moment. Over
numbers that are not rounded the two agree, also where phases have no length.

* `Point.ramp`: the straight line from one point to another; `Point.ramp_attack`,
  `Point.ramp_decay`, `Point.ramp_sustain`, `Point.ramp_release`: those of an envelope;
* `polyline`: the curve through points, right-continuous where several of them share a time;
  `polyline_append`, `polyline_bounds`;
* `IsPhased.contour_eq`: the corners without their clamps, which never take effect;
* `Checked`: numbers with an error for every division by zero; `IsPhased.gainAt_number`: there is
  none;
* **`gainAt_eq_polyline`**: the two descriptions agree.
-/

namespace Melody.Sound

section Polyline

variable {K : Type} [Field K]

/-- The gain at `x` on the straight line from one point to another. -/
def Point.ramp (p q : Point K) (x : K) : K :=
  p.gain + (q.gain - p.gain) * ((x - p.time) / (q.time - p.time))

theorem Point.ramp_attack (start time length peak : K) :
    Point.ramp ⟨start, 0⟩ ⟨start + length, peak⟩ (start + time) = peak * time / length := by
  simp [Point.ramp, mul_div_assoc]

theorem Point.ramp_decay (start time attack decay peak level : K) :
    Point.ramp ⟨start + attack, peak⟩ ⟨start + attack + decay, level⟩ (start + time) =
      peak - (time - attack) / decay * (peak - level) := by
  simp only [Point.ramp]
  ring

theorem Point.ramp_sustain (t u x level : K) : Point.ramp ⟨t, level⟩ ⟨u, level⟩ x = level := by
  simp [Point.ramp]

theorem Point.ramp_release (start time : K) {duration length level : K} (hlength : length ≠ 0) :
    Point.ramp ⟨start + duration - length, level⟩ ⟨start + duration, 0⟩ (start + time) =
      level * (duration - time) / length := by
  simp only [Point.ramp, sub_sub_cancel]
  field_simp
  ring

variable [LinearOrder K]

/-- The value at `x` of the polyline through points that follow each other in time. Where points
share a time the last of them counts; before the first point and from the last one on, the value is
zero. -/
def polyline : List (Point K) → K → K
  | p :: q :: ps, x =>
    if x < p.time then 0 else if x < q.time then p.ramp q x else polyline (q :: ps) x
  | _, _ => 0

variable {p q : Point K} {ps : List (Point K)} {x low high : K}

theorem polyline_of_lt (h : x < p.time) : polyline (p :: ps) x = 0 := by
  cases ps with
  | nil => rfl
  | cons q ps => rw [polyline, if_pos h]

theorem polyline_of_le (h : ∀ p ∈ ps, p.time ≤ x) : polyline ps x = 0 := by
  fun_induction polyline ps x with
  | case1 => rfl
  | case2 p q ps x hp hq => exact absurd hq (not_lt.mpr (h q (by simp)))
  | case3 p q ps x hp hq ih => exact ih fun r hr => h r (List.mem_cons_of_mem _ hr)
  | case4 => rfl

/-- **The value between two neighbours** is that of the straight line from one to the other. -/
theorem polyline_append (before : List (Point K)) (hbefore : ∀ r ∈ before, r.time ≤ x)
    (hp : p.time ≤ x) (hq : x < q.time) : polyline (before ++ p :: q :: ps) x = p.ramp q x := by
  induction before with
  | nil => rw [List.nil_append, polyline, if_neg (not_lt.mpr hp), if_pos hq]
  | cons r before ih =>
    rw [List.forall_mem_cons] at hbefore
    obtain ⟨hr, hbefore⟩ := hbefore
    cases before with
    | nil =>
      rw [List.singleton_append, polyline, if_neg (not_lt.mpr hr), if_neg (not_lt.mpr hp)]
      exact ih hbefore
    | cons s before =>
      have hs := hbefore s List.mem_cons_self
      rw [List.cons_append, List.cons_append, polyline, if_neg (not_lt.mpr hr),
        if_neg (not_lt.mpr hs)]
      exact ih hbefore

variable [IsStrictOrderedRing K]

theorem Point.ramp_bounds (hp : low ≤ p.gain ∧ p.gain ≤ high) (hq : low ≤ q.gain ∧ q.gain ≤ high)
    (hpx : p.time ≤ x) (hxq : x < q.time) : low ≤ p.ramp q x ∧ p.ramp q x ≤ high := by
  have hspan : 0 < q.time - p.time := sub_pos.mpr (hpx.trans_lt hxq)
  have hpart : 0 ≤ (x - p.time) / (q.time - p.time) := div_nonneg (sub_nonneg.mpr hpx) hspan.le
  have hrest : 0 ≤ 1 - (x - p.time) / (q.time - p.time) :=
    sub_nonneg.mpr ((div_le_one hspan).mpr (by linarith))
  unfold ramp
  generalize (x - p.time) / (q.time - p.time) = u at hpart hrest
  constructor
  · nlinarith [mul_le_mul_of_nonneg_left hp.1 hrest, mul_le_mul_of_nonneg_left hq.1 hpart]
  · nlinarith [mul_le_mul_of_nonneg_left hp.2 hrest, mul_le_mul_of_nonneg_left hq.2 hpart]

/-- A polyline stays between bounds of its points that have zero between them. -/
theorem polyline_bounds (hlow : low ≤ 0) (hhigh : 0 ≤ high)
    (h : ∀ p ∈ ps, low ≤ p.gain ∧ p.gain ≤ high) : low ≤ polyline ps x ∧ polyline ps x ≤ high := by
  fun_induction polyline ps x with
  | case1 => exact ⟨hlow, hhigh⟩
  | case2 p q ps x hp hq =>
    exact Point.ramp_bounds (h p (by simp)) (h q (by simp)) (not_lt.mp hp) hq
  | case3 p q ps x hp hq ih => exact ih fun r hr => h r (List.mem_cons_of_mem _ hr)
  | case4 => exact ⟨hlow, hhigh⟩

end Polyline

section Order

variable {K : Type} [LinearOrder K]

theorem lower_eq_min (x y : K) : lower x y = min x y := by
  unfold lower
  rw [min_comm, min_def_lt]
  exact if_congr (or_iff_left (not_not_intro le_rfl)) rfl rfl

theorem upper_eq_max (x y : K) : upper x y = max x y := by
  unfold upper
  rw [max_def_lt]
  exact if_congr (or_iff_left (not_not_intro le_rfl)) rfl rfl

end Order

/-! ## Corners and moments -/

namespace Envelope

namespace IsPhased

variable {K : Type} [Field K] [LinearOrder K] [IsStrictOrderedRing K]
variable {e : Envelope K} {start duration peak time : K}

/-- **The corners without their clamps.** The decay is over when the release begins, at the latest,
and so neither of the two is held back. -/
theorem contour_eq (he : e.IsPhased) (hduration : 0 ≤ duration) :
    e.contour start duration peak =
      { onset := ⟨start, 0⟩
        peak := ⟨start + (e.fit duration).attack, peak⟩
        settled :=
          ⟨start + (e.fit duration).attack + (e.fit duration).decay, peak * e.sustain⟩
        fading := ⟨start + duration - (e.fit duration).release, peak * e.sustain⟩
        silence := ⟨start + duration, 0⟩ } := by
  have hrelease := (he.fit hduration).release
  have htotal := e.total_fit_le hduration
  unfold total at htotal
  have hdecay : lower (start + (e.fit duration).attack + (e.fit duration).decay)
      (start + duration) = start + (e.fit duration).attack + (e.fit duration).decay := by
    rw [lower_eq_min, min_eq_left (by linarith)]
  have hfading : upper (start + duration - (e.fit duration).release)
      (start + (e.fit duration).attack + (e.fit duration).decay) =
        start + duration - (e.fit duration).release := by
    rw [upper_eq_max, max_eq_left (by linarith)]
  simp only [contour, hdecay, hfading, sustain_fit]

theorem isChain_contour (he : e.IsPhased) (hduration : 0 ≤ duration) :
    (e.contour start duration peak).toList.IsChain (·.time ≤ ·.time) := by
  obtain ⟨hattack, hdecay, hrelease⟩ := he.fit hduration
  have htotal := e.total_fit_le hduration
  unfold total at htotal
  rw [he.contour_eq hduration, Contour.toList]
  simp only [List.isChain_cons_cons, List.isChain_singleton, and_true]
  refine ⟨?_, ?_, ?_, ?_⟩ <;> linarith

/-- **The gain at a moment is the value of the polyline** through the corners. -/
theorem gainAt_eq (he : e.IsPhased) (hduration : 0 ≤ duration) (start : K) :
    e.gainAt time duration peak =
      polyline (e.contour start duration peak).toList (start + time) := by
  obtain ⟨hattack, hdecay, hrelease⟩ := he.fit hduration
  have htotal := e.total_fit_le hduration
  unfold total at htotal
  rw [he.contour_eq hduration, Contour.toList]
  simp only [gainAt, sustain_fit]
  generalize e.fit duration = f at hattack hdecay hrelease htotal
  generalize peak * e.sustain = level
  split_ifs with hout hrising hfalling hheld
  · -- before the note or after it
    rcases hout with hbefore | hafter
    · rw [polyline_of_lt (by simpa using hbefore)]
    · rw [polyline_of_le]
      simp only [List.forall_mem_cons, List.not_mem_nil]
      refine ⟨?_, ?_, ?_, ?_, ?_, fun _ h => h.elim⟩ <;> linarith
  · -- the attack
    rw [not_or, not_lt] at hout
    refine Eq.trans ?_ (polyline_append [] nofun ?_ ?_).symm
    · rw [Point.ramp_attack]
    · simpa using hout.1
    · simpa using hrising
  · -- the decay
    rw [not_lt] at hrising
    refine Eq.trans ?_ (polyline_append [_] ?_ ?_ ?_).symm
    · rw [Point.ramp_decay]
    · simpa using hattack.trans hrising
    · simpa using hrising
    · simpa [add_assoc] using hfalling
  · -- the sustained level
    rw [not_lt] at hrising hfalling
    refine Eq.trans ?_ (polyline_append [_, _] ?_ ?_ ?_).symm
    · rw [Point.ramp_sustain]
    · simpa using ⟨hattack.trans hrising, hrising⟩
    · simpa [add_assoc] using hfalling
    · simpa [add_sub_assoc] using hheld
  · -- the release
    rw [not_or, not_lt, not_le] at hout
    rw [not_lt] at hrising hfalling hheld
    refine Eq.trans ?_ (polyline_append [_, _, _] ?_ ?_ ?_).symm
    · rw [Point.ramp_release _ _ (by linarith)]
    · simpa [add_assoc] using ⟨hattack.trans hrising, hrising, hfalling⟩
    · simpa [add_sub_assoc] using hheld
    · simpa using hout.2

end IsPhased

end Envelope

/-! ## No division by zero -/

/-- The outcome of a computation: a number, or an error if a division by zero has gone into it. -/
inductive Checked (K : Type)
  | number (x : K)
  | undefined

namespace Checked

variable {K : Type}

/-- An operation that fails if one of its operands has. -/
def lift (op : K → K → Checked K) : Checked K → Checked K → Checked K
  | number x, number y => op x y
  | _, _ => undefined

/-- A comparison that an error never passes. -/
def Compares (r : K → K → Prop) : Checked K → Checked K → Prop
  | number x, number y => r x y
  | _, _ => False

instance (r : K → K → Prop) [DecidableRel r] : DecidableRel (Compares r)
  | number x, number y => inferInstanceAs (Decidable (r x y))
  | number _, undefined => isFalse id
  | undefined, _ => isFalse id

section Operations

variable [Field K]

instance : Zero (Checked K) := ⟨number 0⟩
instance : Add (Checked K) := ⟨lift fun x y => number (x + y)⟩
instance : Sub (Checked K) := ⟨lift fun x y => number (x - y)⟩
instance : Mul (Checked K) := ⟨lift fun x y => number (x * y)⟩
instance [DecidableEq K] : Div (Checked K) :=
  ⟨lift fun x y => if y = 0 then undefined else number (x / y)⟩

variable (x y : K)

theorem zero_eq : (0 : Checked K) = number 0 := rfl

theorem number_add : number x + number y = number (x + y) := rfl

theorem number_sub : number x - number y = number (x - y) := rfl

theorem number_mul : number x * number y = number (x * y) := rfl

theorem number_div [DecidableEq K] {y : K} (hy : y ≠ 0) :
    number x / number y = number (x / y) := if_neg hy

end Operations

section Order

variable [LinearOrder K]

instance : LE (Checked K) := ⟨Compares (· ≤ ·)⟩
instance : LT (Checked K) := ⟨Compares (· < ·)⟩
instance : DecidableLE (Checked K) := inferInstanceAs (DecidableRel (Compares (· ≤ ·)))
instance : DecidableLT (Checked K) := inferInstanceAs (DecidableRel (Compares (· < ·)))

variable (x y : K)

theorem number_le : number x ≤ number y ↔ x ≤ y := Iff.rfl

theorem number_lt : number x < number y ↔ x < y := Iff.rfl

theorem lower_number : lower (number x) (number y) = number (lower x y) := by
  simp only [lower, number_le, number_lt]
  split_ifs <;> rfl

theorem upper_number : upper (number x) (number y) = number (upper x y) := by
  simp only [upper, number_le, number_lt]
  split_ifs <;> rfl

end Order

end Checked

open Checked (number)

/-- The envelope with all its numbers changed. -/
@[simps]
def Envelope.map {α β : Type} (f : α → β) (e : Envelope α) : Envelope β :=
  ⟨f e.attack, f e.decay, f e.sustain, f e.release⟩

/-- The point with its numbers changed. -/
def Point.map {α β : Type} (f : α → β) (p : Point α) : Point β := ⟨f p.time, f p.gain⟩

/-- The corners with all their numbers changed. -/
def Contour.map {α β : Type} (f : α → β) (c : Contour α) : Contour β :=
  ⟨c.onset.map f, c.peak.map f, c.settled.map f, c.fading.map f, c.silence.map f⟩

namespace Envelope

variable {K : Type} [Field K] [LinearOrder K]

/-- **An envelope is fitted without a division by zero.** -/
theorem fit_number (e : Envelope K) (duration : K) :
    (e.map number).fit (number duration) = (e.fit duration).map number := by
  have htotal : (e.map number).total = number e.total := rfl
  simp only [fit, htotal, Checked.zero_eq, Checked.number_le]
  split_ifs with h
  · rfl
  · have hne : e.total ≠ 0 := fun h0 => h (.inr h0.le)
    rw [Checked.number_div _ hne]
    rfl

theorem contour_number (e : Envelope K) (start duration peak : K) :
    (e.map number).contour (number start) (number duration) (number peak) =
      (e.contour start duration peak).map number := by
  simp only [contour, fit_number, map_attack, map_decay, map_sustain, map_release,
    Checked.zero_eq, Checked.number_add, Checked.number_sub, Checked.number_mul,
    Checked.lower_number, Checked.upper_number]
  rfl

/-- **No gain comes from a division by zero**: a phase that a moment falls into has a length. -/
theorem gainAt_number [IsStrictOrderedRing K] (e : Envelope K) (time duration peak : K) :
    (e.map number).gainAt (number time) (number duration) (number peak) =
      number (e.gainAt time duration peak) := by
  simp only [gainAt, fit_number, map_attack, map_decay, map_sustain, map_release,
    Checked.zero_eq, Checked.number_add, Checked.number_sub, Checked.number_mul,
    Checked.number_le, Checked.number_lt]
  generalize e.fit duration = f
  split_ifs with hout hrising hfalling hheld
  · rfl
  · have hlength : f.attack ≠ 0 := by
      intro h0
      exact hout (.inl (h0 ▸ hrising))
    rw [Checked.number_div _ hlength]
  · have hlength : f.decay ≠ 0 := by
      intro h0
      exact hrising (by simpa [h0] using hfalling)
    rw [Checked.number_div _ hlength, Checked.number_mul, Checked.number_sub]
  · rfl
  · have hlength : f.release ≠ 0 := by
      intro h0
      exact hout (.inr (by simpa [h0] using hheld))
    rw [Checked.number_div _ hlength]

theorem IsPhased.gainAt_bounds [IsStrictOrderedRing K] {e : Envelope K} {duration peak : K}
    (he : e.IsPhased) (hduration : 0 ≤ duration) (hsustain : 0 ≤ e.sustain)
    (hsustain' : e.sustain ≤ 1) (hpeak : 0 ≤ peak) (time : K) :
    0 ≤ e.gainAt time duration peak ∧ e.gainAt time duration peak ≤ peak := by
  have hlevel : 0 ≤ peak * e.sustain := mul_nonneg hpeak hsustain
  have hlevel' : peak * e.sustain ≤ peak := mul_le_of_le_one_right hpeak hsustain'
  rw [he.gainAt_eq hduration 0]
  refine polyline_bounds le_rfl hpeak ?_
  rw [he.contour_eq hduration, Contour.toList]
  simp only [List.forall_mem_cons, List.not_mem_nil]
  exact ⟨⟨le_rfl, hpeak⟩, ⟨hpeak, le_rfl⟩, ⟨hlevel, hlevel'⟩, ⟨hlevel, hlevel'⟩, ⟨le_rfl, hpeak⟩,
    fun _ h => h.elim⟩

end Envelope

/-- **The two descriptions of a gain curve agree** where nothing is rounded, whatever the moment,
also if phases or the note have no length and if the phases are shortened. The corners follow each
other in time, and the gain at a moment is the value there of the polyline through them. Nothing is
ever divided by zero. Gains lie between silence and the peak if the sustained level is a part of
it. -/
theorem gainAt_eq_polyline {K : Type} [Field K] [LinearOrder K] [IsStrictOrderedRing K]
    {e : Envelope K} {duration : K} (he : e.IsPhased) (hduration : 0 ≤ duration)
    (start peak time : K) :
    (e.contour start duration peak).toList.IsChain (·.time ≤ ·.time) ∧
      e.gainAt time duration peak =
        polyline (e.contour start duration peak).toList (start + time) ∧
      ((e.map number).fit (number duration) = (e.fit duration).map number ∧
        (e.map number).contour (number start) (number duration) (number peak) =
          (e.contour start duration peak).map number ∧
        (e.map number).gainAt (number time) (number duration) (number peak) =
          number (e.gainAt time duration peak)) ∧
      (0 ≤ e.sustain → e.sustain ≤ 1 → 0 ≤ peak →
        0 ≤ e.gainAt time duration peak ∧ e.gainAt time duration peak ≤ peak) :=
  ⟨he.isChain_contour hduration, he.gainAt_eq hduration start,
    ⟨e.fit_number duration, e.contour_number start duration peak,
      e.gainAt_number time duration peak⟩,
    fun hsustain hsustain' hpeak => he.gainAt_bounds hduration hsustain hsustain' hpeak time⟩

/-- A note of one second that is too short for its envelope, at a moment of its shortened decay. -/
theorem gainAt_eq_polyline_shortened :
    let e : Envelope ℚ := ⟨1 / 2, 1 / 2, 1 / 2, 1⟩
    e.IsPhased ∧ ¬ e.total ≤ 1 ∧
      e.gainAt (3 / 8) 1 1 = polyline (e.contour 2 1 1).toList (2 + 3 / 8) ∧
      0 ≤ e.gainAt (3 / 8) 1 1 ∧ e.gainAt (3 / 8) 1 1 ≤ 1 := by
  intro e
  have he : e.IsPhased := ⟨by norm_num [e], by norm_num [e], by norm_num [e]⟩
  obtain ⟨-, hvalue, -, hbounds⟩ := gainAt_eq_polyline he zero_le_one 2 1 (3 / 8)
  exact ⟨he, by norm_num [e, Envelope.total], hvalue,
    hbounds (by norm_num [e]) (by norm_num [e]) zero_le_one⟩

end Melody.Sound
