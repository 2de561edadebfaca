import Melody.Proofs.Binary64.Powers
import Melody.Proofs.Continuity
import Melody.Sound.Envelope

/-!
# The order of the corners of a gain curve

The phases of a note that is too short for them are multiplied by a rounded quotient. The product is
rounded again, and an attack that is nearly all of the envelope can come out longer than the note.
Nothing holds the end of the attack back to the end of the note, as it is done with the other
corners.

* `IsTimespan`: a finite number that is not negative;
* `unitsOf_ratio`: how far a rounded quotient can be off; `mul_ratio_le`: what is at most half of
  the whole does not get longer than the note;
* `Envelope.IsTimed`: the phases are lengths; `IsTimed.fit`: and stay so in a short note;
* `Contour.IsSpread`: what holds of the corners in any case; `isSpread_contour`;
* **`contour_rising_iff`**: the corners follow each other in time iff the attack ends with the note,
  at the latest; all others are in order in any case.
-/

namespace Melody

open Binary64 Sound

theorem unitsOf_lower {x y : Float} (hx : x.isNaN = false) (hy : y.isNaN = false) :
    (lower x y).isNaN = false ∧ unitsOf (lower x y) = min (unitsOf x) (unitsOf y) := by
  have hlt := lt_iff_unitsOf_lt hy hx
  unfold lower
  split_ifs with h
  · have hyx := h.resolve_right (not_not_intro (Binary64.le_refl hx))
    exact ⟨hy, (min_eq_right (hlt.mp hyx).le).symm⟩
  · have hyx := mt Or.inl h
    exact ⟨hx, (min_eq_left (not_lt.mp (mt hlt.mpr hyx))).symm⟩

theorem unitsOf_upper {x y : Float} (hx : x.isNaN = false) (hy : y.isNaN = false) :
    (upper x y).isNaN = false ∧ unitsOf (upper x y) = max (unitsOf x) (unitsOf y) := by
  have hlt := lt_iff_unitsOf_lt hx hy
  unfold upper
  split_ifs with h
  · have hxy := h.resolve_right (not_not_intro (Binary64.le_refl hx))
    exact ⟨hy, (max_eq_right (hlt.mp hxy).le).symm⟩
  · have hxy := mt Or.inl h
    exact ⟨hx, (max_eq_left (not_lt.mp (mt hlt.mpr hxy))).symm⟩

/-- A finite number that is not negative. -/
structure IsTimespan (x : Float) : Prop where
  isFinite : x.isFinite = true
  nonneg : 0 ≤ x

instance (x : Float) : Decidable (IsTimespan x) :=
  decidable_of_iff (x.isFinite = true ∧ 0 ≤ x) ⟨fun h => ⟨h.1, h.2⟩, fun h => ⟨h.1, h.2⟩⟩

namespace IsTimespan

variable {x y : Float}

theorem isNaN (h : IsTimespan x) : x.isNaN = false := isNaN_eq_false_of_isFinite h.isFinite

theorem unitsOf_nonneg (h : IsTimespan x) : 0 ≤ unitsOf x := (zero_le_iff h.isNaN).mp h.nonneg

theorem of_unitsOf_le (hy : IsTimespan y) (hx : x.isNaN = false) (hlow : 0 ≤ unitsOf x)
    (hhigh : unitsOf x ≤ unitsOf y) : IsTimespan x := by
  have hbounds := (isFinite_iff hy.isNaN).mp hy.isFinite
  exact ⟨(isFinite_iff hx).mpr ⟨by omega, by omega⟩, (zero_le_iff hx).mpr hlow⟩

theorem nearest_two_mul (hx : IsTimespan x) :
    nearest (2 * unitsOf x) = min (2 * unitsOf x) infinity := by
  have h := nearest_mul_two_pow hx.isFinite hx.unitsOf_nonneg 1
  rwa [pow_one, pow_one, mul_comm, mul_comm (unitsOf x)] at h

end IsTimespan

section Ratio

variable {x d t : Float}

/-- **The part that a length is of a greater number** is at most one, and at most twice what it is
without rounding. -/
theorem unitsOf_ratio (hd : IsTimespan d) (ht : t.isNaN = false) (hdt : ¬ t ≤ d) :
    (d / t).isNaN = false ∧ 0 ≤ unitsOf (d / t) ∧ unitsOf (d / t) ≤ nearest (2 ^ 1074) ∧
      (unitsOf (d / t) : ℚ) * unitsOf t ≤ 2 * unitsOf d * 2 ^ 1074 := by
  rw [le_iff_unitsOf_le ht hd.isNaN, not_le] at hdt
  have hdt0 : 0 < unitsOf t := hd.unitsOf_nonneg.trans_lt hdt
  have hd0 : (0 : ℚ) ≤ unitsOf d := Int.cast_nonneg hd.unitsOf_nonneg
  have ht0 : (0 : ℚ) < unitsOf t := Int.cast_pos.mpr hdt0
  have hle : (unitsOf d : ℚ) / unitsOf t ≤ 1 := (div_le_one ht0).mpr (Int.cast_le.mpr hdt.le)
  have hpow : (0 : ℚ) < 2 ^ 1074 := by positivity
  cases hfinite : t.isFinite with
  | false =>
    obtain ⟨hnan, hunits⟩ := unitsOf_div_of_infinite hd.isFinite ht hfinite
    rw [hunits, Int.cast_zero, zero_mul]
    exact ⟨hnan, le_rfl, nearest_nonneg hpow.le, by positivity⟩
  | true =>
    obtain ⟨hnan, hunits⟩ := unitsOf_div hd.isFinite hfinite hdt0.ne'
    rw [hunits]
    generalize (2 : ℚ) ^ 1074 = p at hpow ⊢
    have hq : 0 ≤ (unitsOf d : ℚ) / unitsOf t * p := by positivity
    refine ⟨hnan, nearest_nonneg hq, nearest_mono (mul_le_of_le_one_left hpow.le hle), ?_⟩
    calc (nearest (unitsOf d / unitsOf t * p) : ℚ) * unitsOf t
        ≤ 2 * (unitsOf d / unitsOf t * p) * unitsOf t :=
          mul_le_mul_of_nonneg_right (nearest_le_two_mul hq) ht0.le
      _ = 2 * unitsOf d * p := by field_simp

theorem isFinite_ratio (hd : IsTimespan d) (ht : t.isNaN = false) (hdt : ¬ t ≤ d) :
    (d / t).isFinite = true := by
  obtain ⟨hnan, hlow, hhigh, -⟩ := unitsOf_ratio hd ht hdt
  have hinf : (0 : ℤ) < infinity := infinity_pos
  exact (isFinite_iff hnan).mpr ⟨(neg_neg_of_pos hinf).trans_le hlow,
    hhigh.trans_lt (nearest_two_pow_lt (by norm_num))⟩

theorem IsTimespan.mul_ratio (hx : IsTimespan x) (hd : IsTimespan d) (ht : t.isNaN = false)
    (hdt : ¬ t ≤ d) : IsTimespan (x * (d / t)) := by
  obtain ⟨-, hlow, hhigh, -⟩ := unitsOf_ratio hd ht hdt
  obtain ⟨hnan, hunits⟩ := unitsOf_mul hx.isFinite (isFinite_ratio hd ht hdt)
  have hx0 : (0 : ℚ) ≤ unitsOf x := Int.cast_nonneg hx.unitsOf_nonneg
  have hratio0 : (0 : ℚ) ≤ unitsOf (d / t) := Int.cast_nonneg hlow
  have hone : (unitsOf (d / t) : ℚ) ≤ 2 ^ 1074 := by
    rw [← cast_nearest_two_pow (by norm_num)]
    exact Int.cast_le.mpr hhigh
  have hpow : (0 : ℚ) < 2 ^ 1074 := by positivity
  refine hx.of_unitsOf_le hnan ?_ ?_
  · rw [hunits]
    exact nearest_nonneg (div_nonneg (mul_nonneg hx0 hratio0) hpow.le)
  · calc unitsOf (x * (d / t)) = nearest (unitsOf x * unitsOf (d / t) / 2 ^ 1074) := hunits
      _ ≤ nearest (unitsOf x) :=
        nearest_mono ((div_le_iff₀ hpow).mpr (mul_le_mul_of_nonneg_left hone hx0))
      _ = unitsOf x := nearest_unitsOf hx.isFinite

theorem mul_ratio_le (hx : IsTimespan x) (hd : IsTimespan d) (ht : t.isNaN = false) (hdt : ¬ t ≤ d)
    (hhalf : x + x ≤ t) : x * (d / t) ≤ d := by
  obtain ⟨-, hlow, -, htwice⟩ := unitsOf_ratio hd ht hdt
  obtain ⟨hnan, hunits⟩ := unitsOf_mul hx.isFinite (isFinite_ratio hd ht hdt)
  have hpow : (0 : ℚ) < 2 ^ 1074 := by positivity
  have hproduct : (unitsOf x : ℚ) * unitsOf (d / t) ≤ unitsOf d * 2 ^ 1074 := by
    have hratio0 : (0 : ℚ) ≤ unitsOf (d / t) := Int.cast_nonneg hlow
    cases hfinite : t.isFinite with
    | false =>
      rw [(unitsOf_div_of_infinite hd.isFinite ht hfinite).2, Int.cast_zero, mul_zero]
      exact mul_nonneg (Int.cast_nonneg hd.unitsOf_nonneg) hpow.le
    | true =>
      have htwo : (2 : ℚ) * unitsOf x ≤ unitsOf t := by
        obtain ⟨hsum, hdouble⟩ := unitsOf_add hx.isFinite hx.isFinite
        rw [le_iff_unitsOf_le hsum ht, hdouble, ← two_mul, hx.nearest_two_mul] at hhalf
        have hlt := ((isFinite_iff ht).mp hfinite).2
        have hle : 2 * unitsOf x ≤ unitsOf t :=
          (min_le_iff.mp hhalf).resolve_right (not_le.mpr hlt)
        exact_mod_cast hle
      have hle := mul_le_mul_of_nonneg_left htwo hratio0
      generalize (2 : ℚ) ^ 1074 = p at htwice ⊢
      linarith
  rw [le_iff_unitsOf_le hnan hd.isNaN]
  calc unitsOf (x * (d / t)) = nearest (unitsOf x * unitsOf (d / t) / 2 ^ 1074) := hunits
    _ ≤ nearest (unitsOf d) := nearest_mono ((div_le_iff₀ hpow).mpr hproduct)
    _ = unitsOf d := nearest_unitsOf hd.isFinite

end Ratio

/-! ## Phases -/

namespace Sound.Envelope

/-- The phases have lengths; the sustained level may be any number. -/
structure IsTimed (e : Envelope Float) : Prop where
  attack : IsTimespan e.attack
  decay : IsTimespan e.decay
  release : IsTimespan e.release

instance (e : Envelope Float) : Decidable e.IsTimed :=
  decidable_of_iff (IsTimespan e.attack ∧ IsTimespan e.decay ∧ IsTimespan e.release)
    ⟨fun h => ⟨h.1, h.2.1, h.2.2⟩, fun h => ⟨h.1, h.2, h.3⟩⟩

variable {e : Envelope Float} {duration : Float}

theorem IsTimed.attack_le_total (he : e.IsTimed) :
    e.total.isNaN = false ∧ e.attack ≤ e.total := by
  obtain ⟨hsum, hattack⟩ :=
    Binary64.le_add_of_nonneg he.attack.isNaN he.decay.isFinite he.decay.nonneg
  obtain ⟨htotal, hle⟩ :=
    Binary64.le_add_of_nonneg hsum he.release.isFinite he.release.nonneg
  exact ⟨htotal, Binary64.le_trans he.attack.isNaN hsum htotal hattack hle⟩

/-- An envelope without any length fits in every note, so that only the duration counts. -/
theorem IsTimed.fit_eq (he : e.IsTimed) (hduration : IsTimespan duration) :
    e.fit duration = if e.total ≤ duration then e else e.scale (duration / e.total) := by
  have hzero : e.total ≤ 0 → e.total ≤ duration := fun h =>
    Binary64.le_trans he.attack_le_total.1 rfl hduration.isNaN h hduration.nonneg
  exact if_congr (or_iff_left_of_imp hzero) rfl rfl

theorem IsTimed.fit (he : e.IsTimed) (hduration : IsTimespan duration) :
    (e.fit duration).IsTimed := by
  have htotal := he.attack_le_total.1
  rw [he.fit_eq hduration]
  split_ifs with h
  · exact he
  · exact ⟨he.attack.mul_ratio hduration htotal h, he.decay.mul_ratio hduration htotal h,
      he.release.mul_ratio hduration htotal h⟩

/-- The attack is not longer than the note if the note is long enough for all phases, or if the
attack is at most half of them. -/
theorem IsTimed.attack_fit_le (he : e.IsTimed) (hduration : IsTimespan duration)
    (h : e.total ≤ duration ∨ e.attack + e.attack ≤ e.total) :
    (e.fit duration).attack ≤ duration := by
  obtain ⟨htotal, hattack⟩ := he.attack_le_total
  rw [he.fit_eq hduration]
  split_ifs with hle
  · exact Binary64.le_trans he.attack.isNaN htotal hduration.isNaN hattack hle
  · exact mul_ratio_le he.attack hduration htotal hle (h.resolve_left hle)

end Sound.Envelope

/-! ## Corners -/

theorem rising_iff {ts : List Float} (hts : ∀ t ∈ ts, t.isNaN = false) :
    Rising ts ↔ (ts.map unitsOf).IsChain (· ≤ ·) := by
  rw [Rising, List.isChain_iff_pairwise, List.pairwise_map, and_iff_right hts]
  exact List.Pairwise.iff_of_mem fun hx hy => le_iff_unitsOf_le (hts _ hx) (hts _ hy)

namespace Sound.Contour

/-- The moments of the corners. -/
def times (c : Contour Float) : List Float := c.toList.map (·.time)

/-- What holds of the corners in any case: only the end of the attack may be behind the end of the
note. -/
structure IsSpread (c : Contour Float) : Prop where
  isNaN : ∀ t ∈ c.times, t.isNaN = false
  onset_le_peak : unitsOf c.onset.time ≤ unitsOf c.peak.time
  onset_le_settled : unitsOf c.onset.time ≤ unitsOf c.settled.time
  min_le_settled : min (unitsOf c.peak.time) (unitsOf c.silence.time) ≤ unitsOf c.settled.time
  settled_le_fading : unitsOf c.settled.time ≤ unitsOf c.fading.time
  fading_le_silence : unitsOf c.fading.time ≤ unitsOf c.silence.time

namespace IsSpread

variable {c : Contour Float}

theorem rising_times_iff (h : c.IsSpread) : Rising c.times ↔ c.peak.time ≤ c.silence.time := by
  obtain ⟨hnan, honset, -, hmin, hfading, hsilence⟩ := h
  have hpeak : c.peak.time.isNaN = false := hnan _ (by simp [times, toList])
  have hstop : c.silence.time.isNaN = false := hnan _ (by simp [times, toList])
  rw [rising_iff hnan, le_iff_unitsOf_le hpeak hstop]
  simp only [times, toList, List.map_cons, List.map_nil, List.isChain_cons_cons,
    List.isChain_singleton, and_true]
  omega

theorem rising_others (h : c.IsSpread) :
    Rising [c.onset.time, c.settled.time, c.fading.time, c.silence.time] := by
  obtain ⟨hnan, -, honset, -, hfading, hsilence⟩ := h
  have hsubset : [c.onset.time, c.settled.time, c.fading.time, c.silence.time] ⊆ c.times := by
    simp [times, toList]
  rw [rising_iff fun t ht => hnan t (hsubset ht)]
  simp only [List.map_cons, List.map_nil, List.isChain_cons_cons, List.isChain_singleton, and_true]
  exact ⟨honset, hfading, hsilence⟩

theorem onset_le (h : c.IsSpread) : c.onset.time ≤ c.peak.time :=
  (le_iff_unitsOf_le (h.isNaN _ (by simp [times, toList]))
    (h.isNaN _ (by simp [times, toList]))).mpr h.onset_le_peak

end IsSpread

end Sound.Contour

section Contour

variable {e : Envelope Float} {start duration : Float}

theorem isSpread_contour (he : e.IsTimed) (hstart : start.isFinite = true)
    (hduration : IsTimespan duration) (hstop : (start + duration).isFinite = true) (peak : Float) :
    (e.contour start duration peak).IsSpread := by
  have hfit := he.fit hduration
  have hnan := isNaN_eq_false_of_isFinite hstart
  have hnanStop := isNaN_eq_false_of_isFinite hstop
  obtain ⟨hnanPeak, hattack⟩ :=
    Binary64.le_add_of_nonneg hnan hfit.attack.isFinite hfit.attack.nonneg
  obtain ⟨hnanDecay, hdecay⟩ :=
    Binary64.le_add_of_nonneg hnanPeak hfit.decay.isFinite hfit.decay.nonneg
  have hspan := (Binary64.le_add_of_nonneg hnan hduration.isFinite hduration.nonneg).2
  obtain ⟨hnanSettled, hsettled⟩ := unitsOf_lower hnanDecay hnanStop
  obtain ⟨hnanRelease, hrelease⟩ := unitsOf_sub hstop hfit.release.isFinite
  obtain ⟨hnanFading, hfading⟩ := unitsOf_upper hnanRelease hnanSettled
  have hback : unitsOf (start + duration - (e.fit duration).release) ≤
      unitsOf (start + duration) := by
    rw [hrelease]
    calc nearest (unitsOf (start + duration) - unitsOf (e.fit duration).release)
        ≤ nearest (unitsOf (start + duration)) :=
          nearest_mono (sub_le_self _ (Int.cast_nonneg hfit.release.unitsOf_nonneg))
      _ = unitsOf (start + duration) := nearest_unitsOf hstop
  rw [le_iff_unitsOf_le hnan hnanPeak] at hattack
  rw [le_iff_unitsOf_le hnanPeak hnanDecay] at hdecay
  rw [le_iff_unitsOf_le hnan hnanStop] at hspan
  refine ⟨?_, hattack, ?_, ?_, ?_, ?_⟩
  · simp only [Contour.times, Contour.toList, Envelope.contour, List.map_cons, List.map_nil,
      List.forall_mem_cons]
    exact ⟨hnan, hnanPeak, hnanSettled, hnanFading, hnanStop, nofun⟩
  · exact (le_min (hattack.trans hdecay) hspan).trans_eq hsettled.symm
  · exact (min_le_min_right _ hdecay).trans_eq hsettled.symm
  · exact (le_max_right _ _).trans_eq hfading.symm
  · exact hfading.trans_le (max_le hback (hsettled.trans_le (min_le_right _ _)))

/-- **The corners of a gain curve follow each other in time** iff the attack is over when the note
is, which it is if the note is long enough for all phases or the attack takes at most half of them.
The other four corners are always in order, and the attack does not end before the note begins. -/
theorem contour_rising_iff (he : e.IsTimed) (hstart : start.isFinite = true)
    (hduration : IsTimespan duration) (hstop : (start + duration).isFinite = true) (peak : Float) :
    let c := e.contour start duration peak
    (Rising c.times ↔ c.peak.time ≤ c.silence.time) ∧
      Rising [c.onset.time, c.settled.time, c.fading.time, c.silence.time] ∧
      c.onset.time ≤ c.peak.time ∧
      (e.total ≤ duration ∨ e.attack + e.attack ≤ e.total → Rising c.times) := by
  intro c
  have hspread : c.IsSpread := isSpread_contour he hstart hduration hstop peak
  refine ⟨hspread.rising_times_iff, hspread.rising_others, hspread.onset_le, fun h => ?_⟩
  have hattack := he.attack_fit_le hduration h
  exact hspread.rising_times_iff.mpr
    (add_mono_right hstart (he.fit hduration).attack.isFinite hduration.isFinite hattack)

/-- The standard envelope in a note of an eighth of a second, which is too short for it. -/
theorem contour_rising_iff_standard :
    let e := Settings.standard.envelope
    e.IsTimed ∧ IsTimespan 0.125 ∧ ¬ e.total ≤ 0.125 ∧ Rising (e.contour 1 0.125 1).times := by
  have htimed : Settings.standard.envelope.IsTimed := by decide +kernel
  have hstart : Float.isFinite 1 = true := by decide +kernel
  have hduration : IsTimespan 0.125 := by decide +kernel
  have hstop : Float.isFinite (1 + 0.125) = true := by decide +kernel
  obtain ⟨-, -, -, hrising⟩ := contour_rising_iff htimed hstart hduration hstop 1
  exact ⟨htimed, hduration, by decide +kernel, hrising (.inr (by decide +kernel))⟩

/-- An envelope of nothing but an attack of 4.9 seconds, in a half note at a tempo of 48: the attack
is over behind the end of the note. -/
theorem attack_behind_end :
    let e : Envelope Float := ⟨4.9, 0, 0.7, 0⟩
    e.IsTimed ∧ Float.isFinite 0 = true ∧ IsTimespan 2.5 ∧ Float.isFinite (0 + 2.5) = true ∧
      ¬ Rising (e.contour 0 2.5 1).times := by
  have htimed : (Envelope.mk 4.9 0 0.7 0 : Envelope Float).IsTimed := by decide +kernel
  have hstart : Float.isFinite 0 = true := by decide +kernel
  have hduration : IsTimespan 2.5 := by decide +kernel
  have hstop : Float.isFinite (0 + 2.5) = true := by decide +kernel
  refine ⟨htimed, hstart, hduration, hstop, ?_⟩
  rw [(isSpread_contour htimed hstart hduration hstop 1).rising_times_iff]
  decide +kernel

end Contour

end Melody
