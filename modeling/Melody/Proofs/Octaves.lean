import Melody.Proofs.Binary64.Powers
import Melody.Proofs.Defects

/-!
# Octaves

An octave doubles a frequency. The keys of octave zero lie between two powers of two, so that all
of them can be doubled equally often before the frequency is too large, and nothing is rounded on
the way.

* `unitsOf_octaveFactor`: the factor of an octave is a power of two;
* `base_bounds`: the keys of octave zero; `isFinite_mul_octaveFactor_iff`: in which octaves their
  frequencies are finite;
* `frequency?_eq`: a frequency, without rounding; `frequency?_succ`: one octave higher;
* `Spelling.semitones`: keys; `frequency?_eq_of_semitones`: two spellings of one key;
* `PowersOfTwo`, `frequencyBy?`: powers with exponents of 32 bits, to which octaves are cut down;
  `frequencyBy?_eq`;
* **`octaves_double`**: which octaves there are, what their frequencies are, and which notes are
  too high.
-/

namespace Melody

open Sound Binary64

variable {s s' : Spelling} {base : Float} {n : ℕ}

theorem unitsOf_octaveFactor (h : n ≤ 1023) :
    unitsOf (octaveFactor n) = (2 ^ (1074 + n) : ℕ) := by
  rw [octaveFactor, if_pos h]
  exact unitsOf_ofBits_power h

theorem isFinite_octaveFactor (h : n ≤ 1023) : (octaveFactor n).isFinite = true :=
  isFinite_of_unitsOf_power (by omega) (unitsOf_octaveFactor h)

theorem isFinite_octaveFactor_of_lt (h : 1023 < n) : (octaveFactor n).isFinite = false := by
  rw [octaveFactor, if_neg (by omega)]
  rfl

/-- **The keys of octave zero** lie between 16 and 32 hertz. -/
theorem base_bounds (h : baseFrequency? s = some base) :
    base.isFinite = true ∧ octaveFactor 4 ≤ base ∧ base < octaveFactor 5 := by
  obtain ⟨letter, accidental⟩ := s
  cases letter <;> cases accidental <;> cases h <;> decide +kernel

theorem unitsOf_base_bounds (h : baseFrequency? s = some base) :
    (2 ^ (1074 + 4) : ℕ) ≤ unitsOf base ∧ unitsOf base < (2 ^ (1074 + 5) : ℕ) := by
  obtain ⟨hfinite, hlow, hhigh⟩ := base_bounds h
  have hnan := isNaN_eq_false_of_isFinite hfinite
  have hfactor : ∀ n ≤ 1023, (octaveFactor n).isNaN = false := fun n hn =>
    isNaN_eq_false_of_isFinite (isFinite_octaveFactor hn)
  rw [le_iff_unitsOf_le (hfactor 4 (by norm_num)) hnan,
    unitsOf_octaveFactor (by norm_num)] at hlow
  rw [lt_iff_unitsOf_lt hnan (hfactor 5 (by norm_num)),
    unitsOf_octaveFactor (by norm_num)] at hhigh
  exact ⟨hlow, hhigh⟩

theorem cast_two_pow_add (k n : ℕ) : ((2 ^ (k + n) : ℕ) : ℤ) = (2 ^ k : ℕ) * 2 ^ n := by
  rw [pow_add, Nat.cast_mul, Nat.cast_pow 2 n, Nat.cast_ofNat]

/-- **All keys can be doubled equally often.** -/
theorem unitsOf_mul_lt_infinity_iff (hbase : baseFrequency? s = some base) :
    unitsOf base * 2 ^ n < infinity ↔ n ≤ 1019 := by
  obtain ⟨hlow, hhigh⟩ := unitsOf_base_bounds hbase
  have hpow : (0 : ℤ) < 2 ^ n := by positivity
  constructor
  · contrapose!
    intro hn
    calc (infinity : ℤ) ≤ (2 ^ (1074 + 4 + n) : ℕ) :=
          Int.ofNat_le.mpr (infinity_le_two_pow (by omega))
      _ = (2 ^ (1074 + 4) : ℕ) * 2 ^ n := cast_two_pow_add _ n
      _ ≤ unitsOf base * 2 ^ n := Int.mul_le_mul_of_nonneg_right hlow hpow.le
  · intro hn
    calc unitsOf base * 2 ^ n < (2 ^ (1074 + 5) : ℕ) * 2 ^ n :=
          Int.mul_lt_mul_of_pos_right hhigh hpow
      _ = (2 ^ (1074 + 5 + n) : ℕ) := (cast_two_pow_add _ n).symm
      _ ≤ infinity := Int.ofNat_le.mpr (two_pow_le_infinity (by omega))

theorem unitsOf_base_pos (hbase : baseFrequency? s = some base) : 0 < unitsOf base := by
  have hpow : 0 < 2 ^ (1074 + 4) := by positivity
  have hlow := (unitsOf_base_bounds hbase).1
  omega

theorem unitsOf_mul_octaveFactor (hbase : baseFrequency? s = some base) (h : n ≤ 1023) :
    (base * octaveFactor n).isNaN = false ∧
      unitsOf (base * octaveFactor n) = min (unitsOf base * 2 ^ n) infinity :=
  unitsOf_mul_power (base_bounds hbase).1 (unitsOf_base_pos hbase).le (isFinite_octaveFactor h)
    (unitsOf_octaveFactor h)

/-- **Frequencies are finite in the octaves up to 1019.** -/
theorem isFinite_mul_octaveFactor_iff (hbase : baseFrequency? s = some base) :
    (base * octaveFactor n).isFinite = true ↔ n ≤ 1019 := by
  -- from 1020 to 1023 the product is too large, and beyond the factor is not finite itself
  rcases le_or_gt n 1023 with hn | hn
  · obtain ⟨hnan, hunits⟩ := unitsOf_mul_octaveFactor hbase hn
    have hpow : (0 : ℤ) < 2 ^ n := by positivity
    have hpos := Int.mul_pos (unitsOf_base_pos hbase) hpow
    have hinf := infinity_pos
    rw [isFinite_iff hnan, hunits, ← unitsOf_mul_lt_infinity_iff hbase]
    omega
  · rw [isFinite_mul_of_infinite base (isFinite_octaveFactor_of_lt hn)]
    exact iff_of_false nofun (by omega)

theorem unitsOf_mul_octaveFactor_of_le (hbase : baseFrequency? s = some base) (h : n ≤ 1019) :
    unitsOf (base * octaveFactor n) = unitsOf base * 2 ^ n := by
  rw [(unitsOf_mul_octaveFactor hbase (by omega)).2]
  exact min_eq_left ((unitsOf_mul_lt_infinity_iff hbase).mpr h).le

theorem frequency?_eq (hbase : baseFrequency? s = some base) (octave : UInt32) :
    frequency? s octave =
      if octave ≤ 1019 then some (base * octaveFactor octave.toNat) else none := by
  have hfinite := isFinite_mul_octaveFactor_iff (n := octave.toNat) hbase
  have hle : octave ≤ 1019 ↔ octave.toNat ≤ 1019 := UInt32.le_iff_toNat_le
  simp only [frequency?, hbase, Option.bind_some, hfinite, hle]

/-- **An octave higher is twice the frequency.** -/
theorem mul_octaveFactor_succ (hbase : baseFrequency? s = some base) (h : n < 1019) :
    base * octaveFactor (n + 1) = base * octaveFactor n * 2 := by
  have htwo : octaveFactor 1 = 2 := by decide +kernel
  have hunits := unitsOf_mul_octaveFactor_of_le hbase h.le
  have hnext := unitsOf_mul_octaveFactor_of_le hbase h
  have hpow : (0 : ℤ) < 2 ^ n := by positivity
  have hpos := Int.mul_pos (unitsOf_base_pos hbase) hpow
  obtain ⟨-, hdouble⟩ := unitsOf_mul_power ((isFinite_mul_octaveFactor_iff hbase).mpr h.le)
    (by rw [hunits]; exact hpos.le) (isFinite_octaveFactor (n := 1) (by norm_num))
    (unitsOf_octaveFactor (by norm_num))
  rw [htwo, hunits, mul_assoc, ← pow_add,
    min_eq_left ((unitsOf_mul_lt_infinity_iff hbase).mpr h).le, ← hnext] at hdouble
  have hpow' : (0 : ℤ) < 2 ^ (n + 1) := by positivity
  have hpos' := Int.mul_pos (unitsOf_base_pos hbase) hpow'
  exact eq_of_unitsOf_eq hdouble.symm (by rw [hnext]; exact hpos'.ne')

theorem frequency?_succ (hbase : baseFrequency? s = some base) {octave : UInt32}
    (h : octave < 1019) : frequency? s (octave + 1) = (frequency? s octave).map (· * 2) := by
  have hlt : octave.toNat < 1019 := UInt32.lt_iff_toNat_lt.mp h
  have hsucc : (octave + 1).toNat = octave.toNat + 1 := by
    rw [UInt32.toNat_add]
    exact Nat.mod_eq_of_lt (by rw [UInt32.toNat_one]; omega)
  have hle : octave + 1 ≤ 1019 := by
    rw [UInt32.le_iff_toNat_le, hsucc]
    exact hlt
  rw [frequency?_eq hbase, frequency?_eq hbase, if_pos hle, if_pos (UInt32.le_of_lt h), hsucc,
    mul_octaveFactor_succ hbase hlt]
  rfl

/-! ## Keys -/

/-- The key of a letter, counted from `C`. -/
def Letter.semitones : Letter → ℤ
  | c => 0
  | d => 2
  | e => 4
  | f => 5
  | g => 7
  | a => 9
  | b => 11

/-- How far a sign goes. -/
def Accidental.semitones : Accidental → ℤ
  | flat => -1
  | natural => 0
  | sharp => 1

/-- The key of a spelling, counted from `C`. -/
def Spelling.semitones (s : Spelling) : ℤ := s.letter.semitones + s.accidental.semitones

/-- The spelling of a key without flats. -/
def spellingOf : ℤ → Spelling
  | 1 => ⟨.c, .sharp⟩
  | 2 => ⟨.d, .natural⟩
  | 3 => ⟨.d, .sharp⟩
  | 4 => ⟨.e, .natural⟩
  | 5 => ⟨.f, .natural⟩
  | 6 => ⟨.f, .sharp⟩
  | 7 => ⟨.g, .natural⟩
  | 8 => ⟨.g, .sharp⟩
  | 9 => ⟨.a, .natural⟩
  | 10 => ⟨.a, .sharp⟩
  | 11 => ⟨.b, .natural⟩
  | _ => ⟨.c, .natural⟩

theorem baseFrequency?_spellingOf (h : baseFrequency? s ≠ none) :
    baseFrequency? (spellingOf s.semitones) = baseFrequency? s := by
  obtain ⟨letter, accidental⟩ := s
  cases letter <;> cases accidental <;> first | rfl | exact absurd rfl h

/-- **Two spellings of one key** have the same frequency in every octave. -/
theorem frequency?_eq_of_semitones (h : baseFrequency? s ≠ none) (h' : baseFrequency? s' ≠ none)
    (hkey : s.semitones = s'.semitones) (octave : UInt32) :
    frequency? s octave = frequency? s' octave := by
  have hbase : baseFrequency? s = baseFrequency? s' := by
    rw [← baseFrequency?_spellingOf h, ← baseFrequency?_spellingOf h', hkey]
  rw [frequency?, frequency?, hbase]

/-! ## Exponents of 32 bits -/

/-- Two to the power of an exponent with a sign, exactly, or infinity if that is too large. -/
structure PowersOfTwo (power : Int32 → Float) : Prop where
  exact : ∀ (e : Int32) (n : ℕ), e.toInt = n → n ≤ 1023 →
    unitsOf (power e) = (2 ^ (1074 + n) : ℕ)
  overflow : ∀ e : Int32, 1023 < e.toInt → power e = 1 / 0

theorem powersOfTwo_octaveFactor : PowersOfTwo fun e => octaveFactor e.toInt.toNat where
  exact e n he hn := by
    rw [he, Int.toNat_natCast]
    exact unitsOf_octaveFactor hn
  overflow e he := if_neg (by omega)

/-- An octave as an exponent; one that is too large counts as the largest. -/
def exponent (octave : UInt32) : Int32 := (min octave 0x7fffffff).toInt32

theorem toInt_exponent (octave : UInt32) :
    (exponent octave).toInt = (min octave.toNat 0x7fffffff : ℕ) := by
  have hmin : (min octave 0x7fffffff).toNat = min octave.toNat 0x7fffffff := UInt32.toNat_min _ _
  have hlt : (min octave 0x7fffffff).toNat < 2 ^ 31 := by
    rw [hmin]
    omega
  rw [exponent, ← UInt32.ofNat_toNat (x := min octave 0x7fffffff), UInt32.toInt32_ofNat',
    Int32.toInt_ofNat_of_lt hlt, hmin]

/-- The frequency of a key in an octave, which is cut down to an exponent. -/
def frequencyBy? (power : Int32 → Float) (s : Spelling) (octave : UInt32) : Option Float :=
  (baseFrequency? s).bind fun base =>
    let frequency := base * power (exponent octave)
    if frequency.isFinite then some frequency else none

/-- **Cutting an octave down changes nothing.** -/
theorem frequencyBy?_eq {power : Int32 → Float} (hpower : PowersOfTwo power) (s : Spelling)
    (octave : UInt32) : frequencyBy? power s octave = frequency? s octave := by
  have hexponent := toInt_exponent octave
  have hfactor : power (exponent octave) = octaveFactor octave.toNat := by
    rcases le_or_gt octave.toNat 1023 with hn | hn
    · have hunits := hpower.exact (exponent octave) octave.toNat (by omega) hn
      have hpos : 0 < 2 ^ (1074 + octave.toNat) := by positivity
      exact eq_of_unitsOf_eq (hunits.trans (unitsOf_octaveFactor hn).symm) (by omega)
    · rw [hpower.overflow _ (by omega), octaveFactor, if_neg (by omega)]
  rw [frequencyBy?, frequency?, hfactor]

/-! ## Notes that are too high -/

theorem Note.tooHigh_iff (n : Note) :
    n.TooHigh ↔ baseFrequency? n.spelling ≠ none ∧ 1020 ≤ n.octave := by
  have hle : 1020 ≤ n.octave ↔ ¬ n.octave.toNat ≤ 1019 := by
    rw [not_le]
    exact UInt32.le_iff_toNat_le
  unfold Note.TooHigh
  cases hbase : baseFrequency? n.spelling with
  | none => simp
  | some base =>
    simp only [Option.some.injEq, exists_eq_left', ne_eq, reduceCtorEq, not_false_eq_true,
      true_and, hle, ← isFinite_mul_octaveFactor_iff hbase, Bool.not_eq_true]

/-- **The notes that are too high** are those from octave 1020 on, if their keys exist. -/
theorem defect_octave_iff {st : Statement} {octave : UInt32} :
    Defect st (.unplayableOctave octave) ↔ ∃ n : Note, st = .note n ∧
      baseFrequency? n.spelling ≠ none ∧ n.octave = octave ∧ 1020 ≤ octave := by
  constructor
  · intro h
    cases h with
    | @octave n hkey hhigh => exact ⟨n, rfl, hkey, rfl, (n.tooHigh_iff.mp hhigh).2⟩
  · rintro ⟨n, rfl, hkey, rfl, hhigh⟩
    exact .octave hkey (n.tooHigh_iff.mpr ⟨hkey, hhigh⟩)

/-- **A performance ends because an octave is too high** iff the first played statement that is
invalid is a note with a key from octave 1020 on. -/
theorem voices_eq_octave_iff (player : Player) (score : Score) (now : Float) (pos : Position)
    (octave : UInt32) :
    (player.execute score now).1.voices player.settings =
        .error ⟨pos, .semantic (.unplayableOctave octave)⟩ ↔
      ∃ before around n after, score.places = before ++ ⟨around, .note n⟩ :: after ∧
        (∀ q ∈ before, q.Played → ¬ q.statement.Invalid) ∧ Place.Played ⟨around, .note n⟩ ∧
          baseFrequency? n.spelling ≠ none ∧ n.pos = pos ∧ n.octave = octave ∧ 1020 ≤ octave := by
  have hplaces := fault_playBlock score.statements [] (.opening now) (List.forall_mem_nil _)
  rw [voices_eq_error_iff_faultOf, hplaces, ← Score.places, List.findSome?_eq_some_iff]
  simp only [Place.fault?_eq_some_iff, Place.fault?_eq_none_iff]
  constructor
  · rintro ⟨before, ⟨around, st⟩, after, heq, ⟨hplayed, cause, hdefect, hfault⟩, hbefore⟩
    cases hfault
    obtain ⟨n, rfl, hkey, hoctave, hhigh⟩ := defect_octave_iff.mp hdefect
    exact ⟨before, around, n, after, heq, hbefore, hplayed, hkey, rfl, hoctave, hhigh⟩
  · rintro ⟨before, around, n, after, heq, hbefore, hplayed, hkey, rfl, hoctave, hhigh⟩
    exact ⟨before, ⟨around, .note n⟩, after, heq,
      ⟨hplayed, _, defect_octave_iff.mpr ⟨n, rfl, hkey, hoctave, hhigh⟩, rfl⟩, hbefore⟩

/-- **Octaves double exactly until they are too high.** With exact powers of two, cutting octaves
down to exponents changes nothing. A key has a frequency in the octaves up to 1019 and in no other;
it is the frequency of octave zero times a power of two, without rounding, so that it doubles with
every octave. Two spellings of one key have the same frequencies. Hence a performance ends because
an octave is too high iff the first played statement that is invalid is a note with a key and an
octave of at least 1020. -/
theorem octaves_double {power : Int32 → Float} (hpower : PowersOfTwo power) :
    (∀ s octave, frequencyBy? power s octave = frequency? s octave) ∧
    (∀ s base, baseFrequency? s = some base → ∀ octave : UInt32,
      ((∃ f, frequency? s octave = some f) ↔ octave ≤ 1019) ∧
      (∀ f, frequency? s octave = some f → f.isFinite = true ∧
        unitsOf f = unitsOf base * 2 ^ octave.toNat) ∧
      (octave < 1019 → frequency? s (octave + 1) = (frequency? s octave).map (· * 2))) ∧
    (∀ s s', baseFrequency? s ≠ none → baseFrequency? s' ≠ none → s.semitones = s'.semitones →
      ∀ octave, frequency? s octave = frequency? s' octave) ∧
    ∀ (player : Player) (score : Score) (now : Float) (pos : Position) (octave : UInt32),
      (player.execute score now).1.voices player.settings =
          .error ⟨pos, .semantic (.unplayableOctave octave)⟩ ↔
        ∃ before around n after, score.places = before ++ ⟨around, .note n⟩ :: after ∧
          (∀ q ∈ before, q.Played → ¬ q.statement.Invalid) ∧ Place.Played ⟨around, .note n⟩ ∧
            baseFrequency? n.spelling ≠ none ∧ n.pos = pos ∧ n.octave = octave ∧
              1020 ≤ octave := by
  refine ⟨frequencyBy?_eq hpower, fun s base hbase octave => ⟨?_, ?_, frequency?_succ hbase⟩,
    fun s s' h h' hkey => frequency?_eq_of_semitones h h' hkey, voices_eq_octave_iff⟩
  · rw [frequency?_eq hbase]
    split_ifs with hle <;> simp [hle]
  · intro f hf
    rw [frequency?_eq hbase, Option.ite_none_right_eq_some] at hf
    obtain ⟨hle, hf⟩ := hf
    cases hf
    have hle' : octave.toNat ≤ 1019 := UInt32.le_iff_toNat_le.mp hle
    exact ⟨(isFinite_mul_octaveFactor_iff hbase).mpr hle',
      unitsOf_mul_octaveFactor_of_le hbase hle'⟩

/-- With the factors of octaves as powers, `A` has a frequency in octave 1019, and `C#` and `Db`
are the same in octave 4. -/
theorem octaves_double_factor :
    PowersOfTwo (fun e => octaveFactor e.toInt.toNat) ∧
      (∃ f, frequencyBy? (fun e => octaveFactor e.toInt.toNat) ⟨.a, .natural⟩ 1019 = some f) ∧
      frequency? ⟨.c, .sharp⟩ 4 = frequency? ⟨.d, .flat⟩ 4 := by
  obtain ⟨hcut, hrange, hkeys, -⟩ := octaves_double powersOfTwo_octaveFactor
  refine ⟨powersOfTwo_octaveFactor, ?_, hkeys ⟨.c, .sharp⟩ ⟨.d, .flat⟩ (Option.some_ne_none _)
    (Option.some_ne_none _) rfl 4⟩
  rw [hcut]
  exact (hrange ⟨.a, .natural⟩ 27.5 rfl 1019).1.mpr (by decide)

end Melody
