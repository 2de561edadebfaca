import Melody.Proofs.Lexemes
import Melody.Score.Draft

/-!
# What numbers and notes stand for

The readers of numbers and notes on the words that are tokens.

* `Token.IsNumeral`, `Token.value`: a whole number of 32 bits; **`number_eq_ok_iff`**;
* `Token.IsCapital`, `Token.spelling`, `Token.octave`: a note with a capital letter;
  **`split?_eq_some_iff`**.
-/

namespace Melody

namespace Numeral

/-- The value of a word of digits behind a number `v`. -/
def valueFrom (v : Nat) (cs : List Char) : Nat := cs.foldl (fun v c => 10 * v + digit c) v

@[simp] theorem valueFrom_nil (v : Nat) : valueFrom v [] = v := rfl

@[simp] theorem valueFrom_cons (v : Nat) (c : Char) (cs : List Char) :
    valueFrom v (c :: cs) = valueFrom (10 * v + digit c) cs := List.foldl_cons ..

theorem le_valueFrom (v : Nat) (cs : List Char) : v ≤ valueFrom v cs := by
  induction cs generalizing v with
  | nil => exact le_rfl
  | cons c cs ih =>
    have h := ih (10 * v + digit c)
    rw [valueFrom_cons]
    omega

/-- Reading on behind a number that fits gives the value if all characters are digits and the value
fits; a value that does not fit never gets smaller again. -/
theorem foldlM_push_eq_ok_iff {v w : Nat} (hv : v < limit) (cs : List Char) :
    cs.foldlM push v = .ok w ↔
      (∀ c ∈ cs, c.isDigit = true) ∧ valueFrom v cs < limit ∧ valueFrom v cs = w := by
  induction cs generalizing v with
  | nil =>
    simp only [List.foldlM_nil, valueFrom_nil, List.not_mem_nil, false_imp_iff, implies_true,
      true_and, hv]
    exact ⟨fun h => Except.ok.inj h, fun h => congrArg Except.ok h⟩
  | cons c cs ih =>
    have hle := le_valueFrom (10 * v + digit c) cs
    rw [List.foldlM_cons, valueFrom_cons, List.forall_mem_cons]
    by_cases hc : c.isDigit = true
    · by_cases hfit : limit ≤ 10 * v + digit c
      · have hpush : push v c = .error .tooLarge := by simp [push, hc, hfit]
        rw [hpush]
        refine ⟨nofun, fun h => ?_⟩
        omega
      · have hpush : push v c = .ok (10 * v + digit c) := by simp [push, hc, hfit]
        rw [hpush]
        refine Iff.trans (ih (by omega)) ?_
        simp [hc]
    · have hpush : push v c = .error .invalidDigit := by simp [push, hc]
      rw [hpush]
      exact ⟨nofun, fun h => absurd h.1.1 hc⟩

end Numeral

namespace Token

/-- The number that the digits of a token stand for. -/
def value (t : Token) : Nat := Numeral.value t.text.toList

/-- The token is a word of decimal digits, and its value fits into 32 bits. -/
def IsNumeral (t : Token) : Prop :=
  t.text ≠ "" ∧ (∀ c ∈ t.text.toList, c.isDigit = true) ∧ t.value < UInt32.size

end Token

/-- **A token has a number iff it is a numeral**, and the number is its value. -/
theorem number_eq_ok_iff {t : Token} (ht : t.text ≠ "") (n : UInt32) :
    Draft.number t = .ok n ↔ t.IsNumeral ∧ n = .ofNat t.value := by
  have hread := fun w => Numeral.foldlM_push_eq_ok_iff (w := w) (v := 0) (by decide) t.text.toList
  unfold Draft.number Numeral.read Token.IsNumeral
  generalize t.text.toList.foldlM Numeral.push 0 = r at hread
  cases r with
  | error cause =>
    refine ⟨nofun, fun ⟨⟨_, hdigits, hfit⟩, _⟩ => ?_⟩
    exact nomatch (hread t.value).mpr ⟨hdigits, hfit, rfl⟩
  | ok w =>
    obtain ⟨hdigits, hfit, hw⟩ := (hread w).mp rfl
    have hvalue : t.value = w := hw
    constructor
    · intro h
      cases h
      exact ⟨⟨ht, hdigits, hfit⟩, by rw [hvalue]⟩
    · rintro ⟨-, rfl⟩
      rw [hvalue]
      rfl

/-! ## Notes -/

theorem Letter.ofChar?_eq_some_iff {c : Char} {l : Letter} : ofChar? c = some l ↔ c = l.toChar := by
  constructor
  · intro h
    unfold ofChar? at h
    split at h <;> cases h <;> rfl
  · rintro rfl
    exact ofChar?_toChar l

theorem Letter.isDigit_toChar (l : Letter) : l.toChar.isDigit = false := by
  cases l <;> decide

theorem Accidental.filter_symbol (a : Accidental) : a.symbol.filter Char.isDigit = [] := by
  cases a <;> decide

theorem Accidental.read_symbol_cons (a : Accidental) {d : Char} (hd : d.isDigit = true)
    (ds : List Char) : read (a.symbol ++ d :: ds) = (a, d :: ds) := by
  cases a with
  | flat | sharp => rfl
  | natural =>
    rw [symbol, List.nil_append]
    unfold read
    split
    · rename_i heq
      exact absurd ((List.cons.inj heq).1 ▸ hd) (by decide)
    · rename_i heq
      exact absurd ((List.cons.inj heq).1 ▸ hd) (by decide)
    · rfl

theorem Accidental.read_symbol_append (a : Accidental) {digits : List Char}
    (hdigits : ∀ d ∈ digits, d.isDigit = true) (hne : digits ≠ []) :
    read (a.symbol ++ digits) = (a, digits) := by
  obtain ⟨d, ds, rfl⟩ := List.exists_cons_of_ne_nil hne
  exact a.read_symbol_cons (hdigits d List.mem_cons_self) ds

namespace Token

/-- The token begins with a capital that names a letter of the scale. -/
def IsCapital (t : Token) : Prop := ∃ l : Letter, t.text.toList.head? = some l.toChar

/-- The letter and the accidental that a token begins with. -/
def spelling (t : Token) : Spelling :=
  match t.text.toList with
  | [] => default
  | c :: cs => ⟨(Letter.ofChar? c).getD default, (Accidental.read cs).1⟩

/-- The number that the digits of a token stand for, or the largest number of 32 bits. -/
def octave (t : Token) : UInt32 :=
  .ofNat (min (Numeral.value (t.text.toList.filter Char.isDigit)) (UInt32.size - 1))

end Token

/-- **A note can be split iff it begins with a capital**, and then into its spelling and the digits
of its octave. -/
theorem split?_eq_some_iff {t : Token} (ht : Item.Shape (.ok .note) t.text.toList)
    (s : Spelling) (octave : UInt32) :
    (∃ digits, Spelling.split? t.text.toList = some (s, digits) ∧ Numeral.capped digits = octave) ↔
      t.IsCapital ∧ s = t.spelling ∧ octave = t.octave := by
  obtain ⟨c, a, digits, htext, -, hdigits, hne⟩ := ht.of_note
  have hread := a.read_symbol_append hdigits hne
  have hoctave : Spelling.isOctave digits = true := by
    simpa [Spelling.isOctave, hne] using hdigits
  unfold Token.IsCapital Token.spelling Token.octave Spelling.split?
  simp only [htext, hread, hoctave, if_true, List.head?_cons, Option.some.injEq]
  cases hc : Letter.ofChar? c with
  | none =>
    constructor
    · rintro ⟨_, h, -⟩
      cases h
    · rintro ⟨⟨l, hl⟩, -⟩
      rw [Letter.ofChar?_eq_some_iff.mpr hl] at hc
      cases hc
  | some l =>
    obtain rfl := Letter.ofChar?_eq_some_iff.mp hc
    have hfilter : (l.toChar :: (a.symbol ++ digits)).filter Char.isDigit = digits := by
      rw [List.filter_cons_of_neg (by simp [l.isDigit_toChar]), List.filter_append,
        a.filter_symbol, List.nil_append, List.filter_eq_self]
      exact hdigits
    rw [hfilter]
    constructor
    · rintro ⟨_, h, rfl⟩
      cases h
      exact ⟨⟨l, rfl⟩, rfl, rfl⟩
    · rintro ⟨-, rfl, rfl⟩
      exact ⟨digits, rfl, rfl⟩

end Melody
