import Mathlib.Logic.Function.Iterate
import Melody.Proofs.Lexemes

/-!
# Calls of a cursor split the text

A cursor is called again and again, also behind characters that are no token. The calls pass the
whole text, gap by gap and lexeme by lexeme, and from then on stay at its end.

* `Cursor.after`: the cursor after so many calls;
* `Lexeme.Spans`: the characters of a token, or the offending ones;
* `Cursor.Partition`: what the calls make of a text; `Cursor.exists_partition`;
* **`calls_split_source`**: the calls on a whole text lose and invent nothing.
-/

namespace Melody

namespace Cursor

/-- The cursor after `k` calls. -/
def after (c : Cursor) (k : Nat) : Cursor := (fun c => c.next.2)^[k] c

@[simp] theorem after_zero (c : Cursor) : c.after 0 = c := rfl

theorem after_succ (c : Cursor) (k : Nat) : c.after (k + 1) = c.next.2.after k := rfl

theorem next_end (pos : Position) : next ⟨[], pos⟩ = (none, ⟨[], pos⟩) := rfl

theorem after_end (pos : Position) (k : Nat) : after ⟨[], pos⟩ k = ⟨[], pos⟩ :=
  Function.iterate_fixed (congrArg Prod.snd (next_end pos)) k

end Cursor

/-- A token has a character; what is no token is the unrecognized character alone, or a pitch
letter with the sign of a flat or a sharp. -/
def Lexeme.Spans (x : Lexeme) : Prop :=
  match x.verdict with
  | .ok _ => x.text ≠ ""
  | .error (.unrecognized c) => x.text = String.singleton c
  | .error .missingOctave =>
    ∃ c, isPitchLetter c = true ∧ (x.text.toList = [c, 'b'] ∨ x.text.toList = [c, '#'])

theorem Lexeme.spans_of_shape {x : Lexeme} (h : Item.Shape x.verdict x.text.toList) : x.Spans := by
  have hne := h.ne_nil
  unfold Spans
  split <;> rename_i heq <;> rw [heq] at h
  · intro htext
    simp [htext] at hne
  · generalize hcs : x.text.toList = cs at h
    cases h
    exact String.toList_inj.mp (by simpa using hcs)
  · generalize hcs : x.text.toList = cs at h
    cases h with
    | @missingOctave c a hc ha =>
      refine ⟨c, hc, ?_⟩
      cases a with
      | flat => exact .inl rfl
      | natural => exact absurd rfl ha
      | sharp => exact .inr rfl

/-! ## All calls -/

/-- The calls of a cursor split its text into pieces, each a gap and a lexeme, and a last gap. -/
structure Cursor.Partition (c : Cursor) (pieces : List (List Char × Lexeme)) (last : List Char) :
    Prop where
  text : c.rest = pieces.flatMap (fun p => p.1 ++ p.2.text.toList) ++ last
  gaps : ∀ p ∈ pieces, Gap false p.1
  shapes : ∀ p ∈ pieces, Item.Shape p.2.verdict p.2.text.toList
  gap_last : Gap true last
  /-- Each piece is what one call returns and passes. -/
  call : ∀ (k : Nat) (h : k < pieces.length), (c.after k).next.1 = some pieces[k].2 ∧
    (c.after k).rest = pieces[k].1 ++ (pieces[k].2.text.toList ++ (c.after (k + 1)).rest)
  /-- Behind the pieces every call stays at the end. -/
  stop : ∀ k, pieces.length ≤ k → (c.after k).next = (none, ⟨[], c.pos.advance c.rest⟩)
  reading : c.reading = ⟨pieces.map Prod.snd, c.pos.advance c.rest⟩

namespace Cursor

theorem partition_nil {c c' : Cursor} (h : c.next = (none, c')) : c.Partition [] c.rest := by
  have hmove := c.move_next
  have hreading := reading_of_next_none h
  rw [h] at hmove
  cases hmove with
  | stop hgap =>
    refine ⟨rfl, by simp, by simp, hgap, by simp, ?_, hreading⟩
    intro k _
    cases k with
    | zero => exact h
    | succ k => rw [after_succ, h, after_end, next_end]

theorem partition_cons {c c' : Cursor} {x : Lexeme} (h : c.next = (some x, c'))
    {pieces : List (List Char × Lexeme)} {last : List Char} (hc' : c'.Partition pieces last) :
    ∃ gap, c.Partition ((gap, x) :: pieces) last := by
  have hmove := c.move_next
  have hreading := reading_of_next_some h
  rw [h] at hmove
  generalize ho : some x = o at hmove
  cases hmove with
  | stop => cases ho
  | @item gap y rest hgap hshape hpos hrest =>
    obtain rfl := Option.some.inj ho
    -- the whole text ends where the text behind the first lexeme ends
    have hstop : c.pos.advance c.rest = (x.pos.advance x.text.toList).advance rest := by
      rw [hrest, Position.advance_append, Position.advance_append, hpos]
    refine ⟨gap, ?_, ?_, ?_, hc'.gap_last, ?_, ?_, ?_⟩
    · rw [hrest, List.flatMap_cons, List.append_assoc, List.append_assoc, ← hc'.text]
    · exact List.forall_mem_cons.mpr ⟨hgap, hc'.gaps⟩
    · exact List.forall_mem_cons.mpr ⟨hshape, hc'.shapes⟩
    · intro k hk
      cases k with
      | zero =>
        rw [after_zero, after_succ, after_zero, h]
        exact ⟨rfl, hrest⟩
      | succ k =>
        rw [after_succ, after_succ c (k + 1), h]
        exact hc'.call k (by simpa using hk)
    · intro k hk
      cases k with
      | zero => simp at hk
      | succ k =>
        rw [after_succ, h, hstop]
        exact hc'.stop k (by simpa using hk)
    · rw [hreading, hc'.reading, hstop]
      rfl

theorem exists_partition (c : Cursor) : ∃ pieces last, c.Partition pieces last := by
  induction c using Cursor.reading.induct with
  | case1 c c' h => exact ⟨[], c.rest, partition_nil h⟩
  | case2 c x c' h ih =>
    obtain ⟨pieces, last, hc'⟩ := ih
    obtain ⟨gap, hc⟩ := partition_cons h hc'
    exact ⟨(gap, x) :: pieces, last, hc⟩

variable {c : Cursor} {pieces : List (List Char × Lexeme)} {last : List Char}

theorem Partition.length_lt (h : c.Partition pieces last) {k : Nat} (hk : k < pieces.length) :
    (c.after (k + 1)).rest.length < (c.after k).rest.length := by
  have hpos := List.length_pos_iff.mpr (h.shapes _ (List.getElem_mem hk)).ne_nil
  rw [(h.call k hk).2, List.length_append, List.length_append]
  omega

theorem Partition.length_after (h : c.Partition pieces last) {k : Nat} (hk : k ≤ pieces.length) :
    (c.after k).rest.length + k ≤ c.rest.length := by
  induction k with
  | zero => simp
  | succ k ih =>
    have hlt := h.length_lt (k := k) (by omega)
    have hle := ih (by omega)
    omega

theorem shape_of_mem_reading (c : Cursor) {x : Lexeme} (hx : x ∈ c.reading.lexemes) :
    Item.Shape x.verdict x.text.toList := by
  obtain ⟨pieces, last, h⟩ := c.exists_partition
  rw [h.reading] at hx
  obtain ⟨p, hp, rfl⟩ := List.mem_map.mp hx
  exact h.shapes p hp

end Cursor

/-- **Nothing is lost and nothing invented.** The calls of one cursor split a text into gaps and
lexemes in their order; each call before the end passes a character, the end is reached after at
most as many lexemes as there are characters, and all later calls stay there. -/
theorem calls_split_source (source : String) :
    let c : Cursor := .ofSource source
    let stop : Position := .advance .start source.toList
    ∃ (pieces : List (List Char × Lexeme)) (last : List Char),
      source.toList = pieces.flatMap (fun p => p.1 ++ p.2.text.toList) ++ last ∧
      (∀ p ∈ pieces, Gap false p.1 ∧ p.2.Spans) ∧ Gap true last ∧
      (∀ (k : Nat) (h : k < pieces.length), (c.after k).next.1 = some pieces[k].2 ∧
        (c.after k).rest = pieces[k].1 ++ (pieces[k].2.text.toList ++ (c.after (k + 1)).rest) ∧
        (c.after (k + 1)).rest.length < (c.after k).rest.length) ∧
      pieces.length ≤ source.length ∧
      (∀ k, pieces.length ≤ k → (c.after k).next = (none, ⟨[], stop⟩)) ∧
      Reading.of source = ⟨pieces.map Prod.snd, stop⟩ := by
  intro c stop
  obtain ⟨pieces, last, h⟩ := c.exists_partition
  refine ⟨pieces, last, h.text, ?_, h.gap_last, ?_, ?_, h.stop, h.reading⟩
  · intro p hp
    exact ⟨h.gaps p hp, Lexeme.spans_of_shape (h.shapes p hp)⟩
  · intro k hk
    exact ⟨(h.call k hk).1, (h.call k hk).2, h.length_lt hk⟩
  · have hlength := h.length_after le_rfl
    have hrest : c.rest.length = source.length := String.length_toList
    omega

end Melody
