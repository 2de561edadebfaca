import Melody.Proofs.Locating

/-!
# Statements stand in the order of their tokens

A score is a tree of statements, but it is read from a row of tokens. Listed with every statement
before those of its block, its statements are those tokens that open one, in the order of the text:
none is lost, and no token opens two.

* `Position.Before`: a place comes before another one; `Position.before_advance`;
* `Cursor.pairwise_before_reading`, `Cursor.pairwise_before_marks`, `pairwise_before_tokens`:
  lexemes, marks and tokens come one behind the other;
* `heads_eq_map_filter`: the kinds of the tokens that open a statement;
* **`listing_eq_tokens`**: the statements of a score and the tokens that open them.
-/

namespace Melody

namespace Position

variable {p q r : Position}

/-- `p` comes before `q` in a text: on a line before, or on the same line before. -/
def Before (p q : Position) : Prop := p.line < q.line ∨ p.line = q.line ∧ p.column < q.column

theorem Before.trans (hpq : p.Before q) (hqr : q.Before r) : p.Before r := by
  unfold Before at *
  omega

theorem Before.ne (h : p.Before q) : p ≠ q := by
  rintro rfl
  unfold Before at h
  omega

theorem before_next (p : Position) (c : Char) : p.Before (p.next c) := by
  unfold Before next
  split_ifs
  · exact .inl (Nat.lt_succ_self _)
  · exact .inr ⟨rfl, Nat.lt_succ_self _⟩

theorem Before.advance (h : p.Before q) (cs : List Char) : p.Before (q.advance cs) := by
  induction cs generalizing q with
  | nil => exact h
  | cons c cs ih => exact ih (h.trans (q.before_next c))

theorem before_advance {cs : List Char} (p : Position) (hcs : cs ≠ []) :
    p.Before (p.advance cs) := by
  obtain ⟨c, cs, rfl⟩ := List.exists_cons_of_ne_nil hcs
  exact (p.before_next c).advance cs

end Position

/-! ## Lexemes and tokens -/

namespace Cursor

variable {c c' : Cursor} {x : Lexeme} {p : Position}

theorem before_pos_of_next (hnext : c.next = (some x, c')) (h : p.Before c.pos) :
    p.Before x.pos := by
  have hmove := c.move_next
  rw [hnext] at hmove
  cases hmove with
  | item _ _ hpos _ =>
    rw [hpos]
    exact h.advance _

theorem before_of_next (hnext : c.next = (some x, c')) : x.pos.Before c'.pos := by
  have hmove := c.move_next
  rw [hnext] at hmove
  cases hmove with
  | item _ hshape _ _ => exact x.pos.before_advance hshape.ne_nil

theorem before_of_mem_reading (h : p.Before c.pos) : ∀ x ∈ c.reading.lexemes, p.Before x.pos := by
  induction c using Cursor.reading.induct with
  | case1 c c' hnext =>
    rw [reading_of_next_none hnext]
    exact List.forall_mem_nil _
  | case2 c x c' hnext ih =>
    have hx := before_pos_of_next hnext h
    rw [reading_of_next_some hnext, List.forall_mem_cons]
    exact ⟨hx, ih (hx.trans (before_of_next hnext))⟩

theorem pairwise_before_reading (c : Cursor) :
    c.reading.lexemes.Pairwise (·.pos.Before ·.pos) := by
  induction c using Cursor.reading.induct with
  | case1 c c' hnext =>
    rw [reading_of_next_none hnext]
    exact .nil
  | case2 c x c' hnext ih =>
    rw [reading_of_next_some hnext]
    exact .cons (before_of_mem_reading (before_of_next hnext)) ih

theorem before_of_mem_marks (h : p.Before c.pos) : ∀ m ∈ c.reading.marks, p.Before m.pos := by
  induction c using Cursor.reading.induct with
  | case1 c c' hnext =>
    have hmove := c.move_next
    rw [hnext] at hmove
    cases hmove with
    | stop _ =>
      rw [reading_of_next_none hnext]
      exact List.forall_mem_singleton.mpr (h.advance _)
  | case2 c x c' hnext ih =>
    have hx := before_pos_of_next hnext h
    rw [reading_of_next_some hnext, Reading.marks, marksTo]
    cases htoken : x.token with
    | error fault => exact List.forall_mem_nil _
    | ok t =>
      have hpos : t.mark.pos = x.pos := (Lexeme.token_eq_ok_iff.mp htoken).2.2
      exact List.forall_mem_cons.mpr ⟨hpos ▸ hx, ih (hx.trans (before_of_next hnext))⟩

/-- **Marks come one behind the other**, the end of the text behind all tokens. -/
theorem pairwise_before_marks (c : Cursor) : c.reading.marks.Pairwise (·.pos.Before ·.pos) := by
  induction c using Cursor.reading.induct with
  | case1 c c' hnext =>
    rw [reading_of_next_none hnext]
    exact List.pairwise_singleton _ _
  | case2 c x c' hnext ih =>
    rw [reading_of_next_some hnext, Reading.marks, marksTo]
    cases htoken : x.token with
    | error fault => exact .nil
    | ok t =>
      have hpos : t.mark.pos = x.pos := (Lexeme.token_eq_ok_iff.mp htoken).2.2
      exact .cons (hpos ▸ before_of_mem_marks (before_of_next hnext)) ih

end Cursor

theorem eq_of_pos_eq {ms front rest front' rest' : List Mark} {m m' : Mark}
    (h : ms.Pairwise (·.pos.Before ·.pos)) (hms : ms = front ++ m :: rest)
    (hms' : ms = front' ++ m' :: rest') (hpos : m.pos = m'.pos) : front = front' ∧ m = m' := by
  have hnodup : (ms.map Mark.pos).Nodup :=
    (List.pairwise_map.mpr h).imp fun hbefore => hbefore.ne
  have hget : (ms.map Mark.pos)[front.length]? = some m.pos := by simp [hms]
  have hget' : (ms.map Mark.pos)[front'.length]? = some m'.pos := by simp [hms']
  have hlength : front.length = front'.length :=
    (List.getElem?_inj (by simp [hms]) hnodup).mp (by rw [hget, hget', hpos])
  obtain ⟨hfront, hrest⟩ := List.append_inj (hms.symm.trans hms') hlength
  exact ⟨hfront, (List.cons.inj hrest).1⟩

theorem map_pos_tokens {r : Reading} {ts : List Token} (h : r.tokens = .ok ts) :
    ts.map Token.pos = r.lexemes.map Lexeme.pos := by
  have hpos : List.Forall₂ (fun x t => t.pos = x.pos) r.lexemes ts :=
    (mapM_token_eq_ok_iff.mp h).imp fun _ _ htoken => (Lexeme.token_eq_ok_iff.mp htoken).2.2
  rw [← List.forall₂_eq_eq_eq]
  exact List.forall₂_map_left_iff.mpr (List.forall₂_map_right_iff.mpr hpos.flip)

/-- **Tokens come one behind the other.** -/
theorem pairwise_before_tokens {source : String} {ts : List Token}
    (h : (Reading.of source).tokens = .ok ts) : (ts.map Token.pos).Pairwise Position.Before := by
  rw [map_pos_tokens h, List.pairwise_map]
  exact (Cursor.ofSource source).pairwise_before_reading

/-! ## Statements -/

theorem heads_eq_map_filter (ts : List Token) : heads ts =
    (ts.filter fun t => t.kind ∈ [.tempo, .volume, .sequence, .repetition, .note]).map
      fun t => (t.kind, t.pos) := by
  simp [heads, Draft.opening]

/-- **The statements of a score are the tokens that open one**, in the order of the text. -/
theorem map_head_listing {ps : Phrases} {score : Score} (h : ps.statements = score.statements) :
    score.listing.map (·.2.head) = heads ps.word := by
  rw [Score.listing_eq_places, List.map_map, heads_phrases ps [], h]
  rfl

/-- **Statements stand in the order of their tokens.** The statements of a text, each before those
of its block, are the tokens of the text that open a statement, one by one, by their kinds and
their places. Hence they come one behind the other, so that no two stand at the same place; for all
tokens do. -/
theorem listing_eq_tokens {source : String} {score : Score}
    (h : Score.ofSource source = .ok score) :
    ∃ ts, (Reading.of source).tokens = .ok ts ∧
      score.listing.map (·.2.head) =
        (ts.filter fun t => t.kind ∈ [.tempo, .volume, .sequence, .repetition, .note]).map
          (fun t => (t.kind, t.pos)) ∧
      (score.listing.map (·.2.pos)).Pairwise Position.Before ∧
      (score.listing.map (·.2.pos)).Nodup ∧ (ts.map Token.pos).Pairwise Position.Before := by
  obtain ⟨ts, hts, haccepts⟩ := ofSource_eq_ok_iff_accepts.mp h
  obtain ⟨ps, rfl, -, hstatements⟩ := (empty_accepts_iff (isRead_of_mem_tokens hts)).mp haccepts
  have hheads := map_head_listing hstatements
  have htokens := pairwise_before_tokens hts
  have hpairwise : (score.listing.map (·.2.pos)).Pairwise Position.Before := by
    have hpos : score.listing.map (·.2.pos) = (heads ps.word).map Prod.snd := by
      simp only [← hheads, List.map_map, Function.comp_def, Statement.snd_head]
    have hsublist : ((heads ps.word).map Prod.snd).Sublist (ps.word.map Token.pos) := by
      rw [heads_eq_map_filter, List.map_map]
      exact List.filter_sublist.map _
    rw [hpos]
    exact htokens.sublist hsublist
  refine ⟨ps.word, hts, ?_, hpairwise, ?_, htokens⟩
  · rw [hheads, heads_eq_map_filter]
  · exact hpairwise.imp fun hbefore => hbefore.ne

/-- A text with a note in a sequence, and a tempo behind it. -/
theorem listing_eq_tokens_nested :
    let score : Score :=
      ⟨[.sequence ⟨1, 1⟩ "a" [.note ⟨⟨2, 3⟩, ⟨.c, .natural⟩, 4, "1/4"⟩], .tempo ⟨3, 3⟩ 90]⟩
    Score.ofSource "sequence a \x7b\n  C4 1/4\n\x7d tempo 90" = .ok score ∧
      score.listing.map (·.2.head) = [(.sequence, ⟨1, 1⟩), (.note, ⟨2, 3⟩), (.tempo, ⟨3, 3⟩)] ∧
      (score.listing.map (·.2.pos)).Pairwise Position.Before := by
  intro score
  have htokens : (Reading.of "sequence a \x7b\n  C4 1/4\n\x7d tempo 90").tokens = .ok
      [⟨.sequence, "sequence", ⟨1, 1⟩⟩, ⟨.ident, "a", ⟨1, 10⟩⟩, ⟨.braceOpen, "\x7b", ⟨1, 12⟩⟩,
        ⟨.note, "C4", ⟨2, 3⟩⟩, ⟨.number, "1/4", ⟨2, 6⟩⟩, ⟨.braceClose, "\x7d", ⟨3, 1⟩⟩,
        ⟨.tempo, "tempo", ⟨3, 3⟩⟩, ⟨.number, "90", ⟨3, 9⟩⟩] := by
    decide +kernel
  have hscore : Score.ofSource "sequence a \x7b\n  C4 1/4\n\x7d tempo 90" = .ok score :=
    ofSource_eq_ok_iff_accepts.mpr ⟨_, htokens, _, rfl, rfl⟩
  obtain ⟨ts, hts, hheads, hpairwise, -⟩ := listing_eq_tokens hscore
  obtain rfl := Except.ok.inj (htokens.symm.trans hts)
  exact ⟨hscore, hheads, hpairwise⟩

end Melody
