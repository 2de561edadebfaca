import Mathlib.Data.List.Forall2
import Melody.Proofs.Grammar

/-!
# What a draft accepts

A draft accepts a row of tokens if they carry it on to a score. What it accepts where a statement
may begin is said once for each rule of the grammar; read from left to right this takes
derivations off the front of the tokens, read from right to left it puts them back.

* `Draft.Accepts`; **`Draft.run_eq_ok_iff`**, `ofSource_eq_ok_iff_accepts`: a run gives a score iff
  all lexemes are tokens and the draft accepts them;
* `accepts_detail`: the tokens that a statement at work lacks; `accepts_keyword`: its first one;
* `accepts_tempo`, `accepts_volume`, `accepts_sequence`, `accepts_repetition`, `accepts_note`,
  `accepts_comma`, `accepts_braceClose`, `accepts_nil`: the rules;
* `kind_of_accepts`: nothing else can come where a statement may begin.
-/

namespace Melody

open Draft (number)

/-- The tokens carry the draft on to the score. -/
def Draft.Accepts (d : Draft) (ts : List Token) (score : Score) : Prop :=
  ∃ d', ts.foldlM Draft.feed d = .ok d' ∧ d'.close = .ok score

theorem Draft.foldlM_feed_cons {d d' : Draft} {t : Token} {ts : List Token} :
    (t :: ts).foldlM feed d = .ok d' ↔ ∃ e, d.feed t = .ok e ∧ ts.foldlM feed e = .ok d' := by
  rw [List.foldlM_cons]
  cases d.feed t with
  | error cause => exact ⟨nofun, nofun⟩
  | ok e =>
    constructor
    · exact fun h => ⟨e, rfl, h⟩
    · rintro ⟨_, he, h⟩
      cases he
      exact h

theorem Draft.accepts_cons {d : Draft} {t : Token} {ts : List Token} {score : Score} :
    d.Accepts (t :: ts) score ↔ ∃ d', d.feed t = .ok d' ∧ d'.Accepts ts score := by
  simp only [Accepts, foldlM_feed_cons]
  constructor
  · rintro ⟨d', ⟨e, he, hts⟩, hclose⟩
    exact ⟨e, he, d', hts, hclose⟩
  · rintro ⟨e, he, d', hts, hclose⟩
    exact ⟨d', ⟨e, he, hts⟩, hclose⟩

theorem mapM_token_eq_ok_iff {xs : List Lexeme} {ts : List Token} :
    xs.mapM Lexeme.token = .ok ts ↔ List.Forall₂ (fun x t => x.token = .ok t) xs ts := by
  induction xs generalizing ts with
  | nil =>
    rw [List.forall₂_nil_left_iff]
    exact ⟨fun h => (Except.ok.inj h).symm, fun h => h ▸ rfl⟩
  | cons x xs ih =>
    rw [List.mapM_cons, List.forall₂_cons_left_iff]
    simp only [← ih]
    cases x.token with
    | error fault => exact ⟨nofun, nofun⟩
    | ok t =>
      cases xs.mapM Lexeme.token with
      | error fault => exact ⟨nofun, nofun⟩
      | ok ts' =>
        constructor
        · exact fun h => ⟨t, ts', rfl, rfl, (Except.ok.inj h).symm⟩
        · rintro ⟨_, _, ht, hts, rfl⟩
          cases ht
          cases hts
          rfl

theorem Draft.run_nil_eq_ok_iff {stop : Position} {d : Draft} {score : Score} :
    (d.run stop []).1 = .ok score ↔ d.close = .ok score := by
  unfold run
  cases d.close with
  | error cause => exact ⟨nofun, nofun⟩
  | ok s => exact ⟨fun h => congrArg _ (Except.ok.inj h), fun h => congrArg _ (Except.ok.inj h)⟩

theorem Draft.run_cons_eq_ok_iff {stop : Position} {d : Draft} {x : Lexeme} {xs : List Lexeme}
    {score : Score} : (d.run stop (x :: xs)).1 = .ok score ↔
      ∃ t, x.token = .ok t ∧ ∃ d', d.feed t = .ok d' ∧ (d'.run stop xs).1 = .ok score := by
  rw [run]
  cases x.token with
  | error fault => exact ⟨nofun, nofun⟩
  | ok t =>
    simp only [Except.ok.injEq, exists_eq_left']
    cases d.feed t with
    | error cause =>
      refine ⟨fun h => ?_, nofun⟩
      cases cause <;> cases h
    | ok d' => simp only [Except.ok.injEq, exists_eq_left']

/-- **A run gives a score** iff all lexemes are tokens and the draft accepts the tokens. -/
theorem Draft.run_eq_ok_iff {stop : Position} {d : Draft} {xs : List Lexeme} {score : Score} :
    (d.run stop xs).1 = .ok score ↔
      ∃ ts, List.Forall₂ (fun x t => x.token = .ok t) xs ts ∧ d.Accepts ts score := by
  induction xs generalizing d with
  | nil =>
    rw [run_nil_eq_ok_iff]
    simp only [List.forall₂_nil_left_iff, exists_eq_left]
    constructor
    · exact fun h => ⟨d, rfl, h⟩
    · rintro ⟨d', hd', h⟩
      cases hd'
      exact h
  | cons x xs ih =>
    rw [run_cons_eq_ok_iff]
    simp only [List.forall₂_cons_left_iff, ih]
    constructor
    · rintro ⟨t, ht, d', hd', ts, hts, h⟩
      exact ⟨t :: ts, ⟨t, ts, ht, hts, rfl⟩, accepts_cons.mpr ⟨d', hd', h⟩⟩
    · rintro ⟨_, ⟨t, ts, ht, hts, rfl⟩, h⟩
      obtain ⟨d', hd', h⟩ := accepts_cons.mp h
      exact ⟨t, ht, d', hd', ts, hts, h⟩

theorem ofSource_eq_ok_iff_accepts {source : String} {score : Score} :
    Score.ofSource source = .ok score ↔
      ∃ ts, (Reading.of source).tokens = .ok ts ∧ Draft.empty.Accepts ts score := by
  simp only [Reading.tokens, mapM_token_eq_ok_iff]
  exact Draft.run_eq_ok_iff

/-! ## What a draft accepts, rule by rule -/

section Rules

variable {comma : Bool} {done : List Statement} {frames : List Frame} {t : Token}
  {ts : List Token} {score : Score}

theorem accepts_nil : (⟨.statement comma, done, frames⟩ : Draft).Accepts [] score ↔
    frames = [] ∧ score = ⟨done.reverse⟩ := by
  constructor
  · rintro ⟨d', hd', h⟩
    cases hd'
    cases frames with
    | nil => exact ⟨rfl, (Except.ok.inj h).symm⟩
    | cons frame frames => cases h
  · rintro ⟨rfl, rfl⟩
    exact ⟨_, rfl, rfl⟩

theorem accepts_detail {x : Detail} :
    (⟨.detail x, done, frames⟩ : Draft).Accepts ts score ↔
      ∃ t rest d', ts = t :: rest ∧ t.kind = x.kind ∧
        (⟨.detail x, done, frames⟩ : Draft).feedDetail t x = .ok d' ∧ d'.Accepts rest score := by
  cases ts with
  | nil =>
    constructor
    · rintro ⟨d', hd', h⟩
      cases hd'
      cases frames <;> cases h
    · rintro ⟨t, rest, d', hts, -⟩
      cases hts
  | cons t ts =>
    rw [Draft.accepts_cons]
    by_cases hkind : t.kind = x.kind
    · have hfeed : (⟨.detail x, done, frames⟩ : Draft).feed t =
          (⟨.detail x, done, frames⟩ : Draft).feedDetail t x := if_pos hkind
      rw [hfeed]
      constructor
      · rintro ⟨d', hd', h⟩
        exact ⟨t, ts, d', rfl, hkind, hd', h⟩
      · rintro ⟨_, _, d', hts, -, hd', h⟩
        cases hts
        exact ⟨d', hd', h⟩
    · have hfeed : (⟨.detail x, done, frames⟩ : Draft).feed t =
          .error (.unexpected [.token x.kind] (.token t.kind)) := if_neg hkind
      rw [hfeed]
      constructor
      · rintro ⟨d', hd', -⟩
        cases hd'
      · rintro ⟨_, _, d', hts, h, -⟩
        cases hts
        exact absurd h hkind

theorem accepts_plain_detail {x : Detail} (next : Token → Draft)
    (hnext : ∀ t, (⟨.detail x, done, frames⟩ : Draft).feedDetail t x = .ok (next t)) :
    (⟨.detail x, done, frames⟩ : Draft).Accepts ts score ↔
      ∃ t rest, ts = t :: rest ∧ t.kind = x.kind ∧ (next t).Accepts rest score := by
  rw [accepts_detail]
  simp only [hnext, Except.ok.injEq, exists_and_left, exists_eq_left']

theorem accepts_number_detail {x : Detail} (next : UInt32 → Draft)
    (hnext : ∀ t, (⟨.detail x, done, frames⟩ : Draft).feedDetail t x = (number t).map next) :
    (⟨.detail x, done, frames⟩ : Draft).Accepts ts score ↔
      ∃ t rest n, ts = t :: rest ∧ t.kind = x.kind ∧ number t = .ok n ∧
        (next n).Accepts rest score := by
  rw [accepts_detail]
  simp only [hnext]
  refine exists_congr fun t => exists_congr fun rest => ?_
  cases number t with
  | error cause =>
    constructor
    · rintro ⟨_, -, -, h, -⟩
      cases h
    · rintro ⟨_, -, -, h, -⟩
      cases h
  | ok n =>
    constructor
    · rintro ⟨_, hts, hkind, h, hd⟩
      cases h
      exact ⟨n, hts, hkind, rfl, hd⟩
    · rintro ⟨_, hts, hkind, h, hd⟩
      cases h
      exact ⟨next n, hts, hkind, rfl, hd⟩

theorem accepts_sequenceName {pos : Position} :
    (⟨.detail (.sequenceName pos), done, frames⟩ : Draft).Accepts ts score ↔
      ∃ t rest, ts = t :: rest ∧ t.kind = .ident ∧
        (⟨.detail (.bodyOpen (.sequence pos t.text)), done, frames⟩ : Draft).Accepts rest score :=
  accepts_plain_detail _ fun _ => rfl

theorem accepts_countOpen {pos : Position} :
    (⟨.detail (.countOpen pos), done, frames⟩ : Draft).Accepts ts score ↔
      ∃ t rest, ts = t :: rest ∧ t.kind = .parenOpen ∧
        (⟨.detail (.count pos), done, frames⟩ : Draft).Accepts rest score :=
  accepts_plain_detail _ fun _ => rfl

theorem accepts_count {pos : Position} :
    (⟨.detail (.count pos), done, frames⟩ : Draft).Accepts ts score ↔
      ∃ t rest count, ts = t :: rest ∧ t.kind = .number ∧ number t = .ok count ∧
        (⟨.detail (.countClose pos count), done, frames⟩ : Draft).Accepts rest score :=
  accepts_number_detail _ fun _ => rfl

theorem accepts_countClose {pos : Position} {count : UInt32} :
    (⟨.detail (.countClose pos count), done, frames⟩ : Draft).Accepts ts score ↔
      ∃ t rest, ts = t :: rest ∧ t.kind = .parenClose ∧
        (⟨.detail (.bodyOpen (.repetition pos count)), done, frames⟩ : Draft).Accepts rest score :=
  accepts_plain_detail _ fun _ => rfl

theorem accepts_bodyOpen {block : Block} :
    (⟨.detail (.bodyOpen block), done, frames⟩ : Draft).Accepts ts score ↔
      ∃ t rest, ts = t :: rest ∧ t.kind = .braceOpen ∧
        (⟨.statement false, [], ⟨block, done⟩ :: frames⟩ : Draft).Accepts rest score :=
  accepts_plain_detail _ fun _ => rfl

theorem accepts_of_feed {d d' : Draft} (h : d.feed t = .ok d') :
    d.Accepts (t :: ts) score ↔ d'.Accepts ts score := by
  rw [Draft.accepts_cons, h]
  simp only [Except.ok.injEq, exists_eq_left']

/-- What a statement lacks first that begins with the keyword `t`. -/
def Token.lacks? (t : Token) : Option Detail :=
  match t.kind with
  | .tempo => some (.bpm t.pos)
  | .volume => some (.percent t.pos)
  | .sequence => some (.sequenceName t.pos)
  | .repetition => some (.countOpen t.pos)
  | _ => none

theorem accepts_keyword {x : Detail} (hx : t.lacks? = some x) :
    (⟨.statement comma, done, frames⟩ : Draft).Accepts (t :: ts) score ↔
      (⟨.detail x, done, frames⟩ : Draft).Accepts ts score := by
  refine accepts_of_feed ?_
  unfold Token.lacks? at hx
  split at hx <;> cases hx <;> rename_i hkind <;>
    simp [Draft.feed, Draft.feedStatement, Draft.lacking, hkind]

/-- A statement of a keyword and a number. -/
theorem accepts_setting {x : Detail} (make : UInt32 → Statement) (hx : t.lacks? = some x)
    (hmake : ∀ n, (⟨.detail x, done, frames⟩ : Draft).feedDetail n x =
      (number n).map fun k => ⟨.statement true, make k :: done, frames⟩) :
    (⟨.statement comma, done, frames⟩ : Draft).Accepts (t :: ts) score ↔
      ∃ n rest k, ts = n :: rest ∧ n.kind = x.kind ∧ number n = .ok k ∧
        (⟨.statement true, make k :: done, frames⟩ : Draft).Accepts rest score :=
  (accepts_keyword hx).trans (accepts_number_detail _ hmake)

theorem accepts_tempo (ht : t.kind = .tempo) :
    (⟨.statement comma, done, frames⟩ : Draft).Accepts (t :: ts) score ↔
      ∃ n rest bpm, ts = n :: rest ∧ n.kind = .number ∧ number n = .ok bpm ∧
        (⟨.statement true, .tempo t.pos bpm :: done, frames⟩ : Draft).Accepts rest score :=
  accepts_setting (.tempo t.pos) (x := .bpm t.pos) (by rw [Token.lacks?, ht]) fun _ => rfl

theorem accepts_volume (ht : t.kind = .volume) :
    (⟨.statement comma, done, frames⟩ : Draft).Accepts (t :: ts) score ↔
      ∃ n rest percent, ts = n :: rest ∧ n.kind = .number ∧ number n = .ok percent ∧
        (⟨.statement true, .volume t.pos percent :: done, frames⟩ : Draft).Accepts rest score :=
  accepts_setting (.volume t.pos) (x := .percent t.pos) (by rw [Token.lacks?, ht]) fun _ => rfl

theorem accepts_sequence (ht : t.kind = .sequence) :
    (⟨.statement comma, done, frames⟩ : Draft).Accepts (t :: ts) score ↔
      ∃ name opening rest, ts = name :: opening :: rest ∧ name.kind = .ident ∧
        opening.kind = .braceOpen ∧
        (⟨.statement false, [], ⟨.sequence t.pos name.text, done⟩ :: frames⟩ : Draft).Accepts
          rest score := by
  have hlacks : t.lacks? = some (.sequenceName t.pos) := by rw [Token.lacks?, ht]
  rw [accepts_keyword hlacks]
  constructor
  · intro h
    obtain ⟨name, _, rfl, hname, h⟩ := accepts_sequenceName.mp h
    obtain ⟨opening, rest, rfl, hopening, h⟩ := accepts_bodyOpen.mp h
    exact ⟨name, opening, rest, rfl, hname, hopening, h⟩
  · rintro ⟨name, opening, rest, rfl, hname, hopening, h⟩
    have hbody := accepts_bodyOpen.mpr ⟨opening, rest, rfl, hopening, h⟩
    exact accepts_sequenceName.mpr ⟨name, _, rfl, hname, hbody⟩

theorem accepts_repetition (ht : t.kind = .repetition) :
    (⟨.statement comma, done, frames⟩ : Draft).Accepts (t :: ts) score ↔
      ∃ left n right opening rest count, ts = left :: n :: right :: opening :: rest ∧
        left.kind = .parenOpen ∧ n.kind = .number ∧ number n = .ok count ∧
        right.kind = .parenClose ∧ opening.kind = .braceOpen ∧
        (⟨.statement false, [], ⟨.repetition t.pos count, done⟩ :: frames⟩ : Draft).Accepts
          rest score := by
  have hlacks : t.lacks? = some (.countOpen t.pos) := by rw [Token.lacks?, ht]
  rw [accepts_keyword hlacks]
  constructor
  · intro h
    obtain ⟨left, _, rfl, hleft, h⟩ := accepts_countOpen.mp h
    obtain ⟨n, _, count, rfl, hn, hnumber, h⟩ := accepts_count.mp h
    obtain ⟨right, _, rfl, hright, h⟩ := accepts_countClose.mp h
    obtain ⟨opening, rest, rfl, hopening, h⟩ := accepts_bodyOpen.mp h
    exact ⟨left, n, right, opening, rest, count, rfl, hleft, hn, hnumber, hright, hopening, h⟩
  · rintro ⟨left, n, right, opening, rest, count, rfl, hleft, hn, hnumber, hright, hopening, h⟩
    have hbody := accepts_bodyOpen.mpr ⟨opening, rest, rfl, hopening, h⟩
    have hclose := accepts_countClose.mpr ⟨right, _, rfl, hright, hbody⟩
    have hcount := accepts_count.mpr ⟨n, _, count, rfl, hn, hnumber, hclose⟩
    exact accepts_countOpen.mpr ⟨left, _, rfl, hleft, hcount⟩

theorem accepts_note (ht : t.kind = .note) :
    (⟨.statement comma, done, frames⟩ : Draft).Accepts (t :: ts) score ↔
      ∃ s digits length rest, Spelling.split? t.text.toList = some (s, digits) ∧
        ts = length :: rest ∧ length.kind = .number ∧
        (⟨.statement true, .note ⟨t.pos, s, Numeral.capped digits, length.text⟩ :: done, frames⟩ :
          Draft).Accepts rest score := by
  cases hsplit : Spelling.split? t.text.toList with
  | none =>
    have hfeed : (⟨.statement comma, done, frames⟩ : Draft).feed t =
        .error (.invalidNote t.text) := by
      simp [Draft.feed, Draft.feedStatement, ht, hsplit]
    rw [Draft.accepts_cons, hfeed]
    constructor
    · rintro ⟨_, h, -⟩
      cases h
    · rintro ⟨_, _, _, _, h, -⟩
      cases h
  | some p =>
    have hfeed : (⟨.statement comma, done, frames⟩ : Draft).feed t =
        .ok ⟨.detail (.noteLength t.pos p.1 (Numeral.capped p.2)), done, frames⟩ := by
      simp [Draft.feed, Draft.feedStatement, Draft.lacking, ht, hsplit]
    rw [accepts_of_feed hfeed]
    refine Iff.trans (accepts_plain_detail _ fun _ => rfl) ?_
    constructor
    · rintro ⟨length, rest, hts, hlength, h⟩
      exact ⟨p.1, p.2, length, rest, rfl, hts, hlength, h⟩
    · rintro ⟨s, digits, length, rest, hp, hts, hlength, h⟩
      cases hp
      exact ⟨length, rest, hts, hlength, h⟩

theorem accepts_braceClose (ht : t.kind = .braceClose) :
    (⟨.statement comma, done, frames⟩ : Draft).Accepts (t :: ts) score ↔
      ∃ frame outer, frames = frame :: outer ∧
        (⟨.statement true, frame.block.statement done.reverse :: frame.before, outer⟩ :
          Draft).Accepts ts score := by
  cases frames with
  | nil =>
    have hfeed : (⟨.statement comma, done, []⟩ : Draft).feed t =
        .error (.unexpected [.ending] (.token .braceClose)) := by
      simp [Draft.feed, Draft.feedStatement, ht]
    rw [Draft.accepts_cons, hfeed]
    exact ⟨nofun, nofun⟩
  | cons frame outer =>
    have hfeed : (⟨.statement comma, done, frame :: outer⟩ : Draft).feed t =
        .ok ⟨.statement true, frame.block.statement done.reverse :: frame.before, outer⟩ := by
      simp [Draft.feed, Draft.feedStatement, ht]
    rw [accepts_of_feed hfeed]
    simp

theorem accepts_comma (ht : t.kind = .comma) :
    (⟨.statement comma, done, frames⟩ : Draft).Accepts (t :: ts) score ↔
      comma = true ∧ (⟨.statement false, done, frames⟩ : Draft).Accepts ts score := by
  cases comma with
  | false =>
    have hfeed : (⟨.statement false, done, frames⟩ : Draft).feed t =
        .error (.unexpected Draft.opening (.token .comma)) := by
      simp [Draft.feed, Draft.feedStatement, ht]
    rw [Draft.accepts_cons, hfeed]
    exact ⟨nofun, nofun⟩
  | true =>
    have hfeed : (⟨.statement true, done, frames⟩ : Draft).feed t =
        .ok ⟨.statement false, done, frames⟩ := by
      simp [Draft.feed, Draft.feedStatement, ht]
    rw [accepts_of_feed hfeed]
    simp

theorem kind_of_accepts
    (h : (⟨.statement comma, done, frames⟩ : Draft).Accepts (t :: ts) score) :
    t.kind ∈ [.tempo, .volume, .sequence, .repetition, .note, .braceClose, .comma] := by
  obtain ⟨d', hfeed, -⟩ := Draft.accepts_cons.mp h
  cases hkind : t.kind <;> simp [Draft.feed, Draft.feedStatement, hkind] at hfeed ⊢

end Rules

end Melody
