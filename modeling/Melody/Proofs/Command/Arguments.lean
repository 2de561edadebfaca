import Melody.Command.Options

/-!
# Arguments that only ask for more to be printed

An argument that asks for more detail, or for the tokens or the outline, may stand anywhere among
the others. Where it stands between an option and its value, the option loses the value, and the
value becomes the source; but then there is one argument too many, and it is not accepted.

* `Name.observes`, `IsObserver`: the options and the arguments in question;
* `Observed`: arguments with such arguments added;
* `feed_cases`: all that an argument can do to a tally; `feed_observer`: what these do;
* `Tally.Attends`: what two tallies have in common, without and with the added arguments: they are
  alike, or the second one has a source that the first one cannot get;
* **`Tally.Attends.feed`**, `Tally.Attends.observe`, `Tally.Attends.foldlM`: it stays so to the end;
* **`options_observed`**: the options differ in nothing but what is printed.
-/

namespace Melody.Command

/-- The options that only ask for more to be printed. -/
def Name.observes : Name → Bool
  | verbose | dumpTokens | dumpAst => true
  | _ => false

/-- The arguments that only ask for more to be printed. -/
inductive IsObserver : String → Prop
  | verbose : IsObserver "--verbose"
  | dumpTokens : IsObserver "--dump-tokens"
  | dumpAst : IsObserver "--dump-ast"
  /-- Once or several times behind one dash. -/
  | row {arg : String} (n : Nat) (h : arg.toList = '-' :: List.replicate (n + 1) 'v') :
    IsObserver arg

/-- Arguments with observers added anywhere. -/
inductive Observed : List String → List String → Prop
  | nil : Observed [] []
  | keep {args args' : List String} (arg : String) (h : Observed args args') :
    Observed (arg :: args) (arg :: args')
  | add {args args' : List String} {arg : String} (harg : IsObserver arg)
    (h : Observed args args') : Observed args (arg :: args')

theorem bind_eq_ok_iff {ε α β : Type} {x : Except ε α} {f : α → Except ε β} {b : β} :
    x >>= f = .ok b ↔ ∃ a, x = .ok a ∧ f a = .ok b := by
  cases x with
  | error e => exact ⟨nofun, nofun⟩
  | ok a => exact ⟨fun h => ⟨a, rfl, h⟩, fun ⟨_, h, h'⟩ => Except.ok.inj h ▸ h'⟩

namespace Tally

/-! ## What an argument does -/

/-- The tally after an argument with options: it uses some, and the last one may wait. -/
def named (t : Tally) (uses : List Use) (pending : Option Name) : Tally :=
  { t.settle with uses := uses ++ t.settle.uses, pending := pending }

/-- What an argument can do to any tally in which arguments may still name options. -/
inductive Effect (arg : String) : Prop
  | refused (refusal : Refusal) (h : ∀ t : Tally, t.verbatim = false → t.feed arg = .error refusal)
  /-- Two dashes alone. -/
  | dashes (h : ∀ t : Tally, t.verbatim = false → t.feed arg = .ok { t with verbatim := true })
  | names (uses : List Use) (pending : Option Name)
    (h : ∀ t : Tally, t.verbatim = false → t.feed arg = .ok (t.named uses pending))
  /-- The value that is waited for, or the source. -/
  | word (h : ∀ t : Tally, t.verbatim = false → t.feed arg =
      t.pending.elim (t.place arg) fun name => .ok (t.use name (some arg)))

theorem pending_settle (t : Tally) : t.settle.pending = none := by
  unfold settle
  split
  · rfl
  · assumption

theorem feedLong_cases (cs : List Char) :
    (∃ refusal, ∀ t : Tally, t.feedLong cs = .error refusal) ∨
      ∃ uses pending, ∀ t : Tally, t.pending = none →
        t.feedLong cs = .ok { t with uses := uses ++ t.uses, pending := pending } := by
  unfold feedLong
  cases Name.ofLong? (String.ofList (cs.takeWhile (· != '='))) with
  | error refusal => exact .inl ⟨refusal, fun _ => rfl⟩
  | ok name =>
    right
    simp only [Except.map]
    split
    · exact ⟨[⟨name, none⟩], none, fun _ _ => rfl⟩
    · split
      · exact ⟨[], some name, fun _ _ => rfl⟩
      · exact ⟨[⟨name, _⟩], none, fun _ _ => rfl⟩

theorem feedShort_cases (cs : List Char) :
    (∃ refusal, ∀ t : Tally, t.feedShort cs = .error refusal) ∨
      ∃ uses pending, ∀ t : Tally, t.pending = none →
        t.feedShort cs = .ok { t with uses := uses ++ t.uses, pending := pending } := by
  induction cs with
  | nil =>
    refine .inr ⟨[], none, fun t ht => ?_⟩
    rw [feedShort, List.nil_append, ← ht]
  | cons c cs ih =>
    simp only [feedShort]
    cases Name.ofShort? c with
    | error refusal => exact .inl ⟨refusal, fun _ => rfl⟩
    | ok name =>
      dsimp only
      split
      · -- the options behind this one are used later
        rcases ih with ⟨refusal, h⟩ | ⟨uses, pending, h⟩
        · exact .inl ⟨refusal, fun t => h _⟩
        · refine .inr ⟨uses ++ [⟨name, none⟩], pending, fun t ht => ?_⟩
          rw [h _ rfl, use, List.append_assoc]
          rfl
      · split
        · exact .inr ⟨[], some name, fun _ _ => rfl⟩
        · exact .inr ⟨[⟨name, _⟩], none, fun _ _ => rfl⟩

theorem effect_of_cases {arg : String} {feed : Tally → Except Refusal Tally}
    (hfeed : ∀ t : Tally, t.verbatim = false → t.feed arg = feed t.settle)
    (hcases : (∃ refusal, ∀ t : Tally, feed t = .error refusal) ∨
      ∃ uses pending, ∀ t : Tally, t.pending = none →
        feed t = .ok { t with uses := uses ++ t.uses, pending := pending }) : Effect arg := by
  rcases hcases with ⟨refusal, h⟩ | ⟨uses, pending, h⟩
  · exact .refused refusal fun t ht => (hfeed t ht).trans (h _)
  · exact .names uses pending fun t ht => (hfeed t ht).trans (h _ t.pending_settle)

/-- **All that an argument can do.** -/
theorem feed_cases (arg : String) : Effect arg := by
  rcases hcs : arg.toList with _ | ⟨c, _ | ⟨c', cs⟩⟩
  · exact .word fun t ht => by cases hp : t.pending <;> simp [feed, ht, hcs, hp]
  · exact .word fun t ht => by cases hp : t.pending <;> simp [feed, ht, hcs, hp]
  · by_cases hc : c = '-'
    · subst hc
      by_cases hc' : c' = '-'
      · subst hc'
        cases cs with
        | nil => exact .dashes fun t ht => by simp [feed, ht, hcs]
        | cons c cs =>
          exact effect_of_cases (fun t ht => by simp [feed, ht, hcs])
            (feedLong_cases ((c :: cs).dropWhile (· == '-')))
      · exact effect_of_cases (fun t ht => by simp [feed, ht, hcs, hc'])
          (feedShort_cases (c' :: cs))
    · exact .word fun t ht => by cases hp : t.pending <;> simp [feed, ht, hcs, hc, hp]

theorem feedShort_replicate (n : Nat) (t : Tally) (ht : t.pending = none) :
    t.feedShort (List.replicate n 'v') =
      .ok { t with uses := List.replicate n ⟨.verbose, none⟩ ++ t.uses } := by
  induction n generalizing t with
  | zero => rfl
  | succ n ih =>
    have hstep : t.feedShort (List.replicate (n + 1) 'v') =
        (t.use .verbose none).feedShort (List.replicate n 'v') := rfl
    have hpending : t.use .verbose none =
        { t with uses := ⟨.verbose, none⟩ :: t.uses } := by
      rw [use, ← ht]
    rw [hstep, ih _ rfl, hpending, List.replicate_succ', List.append_assoc]
    rfl

/-- **What an observer does**: it is used, and an option before it gets no value. -/
theorem feed_observer {arg : String} (harg : IsObserver arg) :
    ∃ uses : List Use, (∀ u ∈ uses, u.name.observes = true) ∧
      ∀ t : Tally, t.verbatim = false → t.feed arg = .ok (t.named uses none) := by
  cases harg with
  | verbose =>
    refine ⟨[⟨.verbose, none⟩], by decide, fun t ht => ?_⟩
    rw [feed, ht]
    rfl
  | dumpTokens =>
    refine ⟨[⟨.dumpTokens, none⟩], by decide, fun t ht => ?_⟩
    rw [feed, ht]
    rfl
  | dumpAst =>
    refine ⟨[⟨.dumpAst, none⟩], by decide, fun t ht => ?_⟩
    rw [feed, ht]
    rfl
  | row n h =>
    refine ⟨List.replicate (n + 1) ⟨.verbose, none⟩, fun u hu => ?_, fun t ht => ?_⟩
    · rw [List.eq_of_mem_replicate hu]
      rfl
    · have hfeed : t.feed arg = t.settle.feedShort (List.replicate (n + 1) 'v') := by
        rw [feed, ht, h]
        rfl
      rw [hfeed, feedShort_replicate _ _ t.pending_settle, named, ← t.pending_settle]

/-! ## With and without observers -/

/-- An option that waits and gets no value. -/
def waiting (pending : Option Name) : List Use := (pending.map fun name => ⟨name, none⟩).toList

/-- The uses of options that do more than observe. -/
def tellings (uses : List Use) : List Use := uses.filter fun u => !u.name.observes

/-- What a tally tells, apart from its source; an option that waits gets no value. -/
def telling (t : Tally) : List Use := tellings (waiting t.pending ++ t.uses)

/-- The tallies say the same; in the second one, an option may have lost its value. -/
structure Alike (t t' : Tally) : Prop where
  source : t'.source = t.source
  telling : t'.telling = t.telling
  pending : t'.pending = t.pending ∨ t'.pending = none

/-- A value has become the source of the second tally, and the first one has none. The first one
cannot get a source any more without an argument too many for the second one. -/
structure Astray (t t' : Tally) : Prop where
  source : t.source = none
  astray : t'.source ≠ none
  pending : t.pending = none → t'.pending = none

/-- What two tallies have in common if the arguments of the second one have observers added. -/
structure Attends (t t' : Tally) : Prop where
  verbatim : t'.verbatim = t.verbatim
  course : Alike t t' ∨ Astray t t'

section Step

variable {t t' u u' : Tally} {arg : String}

theorem place_eq_ok_iff : t.place arg = .ok u ↔
    t.source = none ∧ u = { t with source := some arg } := by
  unfold place
  cases t.source with
  | none => simp [eq_comm]
  | some source => simp

theorem source_settle (t : Tally) : t.settle.source = t.source := by
  unfold settle
  split <;> rfl

theorem verbatim_settle (t : Tally) : t.settle.verbatim = t.verbatim := by
  unfold settle
  split <;> rfl

theorem uses_settle (t : Tally) : t.settle.uses = waiting t.pending ++ t.uses := by
  unfold settle waiting
  cases t.pending <;> rfl

theorem telling_named (uses : List Use) (pending : Option Name) :
    (t.named uses pending).telling = tellings (waiting pending ++ uses) ++ t.telling := by
  rw [telling, telling, tellings, tellings, tellings, ← List.filter_append, List.append_assoc,
    ← uses_settle t]
  rfl

/-- Tallies in which the same option waits have told the same before. -/
theorem telling_use {name : Name} {value : Option String} (ht : t.pending = some name)
    (ht' : t'.pending = some name) (h : t'.telling = t.telling) :
    (t'.use name value).telling = (t.use name value).telling := by
  have huses : tellings t'.uses = tellings t.uses := by
    rw [telling, telling, ht, ht', tellings, tellings, List.filter_append, List.filter_append] at h
    exact List.append_cancel_left h
  change tellings ([⟨name, value⟩] ++ t'.uses) = tellings ([⟨name, value⟩] ++ t.uses)
  rw [tellings, tellings, List.filter_append, List.filter_append]
  exact congrArg _ huses

theorem Attends.named (h : Attends t t') (uses : List Use) (pending : Option Name) :
    Attends (t.named uses pending) (t'.named uses pending) where
  verbatim := (t'.verbatim_settle.trans h.verbatim).trans t.verbatim_settle.symm
  course := by
    rcases h.course with halike | hastray
    · refine .inl ⟨?_, ?_, .inl rfl⟩
      · exact (t'.source_settle.trans halike.source).trans t.source_settle.symm
      · rw [telling_named, telling_named, halike.telling]
    · refine .inr ⟨t.source_settle.trans hastray.source, ?_, id⟩
      rw [Tally.named, source_settle]
      exact hastray.astray

theorem Attends.place (h : Attends t t') (hu : t.place arg = .ok u)
    (hu' : t'.place arg = .ok u') : Attends u u' := by
  obtain ⟨-, rfl⟩ := place_eq_ok_iff.mp hu
  obtain ⟨hsource', rfl⟩ := place_eq_ok_iff.mp hu'
  rcases h.course with halike | hastray
  · exact ⟨h.verbatim, .inl ⟨rfl, halike.telling, halike.pending⟩⟩
  · exact absurd hsource' hastray.astray

theorem Attends.pending_eq_none (h : Attends t t') (ht : t.pending = none) : t'.pending = none := by
  rcases h.course with halike | hastray
  · rcases halike.pending with h | h
    · exact h.trans ht
    · exact h
  · exact hastray.pending ht

theorem Attends.word (h : Attends t t')
    (hu : t.pending.elim (t.place arg) (fun name => .ok (t.use name (some arg))) = .ok u)
    (hu' : t'.pending.elim (t'.place arg) (fun name => .ok (t'.use name (some arg))) = .ok u') :
    Attends u u' := by
  cases ht : t.pending with
  | none =>
    rw [ht] at hu
    rw [h.pending_eq_none ht] at hu'
    exact h.place hu hu'
  | some name =>
    rw [ht] at hu
    cases hu
    cases ht' : t'.pending with
    | none =>
      -- the value of the one is the source of the other
      rw [ht', Option.elim_none, place_eq_ok_iff] at hu'
      obtain ⟨hsource', rfl⟩ := hu'
      rcases h.course with halike | hastray
      · exact ⟨h.verbatim, .inr ⟨halike.source.symm.trans hsource', nofun, fun _ => ht'⟩⟩
      · exact absurd hsource' hastray.astray
    | some name' =>
      rw [ht'] at hu'
      cases hu'
      refine ⟨h.verbatim, ?_⟩
      rcases h.course with halike | hastray
      · -- the same option waits in both
        have hsame : t'.pending = t.pending :=
          halike.pending.resolve_right fun hnone => by
            rw [ht'] at hnone
            cases hnone
        obtain rfl : name' = name := Option.some.inj (ht'.symm.trans (hsame.trans ht))
        exact .inl ⟨halike.source, telling_use ht ht' halike.telling, .inl rfl⟩
      · exact .inr ⟨hastray.source, hastray.astray, fun _ => rfl⟩

/-- **One argument for both tallies.** -/
theorem Attends.feed (h : Attends t t') (hu : t.feed arg = .ok u) (hu' : t'.feed arg = .ok u') :
    Attends u u' := by
  cases ht : t.verbatim with
  | true =>
    rw [Tally.feed, if_pos ht] at hu
    rw [Tally.feed, if_pos (h.verbatim.trans ht)] at hu'
    exact h.place hu hu'
  | false =>
    have ht' : t'.verbatim = false := h.verbatim.trans ht
    rcases feed_cases arg with ⟨refusal, hfeed⟩ | hfeed | ⟨uses, pending, hfeed⟩ | hfeed
    · rw [hfeed t ht] at hu
      cases hu
    · rw [hfeed t ht] at hu
      rw [hfeed t' ht'] at hu'
      cases hu
      cases hu'
      rcases h.course with halike | hastray
      · exact ⟨rfl, .inl ⟨halike.source, halike.telling, halike.pending⟩⟩
      · exact ⟨rfl, .inr ⟨hastray.source, hastray.astray, hastray.pending⟩⟩
    · rw [hfeed t ht] at hu
      rw [hfeed t' ht'] at hu'
      cases hu
      cases hu'
      exact h.named uses pending
    · rw [hfeed t ht] at hu
      rw [hfeed t' ht'] at hu'
      exact h.word hu hu'

theorem Attends.observe (h : Attends t t') (harg : IsObserver arg)
    (hu' : t'.feed arg = .ok u') : Attends t u' := by
  cases ht' : t'.verbatim with
  | true =>
    -- the observer is the source of the second tally
    rw [Tally.feed, if_pos ht', place_eq_ok_iff] at hu'
    obtain ⟨hsource', rfl⟩ := hu'
    rcases h.course with halike | hastray
    · exact ⟨h.verbatim,
        .inr ⟨halike.source ▸ hsource', nofun, fun ht => h.pending_eq_none ht⟩⟩
    · exact absurd hsource' hastray.astray
  | false =>
    obtain ⟨uses, huses, hfeed⟩ := feed_observer harg
    rw [hfeed t' ht'] at hu'
    cases hu'
    refine ⟨t'.verbatim_settle.trans h.verbatim, ?_⟩
    rcases h.course with halike | hastray
    · refine .inl ⟨t'.source_settle.trans halike.source, ?_, .inr rfl⟩
      have hnone : tellings (waiting none ++ uses) = [] :=
        List.filter_eq_nil_iff.mpr fun u hu => by simp [huses u hu]
      rw [telling_named, hnone, List.nil_append, halike.telling]
    · refine .inr ⟨hastray.source, ?_, fun _ => rfl⟩
      rw [Tally.named, source_settle]
      exact hastray.astray

theorem Attends.foldlM {args args' : List String} (hargs : Observed args args') (h : Attends t t')
    (hu : args.foldlM Tally.feed t = .ok u) (hu' : args'.foldlM Tally.feed t' = .ok u') :
    Attends u u' := by
  induction hargs generalizing t t' with
  | nil =>
    cases hu
    cases hu'
    exact h
  | keep arg hargs ih =>
    rw [List.foldlM_cons] at hu hu'
    cases hfeed : t.feed arg with
    | error refusal =>
      rw [hfeed] at hu
      cases hu
    | ok v =>
      cases hfeed' : t'.feed arg with
      | error refusal =>
        rw [hfeed'] at hu'
        cases hu'
      | ok v' =>
        rw [hfeed] at hu
        rw [hfeed'] at hu'
        exact ih (h.feed hfeed hfeed') hu hu'
  | @add args args' arg harg hargs ih =>
    rw [List.foldlM_cons] at hu'
    cases hfeed' : t'.feed arg with
    | error refusal =>
      rw [hfeed'] at hu'
      cases hu'
    | ok v' =>
      rw [hfeed'] at hu'
      exact ih (h.observe harg hfeed') hu hu'

end Step

/-! ## Options -/

theorem usesOf_settle {name : Name} (hname : name.observes = false) (t : Tally) :
    t.settle.usesOf name = t.telling.filter (·.name = name) := by
  rw [usesOf, telling, tellings, ← uses_settle, List.filter_filter]
  refine List.filter_congr fun u _ => ?_
  by_cases hu : u.name = name
  · simp [hu, hname]
  · simp [hu]

theorem Alike.usesOf {t t' : Tally} (h : Alike t t') {name : Name} (hname : name.observes = false) :
    t'.settle.usesOf name = t.settle.usesOf name := by
  rw [usesOf_settle hname, usesOf_settle hname, h.telling]

theorem Alike.value? {t t' : Tally} (h : Alike t t') {α : Type} {name : Name}
    (hname : name.observes = false) (read : String → Option α) (standard : Option String) :
    t'.settle.value? name read standard = t.settle.value? name read standard := by
  unfold Tally.value? valuesOf
  rw [h.usesOf hname]

theorem Alike.flag {t t' : Tally} (h : Alike t t') {name : Name} (hname : name.observes = false) :
    t'.settle.flag name = t.settle.flag name := by
  unfold Tally.flag
  rw [h.usesOf hname]

theorem Alike.options {t t' : Tally} (h : Alike t t') {o o' : Options} (ho : t.options = .ok o)
    (ho' : t'.options = .ok o') :
    o' = { o with
      verbose := o'.verbose, dumpTokens := o'.dumpTokens, dumpAst := o'.dumpAst } := by
  unfold Tally.options at ho ho'
  simp only [bind_eq_ok_iff, source_settle] at ho ho'
  rw [h.source] at ho'
  cases hsource : t.source with
  | none =>
    rw [hsource] at ho
    obtain ⟨-, -, -, -, ho⟩ := ho
    cases ho
  | some source =>
    rw [hsource] at ho ho'
    simp only [bind_eq_ok_iff] at ho ho'
    obtain ⟨-, -, -, -, output, houtput, abc, habc, tokens, -, ast, -, start, hstart, wave, hwave,
      attack, hattack, decay, hdecay, sustain, hsustain, release, hrelease, cutoff, hcutoff,
      resonance, hresonance, noFilter, hnoFilter, ho⟩ := ho
    -- all values of the second tally are those of the first one
    simp (disch := decide) only [h.value?, h.flag, houtput, habc, hstart, hwave, hattack, hdecay,
      hsustain, hrelease, hcutoff, hresonance, hnoFilter, Except.ok.injEq, exists_eq_left'] at ho'
    obtain ⟨-, -, -, -, tokens', -, ast', -, ho'⟩ := ho'
    cases ho
    cases ho'
    rfl

theorem Astray.options_ne {t t' : Tally} (h : Astray t t') (o : Options) : t.options ≠ .ok o := by
  intro ho
  unfold Tally.options at ho
  simp only [bind_eq_ok_iff, source_settle] at ho
  rw [h.source] at ho
  obtain ⟨-, -, -, -, ho⟩ := ho
  cases ho

end Tally

/-- **Options with observers added** differ in nothing but what is printed besides. -/
theorem options_observed {args args' : List String} (hargs : Observed args args') {o o' : Options}
    (ho : Options.ofArguments args = .ok o) (ho' : Options.ofArguments args' = .ok o') :
    o' = { o with
      verbose := o'.verbose, dumpTokens := o'.dumpTokens, dumpAst := o'.dumpAst } := by
  obtain ⟨t, ht, ho⟩ := bind_eq_ok_iff.mp ho
  obtain ⟨t', ht', ho'⟩ := bind_eq_ok_iff.mp ho'
  have hempty : Tally.Attends .empty .empty := ⟨rfl, .inl ⟨rfl, rfl, .inl rfl⟩⟩
  rcases (hempty.foldlM hargs ht ht').course with halike | hastray
  · exact halike.options ho ho'
  · exact absurd ho (hastray.options_ne o)

end Melody.Command
