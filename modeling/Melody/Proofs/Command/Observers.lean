import Melody.Proofs.Command.Arguments
import Melody.Proofs.Command.Runs

/-!
# Asking for more to be printed

The tokens and the outline of a melody can be printed, and more or fewer entries of the journal.
Nothing else depends on whether that is asked for: a fault in the tokens, which is found when they
are all read at once, is a text that is no score in any case.

* `Options.observing`: the same options, with more or less printed;
* `exists_fault_of_tokens`: **a text with a fault in its tokens is no score**;
* `run_observing`: what a run leaves with more or less printed;
* **`run_observed`**: options that ask for more to be printed change nothing else;
* **`run_of_observed`**: and neither do arguments.
-/

namespace Melody

/-- **A text with a fault in its tokens is no score**, whatever fault comes first. -/
theorem exists_fault_of_tokens {source : String} {fault : Fault}
    (h : (Reading.of source).tokens = .error fault) :
    ∃ fault', Score.ofSource source = .error fault' := by
  cases hscore : Score.ofSource source with
  | error fault' => exact ⟨fault', rfl⟩
  | ok score =>
    obtain ⟨ts, htokens, -⟩ := ofSource_eq_ok_iff_accepts.mp hscore
    rw [h] at htokens
    cases htokens

namespace Command

/-- The same options, with more or less printed. -/
def Options.observing (o : Options) (verbose : Nat) (dumpTokens dumpAst : Bool) : Options :=
  { o with verbose, dumpTokens, dumpAst }

section Run

variable {o : Options} {source : String} {disk : Disk} {verbose : Nat} {dumpTokens dumpAst : Bool}

theorem script_observing_of_ok {score : Score} (h : Score.ofSource source = .ok score) :
    writes ((o.observing verbose dumpTokens dumpAst).script source).steps =
        writes (o.script source).steps ∧
      ((o.observing verbose dumpTokens dumpAst).script source).fault = (o.script source).fault := by
  rw [Options.script_of_ok h, Options.script_of_ok h]
  refine ⟨?_, rfl⟩
  rw [writes_append, writes_append, Options.writes_leading, Options.writes_leading]
  rfl

/-- **What a run leaves** does not depend on what is printed besides, and neither does what is said
about its failure, unless there is a fault in the tokens. -/
theorem run_observing (o : Options) (verbose : Nat) (dumpTokens dumpAst : Bool) (disk : Disk) :
    let o' := o.observing verbose dumpTokens dumpAst
    (o'.run disk).1.disk = (o.run disk).1.disk ∧
      (o'.run disk).2.exitCode = (o.run disk).2.exitCode ∧
      ((∀ source, disk.read o.source = .ok source → ∃ ts, (Reading.of source).tokens = .ok ts) →
        (o'.run disk).2 = (o.run disk).2) := by
  intro o'
  cases hsource : disk.read o.source with
  | error e =>
    have hsource' : disk.read o'.source = .error e := hsource
    have hrun : o.run disk = (⟨"", disk⟩, .stuck e) := by
      rw [Options.run, hsource]
    have hrun' : o'.run disk = (⟨"", disk⟩, .stuck e) := by
      rw [Options.run, hsource']
    rw [hrun, hrun']
    exact ⟨rfl, rfl, fun _ => rfl⟩
  | ok source =>
    have hsource' : disk.read o'.source = .ok source := hsource
    obtain ⟨hdisk, hending⟩ := Options.run_eq hsource
    obtain ⟨hdisk', hending'⟩ := Options.run_eq hsource'
    rw [hdisk, hending, hdisk', hending']
    cases hscore : Score.ofSource source with
    | ok score =>
      obtain ⟨hwrites, hfault⟩ := script_observing_of_ok (o := o) hscore
      rw [hwrites, hfault]
      exact ⟨rfl, rfl, fun _ => rfl⟩
    | error fault =>
      obtain ⟨hwrites, f, hf, hsame⟩ := Options.script_of_error (o := o) hscore
      obtain ⟨hwrites', f', hf', hsame'⟩ := Options.script_of_error (o := o') hscore
      rw [hwrites, hwrites', hf, hf']
      refine ⟨rfl, rfl, fun h => ?_⟩
      obtain ⟨ts, htokens⟩ := h source rfl
      rw [hsame ts htokens, hsame' ts htokens]

end Run

/-- **Asking for more to be printed changes nothing else**: with any number of details, and with the
tokens and the outline or without them, the command leaves the same status and the same files, and
it says the same about its failure unless there is a fault in the tokens of the melody. Such a
melody is no score in any case. -/
theorem run_observed (o : Options) (verbose : Nat) (dumpTokens dumpAst : Bool) (disk : Disk) :
    let o' := o.observing verbose dumpTokens dumpAst
    (o'.run disk).2.exitCode = (o.run disk).2.exitCode ∧
      (o'.run disk).1.disk = (o.run disk).1.disk ∧
      ((∀ source, disk.read o.source = .ok source → ∃ ts, (Reading.of source).tokens = .ok ts) →
        (o'.run disk).2.message = (o.run disk).2.message) ∧
      ∀ source fault, (Reading.of source).tokens = .error fault →
        ∃ fault', Score.ofSource source = .error fault' := by
  intro o'
  obtain ⟨hdisk, hcode, hending⟩ := run_observing o verbose dumpTokens dumpAst disk
  exact ⟨hcode, hdisk, fun h => congrArg Ending.message (hending h),
    fun source fault => exists_fault_of_tokens⟩

/-- A note that has no key, without observers and with four of them. -/
theorem run_observed_short :
    let disk := Disk.empty.withFile "song.sono" "Cb4 1/4".toUTF8
    ∃ o, Options.ofArguments ["song.sono"] = .ok o ∧
      let o' := o.observing 2 true true
      Options.ofArguments ["-vv", "--dump-tokens", "song.sono", "--dump-ast"] = .ok o' ∧
      (o'.run disk).2.exitCode = (o.run disk).2.exitCode ∧
      (o'.run disk).1.disk = (o.run disk).1.disk ∧
      (o'.run disk).2.message = (o.run disk).2.message := by
  intro disk
  have hargs : Observed ["song.sono"] ["-vv", "--dump-tokens", "song.sono", "--dump-ast"] :=
    .add (.row 1 rfl) (.add .dumpTokens (.keep _ (.add .dumpAst .nil)))
  have hchecked : ((Options.ofArguments ["song.sono"]).toOption.any fun o =>
      o.source == "song.sono") = true := by
    decide +kernel
  have hchecked' : ((Options.ofArguments
      ["-vv", "--dump-tokens", "song.sono", "--dump-ast"]).toOption.any fun o =>
        o.verbose == 2 && o.dumpTokens && o.dumpAst) = true := by
    decide +kernel
  cases ho : Options.ofArguments ["song.sono"] with
  | error refusal =>
    rw [ho] at hchecked
    cases hchecked
  | ok o =>
    cases ho' : Options.ofArguments ["-vv", "--dump-tokens", "song.sono", "--dump-ast"] with
    | error refusal =>
      rw [ho'] at hchecked'
      cases hchecked'
    | ok o' =>
      rw [ho] at hchecked
      rw [ho'] at hchecked'
      have hname : o.source = "song.sono" := beq_iff_eq.mp hchecked
      simp only [Except.toOption, Option.any_some, Bool.and_eq_true, beq_iff_eq] at hchecked'
      obtain ⟨⟨hverbose, htokens⟩, hast⟩ := hchecked'
      have hsame : o' = o.observing 2 true true := by
        rw [options_observed hargs ho ho', hverbose, htokens, hast]
        rfl
      have hread : disk.read o.source = .ok "Cb4 1/4" := by
        rw [hname]
        exact Disk.read_put (by decide +kernel) "Cb4 1/4"
      obtain ⟨hcode, hdisk, hmessage, -⟩ := run_observed o 2 true true disk
      refine ⟨o, rfl, congrArg _ hsame, hcode, hdisk, hmessage fun source hsource => ?_⟩
      rw [hread] at hsource
      obtain rfl := Except.ok.inj hsource
      exact ⟨[⟨.note, "Cb4", ⟨1, 1⟩⟩, ⟨.number, "1/4", ⟨1, 5⟩⟩], by decide +kernel⟩

/-- **Arguments that ask for more to be printed change nothing else**, wherever they stand among the
others. -/
theorem run_of_observed {args args' : List String} (hargs : Observed args args')
    {o o' : Options} (ho : Options.ofArguments args = .ok o)
    (ho' : Options.ofArguments args' = .ok o') (disk : Disk) :
    (o'.run disk).2.exitCode = (o.run disk).2.exitCode ∧
      (o'.run disk).1.disk = (o.run disk).1.disk ∧
      ((∀ source, disk.read o.source = .ok source → ∃ ts, (Reading.of source).tokens = .ok ts) →
        (o'.run disk).2.message = (o.run disk).2.message) := by
  have hsame : o' = o.observing o'.verbose o'.dumpTokens o'.dumpAst :=
    options_observed hargs ho ho'
  obtain ⟨hdisk, hcode, hending⟩ := run_observing o o'.verbose o'.dumpTokens o'.dumpAst disk
  rw [← hsame] at hdisk hcode hending
  exact ⟨hcode, hdisk, fun h => congrArg Ending.message (hending h)⟩

end Command

end Melody
