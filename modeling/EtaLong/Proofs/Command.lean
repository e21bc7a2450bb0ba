/-
**What the command answers.**

A file is answered in one of three ways: it cannot be read, its program is rejected, or every result of
its program is printed; the first two are one message and print nothing else. Programs do not go wrong,
so the command answers unless it breaks off without a message. It does so at a path that no file can
have, at a file that is not text, at a limit for nested calls that is too large for the machine, at a
number with too many digits, and where calls nest deeper than the limit. If that happens while results
are printed, then the results before it are already there.

How the machine paints and how deep calls nest on it is left open: all of this holds of every machine.
What lies outside `Machine` is not covered: memory that runs out, interruptions, streams that refuse a
text, paths that are no text.

* `Sexp.Reaches`, `Sexp.meetsLongNumber_iff`: the tokens that the reader comes to;
* `Command.EndsWith`: how the command ends for a file, given enough fuel;
* `Command.Answers`, `Command.BreaksOff`: the three answers, and where there is none;
* `Command.Fit`: the files, paths and settings that are answered on a machine;
* `Command.ends_finished_iff`, `Command.unanswered_at_stray_byte`: these are answered and no others.
-/

import EtaLong.Command.Run
import EtaLong.Proofs.Program.Printed

namespace EtaLong

/-! ### Numbers that are met -/

namespace Sexp

/-- The reader comes to a number with too many digits exactly when it can take all tokens before it. -/
theorem Reader.meetsLongNumber_iff {row : List Token} (reader : Reader) :
    reader.meetsLongNumber row = true ↔ ∃ before token after next, row = before ++ token :: after ∧
      reader.feedAll before = .ok next ∧ token.isLongNumber = true := by
  induction row generalizing reader with
  | nil => simp [meetsLongNumber]
  | cons first row ih =>
    rw [meetsLongNumber, Bool.or_eq_true]
    constructor
    · rintro (long | later)
      · exact ⟨[], first, row, reader, rfl, rfl, long⟩
      · cases fed : reader.feed first with
        | none =>
          rw [fed] at later
          cases later
        | some taken =>
          rw [fed] at later
          obtain ⟨before, token, after, next, rfl, reads, long⟩ := (ih taken).mp later
          refine ⟨first :: before, token, after, next, rfl, ?_, long⟩
          rw [feedAll, fed]
          exact reads
    · rintro ⟨before, token, after, next, split, reads, long⟩
      cases before with
      | nil =>
        obtain ⟨rfl, rfl⟩ := List.cons.inj split
        exact .inl long
      | cons earlier before =>
        obtain ⟨rfl, rfl⟩ := List.cons.inj split
        rw [feedAll] at reads
        cases fed : reader.feed first with
        | none =>
          rw [fed] at reads
          cases reads
        | some taken =>
          rw [fed] at reads
          exact .inr ((ih taken).mpr ⟨before, token, after, next, rfl, reads, long⟩)

/-- **The reader comes to a token** of a source: it takes all tokens before it. -/
def Reaches (source : String) (token : Token) : Prop :=
  ∃ before after reader, (Token.scan source).1 = before ++ token :: after ∧
    Reader.feedAll {} before = .ok reader

/-- **A number with too many digits is met** exactly when the reader comes to one. -/
theorem meetsLongNumber_iff (source : String) :
    meetsLongNumber source = true ↔ ∃ token, Reaches source token ∧ token.isLongNumber = true := by
  rw [meetsLongNumber, Reader.meetsLongNumber_iff]
  constructor
  · rintro ⟨before, token, after, reader, split, reads, long⟩
    exact ⟨token, ⟨before, after, reader, split, reads⟩, long⟩
  · rintro ⟨token, ⟨before, after, reader, split, reads⟩, long⟩
    exact ⟨before, token, after, reader, split, reads, long⟩

/-- No number with too many digits is met exactly when the reader comes to none. -/
theorem meetsLongNumber_eq_false_iff (source : String) :
    meetsLongNumber source = false ↔
      ∀ token, Reaches source token → token.isLongNumber = false := by
  rw [Bool.eq_false_iff, ne_eq, meetsLongNumber_iff]
  constructor
  · intro none token reaches
    exact Bool.eq_false_iff.mpr fun long => none ⟨token, reaches, long⟩
  · rintro short ⟨token, reaches, long⟩
    exact Bool.false_ne_true ((short token reaches).symm.trans long)

end Sexp

namespace Command

/-! ### Answers and where there are none -/

/-- **How the command ends for what reading a file gave**, once it has enough fuel. -/
def EndsWith (machine : Machine) (settings : Settings) (path : String)
    (content : Except ReadFailure ByteArray) (outcome : Outcome) : Prop :=
  ∃ enough, ∀ fuel, enough ≤ fuel → runFile machine fuel settings path content = outcome

/-- **The answers of the command.** A file that cannot be read is answered by one message, and so is a
program that is rejected; no result is printed. Otherwise each result of the program is printed in its
order, and there is no message. -/
inductive Answers (machine : Machine) (settings : Settings) (path : String) :
    Except ReadFailure ByteArray → Output → Prop where
  | unreadable (failure : ReadFailure) :
      Answers machine settings path (.error failure)
        { code := 2
          err := [Report.paint machine.painter settings.color .red
            ("error: cannot read " ++ path ++ ": " ++ failure.message)] }
  | rejected {bytes : ByteArray} {source : String} {report : Diagnostic} :
      decode? bytes = some source →
      (∀ fuel, Program.run fuel source = .error (.rejected report)) →
      Answers machine settings path (.ok bytes)
        { code := 1
          err := [Report.ofDiagnostic machine.painter settings.color report]
          log := logRunning settings path ++ logRun settings source (.error (.rejected report)) }
  | printed {bytes : ByteArray} {source : String} {results : List Program.Result} :
      decode? bytes = some source → Yields (fun fuel => Program.run fuel source) results →
      Answers machine settings path (.ok bytes)
        { code := 0
          out := results.map (Report.ofResult settings.showTypes)
          log := logRunning settings path ++ logRun settings source (.ok results) }

/-- **A source that the machine can run**: the limit for nested calls is not too large for it and is
kept, while the program is run and while each result is printed; and the reader comes to no number with
too many digits. -/
structure Runnable (machine : Machine) (settings : Settings) (source : String) : Prop where
  limit_le : machine.limit settings ≤ largestLimit
  runDepth_le : machine.runDepth settings source ≤ machine.limit settings
  short : ∀ token, Sexp.Reaches source token → token.isLongNumber = false
  printDepth_le : ∀ results, Yields (fun fuel => Program.run fuel source) results →
    ∀ result ∈ results, machine.printDepth settings result ≤ machine.limit settings

/-- **What the command answers**: a path that a file can have; and if a file was read, then text that
the machine can run. -/
def Fit (machine : Machine) (settings : Settings) (path : String)
    (content : Except ReadFailure ByteArray) : Prop :=
  '\x00' ∉ path.toList ∧ ∀ bytes, content = .ok bytes →
    ∃ source, decode? bytes = some source ∧ Runnable machine settings source

/-- **Where the command breaks off**, and what it has printed by then: nothing, or the results before
the first one that it cannot print. -/
inductive BreaksOff (machine : Machine) (settings : Settings) (path : String) :
    Except ReadFailure ByteArray → Abort → List String → Prop where
  | nullInPath {content : Except ReadFailure ByteArray} :
      '\x00' ∈ path.toList → BreaksOff machine settings path content .nullInPath []
  | notText {bytes : ByteArray} :
      '\x00' ∉ path.toList → decode? bytes = none →
      BreaksOff machine settings path (.ok bytes) .notText []
  | limitTooLarge {bytes : ByteArray} {source : String} :
      '\x00' ∉ path.toList → decode? bytes = some source →
      largestLimit < machine.limit settings →
      BreaksOff machine settings path (.ok bytes) .limitTooLarge []
  | running {bytes : ByteArray} {source : String} :
      '\x00' ∉ path.toList → decode? bytes = some source →
      machine.limit settings ≤ largestLimit →
      machine.limit settings < machine.runDepth settings source →
      BreaksOff machine settings path (.ok bytes) .callsTooDeep []
  | numberTooLong {bytes : ByteArray} {source : String} {token : Token} :
      '\x00' ∉ path.toList → decode? bytes = some source →
      machine.limit settings ≤ largestLimit →
      machine.runDepth settings source ≤ machine.limit settings →
      Sexp.Reaches source token → token.isLongNumber = true →
      BreaksOff machine settings path (.ok bytes) .numberTooLong []
  | printing {bytes : ByteArray} {source : String} {before after : List Program.Result}
      {result : Program.Result} :
      '\x00' ∉ path.toList → decode? bytes = some source →
      machine.limit settings ≤ largestLimit →
      machine.runDepth settings source ≤ machine.limit settings →
      (∀ token, Sexp.Reaches source token → token.isLongNumber = false) →
      Yields (fun fuel => Program.run fuel source) (before ++ result :: after) →
      (∀ earlier ∈ before, machine.printDepth settings earlier ≤ machine.limit settings) →
      machine.limit settings < machine.printDepth settings result →
      BreaksOff machine settings path (.ok bytes) .callsTooDeep
        (before.map (Report.ofResult settings.showTypes))

variable {machine : Machine} {settings : Settings} {path source : String} {bytes : ByteArray}
  {content : Except ReadFailure ByteArray} {output : Output}

/-- The command ends in one way. -/
theorem EndsWith.unique {outcome other : Outcome}
    (first : EndsWith machine settings path content outcome)
    (second : EndsWith machine settings path content other) : outcome = other := by
  obtain ⟨enough, ends⟩ := first
  obtain ⟨enough', ends'⟩ := second
  exact (ends _ (Nat.le_max_left enough enough')).symm.trans (ends' _ (Nat.le_max_right enough enough'))

/-- **An answer is the results or one message.** -/
theorem Answers.one_message (answers : Answers machine settings path content output) :
    output.code = 0 ∧ output.err = [] ∨
      (output.code = 1 ∨ output.code = 2) ∧ output.out = [] ∧ ∃ message, output.err = [message] := by
  cases answers with
  | unreadable failure => exact .inr ⟨.inr rfl, rfl, _, rfl⟩
  | rejected _ _ => exact .inr ⟨.inl rfl, rfl, _, rfl⟩
  | printed _ _ => exact .inl ⟨rfl, rfl⟩

/-! ### The stages of a run -/

/-- A file of text is run if its path and the limit allow it. -/
theorem runFile_of_decoded (possible : '\x00' ∉ path.toList) (decoded : decode? bytes = some source)
    (small : machine.limit settings ≤ largestLimit) (fuel : Nat) :
    runFile machine fuel settings path (.ok bytes) = runText machine fuel settings path source := by
  rw [runFile, if_neg (mt List.contains_iff_mem.mp possible)]
  simp only [decoded, if_neg (Int.not_lt.mpr small)]

/-- The calls that run a source stay within the limit, or they do not. -/
theorem Machine.runs_iff :
    machine.runs settings source = true ↔
      machine.runDepth settings source ≤ machine.limit settings :=
  decide_eq_true_iff

theorem Machine.prints_iff {result : Program.Result} :
    machine.prints settings result = true ↔
      machine.printDepth settings result ≤ machine.limit settings :=
  decide_eq_true_iff

/-- A program that is rejected is answered. -/
theorem runText_rejected {report : Diagnostic} {fuel : Nat}
    (shallow : machine.runDepth settings source ≤ machine.limit settings)
    (short : ∀ token, Sexp.Reaches source token → token.isLongNumber = false)
    (rejected : Program.run fuel source = .error (.rejected report)) :
    runText machine fuel settings path source = .finished
      { code := 1
        err := [Report.ofDiagnostic machine.painter settings.color report]
        log := logRunning settings path ++ logRun settings source (.error (.rejected report)) } := by
  have few := (Sexp.meetsLongNumber_eq_false_iff source).mpr short
  simp only [runText, Machine.runs_iff.mpr shallow, few, rejected, Bool.not_true,
    Bool.false_eq_true, if_false]

/-- The results of a program are printed. -/
theorem runText_ok {results : List Program.Result} {fuel : Nat}
    (shallow : machine.runDepth settings source ≤ machine.limit settings)
    (short : ∀ token, Sexp.Reaches source token → token.isLongNumber = false)
    (ran : Program.run fuel source = .ok results) :
    runText machine fuel settings path source = printAll machine settings
      (logRunning settings path ++ logRun settings source (.ok results)) results := by
  have few := (Sexp.meetsLongNumber_eq_false_iff source).mpr short
  simp only [runText, Machine.runs_iff.mpr shallow, few, ran, Bool.not_true, Bool.false_eq_true,
    if_false]

/-- All results are printed if calls stay within the limit. -/
theorem printAll_eq_finished {results : List Program.Result} (log : List String)
    (shallow : ∀ result ∈ results, machine.printDepth settings result ≤ machine.limit settings) :
    printAll machine settings log results = .finished
      { code := 0, out := results.map (Report.ofResult settings.showTypes), log := log } := by
  have printable : ∀ result ∈ results, machine.prints settings result = true :=
    fun result among => Machine.prints_iff.mpr (shallow result among)
  have shown := @List.takeWhile_append_of_pos _ (machine.prints settings) results [] printable
  rw [List.append_nil, List.takeWhile_nil, List.append_nil] at shown
  simp only [printAll, List.all_eq_true.mpr printable, if_true, shown]

/-- Printing breaks off at the first result for which calls nest too deep. -/
theorem printAll_eq_aborted {before after : List Program.Result} {result : Program.Result}
    (log : List String)
    (shallow : ∀ earlier ∈ before, machine.printDepth settings earlier ≤ machine.limit settings)
    (deep : machine.limit settings < machine.printDepth settings result) :
    printAll machine settings log (before ++ result :: after) = .aborted .callsTooDeep
      (before.map (Report.ofResult settings.showTypes)) := by
  have unprintable : machine.prints settings result ≠ true :=
    fun prints => Int.not_lt.mpr (Machine.prints_iff.mp prints) deep
  have some : ¬ (before ++ result :: after).all (machine.prints settings) = true := by
    intro all
    exact unprintable (List.all_eq_true.mp all result (by simp))
  have shown : (before ++ result :: after).takeWhile (machine.prints settings) = before := by
    rw [List.takeWhile_append_of_pos fun earlier among => Machine.prints_iff.mpr (shallow earlier among),
      List.takeWhile_cons_of_neg unprintable, List.append_nil]
  simp only [printAll, if_neg some, shown]

/-! ### The command ends as it should -/

/-- **The command gives its answers.** -/
theorem Answers.ends (answers : Answers machine settings path content output)
    (fit : Fit machine settings path content) :
    EndsWith machine settings path content (.finished output) := by
  obtain ⟨possible, runnable⟩ := fit
  cases answers with
  | unreadable failure =>
    refine ⟨0, fun fuel _ => ?_⟩
    rw [runFile, if_neg (mt List.contains_iff_mem.mp possible)]
  | @rejected bytes source report decoded rejected =>
    obtain ⟨other, same, fits⟩ := runnable bytes rfl
    obtain rfl := Option.some.inj (decoded.symm.trans same)
    refine ⟨0, fun fuel _ => ?_⟩
    rw [runFile_of_decoded possible decoded fits.limit_le,
      runText_rejected fits.runDepth_le fits.short (rejected fuel)]
  | @printed bytes source results decoded yields =>
    obtain ⟨other, same, fits⟩ := runnable bytes rfl
    obtain rfl := Option.some.inj (decoded.symm.trans same)
    have shallow := fits.printDepth_le results yields
    obtain ⟨enough, ends⟩ := yields
    refine ⟨enough, fun fuel bound => ?_⟩
    rw [runFile_of_decoded possible decoded fits.limit_le,
      runText_ok fits.runDepth_le fits.short (ends fuel bound), printAll_eq_finished _ shallow]

/-- **There is an answer to whatever fits**, since programs do not go wrong. -/
theorem Fit.exists_answers (fit : Fit machine settings path content) :
    ∃ output, Answers machine settings path content output := by
  cases content with
  | error failure => exact ⟨_, .unreadable failure⟩
  | ok bytes =>
    obtain ⟨source, decoded, _⟩ := fit.2 bytes rfl
    rcases Program.rejected_or_yields source with ⟨report, rejected⟩ | ⟨results, yields⟩
    · exact ⟨_, .rejected decoded rejected⟩
    · exact ⟨_, .printed decoded yields⟩

/-- **The command breaks off where it is said to.** -/
theorem BreaksOff.ends {abort : Abort} {printed : List String}
    (breaks : BreaksOff machine settings path content abort printed) :
    EndsWith machine settings path content (.aborted abort printed) := by
  cases breaks with
  | nullInPath impossible =>
    refine ⟨0, fun fuel _ => ?_⟩
    unfold runFile
    rw [if_pos (List.contains_iff_mem.mpr impossible)]
  | notText possible undecoded =>
    refine ⟨0, fun fuel _ => ?_⟩
    rw [runFile, if_neg (mt List.contains_iff_mem.mp possible)]
    simp only [undecoded]
  | limitTooLarge possible decoded large =>
    refine ⟨0, fun fuel _ => ?_⟩
    rw [runFile, if_neg (mt List.contains_iff_mem.mp possible)]
    simp only [decoded, if_pos large]
  | running possible decoded small deep =>
    refine ⟨0, fun fuel _ => ?_⟩
    have unable : ¬ machine.runs settings _ = true :=
      fun runs => Int.not_lt.mpr (Machine.runs_iff.mp runs) deep
    rw [runFile_of_decoded possible decoded small, runText, Bool.eq_false_iff.mpr unable, Bool.not_false,
      if_pos rfl]
  | numberTooLong possible decoded small shallow reaches long =>
    refine ⟨0, fun fuel _ => ?_⟩
    have met := (Sexp.meetsLongNumber_iff _).mpr ⟨_, reaches, long⟩
    rw [runFile_of_decoded possible decoded small, runText, Machine.runs_iff.mpr shallow, met,
      Bool.not_true, if_neg Bool.false_ne_true, if_pos rfl]
  | printing possible decoded small shallow short yields earlier deep =>
    obtain ⟨enough, ends⟩ := yields
    refine ⟨enough, fun fuel bound => ?_⟩
    rw [runFile_of_decoded possible decoded small, runText_ok shallow short (ends fuel bound),
      printAll_eq_aborted _ earlier deep]

/-- A result that cannot be printed has a first one before it or is the first. -/
theorem exists_first_unprintable {results : List Program.Result} {result : Program.Result}
    (among : result ∈ results) (deep : machine.limit settings < machine.printDepth settings result) :
    ∃ before first after, results = before ++ first :: after ∧
      (∀ earlier ∈ before, machine.printDepth settings earlier ≤ machine.limit settings) ∧
      machine.limit settings < machine.printDepth settings first := by
  have found : (results.find? fun result => !machine.prints settings result).isSome = true := by
    refine List.find?_isSome.mpr ⟨result, among, ?_⟩
    rw [Bool.not_eq_true', Bool.eq_false_iff]
    exact fun prints => Int.not_lt.mpr (Machine.prints_iff.mp prints) deep
  obtain ⟨first, found⟩ := Option.isSome_iff_exists.mp found
  obtain ⟨unprintable, before, after, split, earlier⟩ := List.find?_eq_some_iff_append.mp found
  refine ⟨before, first, after, split, fun other among => ?_, ?_⟩
  · have prints := earlier other among
    rw [Bool.not_not] at prints
    exact Machine.prints_iff.mp prints
  · rw [Bool.not_eq_true', Bool.eq_false_iff] at unprintable
    exact Int.not_le.mp fun shallow => unprintable (Machine.prints_iff.mpr shallow)

/-- **The command breaks off at whatever does not fit.** -/
theorem exists_breaksOff (unfit : ¬ Fit machine settings path content) :
    ∃ abort printed, BreaksOff machine settings path content abort printed := by
  by_cases impossible : '\x00' ∈ path.toList
  · exact ⟨_, _, .nullInPath impossible⟩
  cases content with
  | error failure => exact absurd ⟨impossible, fun bytes same => by cases same⟩ unfit
  | ok bytes =>
    cases decoded : decode? bytes with
    | none => exact ⟨_, _, .notText impossible decoded⟩
    | some source =>
      have stuck : ¬ Runnable machine settings source := by
        intro runnable
        refine unfit ⟨impossible, fun other same => ⟨source, ?_, runnable⟩⟩
        rwa [← Except.ok.inj same]
      by_cases small : machine.limit settings ≤ largestLimit
      case neg => exact ⟨_, _, .limitTooLarge impossible decoded (Int.not_le.mp small)⟩
      by_cases shallow : machine.runDepth settings source ≤ machine.limit settings
      case neg => exact ⟨_, _, .running impossible decoded small (Int.not_le.mp shallow)⟩
      by_cases short : ∀ token, Sexp.Reaches source token → token.isLongNumber = false
      case neg =>
        obtain ⟨token, met⟩ := Classical.not_forall.mp short
        obtain ⟨reaches, long⟩ := Classical.not_imp.mp met
        exact ⟨_, _, .numberTooLong impossible decoded small shallow reaches
          (Bool.not_eq_false _ ▸ long)⟩
      -- Only the printing of a result is left to go wrong.
      by_cases printable : ∀ results, Yields (fun fuel => Program.run fuel source) results →
          ∀ result ∈ results, machine.printDepth settings result ≤ machine.limit settings
      · exact absurd ⟨small, shallow, short, printable⟩ stuck
      · obtain ⟨results, failing⟩ := Classical.not_forall.mp printable
        obtain ⟨yields, failing⟩ := Classical.not_imp.mp failing
        obtain ⟨result, failing⟩ := Classical.not_forall.mp failing
        obtain ⟨among, deep⟩ := Classical.not_imp.mp failing
        obtain ⟨before, first, after, rfl, earlier, deep⟩ :=
          exists_first_unprintable among (Int.not_le.mp deep)
        exact ⟨_, _, .printing impossible decoded small shallow short yields earlier deep⟩

/-- **The command answers what fits, and breaks off at the rest.** It finishes with an output exactly
when path, file and settings fit the machine and the output is their answer, which is the results or one
message; there is an answer whenever they fit. Otherwise the command breaks off, and it does so exactly
where it is said to, with nothing printed but the results before one that cannot be printed. -/
theorem ends_finished_iff (machine : Machine) (settings : Settings) (path : String)
    (content : Except ReadFailure ByteArray) :
    (∀ output, EndsWith machine settings path content (.finished output) ↔
      Fit machine settings path content ∧ Answers machine settings path content output) ∧
    (∀ output, EndsWith machine settings path content (.finished output) →
      output.code = 0 ∧ output.err = [] ∨
        (output.code = 1 ∨ output.code = 2) ∧ output.out = [] ∧
          ∃ message, output.err = [message]) ∧
    (∀ abort printed, EndsWith machine settings path content (.aborted abort printed) ↔
      BreaksOff machine settings path content abort printed) ∧
    (Fit machine settings path content →
      ∃ output, EndsWith machine settings path content (.finished output)) ∧
    (¬ Fit machine settings path content →
      ∃ abort printed, EndsWith machine settings path content (.aborted abort printed)) := by
  have answered (fit : Fit machine settings path content) : ∃ output,
      EndsWith machine settings path content (.finished output) ∧
        Answers machine settings path content output := by
    obtain ⟨output, answers⟩ := fit.exists_answers
    exact ⟨output, answers.ends fit, answers⟩
  have broken (unfit : ¬ Fit machine settings path content) : ∃ abort printed,
      EndsWith machine settings path content (.aborted abort printed) ∧
        BreaksOff machine settings path content abort printed := by
    obtain ⟨abort, printed, breaks⟩ := exists_breaksOff unfit
    exact ⟨abort, printed, breaks.ends, breaks⟩
  have finished_iff (output : Output) :
      EndsWith machine settings path content (.finished output) ↔
        Fit machine settings path content ∧ Answers machine settings path content output := by
    refine ⟨fun finished => ?_, fun ⟨fit, answers⟩ => answers.ends fit⟩
    by_cases fit : Fit machine settings path content
    · obtain ⟨answer, ends, answers⟩ := answered fit
      cases ends.unique finished
      exact ⟨fit, answers⟩
    · obtain ⟨abort, printed, ends, _⟩ := broken fit
      cases ends.unique finished
  refine ⟨finished_iff, ?_, ?_, ?_, ?_⟩
  · intro output finished
    exact ((finished_iff output).mp finished).2.one_message
  · intro abort printed
    refine ⟨fun aborted => ?_, BreaksOff.ends⟩
    by_cases fit : Fit machine settings path content
    · obtain ⟨answer, ends, _⟩ := answered fit
      cases ends.unique aborted
    · obtain ⟨other, shown, ends, breaks⟩ := broken fit
      cases ends.unique aborted
      exact breaks
  · intro fit
    obtain ⟨output, ends, _⟩ := answered fit
    exact ⟨output, ends⟩
  · intro unfit
    obtain ⟨abort, printed, ends, _⟩ := broken unfit
    exact ⟨abort, printed, ends⟩

/-- A program that takes a pair apart, in a file: its result is printed. A program of two numbers on a
machine where calls nest too deep for the second one: the first is printed, and then the command breaks
off. -/
theorem ends_finished_iff_at_projection :
    let settings : Settings := { color := false }
    let bytes := "(the Nat (car (cons 3 zero)))".toUTF8
    let roomy : Machine := ⟨fun _ text => text, 1000, fun _ _ => 60, fun _ _ => 20⟩
    let numbers := "1 zero".toUTF8
    let narrow : Machine := ⟨fun _ text => text, 1000, fun _ _ => 60,
      fun _ result => if result.normal.text [] = "zero" then 20000 else 20⟩
    Fit roomy settings "prog.stlc" (.ok bytes) ∧
    (∃ output, EndsWith roomy settings "prog.stlc" (.ok bytes) (.finished output) ∧
      output.code = 0 ∧ output.out = ["(the Nat 3)"]) ∧
    EndsWith narrow settings "prog.stlc" (.ok numbers) (.aborted .callsTooDeep ["(the Nat 1)"]) := by
  intro settings bytes roomy numbers narrow
  let term : Term := .ann .nat (.car (.pair (.numeral 3) .zero))
  have typed : term.HasType [] .nat := .of_infer_eq rfl
  have evaluates : term.Evaluates [] (.succs 3 .zero) := by
    refine ⟨7, fun fuel enough => ?_⟩
    obtain ⟨less, rfl⟩ := Nat.exists_eq_add_of_le' enough
    rfl
  have reads : (Value.succs 3 .zero).ReadsBack [] .nat (.numeral 3) := by
    refine ⟨7, fun fuel enough => ?_⟩
    obtain ⟨less, rfl⟩ := Nat.exists_eq_add_of_le' enough
    rfl
  have decoded : decode? bytes = some (term.text []) := by decide +kernel
  have yields := Program.yields_text typed (by decide) rfl evaluates reads
  have short := (Sexp.meetsLongNumber_eq_false_iff (term.text [])).mp (by decide +kernel)
  have fit : Fit roomy settings "prog.stlc" (.ok bytes) := by
    refine ⟨by decide, fun other same => ⟨term.text [], ?_, by decide, by decide, short, ?_⟩⟩
    · rwa [← Except.ok.inj same]
    · intro results _ result _
      exact (by decide : ((20 : Nat) : Int) ≤ roomy.limit settings)
  obtain ⟨answered, _⟩ := ends_finished_iff roomy settings "prog.stlc" (.ok bytes)
  have ends := (answered _).mpr ⟨fit, .printed decoded yields⟩
  let one : Program.Result := ⟨none, .nat, .succ .zero⟩
  let zero : Program.Result := ⟨none, .nat, .zero⟩
  have parsed : Program.parse "1 zero" =
      .ok [.eval ⟨0, 1⟩ (.number ⟨0, 1⟩ 1), .eval ⟨2, 6⟩ (.zero ⟨2, 6⟩)] := rfl
  have both : Yields (fun fuel => Program.run fuel "1 zero") ([one] ++ zero :: []) := by
    refine ⟨2, fun fuel enough => ?_⟩
    obtain ⟨less, rfl⟩ := Nat.exists_eq_add_of_le' enough
    simp only [Program.run_of_parse parsed]
    rfl
  have shortNumbers := (Sexp.meetsLongNumber_eq_false_iff "1 zero").mp (by decide +kernel)
  have shallow : ∀ earlier ∈ [one],
      (narrow.printDepth settings earlier : Int) ≤ narrow.limit settings := by
    intro earlier among
    obtain rfl := List.mem_singleton.mp among
    decide +kernel
  have breaks : BreaksOff narrow settings "prog.stlc" (.ok numbers) .callsTooDeep ["(the Nat 1)"] :=
    .printing (by decide) (by decide +kernel) (by decide) (by decide) shortNumbers both shallow
      (by decide +kernel)
  obtain ⟨_, _, broken, _⟩ := ends_finished_iff narrow settings "prog.stlc" (.ok numbers)
  exact ⟨fit, ⟨_, ends, rfl, by decide +kernel⟩, (broken _ _).mpr breaks⟩

/-- A byte that begins no character: the command breaks off on every machine, where a file that cannot
be read should be answered. -/
theorem unanswered_at_stray_byte :
    let settings : Settings := { color := false }
    let content : Except ReadFailure ByteArray := .ok ⟨#[255]⟩
    (∀ machine, EndsWith machine settings "prog.stlc" content (.aborted .notText [])) ∧
    ∀ machine output, ¬ EndsWith machine settings "prog.stlc" content (.finished output) := by
  intro settings content
  have breaks (machine : Machine) : BreaksOff machine settings "prog.stlc" content .notText [] :=
    .notText (by decide) (by decide +kernel)
  refine ⟨fun machine => (breaks machine).ends, fun machine output finished => ?_⟩
  cases (breaks machine).ends.unique finished

end Command

end EtaLong
