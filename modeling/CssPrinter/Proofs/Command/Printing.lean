import CssPrinter.Proofs.Command.Batch
import CssPrinter.Proofs.Disk.Order
import CssPrinter.Proofs.Tree.RoundTrip
import CssPrinter.Proofs.Print.Independence

/-!
# Runs that print

Without a directory to write to, a run leaves the disk as it is. Its report is made up of the files
one by one (`Report.ofFiles`): each adds its text or its error, whatever the others do. So a file
that cannot be printed adds an error in its place and changes nothing else.
-/

namespace CssPrinter

/-! ### Reports of files -/

def errorOf {α : Type} : Except RunError α → Option RunError
  | .error e => some e
  | .ok _ => none

/-- The report on files whose results are printed in order. -/
def Report.ofFiles (f : Format) (result : Path → Except RunError Printed) (files : List Path) :
    Report where
  succeeded := (files.filter fun p => (result p).isOk).length
  failed := (files.filter fun p => !(result p).isOk).length
  output := String.join (files.filterMap fun p => (result p).toOption.map (·.format f p))
  errors := files.filterMap fun p => errorOf (result p)

namespace Report

variable {f : Format} {result : Path → Except RunError Printed}

theorem ofFiles_concat_ok {p : Path} {printed : Printed} (succeeds : result p = .ok printed)
    (files : List Path) :
    ofFiles f result (files ++ [p]) =
      { ofFiles f result files with
        succeeded := (ofFiles f result files).succeeded + 1
        output := (ofFiles f result files).output ++ printed.format f p } := by
  simp [ofFiles, succeeds, Except.isOk, Except.toBool, Except.toOption, errorOf, String.join_append,
    String.join_cons, String.join_nil]

theorem ofFiles_insert_error {p : Path} {e : RunError} (fails : result p = .error e)
    (before after : List Path) :
    ofFiles f result (before ++ p :: after) =
      { ofFiles f result (before ++ after) with
        failed := (ofFiles f result (before ++ after)).failed + 1
        errors := (ofFiles f result before).errors ++ e :: (ofFiles f result after).errors } := by
  simp [ofFiles, fails, Except.isOk, Except.toBool, Except.toOption, errorOf, Nat.add_assoc]

theorem errors_ofFiles_append (before after : List Path) :
    (ofFiles f result (before ++ after)).errors =
      (ofFiles f result before).errors ++ (ofFiles f result after).errors :=
  List.filterMap_append

theorem succeeded_add_failed (files : List Path) :
    (ofFiles f result files).succeeded + (ofFiles f result files).failed = files.length := by
  induction files with
  | nil => rfl
  | cons p files ih =>
    cases ok : (result p).isOk <;> simp [ofFiles, ok] at ih ⊢ <;> omega

end Report

/-! ### Putting out without a directory -/

namespace FileTree

variable (t : FileTree) {a : Arguments}

theorem run_add_of_none (unset : a.outDir = none) (result : Path → Except RunError Printed)
    (done : List Path) (p : Path) :
    ((Report.ofFiles a.output result done).add a (p, result p) : StateM FileTree _).run t =
      (Report.ofFiles a.output result (done ++ [p]), t) := by
  cases outcome : result p with
  | error e =>
    have grown : Report.ofFiles a.output result (done ++ [p]) = _ :=
      Report.ofFiles_insert_error outcome done []
    rw [grown, List.append_nil]
    rfl
  | ok printed =>
    rw [Report.ofFiles_concat_ok outcome, Report.add]
    unfold emit
    rw [unset]
    rfl

theorem run_emitAll_of_none (unset : a.outDir = none) (done files : List Path) :
    (t.emitAll a files (Report.ofFiles a.output (t.resultOf a) done)).run t =
      (Report.ofFiles a.output (t.resultOf a) (done ++ files), t) := by
  induction files generalizing done with
  | nil => rw [List.append_nil]; rfl
  | cons p files ih =>
    rw [emitAll, List.foldlM_cons, run_bind_of (t.run_add_of_none unset _ done p),
      List.append_cons done p files]
    exact ih (done ++ [p])

theorem resultOf_of_none (unset : a.outDir = none) :
    t.resultOf a = t.printed (t.optionsOf a) := by
  funext p
  unfold resultOf optionsFor
  rw [unset]
  cases (t.optionsOf a).file <;> rfl

theorem run_of_none (unset : a.outDir = none) (filled : t.collected a.inputs ≠ []) :
    (run a : StateM FileTree _).run t =
      (.ok (Report.ofFiles a.output (t.printed (t.optionsOf a)) (t.collected a.inputs)), t) := by
  have put : (t.emitAll a (t.collected a.inputs) {}).run t = _ :=
    t.run_emitAll_of_none unset [] (t.collected a.inputs)
  rw [run_eq, if_neg filled, put, resultOf_of_none t unset]
  rfl

/-! ### Files that cannot be printed -/

/-- Why a file cannot be printed, and the code that is reported. -/
inductive Unprintable (options : Options) (p : Path) : String → Prop
  /-- The file is missing, or it is no text. -/
  | unreadable {e : DiskError} (read : t.readText p = .error e) :
      Unprintable options p "css_stringify::read"
  | malformed {text : String} {e : Json.ReadError} (read : t.readText p = .ok text)
      (parsed : Document.parse text = .error e) : Unprintable options p "css_stringify::parse"
  | faulty {text : String} {d : Document} {e : PrintError} (read : t.readText p = .ok text)
      (parsed : Document.parse text = .ok d) (printed : d.print options = .error e) :
      Unprintable options p "css_stringify::stringify"

variable {t}

theorem unprintable_of_error {options : Options} {p : Path} {e : RunError}
    (fails : t.printed options p = .error e) : t.Unprintable options p e.code := by
  rcases t.printed_cases options p with ⟨cause, read, printed⟩ | ⟨text, read,
    ⟨cause, parsed, printed⟩ | ⟨d, parsed, ⟨cause, refused, printed⟩ | ⟨result, -, printed⟩⟩⟩
  · obtain rfl := Except.error.inj (printed.symm.trans fails)
    exact .unreadable read
  · obtain rfl := Except.error.inj (printed.symm.trans fails)
    exact .malformed read parsed
  · obtain rfl := Except.error.inj (printed.symm.trans fails)
    exact .faulty read parsed refused
  · cases printed.symm.trans fails

theorem Unprintable.error {options : Options} {p : Path} {code : String}
    (h : t.Unprintable options p code) :
    ∃ e, t.printed options p = .error e ∧ e.code = code := by
  cases h with
  | unreadable read =>
    exact ⟨.read p _, by rw [printed_eq, read], rfl⟩
  | malformed read parsed =>
    exact ⟨.parse p _, by simp only [printed_eq, read, parsed]; rfl, rfl⟩
  | faulty read parsed printed =>
    exact ⟨.print p _, by rw [t.printed_of_parse options read parsed, printed]; rfl, rfl⟩

theorem unprintable_errors (options : Options) (files : List Path) :
    List.Forall₂ (t.Unprintable options)
      (files.filter fun p => !(t.printed options p).isOk)
      ((files.filterMap fun p => errorOf (t.printed options p)).map RunError.code) := by
  induction files with
  | nil => exact .nil
  | cons p files ih =>
    cases outcome : t.printed options p with
    | ok printed =>
      have skipped : (p :: files).filter (fun p => !(t.printed options p).isOk) =
          files.filter fun p => !(t.printed options p).isOk :=
        List.filter_cons_of_neg (by simp [outcome, Except.isOk, Except.toBool])
      rw [skipped, List.filterMap_cons_none (by rw [outcome]; rfl)]
      exact ih
    | error e =>
      have kept : (p :: files).filter (fun p => !(t.printed options p).isOk) =
          p :: files.filter fun p => !(t.printed options p).isOk :=
        List.filter_cons_of_pos (by simp [outcome, Except.isOk, Except.toBool])
      rw [kept, List.filterMap_cons_some (by rw [outcome]; rfl), List.map_cons]
      exact .cons (unprintable_of_error outcome) ih

theorem collected_insert {before after : List Path} {p : Path}
    (fresh : ∀ q ∈ t.collected (before ++ after), q.key ≠ p.key)
    (single : t.isDirectory p = false) :
    ∃ first later, t.collected (before ++ after) = first ++ later ∧
      t.collected (before ++ p :: after) = first ++ p :: later := by
  rw [collected_eq] at fresh
  rw [collected_eq, collected_eq, List.flatMap_append, List.flatMap_append, List.flatMap_cons,
    expanded_of_single single, List.singleton_append]
  rw [List.flatMap_append] at fresh
  refine Path.sorted_insert fun q member => ?_
  obtain ⟨r, kept, same⟩ := Path.exists_mem_sorted member
  rw [← same]
  exact fresh r kept

end FileTree

/-- Without a directory to write to, a run leaves the disk as it is, prints the files that can be
printed and reports the others, both in order. One more input that cannot be printed adds its error
in its place and changes nothing else. -/
theorem run_prints (t : FileTree) (a : Arguments) (files : List Path) (unset : a.outDir = none)
    (collected : t.collected a.inputs = files) (filled : files ≠ []) :
    ∃ report, (run a : StateM FileTree _).run t = (.ok report, t) ∧
      report.succeeded + report.failed = files.length ∧
      report.succeeded = (files.filter fun p => (t.printed (t.optionsOf a) p).isOk).length ∧
      report.output = String.join (files.filterMap fun p =>
        (t.printed (t.optionsOf a) p).toOption.map (·.format a.output p)) ∧
      List.Forall₂ (t.Unprintable (t.optionsOf a))
        (files.filter fun p => !(t.printed (t.optionsOf a) p).isOk)
        (report.errors.map RunError.code) ∧
      ∀ before after p code, a.inputs = before ++ after → (∀ q ∈ files, q.key ≠ p.key) →
        t.isDirectory p = false → t.Unprintable (t.optionsOf a) p code →
        ∃ next first later,
          (run { a with inputs := before ++ p :: after } : StateM FileTree _).run t =
            (.ok next, t) ∧
          next.succeeded = report.succeeded ∧ next.failed = report.failed + 1 ∧
          next.output = report.output ∧
          report.errors.map RunError.code = first ++ later ∧
          next.errors.map RunError.code = first ++ code :: later := by
  subst collected
  refine ⟨_, t.run_of_none unset filled, Report.succeeded_add_failed _, rfl, rfl,
    FileTree.unprintable_errors _ _, ?_⟩
  intro before after p code inputs fresh single unprintable
  obtain ⟨e, fails, rfl⟩ := unprintable.error
  rw [inputs] at fresh
  obtain ⟨first, later, files, inserted⟩ := FileTree.collected_insert fresh single
  let more : Arguments := { a with inputs := before ++ p :: after }
  have collected : t.collected more.inputs = first ++ p :: later := inserted
  have ran := t.run_of_none (a := more) unset (by rw [collected]; simp)
  rw [collected, show t.optionsOf more = t.optionsOf a from rfl,
    Report.ofFiles_insert_error fails] at ran
  rw [inputs, files, Report.errors_ofFiles_append]
  refine ⟨_, _, _, ran, rfl, rfl, rfl, List.map_append, ?_⟩
  rw [List.map_append, List.map_cons]

/-- A tree, and a file that is no text. -/
def mixedDisk : FileTree where
  here := #[]
  entries := [(#["a.json"], .file (some linkedSheet.text)), (#["c.json"], .file none)]

theorem isOk_printed_mixedDisk :
    (mixedDisk.printed {} ⟨"a.json"⟩).isOk = true ∧
      (mixedDisk.printed {} ⟨"c.json"⟩).isOk = false := by
  have read : mixedDisk.readText ⟨"a.json"⟩ = .ok linkedSheet.text := rfl
  have parsed : Document.parse linkedSheet.text = .ok linkedSheet :=
    Document.parseWithin_written (by decide)
  constructor
  · rw [mixedDisk.printed_of_parse {} read parsed]
    rfl
  · rw [FileTree.printed_eq]
    rfl

/-- Of two inputs one is printed. A third one that is missing comes between them and fails. -/
theorem run_prints_mixedDisk :
    ∃ report next,
      (run { inputs := [⟨"a.json"⟩, ⟨"c.json"⟩] } : StateM FileTree _).run mixedDisk =
        (.ok report, mixedDisk) ∧
      report.succeeded = 1 ∧ report.failed = 1 ∧
      (run { inputs := [⟨"a.json"⟩, ⟨"b.json"⟩, ⟨"c.json"⟩] } : StateM FileTree _).run mixedDisk =
        (.ok next, mixedDisk) ∧
      next.succeeded = 1 ∧ next.failed = 2 ∧ next.output = report.output := by
  have collected : mixedDisk.collected [⟨"a.json"⟩, ⟨"c.json"⟩] = [⟨"a.json"⟩, ⟨"c.json"⟩] := by
    rw [FileTree.collected_eq]
    exact Path.sorted_of_ascending (by decide)
  obtain ⟨report, ran, count, succeeded, -, -, more⟩ :=
    run_prints mixedDisk { inputs := [⟨"a.json"⟩, ⟨"c.json"⟩] } _ rfl collected (by simp)
  have options : mixedDisk.optionsOf { inputs := [⟨"a.json"⟩, ⟨"c.json"⟩] } = {} := rfl
  have absent : mixedDisk.readText ⟨"b.json"⟩ = .error .notFound := rfl
  obtain ⟨next, -, -, ran', same, failed, output, -, -⟩ :=
    more [⟨"a.json"⟩] [⟨"c.json"⟩] ⟨"b.json"⟩ _ rfl (by decide) rfl (.unreadable absent)
  obtain ⟨good, bad⟩ := isOk_printed_mixedDisk
  have one : report.succeeded = 1 := by
    rw [succeeded, options]
    simp [good, bad]
  have two : report.succeeded + report.failed = 2 := count
  exact ⟨report, next, ran, one, by omega, ran', by omega, by omega, output⟩

end CssPrinter
