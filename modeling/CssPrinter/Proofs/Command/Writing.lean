import CssPrinter.Proofs.Command.Batch
import CssPrinter.Proofs.Disk.Growth
import CssPrinter.Proofs.Disk.Order
import CssPrinter.Proofs.Print.Independence
import CssPrinter.Proofs.Tree.RoundTrip

/-!
# Runs that write

With a directory to write to, each result goes to a file named after its input. `Emits` says what
happens to the files one by one. A result that was written stays as it is while results of other
names are put out, whether that fails or not (`Holds.kept`). It is lost only if there is a later
result of the same name (`run_writes`).
-/

namespace CssPrinter

/-! ### Names of outputs -/

def mapName (input : Path) : String := cssName input ++ ".map"

theorem plain_cssName (input : Path) : PlainName (cssName input) := by
  refine plainName_append ?_ (by decide) (by decide)
  cases stem : input.stem with
  | none => decide
  | some s => exact Path.not_mem_stem stem

theorem plain_mapName (input : Path) : PlainName (mapName input) :=
  plainName_append (plain_cssName input).single (by decide) (by decide)

theorem mapPath_cssPath (dir input : Path) :
    mapPath (cssPath dir input) = dir.join ⟨mapName input⟩ := by
  unfold mapPath cssPath Path.join
  rw [(plain_cssName input).relative, (plain_mapName input).relative, if_neg Bool.false_ne_true,
    if_neg Bool.false_ne_true, mapName]
  split <;> simp [String.append_assoc]

theorem mapName_ne_cssName (p q : Path) : mapName p ≠ cssName q := by
  intro same
  -- They end in different letters.
  have last := congrArg (fun s : String => s.toList.getLast?) same
  simp [mapName, cssName] at last

/-! ### Writing one result -/

section

variable {t u : FileTree} {dir input : Path} {p : Printed} {r : Except DiskError Unit}

/-- Writing goes on until something fails: the directory is made, then the CSS is written, then the
map if there is one. -/
theorem writeFiles_cases (h : (writeFiles dir input p : StateM FileTree _).run t = (r, u)) :
    (∃ e, r = .error e ∧ t.createDirectories dir = (.error e, u)) ∨
      ∃ v, t.createDirectories dir = (.ok (), v) ∧
        ((∃ e, r = .error e ∧ v.writeText (dir.join ⟨cssName input⟩) p.css = (.error e, u)) ∨
          ∃ w, v.writeText (dir.join ⟨cssName input⟩) p.css = (.ok (), w) ∧
            ((p.mapText = none ∧ r = .ok () ∧ u = w) ∨
              ∃ map, p.mapText = some map ∧
                w.writeText (dir.join ⟨mapName input⟩) map = (r, u))) := by
  have makes : (Disk.createDirectories dir : StateM FileTree _).run t =
      t.createDirectories dir := rfl
  have writes (v : FileTree) (q : Path) (text : String) :
      (Disk.writeText q text : StateM FileTree _).run v = v.writeText q text := rfl
  unfold writeFiles at h
  cases made : t.createDirectories dir with
  | mk outcome v =>
    rw [run_bind_of (makes.trans made)] at h
    cases outcome with
    | error e =>
      obtain ⟨rfl, rfl⟩ := Prod.mk.inj h
      exact Or.inl ⟨e, rfl, rfl⟩
    | ok _ =>
      refine Or.inr ⟨v, rfl, ?_⟩
      cases wrote : v.writeText (dir.join ⟨cssName input⟩) p.css with
      | mk outcome w =>
        dsimp only at h
        rw [run_bind_of ((writes v (cssPath dir input) p.css).trans wrote)] at h
        cases outcome with
        | error e =>
          obtain ⟨rfl, rfl⟩ := Prod.mk.inj h
          exact Or.inl ⟨e, rfl, rfl⟩
        | ok _ =>
          refine Or.inr ⟨w, rfl, ?_⟩
          cases mapped : p.mapText with
          | none =>
            rw [mapped] at h
            obtain ⟨rfl, rfl⟩ := Prod.mk.inj h
            exact Or.inl ⟨rfl, rfl, rfl⟩
          | some map =>
            rw [mapped] at h
            refine Or.inr ⟨map, rfl, ?_⟩
            dsimp only at h
            rw [writes, mapPath_cssPath] at h
            exact h

/-- A directory holds what was printed for an input. -/
structure Holds (t : FileTree) (dir input : Path) (p : Printed) : Prop where
  css : t.readText (dir.join ⟨cssName input⟩) = .ok p.css
  map : ∀ map, p.mapText = some map → t.readText (dir.join ⟨mapName input⟩) = .ok map

theorem holds_of_writeFiles
    (h : (writeFiles dir input p : StateM FileTree _).run t = (.ok (), u)) :
    Holds u dir input p := by
  rcases writeFiles_cases h with ⟨e, failed, -⟩ | ⟨v, made, ⟨e, failed, -⟩ | ⟨w, wrote, last⟩⟩
  · cases failed
  · cases failed
  · have css := FileTree.readText_of_writeText wrote
    rcases last with ⟨none, -, rfl⟩ | ⟨map, some, wrote'⟩
    · refine ⟨css, fun map some => ?_⟩
      rw [none] at some
      cases some
    · refine ⟨?_, ?_⟩
      · exact FileTree.readText_of_writeText_ne (plain_mapName input) (plain_cssName input)
          (mapName_ne_cssName input input).symm wrote' css
      · intro map' some'
        obtain rfl := Option.some.inj (some.symm.trans some')
        exact FileTree.readText_of_writeText wrote'

theorem grows_of_writeFiles (h : (writeFiles dir input p : StateM FileTree _).run t = (r, u)) :
    FileTree.Grows t u := by
  rcases writeFiles_cases h with ⟨e, -, failed⟩ | ⟨v, made, ⟨e, -, failed⟩ | ⟨w, wrote, last⟩⟩
  · exact (FileTree.extends_of_createDirectories failed).grows
  · exact (FileTree.extends_of_createDirectories made).grows.trans
      (FileTree.grows_of_writeText failed)
  · have first := (FileTree.extends_of_createDirectories made).grows.trans
      (FileTree.grows_of_writeText wrote)
    rcases last with ⟨-, -, rfl⟩ | ⟨map, -, wrote'⟩
    · exact first
    · exact first.trans (FileTree.grows_of_writeText wrote')

theorem readText_of_writeFiles (h : (writeFiles dir input p : StateM FileTree _).run t = (r, u))
    {n old : String} (plain : PlainName n) (css : n ≠ cssName input) (map : n ≠ mapName input)
    (read : t.readText (dir.join ⟨n⟩) = .ok old) : u.readText (dir.join ⟨n⟩) = .ok old := by
  rcases writeFiles_cases h with ⟨e, -, failed⟩ | ⟨v, made, rest⟩
  · exact (FileTree.extends_of_createDirectories failed).readText read
  · have made := (FileTree.extends_of_createDirectories made).readText read
    have wrote {r : Except DiskError Unit} {w : FileTree}
        (h : v.writeText (dir.join ⟨cssName input⟩) p.css = (r, w)) :=
      FileTree.readText_of_writeText_ne (plain_cssName input) plain css h made
    rcases rest with ⟨e, -, failed⟩ | ⟨w, written, ⟨-, -, rfl⟩ | ⟨text, -, written'⟩⟩
    · exact wrote failed
    · exact wrote written
    · exact FileTree.readText_of_writeText_ne (plain_mapName input) plain map written'
        (wrote written)

theorem Holds.kept {other : Path} {q : Printed} (holds : Holds t dir input p)
    (different : cssName input ≠ cssName other)
    (h : (writeFiles dir other q : StateM FileTree _).run t = (r, u)) : Holds u dir input p where
  css := readText_of_writeFiles h (plain_cssName input) different
    (mapName_ne_cssName other input).symm holds.css
  map text some := by
    have different : mapName input ≠ mapName other := by
      simpa [mapName, String.append_left_inj] using different
    exact readText_of_writeFiles h (plain_mapName input) (mapName_ne_cssName input other) different
      (holds.map text some)

end

/-! ### Errors and inputs -/

/-- The input that an error is about. -/
def RunError.path? : RunError → Option Path
  | .noInputs => none
  | .read path _ => some path
  | .parse path _ => some path
  | .print path _ => some path
  | .write path _ => some path

/-- Whether one of the errors is about an input. -/
def blames (errors : List RunError) (path : Path) : Bool := errors.any (·.path? = some path)

theorem blames_cons_self {e : RunError} {path : Path} (about : e.path? = some path)
    (errors : List RunError) : blames (e :: errors) path = true := by
  simp [blames, about]

theorem blames_cons_of_ne {e : RunError} {path other : Path} (about : e.path? = some path)
    (different : other ≠ path) (errors : List RunError) :
    blames (e :: errors) other = blames errors other := by
  simp [blames, about, different.symm]

theorem FileTree.path_of_resultOf {t : FileTree} {a : Arguments} {path : Path} {e : RunError}
    (h : t.resultOf a path = .error e) : e.path? = some path := by
  unfold resultOf at h
  rcases t.printed_cases (optionsFor (t.optionsOf a) a.outDir path) path with
    ⟨cause, -, printed⟩ | ⟨text, -, ⟨cause, -, printed⟩ | ⟨d, -, ⟨cause, -, printed⟩ |
      ⟨p, -, printed⟩⟩⟩
  · obtain rfl := Except.error.inj (printed.symm.trans h)
    rfl
  · obtain rfl := Except.error.inj (printed.symm.trans h)
    rfl
  · obtain rfl := Except.error.inj (printed.symm.trans h)
    rfl
  · cases printed.symm.trans h

theorem wantsMap_optionsFor (base : Options) (outDir : Option Path) (input : Path) :
    (optionsFor base outDir input).wantsMap = base.wantsMap := by
  unfold optionsFor Options.wantsMap
  split <;> rfl

theorem FileTree.isSome_mapText_of_resultOf {t : FileTree} {a : Arguments} {path : Path}
    {p : Printed} (h : t.resultOf a path = .ok p) :
    p.mapText.isSome = (t.optionsOf a).wantsMap := by
  obtain ⟨d, result⟩ := print_of_printed h
  rw [Printed.mapText, Option.isSome_map, Document.isSome_map_of_print result, wantsMap_optionsFor]

/-! ### Putting out all results -/

/-- What happens to files whose results are put out in order: a file that cannot be printed or
written is blamed, and the others are written. -/
inductive Emits (dir : Path) (result : Path → Except RunError Printed) :
    List Path → FileTree → List RunError → FileTree → Prop
  | nil (t : FileTree) : Emits dir result [] t [] t
  | blamed {path : Path} {rest : List Path} {e : RunError} {errors : List RunError}
      {t u v : FileTree} (about : e.path? = some path)
      (cause : (result path = .error e ∧ v = t) ∨ ∃ p c, result path = .ok p ∧
        (writeFiles dir path p : StateM FileTree _).run t = (.error c, v))
      (later : Emits dir result rest v errors u) :
      Emits dir result (path :: rest) t (e :: errors) u
  | written {path : Path} {rest : List Path} {p : Printed} {errors : List RunError}
      {t u v : FileTree} (printing : result path = .ok p)
      (writing : (writeFiles dir path p : StateM FileTree _).run t = (.ok (), v))
      (later : Emits dir result rest v errors u) :
      Emits dir result (path :: rest) t errors u

section

variable {a : Arguments} {dir : Path} (out : a.outDir = some dir)

include out

theorem run_add_of_some (r : Report) (path : Path) (p : Printed) {t v : FileTree}
    {outcome : Except DiskError Unit}
    (writing : (writeFiles dir path p : StateM FileTree _).run t = (outcome, v)) :
    (r.add a (path, .ok p) : StateM FileTree _).run t =
      (match outcome with
        | .ok _ => { r with succeeded := r.succeeded + 1, output := r.output ++ "" }
        | .error cause =>
          { r with failed := r.failed + 1, errors := r.errors ++ [.write path cause] }, v) := by
  unfold Report.add emit
  simp only [out, bind_assoc]
  rw [run_bind_of writing]
  cases outcome <;> rfl

theorem run_add_cases {t₀ t v : FileTree} {r next : Report} {path : Path}
    (h : (r.add a (path, t₀.resultOf a path) : StateM FileTree _).run t = (next, v)) :
    (∃ e, e.path? = some path ∧
        ((t₀.resultOf a path = .error e ∧ v = t) ∨ ∃ p c, t₀.resultOf a path = .ok p ∧
          (writeFiles dir path p : StateM FileTree _).run t = (.error c, v)) ∧
        next.errors = r.errors ++ [e] ∧ next.succeeded = r.succeeded ∧
        next.failed = r.failed + 1) ∨
      ∃ p, t₀.resultOf a path = .ok p ∧
        (writeFiles dir path p : StateM FileTree _).run t = (.ok (), v) ∧
        next.errors = r.errors ∧ next.succeeded = r.succeeded + 1 ∧ next.failed = r.failed := by
  cases printing : t₀.resultOf a path with
  | error e =>
    rw [printing] at h
    obtain ⟨rfl, rfl⟩ := Prod.mk.inj h
    exact Or.inl ⟨e, FileTree.path_of_resultOf printing, Or.inl ⟨rfl, rfl⟩, rfl, rfl, rfl⟩
  | ok p =>
    cases writing : (writeFiles dir path p : StateM FileTree _).run t with
    | mk outcome w =>
      rw [printing, run_add_of_some out r path p writing] at h
      obtain ⟨rfl, rfl⟩ := Prod.mk.inj h
      cases outcome with
      | error c =>
        exact Or.inl ⟨.write path c, rfl, Or.inr ⟨p, c, rfl, writing⟩, rfl, rfl, rfl⟩
      | ok _ => exact Or.inr ⟨p, rfl, writing, rfl, rfl, rfl⟩

theorem emits_emitAll {t₀ t u : FileTree} {files : List Path} {r report : Report}
    (h : (t₀.emitAll a files r).run t = (report, u)) :
    ∃ errors, Emits dir (t₀.resultOf a) files t errors u ∧ report.errors = r.errors ++ errors ∧
      report.succeeded + errors.length = r.succeeded + files.length ∧
      report.failed = r.failed + errors.length := by
  induction files generalizing r t with
  | nil =>
    obtain ⟨rfl, rfl⟩ := Prod.mk.inj h
    exact ⟨[], .nil _, by simp, rfl, rfl⟩
  | cons path files ih =>
    unfold FileTree.emitAll at h
    rw [List.foldlM_cons] at h
    cases added : (r.add a (path, t₀.resultOf a path) : StateM FileTree _).run t with
    | mk next v =>
      rw [run_bind_of added] at h
      obtain ⟨errors, later, listed, succeeded, failed⟩ := ih h
      rcases run_add_cases out added with
        ⟨e, about, cause, nextErrors, nextSucceeded, nextFailed⟩ |
        ⟨p, printing, writing, nextErrors, nextSucceeded, nextFailed⟩
      · refine ⟨e :: errors, .blamed about cause later, ?_, ?_, ?_⟩
        · rw [listed, nextErrors, List.append_assoc, List.singleton_append]
        · rw [List.length_cons, List.length_cons]
          omega
        · rw [List.length_cons]
          omega
      · refine ⟨errors, .written printing writing later, ?_, ?_, ?_⟩
        · rw [listed, nextErrors]
        · rw [List.length_cons]
          omega
        · omega

end

namespace Emits

variable {dir : Path} {result : Path → Except RunError Printed} {files : List Path}
  {t u : FileTree} {errors : List RunError}

theorem mem_of_blames (h : Emits dir result files t errors u) {path : Path}
    (blamed : blames errors path = true) : path ∈ files := by
  induction h with
  | nil t => cases blamed
  | blamed about cause later ih =>
    rename_i first rest e errors t u v
    by_cases same : path = first
    · exact List.mem_cons.mpr (Or.inl same)
    · rw [blames_cons_of_ne about same] at blamed
      exact List.mem_cons_of_mem _ (ih blamed)
  | written printing writing later ih => exact List.mem_cons_of_mem _ (ih blamed)

theorem length_errors (h : Emits dir result files t errors u) (unique : files.Nodup) :
    errors.length = (files.filter (blames errors)).length := by
  induction h with
  | nil t => rfl
  | blamed about cause later ih =>
    rename_i first rest e errors t u v
    obtain ⟨fresh, unique⟩ := List.nodup_cons.mp unique
    have others : rest.filter (blames (e :: errors)) = rest.filter (blames errors) := by
      refine List.filter_congr fun other member => blames_cons_of_ne about ?_ errors
      rintro rfl
      exact fresh member
    rw [List.filter_cons_of_pos (blames_cons_self about errors), List.length_cons,
      List.length_cons, others, ih unique]
  | written printing writing later ih =>
    obtain ⟨fresh, unique⟩ := List.nodup_cons.mp unique
    rw [List.filter_cons_of_neg fun blamed => fresh (later.mem_of_blames blamed), ih unique]

/-- What is held stays held if no other file of the same name can be printed. -/
theorem holds (h : Emits dir result files t errors u) {path : Path} {p : Printed}
    (held : Holds t dir path p)
    (alone : ∀ other ∈ files, cssName other = cssName path → ∃ e, result other = .error e) :
    Holds u dir path p := by
  have different {first : Path} {rest : List Path} {q : Printed} (printing : result first = .ok q)
      (alone : ∀ other ∈ first :: rest, cssName other = cssName path → ∃ e, result other = .error e) :
      cssName path ≠ cssName first := by
    intro same
    obtain ⟨e, failed⟩ := alone first List.mem_cons_self same.symm
    cases printing.symm.trans failed
  induction h with
  | nil t => exact held
  | blamed about cause later ih =>
    refine ih ?_ fun other member => alone other (List.mem_cons_of_mem _ member)
    rcases cause with ⟨-, rfl⟩ | ⟨q, c, printing, writing⟩
    · exact held
    · exact held.kept (different printing alone) writing
  | written printing writing later ih =>
    exact ih (held.kept (different printing alone) writing) fun other member =>
      alone other (List.mem_cons_of_mem _ member)

/-- A file that is not blamed was printed, and its result is there in the end unless a later file of
the same name can be printed too. -/
theorem written_of_not_blames (h : Emits dir result files t errors u) (unique : files.Nodup)
    {before after : List Path} {path : Path} (split : files = before ++ path :: after)
    (clear : blames errors path = false) :
    ∃ p, result path = .ok p ∧
      ((∀ other ∈ after, cssName other = cssName path → ∃ e, result other = .error e) →
        Holds u dir path p) := by
  induction h generalizing before with
  | nil t => exact absurd split (by simp)
  | blamed about cause later ih =>
    rename_i first rest e errors t u v
    obtain ⟨fresh, unique⟩ := List.nodup_cons.mp unique
    cases before with
    | nil =>
      obtain ⟨rfl, -⟩ := List.cons.inj split
      rw [blames_cons_self about] at clear
      cases clear
    | cons _ before =>
      obtain ⟨rfl, rfl⟩ := List.cons.inj split
      have apart : path ≠ first := by
        rintro rfl
        exact fresh (by simp)
      rw [blames_cons_of_ne about apart] at clear
      exact ih unique rfl clear
  | written printing writing later ih =>
    obtain ⟨fresh, unique⟩ := List.nodup_cons.mp unique
    cases before with
    | nil =>
      obtain ⟨rfl, rfl⟩ := List.cons.inj split
      exact ⟨_, printing, later.holds (holds_of_writeFiles writing)⟩
    | cons _ before =>
      obtain ⟨rfl, rfl⟩ := List.cons.inj split
      exact ih unique rfl clear

end Emits

/-! ### Whole runs -/

theorem FileTree.nodup_collected (t : FileTree) (inputs : List Path) :
    (t.collected inputs).Nodup := by
  rw [collected_eq]
  exact Path.nodup_of_ascending (Path.ascending_sorted _)

/-- With a directory to write to, a run counts as failed the inputs that its errors are about. Every
other input was printed, and in the end its CSS is in the file named after it, and its map beside
that, unless a later input of the same name can be printed too. Whether that one is then written,
refused or broken off makes no difference. -/
theorem run_writes (t : FileTree) (a : Arguments) (dir : Path) (files : List Path)
    (out : a.outDir = some dir) (collected : t.collected a.inputs = files) (filled : files ≠ []) :
    ∃ report u, (run a : StateM FileTree _).run t = (.ok report, u) ∧
      report.succeeded = (files.filter fun p => !blames report.errors p).length ∧
      report.failed = (files.filter (blames report.errors)).length ∧
      ∀ before input after, files = before ++ input :: after →
        blames report.errors input = false →
        ∃ printed, t.resultOf a input = .ok printed ∧
          ((∀ other ∈ after, cssName other = cssName input → ∃ e, t.resultOf a other = .error e) →
            u.readText (cssPath dir input) = .ok printed.css ∧
            ((t.optionsOf a).AsksForMap → ∃ map, printed.mapText = some map ∧
              u.readText (mapPath (cssPath dir input)) = .ok map)) := by
  subst collected
  have ran := t.run_eq a
  rw [if_neg filled] at ran
  rcases put : (t.emitAll a (t.collected a.inputs) {}).run t with ⟨report, u⟩
  rw [put] at ran
  refine ⟨report, u, ran, ?_⟩
  obtain ⟨errors, emits, listed, succeeded, failed⟩ := emits_emitAll out put
  rw [Nat.zero_add] at succeeded failed
  rw [show report.errors = errors from listed]
  have unique := t.nodup_collected a.inputs
  have count := emits.length_errors unique
  have parts := List.length_eq_length_filter_add (l := t.collected a.inputs) (blames errors)
  refine ⟨by omega, by omega, ?_⟩
  intro before input after split clear
  obtain ⟨p, printing, held⟩ := emits.written_of_not_blames unique split clear
  refine ⟨p, printing, fun alone => ?_⟩
  have holds := held alone
  refine ⟨holds.css, fun asks => ?_⟩
  obtain ⟨map, mapped⟩ := Option.isSome_iff_exists.mp
    ((FileTree.isSome_mapText_of_resultOf printing).trans ((t.optionsOf a).wantsMap_iff.mpr asks))
  rw [mapPath_cssPath]
  exact ⟨map, mapped, holds.map map mapped⟩

def importing (url : String) : Document where
  nodes := [.imports url]

theorem FileTree.resultOf_importing (t : FileTree) (a : Arguments) (path : Path) (url : String)
    (read : t.readText path = .ok (importing url).text) :
    t.resultOf a path =
      ((importing url).print (optionsFor (t.optionsOf a) a.outDir path)).mapError (.print path) := by
  have parsed : Document.parse (importing url).text = .ok (importing url) :=
    Document.parseWithin_written (Nat.le_of_ble_eq_true rfl)
  exact t.printed_of_parse _ read parsed

/-- Two trees of the same name, and one of another. -/
def twinDisk : FileTree where
  here := #[]
  entries := [(#["a"], .directory), (#["a", "x.json"], .file (some (importing "a").text)),
    (#["a", "y.json"], .file (some (importing "c").text)), (#["b"], .directory),
    (#["b", "x.json"], .file (some (importing "b").text))]

def twinRun : Arguments where
  inputs := [⟨"a"⟩, ⟨"b/x.json"⟩]
  map := true
  outDir := some ⟨"out"⟩

theorem collected_twinDisk :
    twinDisk.collected twinRun.inputs = [⟨"a/x.json"⟩, ⟨"a/y.json"⟩, ⟨"b/x.json"⟩] := by
  have found : twinRun.inputs.flatMap twinDisk.expanded =
      [⟨"a/x.json"⟩, ⟨"a/y.json"⟩, ⟨"b/x.json"⟩] := by
    simp only [funext twinDisk.expanded_eq]
    decide +kernel
  rw [FileTree.collected_eq, found]
  exact Path.sorted_of_ascending (by decide)

def twinResult (path : Path) (url : String) : Except RunError Printed :=
  ((importing url).print (optionsFor (twinDisk.optionsOf twinRun) twinRun.outDir path)).mapError
    (.print path)

theorem resultOf_twinDisk (path : Path) (url : String)
    (read : twinDisk.readText path = .ok (importing url).text) :
    twinDisk.resultOf twinRun path = twinResult path url :=
  twinDisk.resultOf_importing twinRun path url read

/-- All three inputs succeed, and the last one takes the place of the first. -/
theorem run_twinDisk :
    ∃ report u, (run twinRun : StateM FileTree _).run twinDisk = (.ok report, u) ∧
      report.succeeded = 3 ∧ report.failed = 0 ∧ report.errors.isEmpty = true ∧
      u.readText (cssPath ⟨"out"⟩ ⟨"a/x.json"⟩) = .ok "@import b;" := by
  have first := resultOf_twinDisk ⟨"a/x.json"⟩ "a" rfl
  have second := resultOf_twinDisk ⟨"a/y.json"⟩ "c" rfl
  have third := resultOf_twinDisk ⟨"b/x.json"⟩ "b" rfl
  have ran := twinDisk.run_eq twinRun
  rw [collected_twinDisk, if_neg (by simp)] at ran
  refine ⟨_, _, ran, ?_⟩
  simp only [FileTree.emitAll, List.foldlM_cons, List.foldlM_nil, first, second, third]
  decide +kernel

theorem run_writes_twinDisk :
    ∃ report u map, (run twinRun : StateM FileTree _).run twinDisk = (.ok report, u) ∧
      report.succeeded = 3 ∧
      u.readText (cssPath ⟨"out"⟩ ⟨"a/y.json"⟩) = .ok "@import c;" ∧
      u.readText (mapPath (cssPath ⟨"out"⟩ ⟨"a/y.json"⟩)) = .ok map := by
  obtain ⟨report, u, ran, -, -, each⟩ :=
    run_writes twinDisk twinRun ⟨"out"⟩ _ rfl collected_twinDisk (by simp)
  obtain ⟨report', u', ran', succeeded, -, none, -⟩ := run_twinDisk
  obtain ⟨same, rfl⟩ := Prod.mk.inj (ran.symm.trans ran')
  obtain rfl := Except.ok.inj same
  have clear (path : Path) : blames report.errors path = false := by
    rw [List.isEmpty_iff.mp none]
    rfl
  obtain ⟨printed, printing, held⟩ :=
    each [⟨"a/x.json"⟩] ⟨"a/y.json"⟩ [⟨"b/x.json"⟩] rfl (clear _)
  have css : printed.css = "@import c;" := by
    rw [resultOf_twinDisk _ "c" rfl] at printing
    obtain rfl := Except.ok.inj printing
    rfl
  obtain ⟨read, mapped⟩ := held fun other member same => by
    obtain rfl := List.mem_singleton.mp member
    exact absurd same (by decide)
  obtain ⟨map, -, beside⟩ := mapped (Or.inl rfl)
  rw [css] at read
  exact ⟨report, u, map, ran, succeeded, read, beside⟩

/-- The CSS of the first input is lost, though the input succeeded. -/
theorem run_twinDisk_loses :
    ∃ report u printed, (run twinRun : StateM FileTree _).run twinDisk = (.ok report, u) ∧
      report.succeeded = (twinDisk.collected twinRun.inputs).length ∧
      blames report.errors ⟨"a/x.json"⟩ = false ∧
      twinDisk.resultOf twinRun ⟨"a/x.json"⟩ = .ok printed ∧ printed.css = "@import a;" ∧
      u.readText (cssPath ⟨"out"⟩ ⟨"a/x.json"⟩) = .ok "@import b;" := by
  obtain ⟨report, u, ran, succeeded, -, none, read⟩ := run_twinDisk
  refine ⟨report, u, _, ran, ?_, ?_, resultOf_twinDisk _ "a" rfl, rfl, read⟩
  · rw [collected_twinDisk, succeeded]
    rfl
  · rw [List.isEmpty_iff.mp none]
    rfl

end CssPrinter
