import CssPrinter.Proofs.Command.Writing
import CssPrinter.Proofs.Print.Siblings

/-!
# Runs write into their directory only

Making directories changes no file, and writing changes the file that its path leads to. So the
files that are new or changed after a run are those that it wrote for inputs that could be printed
(`Emits.changed`). Whatever the input is, their names are plain, and they lie in the directory
itself (`run_confined`).
-/

namespace CssPrinter

/-! ### What a run changes -/

/-- Names that the CSS file or the map of an input leads to. -/
def LedTo (t : FileTree) (dir input : Path) (names : Names) : Prop :=
  t.locate (cssPath dir input) = .ok names ∨ t.locate (mapPath (cssPath dir input)) = .ok names

theorem LedTo.grows {t u : FileTree} {dir input : Path} {names : Names}
    (h : LedTo t dir input names) (grows : FileTree.Grows t u) : LedTo u dir input names :=
  h.imp grows.locate grows.locate

theorem sameFile_of_writeFiles {t u : FileTree} {dir input : Path} {p : Printed}
    {r : Except DiskError Unit} {names : Names}
    (h : (writeFiles dir input p : StateM FileTree _).run t = (r, u))
    (elsewhere : ¬ LedTo u dir input names) : FileTree.SameFile t u names := by
  unfold LedTo at elsewhere
  rw [mapPath_cssPath, not_or] at elsewhere
  obtain ⟨css, map⟩ := elsewhere
  rcases writeFiles_cases h with ⟨e, -, failed⟩ | ⟨v, made, ⟨e, -, failed⟩ | ⟨w, wrote, last⟩⟩
  · exact FileTree.sameFile_of_createDirectories failed names
  · exact (FileTree.sameFile_of_createDirectories made names).trans
      (FileTree.sameFile_of_writeText failed css)
  · have first (css : w.locate (cssPath dir input) ≠ .ok names) : FileTree.SameFile t w names :=
      (FileTree.sameFile_of_createDirectories made names).trans
        (FileTree.sameFile_of_writeText wrote css)
    rcases last with ⟨-, -, rfl⟩ | ⟨text, -, wrote'⟩
    · exact first css
    · exact (first fun led => css ((FileTree.grows_of_writeText wrote').locate led)).trans
        (FileTree.sameFile_of_writeText wrote' map)

namespace Emits

variable {dir : Path} {result : Path → Except RunError Printed} {files : List Path}
  {t u : FileTree} {errors : List RunError}

theorem grows (h : Emits dir result files t errors u) : FileTree.Grows t u := by
  induction h with
  | nil t => exact .refl t
  | blamed about cause later ih =>
    rcases cause with ⟨-, rfl⟩ | ⟨p, c, -, writing⟩
    · exact ih
    · exact (grows_of_writeFiles writing).trans ih
  | written printing writing later ih => exact (grows_of_writeFiles writing).trans ih

/-- A place keeps its file unless an input that could be printed leads there. -/
theorem sameFile (h : Emits dir result files t errors u) {names : Names}
    (elsewhere : ∀ input ∈ files, ∀ p, result input = .ok p → ¬ LedTo u dir input names) :
    FileTree.SameFile t u names := by
  induction h with
  | nil t => exact .refl t names
  | blamed about cause later ih =>
    obtain ⟨first, others⟩ := List.forall_mem_cons.mp elsewhere
    rcases cause with ⟨-, rfl⟩ | ⟨p, c, printing, writing⟩
    · exact ih others
    · have apart := fun led => first p printing (LedTo.grows led later.grows)
      exact (sameFile_of_writeFiles writing apart).trans (ih others)
  | written printing writing later ih =>
    obtain ⟨first, others⟩ := List.forall_mem_cons.mp elsewhere
    have apart := fun led => first _ printing (LedTo.grows led later.grows)
    exact (sameFile_of_writeFiles writing apart).trans (ih others)

/-- A file that was not there before was written for an input that could be printed. -/
theorem changed (h : Emits dir result files t errors u) {names : Names} {content : Option String}
    (found : u.entry? names = some (.file content)) :
    t.entry? names = some (.file content) ∨
      ∃ input ∈ files, ∃ p, result input = .ok p ∧ LedTo u dir input names := by
  by_cases led : ∃ input ∈ files, ∃ p, result input = .ok p ∧ LedTo u dir input names
  · exact Or.inr led
  · have elsewhere : ∀ input ∈ files, ∀ p, result input = .ok p → ¬ LedTo u dir input names :=
      fun input member p printing here => led ⟨input, member, p, printing, here⟩
    exact Or.inl ((h.sameFile elsewhere content).mp found)

end Emits

theorem output_emitAll {a : Arguments} {dir : Path} (out : a.outDir = some dir) {t₀ t u : FileTree}
    {files : List Path} {r report : Report} (h : (t₀.emitAll a files r).run t = (report, u)) :
    report.output = r.output := by
  induction files generalizing r t with
  | nil =>
    obtain ⟨rfl, -⟩ := Prod.mk.inj h
    rfl
  | cons path files ih =>
    unfold FileTree.emitAll at h
    rw [List.foldlM_cons] at h
    cases added : (r.add a (path, t₀.resultOf a path) : StateM FileTree _).run t with
    | mk next v =>
      rw [run_bind_of added] at h
      rw [ih h]
      cases printing : t₀.resultOf a path with
      | error e =>
        rw [printing] at added
        obtain ⟨rfl, -⟩ := Prod.mk.inj added
        rfl
      | ok p =>
        cases writing : (writeFiles dir path p : StateM FileTree _).run t with
        | mk outcome w =>
          rw [printing, run_add_of_some out r path p writing] at added
          obtain ⟨rfl, -⟩ := Prod.mk.inj added
          cases outcome with
          | error c => rfl
          | ok _ => exact String.append_empty

theorem Document.file_of_print {d : Document} {options : Options} {printed : Printed}
    {map : SourceMap} (h : d.print options = .ok printed) (mapped : printed.map = some map) :
    map.file = options.file.getD "" := by
  have wanted : options.wantsMap = true := by
    rw [← Document.isSome_map_of_print h, mapped]
    rfl
  obtain ⟨-, -, -, recorded⟩ := (Document.print_eq_ok_iff wanted).mp h
  obtain rfl := Option.some.inj (mapped.symm.trans recorded)
  exact (SourceMap.header_foldl_added _ _).1

theorem FileTree.file_of_resultOf {t : FileTree} {a : Arguments} {dir input : Path}
    {printed : Printed} {map : SourceMap} (out : a.outDir = some dir)
    (unset : (t.optionsOf a).file = none) (h : t.resultOf a input = .ok printed)
    (mapped : printed.map = some map) : map.file = cssName input := by
  have options : optionsFor (t.optionsOf a) a.outDir input =
      { t.optionsOf a with file := some (cssName input) } := by
    unfold optionsFor
    rw [unset, out]
    dsimp only
    rw [cssPath, Path.fileName_join dir (plain_cssName input)]
  unfold resultOf at h
  rw [options] at h
  obtain ⟨d, result⟩ := print_of_printed h
  exact Document.file_of_print result mapped

/-! ### Whole runs -/

theorem components_cssPath (dir input : Path) :
    (cssPath dir input).components = dir.components ++ [.name (cssName input)] :=
  Path.components_join dir (plain_cssName input)

theorem components_mapPath (dir input : Path) :
    (mapPath (cssPath dir input)).components = dir.components ++ [.name (mapName input)] := by
  rw [mapPath_cssPath]
  exact Path.components_join dir (plain_mapName input)

theorem LedTo.inside {t : FileTree} {dir input : Path} {names : Names}
    (h : LedTo t dir input names) :
    ∃ parent, t.follow dir.steps = .ok parent ∧
      (names = parent.push (cssName input) ∨ names = parent.push (mapName input)) := by
  unfold LedTo at h
  rw [mapPath_cssPath] at h
  rcases h with css | map
  · obtain ⟨parent, rfl, -, followed⟩ := FileTree.locate_join (plain_cssName input) css
    exact ⟨parent, followed, Or.inl rfl⟩
  · obtain ⟨parent, rfl, -, followed⟩ := FileTree.locate_join (plain_mapName input) map
    exact ⟨parent, followed, Or.inr rfl⟩

theorem FileTree.emits_of_run {t : FileTree} {a : Arguments} {dir : Path}
    (out : a.outDir = some dir) (filled : t.collected a.inputs ≠ []) :
    ∃ report u, (run a : StateM FileTree _).run t = (.ok report, u) ∧
      report.failed = report.errors.length ∧
      Emits dir (t.resultOf a) (t.collected a.inputs) t report.errors u := by
  have ran := t.run_eq a
  rw [if_neg filled] at ran
  rcases put : (t.emitAll a (t.collected a.inputs) {}).run t with ⟨report, u⟩
  rw [put] at ran
  obtain ⟨errors, emits, listed, -, failed⟩ := emits_emitAll out put
  obtain rfl : report.errors = errors := listed
  exact ⟨report, u, ran, failed.trans (Nat.zero_add _), emits⟩

theorem FileTree.changed_of_run {t u : FileTree} {a : Arguments} {dir : Path}
    {r : Except RunError Report} (out : a.outDir = some dir)
    (ran : (run a : StateM FileTree _).run t = (r, u)) {names : Names} {content : Option String}
    (found : u.entry? names = some (.file content))
    (changed : t.entry? names ≠ some (.file content)) :
    ∃ input ∈ t.collected a.inputs, ∃ p, t.resultOf a input = .ok p ∧ LedTo u dir input names := by
  by_cases filled : t.collected a.inputs = []
  · rw [run_eq, if_pos filled] at ran
    obtain ⟨-, rfl⟩ := Prod.mk.inj ran
    exact absurd found changed
  · obtain ⟨report, v, ran', -, emits⟩ := emits_of_run out filled
    obtain ⟨-, rfl⟩ := Prod.mk.inj (ran.symm.trans ran')
    exact (emits.changed found).resolve_left changed

theorem FileTree.output_of_run {t u : FileTree} {a : Arguments} {dir : Path} {report : Report}
    (out : a.outDir = some dir) (ran : (run a : StateM FileTree _).run t = (.ok report, u)) :
    report.output = "" := by
  rw [run_eq] at ran
  split at ran
  · cases ran
  · rcases put : (t.emitAll a (t.collected a.inputs) {}).run t with ⟨same, v⟩
    rw [put] at ran
    obtain ⟨equal, -⟩ := Prod.mk.inj ran
    obtain rfl := Except.ok.inj equal
    exact output_emitAll out put

/-- A run with a directory to write to prints nothing, and every file that is new or changed after
it is the CSS or the map of an input that could be printed. Whatever the input's path is, both lie
in the directory itself, under the stem of the input. -/
theorem run_confined (t : FileTree) (a : Arguments) (dir : Path) (out : a.outDir = some dir) :
    (∃ r u, (run a : StateM FileTree _).run t = (r, u) ∧
      (∀ report, r = .ok report → report.output = "") ∧
      ∀ names content, u.entry? names = some (.file content) →
        t.entry? names ≠ some (.file content) →
        ∃ input ∈ t.collected a.inputs, (∃ printed, t.resultOf a input = .ok printed) ∧
          (u.locate (cssPath dir input) = .ok names ∨
            u.locate (mapPath (cssPath dir input)) = .ok names) ∧
          ∃ parent, u.follow dir.steps = .ok parent ∧
            (names = parent.push (input.stem.getD "stylesheet" ++ ".css") ∨
              names = parent.push (input.stem.getD "stylesheet" ++ ".css.map"))) ∧
    ∀ input : Path,
      (cssPath dir input).components =
        dir.components ++ [.name (input.stem.getD "stylesheet" ++ ".css")] ∧
      (mapPath (cssPath dir input)).components =
        dir.components ++ [.name (input.stem.getD "stylesheet" ++ ".css.map")] ∧
      (∀ printed map, (t.optionsOf a).file = none → t.resultOf a input = .ok printed →
        printed.map = some map → map.file = input.stem.getD "stylesheet" ++ ".css") ∧
      ∀ dir' other, (cssPath dir input).components ≠ (mapPath (cssPath dir' other)).components := by
  have mapName_eq (input : Path) : input.stem.getD "stylesheet" ++ ".css.map" = mapName input := by
    rw [mapName, cssName, String.append_assoc]
    rfl
  simp only [mapName_eq]
  constructor
  · rcases ran : (run a : StateM FileTree _).run t with ⟨r, u⟩
    refine ⟨r, u, rfl, ?_, ?_⟩
    · rintro report rfl
      exact FileTree.output_of_run out ran
    · intro names content found changed
      obtain ⟨input, member, p, printing, led⟩ := FileTree.changed_of_run out ran found changed
      exact ⟨input, member, ⟨p, printing⟩, led, led.inside⟩
  · intro input
    refine ⟨components_cssPath dir input, components_mapPath dir input, ?_, ?_⟩
    · intro printed map unset printing mapped
      exact FileTree.file_of_resultOf out unset printing mapped
    · intro dir' other same
      rw [components_cssPath, components_mapPath] at same
      have last := (List.append_inj' same rfl).2
      exact mapName_ne_cssName other input (by simpa using last.symm)

theorem run_confined_twinDisk :
    ∃ report u names parent, (run twinRun : StateM FileTree _).run twinDisk = (.ok report, u) ∧
      report.output = "" ∧ u.entry? names = some (.file (some "@import b;")) ∧
      u.follow (Path.steps ⟨"out"⟩) = .ok parent ∧
      (∃ stem ∈ ["x", "y"],
        names = parent.push (stem ++ ".css") ∨ names = parent.push (stem ++ ".css.map")) ∧
      (cssPath ⟨"out"⟩ ⟨"/a//.b.json/./"⟩).components = [.name "out", .name ".b.css"] ∧
      (mapPath (cssPath ⟨"out"⟩ ⟨"a/.."⟩)).components =
        [.name "out", .name "stylesheet.css.map"] := by
  obtain ⟨⟨r, u, ran, silent, confined⟩, places⟩ := run_confined twinDisk twinRun ⟨"out"⟩ rfl
  obtain ⟨report, u', ran', -, -, -, read⟩ := run_twinDisk
  obtain ⟨rfl, rfl⟩ := Prod.mk.inj (ran'.symm.trans ran)
  obtain ⟨names, -, found⟩ := FileTree.readText_eq_ok_iff.mp read
  have fresh : twinDisk.entry? names ≠ some (.file (some "@import b;")) := by
    intro old
    unfold FileTree.entry? at old
    split at old
    · cases old
    · obtain ⟨before, after, entries, -⟩ := List.lookup_eq_some_iff.mp old
      have others : ∀ x ∈ twinDisk.entries, x.2 ≠ .file (some "@import b;") := by decide +kernel
      exact others (names, _) (by simp [entries]) rfl
  obtain ⟨input, member, -, -, parent, followed, named⟩ := confined names _ found fresh
  refine ⟨report, u', names, parent, ran', silent report rfl, found, followed, ?_, ?_, ?_⟩
  · have stems : ∀ input ∈ [(⟨"a/x.json"⟩ : Path), ⟨"a/y.json"⟩, ⟨"b/x.json"⟩],
        input.stem.getD "stylesheet" ∈ ["x", "y"] := by decide +kernel
    rw [collected_twinDisk] at member
    exact ⟨_, stems input member, named⟩
  · exact (places ⟨"/a//.b.json/./"⟩).1
  · exact (places ⟨"a/.."⟩).2.1

end CssPrinter
