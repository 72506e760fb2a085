import CssPrinter.Proofs.Command.Confinement
import Mathlib.Data.List.Nodup

/-!
# Inputs that fail

The CSS of an input is written before its map, and what was written is not taken back. A write that
breaks off leaves a beginning of its text. So an input that fails leaves its files untouched but for
three cases: writing its CSS broke off, its CSS was written and its map was not, or its CSS was
written and writing its map broke off (`Leaves`). Other inputs do not come near, since their files
have other names (`run_leaves`).
-/

namespace CssPrinter

/-! ### Paths without a name -/

namespace Path

theorem steps_ne_nil {p : Path} (filled : p.text ≠ "") : p.steps ≠ [] := by
  have some : p.text.toList ≠ [] := fun nil => filled (String.toList_eq_nil_iff.mp nil)
  obtain ⟨c, rest, text⟩ := List.exists_cons_of_ne_nil some
  unfold steps
  by_cases slash : c = '/'
  · have absolute : p.isAbsolute = true := by simp [isAbsolute, text, slash]
    rw [if_pos absolute]
    exact List.cons_ne_nil _ _
  · -- The first part starts with `c`, so it means something.
    have part : ∃ part ∈ p.parts, part ≠ [] := by
      unfold parts
      rw [text, splitAt, if_neg slash]
      split
      · exact ⟨[c], List.mem_cons_self, List.cons_ne_nil _ _⟩
      · exact ⟨_, List.mem_cons_self, List.cons_ne_nil _ _⟩
    obtain ⟨part, member, filled⟩ := part
    have meant : ∃ d, Component.ofPart part = Option.some d := by
      unfold Component.ofPart
      rw [if_neg filled]
      split_ifs <;> exact ⟨_, rfl⟩
    obtain ⟨d, meant⟩ := meant
    exact List.ne_nil_of_mem
      (List.mem_append_right _ (List.mem_filterMap.mpr ⟨part, member, meant⟩))

theorem fileName_of_steps {p : Path} {front : List Component} {n : String}
    (steps : p.steps = front ++ [.name n]) : p.fileName = some n := by
  unfold fileName components
  rw [steps]
  cases front with
  | nil => rfl
  | cons first front =>
    have last : (first :: (front ++ [Component.name n]).filter (· ≠ .here)).getLast? =
        some (.name n) := by
      rw [List.filter_append, ← List.cons_append]
      exact List.getLast?_concat
    rw [List.cons_append]
    dsimp only
    rw [last]
    rfl

end Path

namespace FileTree

/-- All that is on a disk lies in a directory. -/
def Rooted (t : FileTree) : Prop :=
  ∀ names, (t.entry? names).isSome → t.entry? names.pop = some .directory

theorem rooted_of_entries {t : FileTree}
    (inside : ∀ x ∈ t.entries, t.entry? x.1.pop = some .directory) : t.Rooted := by
  intro names present
  by_cases root : names = #[]
  · rw [root]
    rfl
  · obtain ⟨e, found⟩ := Option.isSome_iff_exists.mp present
    unfold entry? at found
    rw [if_neg root] at found
    obtain ⟨before, after, entries, -⟩ := List.lookup_eq_some_iff.mp found
    exact inside (names, e) (by simp [entries])

/-- A path without a file name leads to a directory, if it leads anywhere. -/
theorem Rooted.directory {t : FileTree} (rooted : t.Rooted) {p : Path} {names : Names}
    (nameless : p.fileName = none) (h : t.locate p = .ok names) :
    t.entry? names = some .directory := by
  obtain ⟨passed, checked, h⟩ := bind_eq_ok_iff.mp h
  obtain ⟨place, followed, ended⟩ := bind_eq_ok_iff.mp h
  split at ended
  · obtain ⟨rfl, found⟩ := asDirectory_eq_ok_iff.mp ended
    exact found
  · obtain rfl := Except.ok.inj ended
    have filled : p.text ≠ "" := by
      intro empty
      simp [checkPath, empty] at checked
    obtain ⟨front, last, steps⟩ :=
      (List.eq_nil_or_concat p.steps).resolve_left (Path.steps_ne_nil filled)
    rw [steps, follow, List.concat_eq_append, List.foldlM_append] at followed
    obtain ⟨middle, -, followed⟩ := bind_eq_ok_iff.mp followed
    obtain ⟨next, taken, stopped⟩ := bind_eq_ok_iff.mp followed
    obtain rfl := Except.ok.inj stopped
    cases last with
    | root =>
      obtain rfl := Except.ok.inj taken
      rfl
    | here =>
      obtain ⟨rfl, found⟩ := asDirectory_eq_ok_iff.mp taken
      exact found
    | up =>
      simp only [step] at taken
      cases before : t.asDirectory middle with
      | error e => rw [before] at taken; cases taken
      | ok x =>
        rw [before] at taken
        obtain rfl := Except.ok.inj taken
        obtain ⟨rfl, found⟩ := asDirectory_eq_ok_iff.mp before
        exact rooted _ (by rw [found]; rfl)
    | name n =>
      rw [List.concat_eq_append] at steps
      rw [Path.fileName_of_steps steps] at nameless
      cases nameless

theorem Rooted.stem_of_resultOf {t : FileTree} (rooted : t.Rooted) {a : Arguments} {path : Path}
    {p : Printed} (h : t.resultOf a path = .ok p) : ∃ s, path.stem = some s := by
  unfold resultOf at h
  rcases t.printed_cases (optionsFor (t.optionsOf a) a.outDir path) path with
    ⟨e, -, failed⟩ | ⟨text, read, -⟩
  · cases failed.symm.trans h
  · obtain ⟨names, located, found⟩ := readText_eq_ok_iff.mp read
    cases name : path.fileName with
    | none =>
      rw [rooted.directory name located] at found
      cases found
    | some n => exact ⟨_, by rw [Path.stem, name]; rfl⟩

end FileTree

/-! ### Files of one input -/

/-- Where a path leads, there is the same file as before, or none as before. What it led to before
is still what it leads to. -/
structure Untouched (t u : FileTree) (p : Path) : Prop where
  leads : ∀ names, t.locate p = .ok names → u.locate p = .ok names
  file : ∀ names, u.locate p = .ok names → FileTree.SameFile t u names

section

variable {t u : FileTree} {dir input : Path} {names place : Names}

theorem Untouched.readText {p : Path} {text : String} (h : Untouched t u p)
    (read : t.readText p = .ok text) : u.readText p = .ok text := by
  obtain ⟨names, located, found⟩ := FileTree.readText_eq_ok_iff.mp read
  have led := h.leads names located
  exact FileTree.readText_eq_ok_iff.mpr ⟨names, led, (h.file names led _).mpr found⟩

theorem LedTo.cssName_eq {other : Path} (h : LedTo u dir input names)
    (h' : LedTo u dir other names) : cssName other = cssName input := by
  obtain ⟨parent, -, here⟩ := h.inside
  obtain ⟨parent', -, there⟩ := h'.inside
  rcases here with rfl | rfl
  · rcases there with same | same
    · exact (Array.push_eq_push.mp same).1.symm
    · exact absurd (Array.push_eq_push.mp same).1.symm (mapName_ne_cssName other input)
  · rcases there with same | same
    · exact absurd (Array.push_eq_push.mp same).1 (mapName_ne_cssName input other)
    · have maps := (Array.push_eq_push.mp same).1
      simpa [mapName, String.append_left_inj] using maps.symm

theorem ne_of_locate_mapPath (map : u.locate (mapPath (cssPath dir input)) = .ok names)
    (css : t.locate (cssPath dir input) = .ok place) : names ≠ place := by
  rw [mapPath_cssPath] at map
  obtain ⟨parent, rfl, -⟩ := FileTree.locate_join (plain_mapName input) map
  obtain ⟨parent', rfl, -⟩ := FileTree.locate_join (plain_cssName input) css
  intro same
  exact mapName_ne_cssName input input (Array.push_eq_push.mp same).1

/-- A path leads to a file that holds a beginning of a text, where writing it broke off. -/
def HoldsBeginning (t : FileTree) (p : Path) (text : String) : Prop :=
  ∃ names bytes, t.locate p = .ok names ∧
    t.entry? names = some (.file (FileTree.beginning text bytes))

/-- A path leads to no file. -/
def Missing (t : FileTree) (p : Path) : Prop :=
  ∀ names content, t.locate p = .ok names → t.entry? names ≠ some (.file content)

theorem FileTree.faults_ne_nil {f : Fault} (fault : t.fault? = some f) : t.faults ≠ [] := by
  intro none
  rw [fault?, none] at fault
  cases fault

/-- A write that fails has changed no file, or it broke off. Without a fault it failed because there
was no place for it. -/
theorem FileTree.writeText_error_cases {p : Path} {text : String} {e : DiskError}
    (h : t.writeText p text = (.error e, u)) :
    ((∀ names, SameFile t u names) ∧
      (t.faults = [] → ∀ names, u.locate p = .ok names → u.entry? names.pop = some .directory →
        u.entry? names = some .directory)) ∨
      ∃ place bytes, t.faults ≠ [] ∧ u.locate p = .ok place ∧
        u.entry? place = some (.file (beginning text bytes)) ∧
        ∀ names, names ≠ place → SameFile t u names := by
  have grows := grows_of_writeText h
  cases wrote_of_writeText h with
  | noPlace e taken => exact Or.inl ⟨.refl t, fun _ => taken⟩
  | refused fault => exact Or.inl ⟨.refl t, fun none => absurd none (faults_ne_nil fault)⟩
  | @brokenOff place bytes _ located free fault =>
    have led := grows.locate located
    refine Or.inr ⟨place, bytes, faults_ne_nil fault, led, ?_, fun names other => ?_⟩
    · rw [entry?_passed_insert free, if_pos rfl]
    · exact sameFile_of_writeText h fun here => other (Except.ok.inj (here.symm.trans led))

/-- A map that cannot be written leaves all files as they are, or a beginning of itself. Without a
fault there is no file in its place. -/
theorem mapText_error_cases {map : String} {e : DiskError}
    (h : t.writeText (mapPath (cssPath dir input)) map = (.error e, u)) :
    ((∀ names, FileTree.SameFile t u names) ∧
      (t.faults = [] → Missing u (mapPath (cssPath dir input)))) ∨
      (t.faults ≠ [] ∧ HoldsBeginning u (mapPath (cssPath dir input)) map) := by
  rcases FileTree.writeText_error_cases h with
    ⟨kept, taken⟩ | ⟨place, bytes, faulty, located, found, -⟩
  · refine Or.inl ⟨kept, fun none names content here file => ?_⟩
    have led := here
    rw [mapPath_cssPath] at led
    obtain ⟨parent, rfl, directory, -⟩ := FileTree.locate_join (plain_mapName input) led
    have full := taken none _ here (by simpa using directory)
    cases full.symm.trans file
  · exact Or.inr ⟨faulty, place, bytes, located, found⟩

/-- How far writing came that failed. -/
theorem writeFiles_error_cases {p : Printed} {e : DiskError}
    (h : (writeFiles dir input p : StateM FileTree _).run t = (.error e, u)) :
    (∀ names, FileTree.SameFile t u names) ∨
      ∃ place, u.locate (cssPath dir input) = .ok place ∧
        ((∃ bytes, t.faults ≠ [] ∧
            u.entry? place = some (.file (FileTree.beginning p.css bytes)) ∧
            ∀ names, names ≠ place → FileTree.SameFile t u names) ∨
          ∃ map, p.mapText = some map ∧ u.entry? place = some (.file (some p.css)) ∧
            (((∀ names, names ≠ place → FileTree.SameFile t u names) ∧
                (t.faults = [] → Missing u (mapPath (cssPath dir input)))) ∨
              (t.faults ≠ [] ∧ HoldsBeginning u (mapPath (cssPath dir input)) map))) := by
  rcases writeFiles_cases h with ⟨e, -, failed⟩ | ⟨v, made, ⟨e, -, failed⟩ | ⟨w, wrote, last⟩⟩
  · exact Or.inl (FileTree.sameFile_of_createDirectories failed)
  · have directories := FileTree.sameFile_of_createDirectories made
    rcases FileTree.writeText_error_cases failed with
      ⟨kept, -⟩ | ⟨place, bytes, faulty, located, found, kept⟩
    · exact Or.inl fun names => (directories names).trans (kept names)
    · have before := (FileTree.extends_of_createDirectories made).faults
      refine Or.inr ⟨place, located, Or.inl ⟨bytes, fun none => faulty ?_, found, ?_⟩⟩
      · exact List.suffix_nil.mp (none ▸ before)
      · exact fun names other => (directories names).trans (kept names other)
  · rcases last with ⟨-, done, -⟩ | ⟨map, some, failed⟩
    · cases done
    · obtain ⟨place, located, found⟩ :=
        FileTree.readText_eq_ok_iff.mp (FileTree.readText_of_writeText wrote)
      have first (names : Names) (other : names ≠ place) : FileTree.SameFile t w names := by
        apply (FileTree.sameFile_of_createDirectories made names).trans
        apply FileTree.sameFile_of_writeText wrote
        intro here
        exact other (Except.ok.inj (here.symm.trans located))
      have before : w.faults <:+ t.faults :=
        (FileTree.grows_of_writeText wrote).faults.trans
          (FileTree.extends_of_createDirectories made).faults
      have grows := FileTree.grows_of_writeText failed
      have css : u.entry? place = Option.some (.file (Option.some p.css)) := by
        have read := FileTree.readText_of_writeText_ne (plain_mapName input) (plain_cssName input)
          (mapName_ne_cssName input input).symm failed (FileTree.readText_of_writeText wrote)
        obtain ⟨same, located', found'⟩ := FileTree.readText_eq_ok_iff.mp read
        obtain rfl := Except.ok.inj (located'.symm.trans (grows.locate located))
        exact found'
      have lasting (none : t.faults = []) : w.faults = [] := List.suffix_nil.mp (none ▸ before)
      refine Or.inr ⟨place, grows.locate located, Or.inr ⟨map, some, css, ?_⟩⟩
      rw [← mapPath_cssPath] at failed
      rcases mapText_error_cases failed with ⟨kept, missing⟩ | ⟨faulty, part⟩
      · exact Or.inl ⟨fun names other => (first names other).trans (kept names),
          fun none => missing (lasting none)⟩
      · exact Or.inr ⟨fun none => faulty (lasting none), part⟩

end

/-- What an input that fails leaves of its files: both as they were, or what was written of them. On
a disk without faults no write breaks off, and a map is not written only where no file can be. -/
inductive Leaves (t u : FileTree) (css map : Path) (result : Except RunError Printed) : Prop
  | untouched (cssKept : Untouched t u css) (mapKept : Untouched t u map)
  | cssBrokenOff {printed : Printed} (printing : result = .ok printed) (faulty : t.faults ≠ [])
      (cssPart : HoldsBeginning u css printed.css) (mapKept : Untouched t u map)
  | mapNotWritten {printed : Printed} {text : String} (printing : result = .ok printed)
      (mapped : printed.mapText = some text) (cssWhole : u.readText css = .ok printed.css)
      (mapKept : Untouched t u map) (missing : t.faults = [] → Missing u map)
  | mapBrokenOff {printed : Printed} {text : String} (printing : result = .ok printed)
      (mapped : printed.mapText = some text) (faulty : t.faults ≠ [])
      (cssWhole : u.readText css = .ok printed.css) (mapPart : HoldsBeginning u map text)

/-! ### Runs -/

namespace Emits

variable {dir : Path} {result : Path → Except RunError Printed} {files : List Path}
  {t u : FileTree} {errors : List RunError}

theorem of_append {xs ys : List Path} (h : Emits dir result (xs ++ ys) t errors u) :
    ∃ v first second, Emits dir result xs t first v ∧ Emits dir result ys v second u ∧
      errors = first ++ second := by
  induction xs generalizing t errors with
  | nil => exact ⟨t, [], errors, .nil t, h, rfl⟩
  | cons path xs ih =>
    cases h with
    | blamed about cause later =>
      obtain ⟨v, first, second, earlier, rest, rfl⟩ := ih later
      exact ⟨v, _ :: first, second, .blamed about cause earlier, rest, rfl⟩
    | written printing writing later =>
      obtain ⟨v, first, second, earlier, rest, rfl⟩ := ih later
      exact ⟨v, first, second, .written printing writing earlier, rest, rfl⟩

/-- A run that blames an input comes to it, fails there, and goes on. -/
theorem at_blamed {before after : List Path} {input : Path}
    (h : Emits dir result (before ++ input :: after) t errors u) (absent : input ∉ before ++ after)
    (blamed : blames errors input = true) :
    ∃ v w first second, Emits dir result before t first v ∧ Emits dir result after w second u ∧
      FileTree.Grows v u ∧
      ((∃ e, result input = .error e ∧ w = v) ∨ ∃ p c, result input = .ok p ∧
        (writeFiles dir input p : StateM FileTree _).run v = (.error c, w)) := by
  obtain ⟨v, first, second, earlier, rest, rfl⟩ := h.of_append
  have later : blames second input = true := by
    rw [blames, List.any_append, Bool.or_eq_true] at blamed
    refine blamed.resolve_left fun early => ?_
    exact absent (List.mem_append_left _ (earlier.mem_of_blames early))
  have grows := rest.grows
  cases rest with
  | blamed about cause after =>
    exact ⟨v, _, first, _, earlier, after, grows, cause.imp_left fun failed => ⟨_, failed⟩⟩
  | written printing writing after =>
    exact absurd (List.mem_append_right _ (after.mem_of_blames later)) absent

theorem sameFile_of_alone {v : FileTree} {input : Path} {names : Names}
    (h : Emits dir result files t errors u) (grows : FileTree.Grows u v)
    (led : LedTo v dir input names) (absent : input ∉ files)
    (alone : ∀ other ∈ files, ∀ p, result other = .ok p → cssName other = cssName input →
      other = input) :
    FileTree.SameFile t u names := by
  apply h.sameFile
  intro other member p printing led'
  have same := alone other member p printing (led.cssName_eq (led'.grows grows))
  exact absent (same ▸ member)

/-- What an input that is blamed leaves of its files, if no other input of its name was printed. -/
theorem leaves (h : Emits dir result files t errors u) (unique : files.Nodup) {input : Path}
    (member : input ∈ files) (blamed : blames errors input = true)
    (alone : ∀ other ∈ files, ∀ p, result other = .ok p → cssName other = cssName input →
      other = input) :
    Leaves t u (cssPath dir input) (mapPath (cssPath dir input)) (result input) := by
  obtain ⟨before, after, rfl⟩ := List.append_of_mem member
  have absent := (List.nodup_cons.mp (List.nodup_middle.mp unique)).1
  obtain ⟨v, w, first, second, earlier, later, grows, cause⟩ := h.at_blamed absent blamed
  obtain ⟨notBefore, notAfter⟩ := not_or.mp fun among => absent (List.mem_append.mpr among)
  have early {names : Names} (led : LedTo u dir input names) : FileTree.SameFile t v names :=
    earlier.sameFile_of_alone grows led notBefore fun other among =>
      alone other (List.mem_append_left _ among)
  have late {names : Names} (led : LedTo u dir input names) : FileTree.SameFile w u names :=
    later.sameFile_of_alone (.refl u) led notAfter fun other among =>
      alone other (List.mem_append_right _ (List.mem_cons_of_mem _ among))
  -- So it is the step of the input itself that decides what becomes of its files.
  have css (kept : ∀ names, FileTree.SameFile v w names) : Untouched t u (cssPath dir input) := by
    refine ⟨fun names => h.grows.locate, fun names here => ?_⟩
    exact ((early (Or.inl here)).trans (kept names)).trans (late (Or.inl here))
  have map (kept : ∀ names, u.locate (mapPath (cssPath dir input)) = .ok names →
      FileTree.SameFile v w names) : Untouched t u (mapPath (cssPath dir input)) := by
    refine ⟨fun names => h.grows.locate, fun names here => ?_⟩
    exact ((early (Or.inr here)).trans (kept names here)).trans (late (Or.inr here))
  have faulty (some : v.faults ≠ []) : t.faults ≠ [] :=
    fun none => some (List.suffix_nil.mp (none ▸ earlier.grows.faults))
  rcases cause with ⟨e, -, rfl⟩ | ⟨p, c, printing, writing⟩
  · exact .untouched (css (.refl w)) (map fun names _ => .refl w names)
  · rcases writeFiles_error_cases writing with kept | ⟨place, located, reached⟩
    · exact .untouched (css kept) (map fun names _ => kept names)
    · have here := later.grows.locate located
      have stays {content : Option String} (found : w.entry? place = some (.file content)) :
          u.entry? place = some (.file content) := (late (Or.inl here) content).mpr found
      have apart (kept : ∀ names, names ≠ place → FileTree.SameFile v w names) :=
        map fun names there => kept names (ne_of_locate_mapPath there located)
      rcases reached with ⟨bytes, some, found, kept⟩ | ⟨text, mapped, found, rest⟩
      · exact .cssBrokenOff printing (faulty some) ⟨place, bytes, here, stays found⟩ (apart kept)
      · have read := FileTree.readText_eq_ok_iff.mpr ⟨place, here, stays found⟩
        rcases rest with ⟨kept, missing⟩ | ⟨some, names, bytes, there, part⟩
        · refine .mapNotWritten printing mapped read (apart kept) fun none names content there => ?_
          -- The directory was there when the map was to be written, so the path led there then.
          have before : w.locate (mapPath (cssPath dir input)) = .ok names := by
            rw [mapPath_cssPath] at there ⊢
            exact later.grows.locate_join_of (plain_mapName input) (plain_cssName input) located
              there
          intro file
          refine missing (List.suffix_nil.mp (none ▸ earlier.grows.faults)) names content before ?_
          exact (late (Or.inr there) content).mp file
        · have led := later.grows.locate there
          refine .mapBrokenOff printing mapped (faulty some) read ⟨names, bytes, led, ?_⟩
          exact (late (Or.inr led) _).mpr part

end Emits

theorem stem_eq_of_cssName {p q : Path} {s : String} (stem : p.stem = some s)
    (same : cssName p = cssName q) :
    p.stem = q.stem ∨ q.stem = none ∧ p.stem = some "stylesheet" := by
  have names : p.stem.getD "stylesheet" = q.stem.getD "stylesheet" := by
    simpa [cssName, String.append_left_inj] using same
  rw [stem] at names ⊢
  cases other : q.stem with
  | none =>
    rw [other] at names
    exact Or.inr ⟨rfl, congrArg some names⟩
  | some s' =>
    rw [other] at names
    exact Or.inl (congrArg some names)

/-- With a directory to write to and no two inputs of the same stem, an input that is counted as
failed leaves the files of its CSS and its map untouched, but for what was written of them: its CSS
as far as the write came, or its whole CSS and nothing or a beginning of its map. An input without a
stem shares its files with one that has the stem `stylesheet`, so nothing is said of it if there is
one. -/
theorem run_leaves (t : FileTree) (a : Arguments) (dir : Path) (files : List Path)
    (rooted : t.Rooted) (out : a.outDir = some dir) (collected : t.collected a.inputs = files)
    (filled : files ≠ [])
    (apart : ∀ p ∈ files, ∀ q ∈ files, p.stem ≠ none → p.stem = q.stem → p = q) :
    ∃ report u, (run a : StateM FileTree _).run t = (.ok report, u) ∧
      report.failed = (files.filter (blames report.errors)).length ∧
      ∀ input ∈ files, blames report.errors input = true →
        (input.stem = none → some "stylesheet" ∉ files.map Path.stem) →
        Leaves t u (cssPath dir input) (mapPath (cssPath dir input)) (t.resultOf a input) := by
  subst collected
  obtain ⟨report, u, ran, failed, emits⟩ := FileTree.emits_of_run out filled
  have unique := t.nodup_collected a.inputs
  refine ⟨report, u, ran, failed.trans (emits.length_errors unique), ?_⟩
  intro input member blamed named
  apply emits.leaves unique member blamed
  intro other among p printing same
  obtain ⟨s, stem⟩ := rooted.stem_of_resultOf printing
  rcases stem_eq_of_cssName stem same with equal | ⟨none, standIn⟩
  · exact apart other among input member (by simp [stem]) equal
  · exact absurd (List.mem_map.mpr ⟨other, among, standIn⟩) (named none)

/-- Files from an earlier run, and a directory in the place of a map. -/
def blockedDisk : FileTree where
  here := #[]
  entries := [(#["stylesheet.json"], .file (some (importing "s").text)),
    (#["x.json"], .file (some (importing "x").text)), (#["y.json"], .file none),
    (#["out"], .directory), (#["out", "stylesheet.css"], .file (some "old")),
    (#["out", "x.css"], .file (some "old")), (#["out", "x.css.map"], .directory),
    (#["out", "y.css"], .file (some "old"))]

def blockedRun : Arguments where
  inputs := [⟨"gone/.."⟩, ⟨"stylesheet.json"⟩, ⟨"x.json"⟩, ⟨"y.json"⟩]
  map := true
  outDir := some ⟨"out"⟩

theorem rooted_blockedDisk : blockedDisk.Rooted :=
  FileTree.rooted_of_entries (by decide +kernel)

theorem collected_blockedDisk :
    blockedDisk.collected blockedRun.inputs =
      [⟨"gone/.."⟩, ⟨"stylesheet.json"⟩, ⟨"x.json"⟩, ⟨"y.json"⟩] := by
  have found : blockedRun.inputs.flatMap blockedDisk.expanded =
      [⟨"gone/.."⟩, ⟨"stylesheet.json"⟩, ⟨"x.json"⟩, ⟨"y.json"⟩] := by
    simp only [funext blockedDisk.expanded_eq]
    decide +kernel
  rw [FileTree.collected_eq, found]
  exact Path.sorted_of_ascending (by decide)

/-- One input succeeds. Of the others one cannot be read, one is no text, and one has no place for
its map. -/
theorem run_blockedDisk :
    ∃ report u, (run blockedRun : StateM FileTree _).run blockedDisk = (.ok report, u) ∧
      report.failed = 3 ∧
      (∀ path ∈ [(⟨"gone/.."⟩ : Path), ⟨"x.json"⟩, ⟨"y.json"⟩],
        blames report.errors path = true) ∧
      u.readText (cssPath ⟨"out"⟩ ⟨"gone/.."⟩) = .ok "@import s;" ∧
      u.readText (cssPath ⟨"out"⟩ ⟨"x.json"⟩) = .ok "@import x;" := by
  have gone : blockedDisk.resultOf blockedRun ⟨"gone/.."⟩ = .error (.read _ .notFound) :=
    blockedDisk.printed_of_unreadable _ rfl
  have stylesheet := blockedDisk.resultOf_importing blockedRun ⟨"stylesheet.json"⟩ "s" rfl
  have x := blockedDisk.resultOf_importing blockedRun ⟨"x.json"⟩ "x" rfl
  have y : blockedDisk.resultOf blockedRun ⟨"y.json"⟩ = .error (.read _ .notText) :=
    blockedDisk.printed_of_unreadable _ rfl
  have ran := blockedDisk.run_eq blockedRun
  rw [collected_blockedDisk, if_neg (by simp)] at ran
  refine ⟨_, _, ran, ?_⟩
  simp only [FileTree.emitAll, List.foldlM_cons, List.foldlM_nil, gone, stylesheet, x, y]
  decide +kernel

theorem run_leaves_blockedDisk :
    ∃ report u printed map,
      (run blockedRun : StateM FileTree _).run blockedDisk = (.ok report, u) ∧
      report.failed = 3 ∧
      u.readText (cssPath ⟨"out"⟩ ⟨"y.json"⟩) = .ok "old" ∧
      Untouched blockedDisk u (mapPath (cssPath ⟨"out"⟩ ⟨"x.json"⟩)) ∧
      blockedDisk.resultOf blockedRun ⟨"x.json"⟩ = .ok printed ∧ printed.mapText = some map ∧
      u.readText (cssPath ⟨"out"⟩ ⟨"x.json"⟩) = .ok printed.css ∧
      Missing u (mapPath (cssPath ⟨"out"⟩ ⟨"x.json"⟩)) := by
  obtain ⟨report, u, ran, -, each⟩ := run_leaves blockedDisk blockedRun ⟨"out"⟩ _
    rooted_blockedDisk rfl collected_blockedDisk (by simp) (by decide +kernel)
  obtain ⟨report', u', ran', failed, blamed, -, css⟩ := run_blockedDisk
  obtain ⟨same, rfl⟩ := Prod.mk.inj (ran.symm.trans ran')
  obtain rfl := Except.ok.inj same
  have y := each ⟨"y.json"⟩ (by simp) (blamed _ (by simp)) (fun stem => by cases stem)
  have x := each ⟨"x.json"⟩ (by simp) (blamed _ (by simp)) (fun stem => by cases stem)
  have kept : u.readText (cssPath ⟨"out"⟩ ⟨"y.json"⟩) = .ok "old" := by
    have failed : blockedDisk.resultOf blockedRun ⟨"y.json"⟩ = .error (.read _ .notText) :=
      blockedDisk.printed_of_unreadable _ rfl
    rw [failed] at y
    cases y with
    | untouched css map => exact css.readText rfl
    | cssBrokenOff printing => cases printing
    | mapNotWritten printing => cases printing
    | mapBrokenOff printing => cases printing
  cases x with
  | untouched kept map =>
    have old : u.readText (cssPath ⟨"out"⟩ ⟨"x.json"⟩) = .ok "old" := kept.readText rfl
    exact absurd (Except.ok.inj (css.symm.trans old)) (by decide)
  | cssBrokenOff printing faulty => exact absurd rfl faulty
  | mapNotWritten printing mapped read map missing =>
    exact ⟨report, u, _, _, ran, failed, kept, map, printing, mapped, read, missing rfl⟩
  | mapBrokenOff printing mapped faulty => exact absurd rfl faulty

/-- Two inputs fail, and the files of both are overwritten: for the one whose map has no place by
itself, for the one without a stem by another input. -/
theorem run_blockedDisk_overwrites :
    ((blockedDisk.collected blockedRun.inputs).map Path.stem).Nodup ∧
    ∃ report u, (run blockedRun : StateM FileTree _).run blockedDisk = (.ok report, u) ∧
      ∀ input ∈ [(⟨"gone/.."⟩ : Path), ⟨"x.json"⟩],
        input ∈ blockedDisk.collected blockedRun.inputs ∧ blames report.errors input = true ∧
        ¬ Untouched blockedDisk u (cssPath ⟨"out"⟩ input) := by
  obtain ⟨report, u, ran, -, blamed, gone, x⟩ := run_blockedDisk
  rw [collected_blockedDisk]
  refine ⟨by decide +kernel, report, u, ran, ?_⟩
  intro input member
  simp only [List.mem_cons, List.not_mem_nil, or_false] at member
  rcases member with rfl | rfl
  · refine ⟨by simp, blamed _ (by simp), fun untouched => ?_⟩
    have old : u.readText (cssPath ⟨"out"⟩ ⟨"gone/.."⟩) = .ok "old" := untouched.readText rfl
    exact absurd (Except.ok.inj (gone.symm.trans old)) (by decide)
  · refine ⟨by simp, blamed _ (by simp), fun untouched => ?_⟩
    have old : u.readText (cssPath ⟨"out"⟩ ⟨"x.json"⟩) = .ok "old" := untouched.readText rfl
    exact absurd (Except.ok.inj (x.symm.trans old)) (by decide)

end CssPrinter
