import CssPrinter.Proofs.Command.Batch
import CssPrinter.Proofs.Disk.Growth
import CssPrinter.Proofs.Disk.Order

/-!
# Collecting inputs

An input that is no directory stands for itself, and a directory for the tree files below it whose
paths are text. A walk through a directory comes upon the files whose directories can be followed
(`mem_pathsBelow_iff`). What the inputs stand for is collected in order and without repetitions, so
neither the order of the inputs nor repeated ones matter (`FileTree.collected_standsFor`).
-/

namespace CssPrinter

namespace Path

theorem steps_descend (dir : Path) {names : List String} (plain : ∀ n ∈ names, PlainName n) :
    (dir.descend names).steps = dir.steps ++ names.map .name := by
  induction names generalizing dir with
  | nil => exact (List.append_nil _).symm
  | cons n names ih =>
    obtain ⟨first, others⟩ := List.forall_mem_cons.mp plain
    rw [show dir.descend (n :: names) = (dir.join ⟨n⟩).descend names from rfl, ih _ others,
      steps_join dir first, List.append_assoc]
    rfl

theorem endsInSlash_descend (dir : Path) {names : List String} (filled : names ≠ [])
    (plain : ∀ n ∈ names, PlainName n) : (dir.descend names).endsInSlash = false := by
  rw [← List.dropLast_concat_getLast filled, descend, List.foldl_append]
  exact endsInSlash_join _ (plain _ (List.getLast_mem filled))

end Path

namespace FileTree

variable {t : FileTree}

/-! ### Walking through a directory -/

/-- Names that lead from a directory to a file, through any number of directories. -/
def FileBelow (t : FileTree) (dir : Path) (rest : List String) : Prop :=
  ∃ place content, t.locate dir = .ok place ∧
    t.entry? (place ++ rest.toArray) = some (.file content)

theorem mem_files_iff {names : Names} :
    names ∈ t.files ↔ ∃ content, t.entry? names = some (.file content) := by
  unfold files
  rw [List.mem_filter]
  constructor
  · rintro ⟨-, isFile⟩
    cases found : t.entry? names with
    | none => simp [found] at isFile
    | some e =>
      cases e with
      | directory => simp [found, Entry.isFile] at isFile
      | file content => exact ⟨content, rfl⟩
  · rintro ⟨content, found⟩
    refine ⟨?_, by rw [found]; rfl⟩
    unfold entry? at found
    split at found
    · cases found
    · obtain ⟨before, after, entries, -⟩ := List.lookup_eq_some_iff.mp found
      rw [entries]
      simp

theorem below?_eq_some_iff {dir names : Names} {rest : List String} :
    below? dir names = some rest ↔ names = dir ++ rest.toArray ∧ rest ≠ [] := by
  have starts : dir.isPrefixOf names = true ↔ dir.toList <+: names.toList := by
    rw [← Array.isPrefixOf_toList, List.isPrefixOf_iff_prefix]
  unfold below?
  constructor
  · intro h
    split at h
    · rename_i inside
      obtain ⟨more, text⟩ := starts.mp inside.1
      have names_eq : names = dir ++ more.toArray := by
        rw [← Array.toList_inj, ← text]
        simp
      subst names_eq
      obtain rfl : more = rest := by simpa using h
      refine ⟨rfl, ?_⟩
      rintro rfl
      exact inside.2 (by simp)
    · cases h
  · rintro ⟨rfl, filled⟩
    have inside : dir.isPrefixOf (dir ++ rest.toArray) = true ∧ dir ≠ dir ++ rest.toArray :=
      ⟨starts.mpr (by simp), by simpa using filled⟩
    rw [if_pos inside]
    simp

theorem isDirectory_iff {p : Path} :
    t.isDirectory p = true ↔
      ∃ place, t.locate p = .ok place ∧ t.entry? place = some .directory := by
  unfold isDirectory lookup
  cases t.locate p with
  | error e => simp [bind, Except.bind]
  | ok place =>
    cases found : t.entry? place with
    | none => simp [bind, Except.bind, found]
    | some e => cases e <;> simp [bind, Except.bind, found]

theorem mem_pathsBelow_iff {dir p : Path} (directory : t.isDirectory dir = true) :
    p ∈ t.pathsBelow dir ↔ ∃ rest, t.FileBelow dir rest ∧
      (checkPath (dir.descend rest.dropLast)).isOk = true ∧ p = dir.descend rest := by
  obtain ⟨place, located, found⟩ := isDirectory_iff.mp directory
  unfold pathsBelow FileBelow
  simp only [located, List.mem_map, List.mem_filter, List.mem_filterMap, mem_files_iff,
    below?_eq_some_iff]
  constructor
  · rintro ⟨rest, ⟨⟨names, ⟨content, file⟩, rfl, -⟩, reached⟩, rfl⟩
    exact ⟨rest, ⟨place, content, rfl, file⟩, reached, rfl⟩
  · rintro ⟨rest, ⟨same, content, here, file⟩, reached, rfl⟩
    obtain rfl := Except.ok.inj here
    refine ⟨rest, ⟨⟨_, ⟨content, file⟩, rfl, ?_⟩, reached⟩, rfl⟩
    rintro rfl
    rw [Array.append_empty, found] at file
    cases file

theorem foldlM_names {names : List String} {place last : Names}
    (h : (names.map Component.name).foldlM t.step place = .ok last) :
    last = place ++ names.toArray := by
  induction names generalizing place with
  | nil => exact (Except.ok.inj h).symm.trans (Array.append_empty).symm
  | cons n names ih =>
    rw [List.map_cons, List.foldlM_cons] at h
    obtain ⟨next, taken, rest⟩ := bind_eq_ok_iff.mp h
    obtain ⟨same, directory, named⟩ := bind_eq_ok_iff.mp taken
    obtain ⟨rfl, -⟩ := asDirectory_eq_ok_iff.mp directory
    split at named
    · cases named
    · obtain rfl := Except.ok.inj named
      rw [ih rest]
      simp

/-- A path to a file below a directory leads there, if it leads anywhere. -/
theorem locate_descend {dir : Path} {place last : Names} {rest : List String}
    (located : t.locate dir = .ok place) (filled : rest ≠ []) (plain : ∀ n ∈ rest, PlainName n)
    (h : t.locate (dir.descend rest) = .ok last) : last = place ++ rest.toArray := by
  obtain ⟨-, -, located⟩ := bind_eq_ok_iff.mp located
  obtain ⟨start, followed, ended⟩ := bind_eq_ok_iff.mp located
  obtain rfl : place = start := by
    split at ended
    · exact (asDirectory_eq_ok_iff.mp ended).1
    · exact (Except.ok.inj ended).symm
  obtain ⟨-, -, h⟩ := bind_eq_ok_iff.mp h
  rw [Path.endsInSlash_descend dir filled plain, Path.steps_descend dir plain, follow,
    List.foldlM_append] at h
  obtain ⟨stop, way, stopped⟩ := bind_eq_ok_iff.mp h
  obtain ⟨middle, first, later⟩ := bind_eq_ok_iff.mp way
  obtain rfl := Except.ok.inj (first.symm.trans followed)
  obtain rfl := Except.ok.inj stopped
  exact foldlM_names later

theorem isDirectory_of_fileBelow {dir : Path} {rest : List String}
    (directory : t.isDirectory dir = true) (below : t.FileBelow dir rest)
    (plain : ∀ n ∈ rest, PlainName n) : t.isDirectory (dir.descend rest) = false := by
  obtain ⟨place, content, located, file⟩ := below
  have filled : rest ≠ [] := by
    rintro rfl
    obtain ⟨same, located', found⟩ := isDirectory_iff.mp directory
    obtain rfl := Except.ok.inj (located.symm.trans located')
    rw [Array.append_empty, found] at file
    cases file
  rw [← Bool.not_eq_true, isDirectory_iff]
  rintro ⟨last, leads, found⟩
  rw [locate_descend located filled plain leads, file] at found
  cases found

/-! ### What inputs stand for -/

/-- What inputs stand for: those that are no directories, and the tree files below the others, as
far as all names on the way to them are text. -/
inductive StandsFor (t : FileTree) (inputs : List Path) : Path → Prop
  | given {p : Path} (member : p ∈ inputs) (single : t.isDirectory p = false) :
      StandsFor t inputs p
  | found {dir : Path} {rest : List String} (member : dir ∈ inputs)
      (directory : t.isDirectory dir = true) (below : t.FileBelow dir rest)
      (extension : (dir.descend rest).extension = some "json")
      (name : (dir.descend rest).fileName ≠ some "css-stringify.json") :
      StandsFor t inputs (dir.descend rest)

/-- No file below a directory is out of the reach of a walk: the path of the directory that it lies
in can be followed. -/
def Walkable (t : FileTree) (dir : Path) : Prop :=
  ∀ rest, t.FileBelow dir rest → (checkPath (dir.descend rest.dropLast)).isOk = true

theorem isTreeFile_iff {p : Path} :
    isTreeFile p = true ↔ p.extension = some "json" ∧ p.fileName ≠ some "css-stringify.json" := by
  unfold isTreeFile
  exact decide_eq_true_iff

theorem standsFor_of_mem {inputs : List Path} {p : Path}
    (member : p ∈ inputs.flatMap t.expanded) : t.StandsFor inputs p := by
  obtain ⟨input, given, among⟩ := List.mem_flatMap.mp member
  cases directory : t.isDirectory input with
  | false =>
    rw [expanded_of_single directory] at among
    obtain rfl := List.mem_singleton.mp among
    exact .given given directory
  | true =>
    rw [expanded_of_directory directory] at among
    obtain ⟨walked, tree⟩ := List.mem_filter.mp among
    obtain ⟨rest, below, -, rfl⟩ := (mem_pathsBelow_iff directory).mp walked
    obtain ⟨extension, name⟩ := isTreeFile_iff.mp tree
    exact .found given directory below extension name

theorem StandsFor.mem {inputs : List Path} {p : Path} (h : t.StandsFor inputs p)
    (walkable : ∀ dir ∈ inputs, t.isDirectory dir = true → t.Walkable dir) :
    p ∈ inputs.flatMap t.expanded := by
  rw [List.mem_flatMap]
  cases h with
  | given member single =>
    refine ⟨p, member, ?_⟩
    rw [expanded_of_single single]
    exact List.mem_singleton_self p
  | @found dir rest member directory below extension name =>
    refine ⟨dir, member, ?_⟩
    rw [expanded_of_directory directory, List.mem_filter, isTreeFile_iff]
    have walked := (mem_pathsBelow_iff directory).mpr
      ⟨rest, below, walkable dir member directory rest below, rfl⟩
    exact ⟨walked, extension, name⟩

theorem map_components_collected {xs ys : List Path}
    (first : ∀ p ∈ xs.flatMap t.expanded, p ∈ ys.flatMap t.expanded)
    (second : ∀ p ∈ ys.flatMap t.expanded, p ∈ xs.flatMap t.expanded) :
    (t.collected xs).map Path.components = (t.collected ys).map Path.components := by
  rw [collected_eq, collected_eq]
  exact Path.map_components_sorted (fun p member => ⟨p, first p member, rfl⟩)
    (fun p member => ⟨p, second p member, rfl⟩)

/-- The collected inputs ascend, and up to equality of paths they are what the inputs stand for.
Inputs in another order, repeated ones and a file that is found anyway make no difference. A file
whose path is no text is never collected. -/
theorem collected_standsFor (t : FileTree) (inputs : List Path)
    (walkable : ∀ dir ∈ inputs, t.isDirectory dir = true → t.Walkable dir) :
    (collect inputs : StateM FileTree _).run t = (t.collected inputs, t) ∧
    (t.collected inputs).Pairwise Path.Before ∧
    ((t.collected inputs).map Path.components).Nodup ∧
    (∀ q ∈ t.collected inputs, t.StandsFor inputs q) ∧
    (∀ p, t.StandsFor inputs p → ∃ q ∈ t.collected inputs, q.components = p.components) ∧
    (∀ others, (∀ p, p ∈ others ↔ p ∈ inputs) →
      (t.collected others).map Path.components = (t.collected inputs).map Path.components) ∧
    ∀ before after dir rest, inputs = before ++ after → dir ∈ inputs → t.isDirectory dir = true →
      t.FileBelow dir rest → (∀ n ∈ rest, PlainName n) →
      (dir.descend rest).extension = some "json" →
      (dir.descend rest).fileName ≠ some "css-stringify.json" →
      (t.collected (before ++ dir.descend rest :: after)).map Path.components =
        (t.collected inputs).map Path.components := by
  have ascending : (t.collected inputs).Pairwise (·.key < ·.key) := by
    rw [collected_eq]
    exact Path.ascending_sorted _
  refine ⟨?_, ascending.imp Path.key_lt_iff.mp, ?_, ?_, ?_, ?_, ?_⟩
  · rw [run_collect, collected_eq]
  · exact List.pairwise_map.mpr (ascending.imp fun less same => less.ne (Path.key_eq_iff.mpr same))
  · intro q member
    rw [collected_eq] at member
    exact standsFor_of_mem (Path.mem_of_mem_sorted member)
  · intro p stands
    rw [collected_eq]
    obtain ⟨q, kept, same⟩ := Path.exists_mem_sorted (stands.mem walkable)
    exact ⟨q, kept, Path.key_eq_iff.mp same⟩
  · intro others same
    have within {xs ys : List Path} (sub : ∀ p ∈ xs, p ∈ ys) :
        ∀ p ∈ xs.flatMap t.expanded, p ∈ ys.flatMap t.expanded := by
      intro p member
      obtain ⟨input, given, among⟩ := List.mem_flatMap.mp member
      exact List.mem_flatMap.mpr ⟨input, sub input given, among⟩
    exact map_components_collected (within fun p => (same p).mp) (within fun p => (same p).mpr)
  · intro before after dir rest inputs_eq member directory below plain extension name
    have known := (StandsFor.found member directory below extension name).mem walkable
    have single := isDirectory_of_fileBelow directory below plain
    rw [inputs_eq, List.flatMap_append] at known
    rw [inputs_eq]
    apply map_components_collected
    all_goals
      rw [List.flatMap_append, List.flatMap_append, List.flatMap_cons, expanded_of_single single]
      intro p among
      simp only [List.mem_append, List.mem_singleton] at known among ⊢
    · rcases among with among | rfl | among
      · exact Or.inl among
      · exact known
      · exact Or.inr among
    · exact among.imp_right Or.inr

theorem walkable_of_located {dir : Path} {place : Names} (located : t.locate dir = .ok place)
    (reached : ∀ rest ∈ t.files.filterMap (below? place),
      (checkPath (dir.descend rest.dropLast)).isOk = true) : t.Walkable dir := by
  rintro rest ⟨same, content, located', file⟩
  obtain rfl := Except.ok.inj (located.symm.trans located')
  by_cases empty : rest = []
  · obtain ⟨passed, checked, -⟩ := bind_eq_ok_iff.mp located
    subst empty
    show (checkPath dir).isOk = true
    rw [checked]
    rfl
  · exact reached rest (List.mem_filterMap.mpr
      ⟨_, mem_files_iff.mpr ⟨content, file⟩, below?_eq_some_iff.mpr ⟨rfl, empty⟩⟩)

end FileTree

/-- Tree files at two depths, a configuration beside one of them, a file named like the directory,
and a file with the extension of a tree whose name is no text. -/
def nestedDisk : FileTree where
  here := #[]
  entries := [(#["a.json"], .file none), (#["a"], .directory), (#["a", "b.json"], .file none),
    (#["a", "css-stringify.json"], .file none), (#["a", "n"], .directory),
    (#["a", "n", "c.json"], .file none), (#["a", "n", "c.txt"], .file none)]
  strays := [⟨#["a"], ⟨#[0xff]⟩ ++ ".json".toUTF8, by decide +kernel⟩]

/-- A file of the directory is given too, by another text, and a file that is missing. -/
def nestedInputs : List Path := [⟨"a.json"⟩, ⟨"a//b.json"⟩, ⟨"a"⟩, ⟨"gone"⟩]

theorem walkable_nestedDisk :
    ∀ dir ∈ nestedInputs, nestedDisk.isDirectory dir = true → nestedDisk.Walkable dir := by
  have only : ∀ dir ∈ nestedInputs, nestedDisk.isDirectory dir = true → dir = ⟨"a"⟩ := by
    decide +kernel
  intro dir member directory
  obtain rfl := only dir member directory
  have located : nestedDisk.locate ⟨"a"⟩ = .ok #["a"] := rfl
  exact FileTree.walkable_of_located located (by decide +kernel)

theorem collected_standsFor_nestedDisk :
    (nestedDisk.collected nestedInputs).Pairwise Path.Before ∧
      (∃ q ∈ nestedDisk.collected nestedInputs,
        q.components = [.name "a", .name "n", .name "c.json"]) ∧
      (∃ q ∈ nestedDisk.collected nestedInputs, q.components = [.name "gone"]) ∧
      (nestedDisk.collected (⟨"a/n/c.json"⟩ :: nestedInputs)).map Path.components =
        (nestedDisk.collected nestedInputs).map Path.components ∧
      (nestedDisk.collected nestedInputs.reverse).map Path.components =
        (nestedDisk.collected nestedInputs).map Path.components := by
  obtain ⟨-, ascending, -, -, complete, reordered, added⟩ :=
    FileTree.collected_standsFor nestedDisk nestedInputs walkable_nestedDisk
  have directory : nestedDisk.isDirectory ⟨"a"⟩ = true := by decide +kernel
  have below : nestedDisk.FileBelow ⟨"a"⟩ ["n", "c.json"] := ⟨#["a"], none, rfl, rfl⟩
  have plain : ∀ n ∈ ["n", "c.json"], PlainName n := by
    intro n member
    simp only [List.mem_cons, List.not_mem_nil, or_false] at member
    rcases member with rfl | rfl <;> exact ⟨by decide, by decide, by decide, by decide⟩
  have path : (Path.mk "a").descend ["n", "c.json"] = ⟨"a/n/c.json"⟩ := by decide +kernel
  have extension : (Path.mk "a/n/c.json").extension = some "json" := by decide +kernel
  have name : (Path.mk "a/n/c.json").fileName ≠ some "css-stringify.json" := by decide +kernel
  have stands : nestedDisk.StandsFor nestedInputs ((Path.mk "a").descend ["n", "c.json"]) :=
    .found (by decide) directory below (path ▸ extension) (path ▸ name)
  have again := added [] nestedInputs ⟨"a"⟩ _ rfl (by decide) directory below plain
  have found := complete _ stands
  have missing := complete ⟨"gone"⟩ (.given (by decide) (by decide +kernel))
  rw [path] at again found
  exact ⟨ascending, found, missing, again extension name, reordered _ fun p => List.mem_reverse⟩

/-- The walk comes upon the file whose name is no text, and no path with its byte is collected. -/
theorem collected_nestedDisk_omits :
    ⟨"a"⟩ ∈ nestedInputs ∧ nestedDisk.isDirectory ⟨"a"⟩ = true ∧
      RawPath.mk ("a/".toUTF8 ++ (⟨#[0xff]⟩ ++ ".json".toUTF8)) ∈ nestedDisk.filesBelow ⟨"a"⟩ ∧
      ∀ q ∈ nestedDisk.collected nestedInputs, 0xff ∉ q.raw.bytes.data := by
  have named : ∀ q ∈ nestedInputs.flatMap nestedDisk.expanded, 0xff ∉ q.raw.bytes.data := by
    decide +kernel
  refine ⟨by decide, by decide +kernel, List.mem_append_right _ ?_, fun q member => ?_⟩
  · have located : nestedDisk.locate ⟨"a"⟩ = .ok #["a"] := rfl
    have joined : "a/" = ((Path.mk "a").join ⟨""⟩).text := by decide +kernel
    unfold FileTree.straysBelow
    rw [located, joined]
    exact List.mem_map.mpr
      ⟨_, List.mem_filter.mpr ⟨List.mem_singleton_self _, by decide +kernel⟩, rfl⟩
  · rw [FileTree.collected_eq] at member
    exact named q (Path.mem_of_mem_sorted member)

end CssPrinter
