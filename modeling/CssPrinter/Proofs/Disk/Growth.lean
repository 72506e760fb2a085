import CssPrinter.Disk.FileTree
import Mathlib.Tactic.SplitIfs

/-!
# Disks that grow

Making directories and writing files never takes away a directory, and nothing that is there
disappears. On a disk that has grown every path leads where it led before (`Grows.locate`). What a
write can do, whether it fails or not, is said once (`Wrote`). Of the files of a directory it
changes only the one of its name (`readText_of_writeText_ne`).
-/

namespace CssPrinter

theorem bind_eq_ok_iff {ε α β : Type} {x : Except ε α} {f : α → Except ε β} {b : β} :
    x >>= f = .ok b ↔ ∃ a, x = .ok a ∧ f a = .ok b := by
  cases x <;> simp [bind, Except.bind]

/-! ### Names in a directory -/

/-- A text that is one name, and not a way back or a path of several. -/
structure PlainName (n : String) : Prop where
  single : '/' ∉ n.toList
  filled : n ≠ ""
  notHere : n ≠ "."
  notUp : n ≠ ".."

namespace PlainName

variable {n : String} (plain : PlainName n)

include plain

theorem ofPart : Component.ofPart n.toList = some (.name n) := by
  have filled : n.toList ≠ [] := fun empty => plain.filled (String.toList_eq_nil_iff.mp empty)
  have notHere : n.toList ≠ ['.'] := fun same => plain.notHere (String.toList_inj.mp same)
  have notUp : n.toList ≠ ['.', '.'] := fun same => plain.notUp (String.toList_inj.mp same)
  rw [Component.ofPart, if_neg filled, if_neg notHere, if_neg notUp, String.ofList_toList]

theorem relative : (Path.mk n).isAbsolute = false := by
  refine decide_eq_false fun absolute => plain.single ?_
  exact List.mem_of_head? absolute

end PlainName

theorem plainName_append {front ending : String} (first : '/' ∉ front.toList)
    (second : '/' ∉ ending.toList) (long : 2 < ending.length) : PlainName (front ++ ending) := by
  have longer : 2 < (front ++ ending).length := by
    rw [String.length_append]
    omega
  refine ⟨?_, ?_, ?_, ?_⟩
  · rw [String.toList_append, List.mem_append, not_or]
    exact ⟨first, second⟩
  all_goals
    intro same
    rw [same] at longer
    exact absurd longer (by decide)

namespace Path

theorem endsInSlash_iff {dir : Path} :
    dir.endsInSlash = true ↔ ∃ front, dir.text.toList = front ++ ['/'] := by
  rw [endsInSlash, decide_eq_true_iff, List.getLast?_eq_some_iff]

theorem filterMap_ofPart_name (front : List Char) {n : String} (plain : PlainName n) :
    (splitAt '/' (front ++ '/' :: n.toList)).filterMap Component.ofPart =
      (splitAt '/' front).filterMap Component.ofPart ++ [.name n] := by
  rw [splitAt_append, splitAt_of_not_mem plain.single, List.filterMap_append]
  simp [plain.ofPart]

theorem steps_join (dir : Path) {n : String} (plain : PlainName n) :
    (dir.join ⟨n⟩).steps = dir.steps ++ [.name n] := by
  rw [join, if_neg (by simp [plain.relative])]
  by_cases empty : dir.text = ""
  · have nothing : dir.steps = [] := by
      simp [steps, parts, isAbsolute, empty, splitAt, Component.ofPart]
    rw [if_pos (Or.inl empty), empty, String.empty_append, nothing]
    simp [steps, parts, plain.relative, splitAt_of_not_mem plain.single, plain.ofPart]
  · have filled : dir.text.toList ≠ [] := fun nil => empty (String.toList_eq_nil_iff.mp nil)
    have start (rest : String) : (Path.mk (dir.text ++ rest)).isAbsolute = dir.isAbsolute := by
      obtain ⟨c, more, text⟩ := List.exists_cons_of_ne_nil filled
      rw [isAbsolute, isAbsolute, String.toList_append, text]
      rfl
    by_cases slash : dir.endsInSlash = true
    · obtain ⟨front, text⟩ := endsInSlash_iff.mp slash
      have named := filterMap_ofPart_name front plain
      have bare : (splitAt '/' (front ++ ['/'])).filterMap Component.ofPart =
          (splitAt '/' front).filterMap Component.ofPart := by
        rw [splitAt_append]
        simp [splitAt, Component.ofPart]
      rw [if_pos (Or.inr slash), steps, steps, start, parts, parts, String.toList_append, text,
        bare, List.append_assoc, List.singleton_append, named, List.append_assoc]
    · have named := filterMap_ofPart_name dir.text.toList plain
      have separated : (dir.text ++ "/" ++ n).toList = dir.text.toList ++ '/' :: n.toList := by simp
      rw [if_neg (by simp [empty, slash]), steps, steps, String.append_assoc, start, parts, parts,
        ← String.append_assoc, separated, named, List.append_assoc]

theorem components_join (dir : Path) {n : String} (plain : PlainName n) :
    (dir.join ⟨n⟩).components = dir.components ++ [.name n] := by
  unfold components
  rw [steps_join dir plain]
  cases dir.steps with
  | nil => rfl
  | cons first rest => simp

theorem fileName_join (dir : Path) {n : String} (plain : PlainName n) :
    (dir.join ⟨n⟩).fileName = some n := by
  rw [fileName, components_join dir plain, List.getLast?_concat]
  rfl

theorem endsInSlash_join (dir : Path) {n : String} (plain : PlainName n) :
    (dir.join ⟨n⟩).endsInSlash = false := by
  have filled : n.toList ≠ [] := fun empty => plain.filled (String.toList_eq_nil_iff.mp empty)
  have last (front : String) : (Path.mk (front ++ n)).endsInSlash = false := by
    refine decide_eq_false fun slash => plain.single ?_
    rw [String.toList_append, List.getLast?_append, List.getLast?_eq_some_getLast filled] at slash
    rw [← Option.some.inj slash]
    exact List.getLast_mem filled
  rw [join, if_neg (by simp [plain.relative])]
  split
  · exact last dir.text
  · exact last (dir.text ++ "/")

theorem not_mem_of_name_mem_steps {p : Path} {n : String} (member : .name n ∈ p.steps) :
    '/' ∉ n.toList := by
  rcases List.mem_append.mp member with root | member
  · split at root
    · cases List.mem_singleton.mp root
    · cases root
  · obtain ⟨part, among, meant⟩ := List.mem_filterMap.mp member
    have single := not_mem_of_mem_splitAt among
    unfold Component.ofPart at meant
    split_ifs at meant <;> cases meant
    simpa using single

theorem mem_steps_of_mem_components {p : Path} {c : Component} (member : c ∈ p.components) :
    c ∈ p.steps := by
  unfold components at member
  split at member
  · cases member
  · rename_i first rest steps
    rw [steps]
    rcases List.mem_cons.mp member with rfl | member
    · exact List.mem_cons_self
    · exact List.mem_cons_of_mem _ (List.mem_filter.mp member).1

theorem not_mem_fileName {p : Path} {n : String} (h : p.fileName = some n) : '/' ∉ n.toList := by
  obtain ⟨c, last, named⟩ := Option.bind_eq_some_iff.mp h
  have member := mem_steps_of_mem_components (List.mem_of_getLast? last)
  cases c with
  | name m =>
    obtain rfl := Option.some.inj named
    exact not_mem_of_name_mem_steps member
  | root | here | up => cases named

theorem not_mem_stem {p : Path} {s : String} (h : p.stem = some s) : '/' ∉ s.toList := by
  obtain ⟨name, named, rfl⟩ := Option.map_eq_some_iff.mp h
  have single := not_mem_fileName named
  unfold splitName
  cases cut : cutAt '.' name.toList.reverse with
  | mk extension rest =>
    cases rest with
    | none => exact single
    | some stem =>
      dsimp only
      split
      · exact single
      · intro member
        refine single (List.mem_reverse.mp ?_)
        exact mem_of_mem_cutAt_snd (by rw [cut]) (by simpa using member)

end Path

namespace FileTree

/-! ### Storing an entry -/

theorem lookup_filter_ne {entries : List (Names × Entry)} {names x : Names} (other : x ≠ names) :
    (entries.filter (·.1 ≠ names)).lookup x = entries.lookup x := by
  induction entries with
  | nil => rfl
  | cons entry entries ih =>
    by_cases same : entry.1 = names
    · have skipped : (x == entry.1) = false := by simpa [same] using other
      rw [List.filter_cons_of_neg (by simpa using same), ih, List.lookup_cons, skipped]
    · rw [List.filter_cons_of_pos (by simpa using same), List.lookup_cons, List.lookup_cons, ih]

theorem entry?_insert (t : FileTree) {names : Names} (below : names ≠ #[]) (e : Entry) (x : Names) :
    FileTree.entry? (t.insert names e) x = if x = names then some e else t.entry? x := by
  unfold entry? insert
  by_cases same : x = names
  · rw [if_pos same, same, if_neg below, List.lookup_cons_self]
  · have skipped : (x == names) = false := by simpa using same
    rw [if_neg same, List.lookup_cons, skipped, lookup_filter_ne same]

theorem entry?_root (t : FileTree) : t.entry? #[] = some .directory := rfl

theorem entry?_passed (t : FileTree) (names : Names) :
    FileTree.entry? t.passed names = t.entry? names := rfl

theorem asDirectory_eq_ok_iff {t : FileTree} {names x : Names} :
    t.asDirectory names = .ok x ↔ x = names ∧ t.entry? names = some .directory := by
  unfold asDirectory
  cases t.entry? names with
  | none => simp
  | some e => cases e <;> simp [eq_comm]

/-! ### Growing -/

/-- All that is on the first disk is on the second, and unchanged. The faults that are still to come
were to come before. -/
structure Extends (t u : FileTree) : Prop where
  here : u.here = t.here
  faults : u.faults <:+ t.faults
  kept : ∀ names e, t.entry? names = some e → u.entry? names = some e

/-- The directories of the first disk are on the second, and so are its files, whatever they
hold. -/
structure Grows (t u : FileTree) : Prop where
  here : u.here = t.here
  faults : u.faults <:+ t.faults
  directory : ∀ names, t.entry? names = some .directory → u.entry? names = some .directory
  present : ∀ names, (t.entry? names).isSome → (u.entry? names).isSome

namespace Extends

theorem refl (t : FileTree) : Extends t t := ⟨rfl, List.suffix_rfl, fun _ _ found => found⟩

theorem trans {t u v : FileTree} (first : Extends t u) (second : Extends u v) : Extends t v :=
  ⟨second.here.trans first.here, second.faults.trans first.faults,
    fun names e found => second.kept names e (first.kept names e found)⟩

theorem grows {t u : FileTree} (h : Extends t u) : Grows t u where
  here := h.here
  faults := h.faults
  directory names found := h.kept names _ found
  present names found := by
    obtain ⟨e, found⟩ := Option.isSome_iff_exists.mp found
    rw [h.kept names e found]
    rfl

end Extends

theorem extends_passed (t : FileTree) : Extends t t.passed :=
  ⟨rfl, t.faults.tail_suffix, fun _ _ found => found⟩

theorem extends_insert {t : FileTree} {names : Names} (free : t.entry? names = none) (e : Entry) :
    Extends t (t.insert names e) := by
  have below : names ≠ #[] := by
    rintro rfl
    cases free
  refine ⟨rfl, List.suffix_rfl, fun x f found => ?_⟩
  rw [entry?_insert t below, if_neg]
  · exact found
  · rintro rfl
    rw [free] at found
    cases found

theorem grows_insert_file {t : FileTree} {names : Names}
    (free : t.entry? names ≠ some .directory) (text : Option String) :
    Grows t (t.insert names (.file text)) := by
  have below : names ≠ #[] := by
    rintro rfl
    exact free t.entry?_root
  refine ⟨rfl, List.suffix_rfl, fun x found => ?_, fun x found => ?_⟩
  · rw [entry?_insert t below, if_neg]
    · exact found
    · rintro rfl
      exact free found
  · rw [entry?_insert t below]
    split
    · rfl
    · exact found

namespace Grows

theorem refl (t : FileTree) : Grows t t := (Extends.refl t).grows

theorem trans {t u v : FileTree} (first : Grows t u) (second : Grows u v) : Grows t v :=
  ⟨second.here.trans first.here, second.faults.trans first.faults,
    fun names found => second.directory names (first.directory names found),
    fun names found => second.present names (first.present names found)⟩

variable {t u : FileTree} (grows : Grows t u)

include grows

theorem asDirectory {names x : Names} (h : t.asDirectory names = .ok x) :
    u.asDirectory names = .ok x := by
  obtain ⟨rfl, found⟩ := asDirectory_eq_ok_iff.mp h
  exact asDirectory_eq_ok_iff.mpr ⟨rfl, grows.directory _ found⟩

theorem step {names place : Names} {c : Component} (h : t.step names c = .ok place) :
    u.step names c = .ok place := by
  cases c with
  | root => exact h
  | here => exact grows.asDirectory h
  | up =>
    simp only [FileTree.step] at h ⊢
    cases found : t.asDirectory names with
    | error e => rw [found] at h; cases h
    | ok x =>
      rw [found] at h
      rw [grows.asDirectory found]
      exact h
  | name n =>
    obtain ⟨x, found, rest⟩ := bind_eq_ok_iff.mp h
    exact bind_eq_ok_iff.mpr ⟨x, grows.asDirectory found, rest⟩

theorem follow {steps : List Component} {place : Names} (h : t.follow steps = .ok place) :
    u.follow steps = .ok place := by
  unfold FileTree.follow at h ⊢
  rw [grows.here]
  generalize t.here = start at h ⊢
  induction steps generalizing start with
  | nil => exact h
  | cons c steps ih =>
    rw [List.foldlM_cons] at h ⊢
    obtain ⟨next, taken, rest⟩ := bind_eq_ok_iff.mp h
    exact bind_eq_ok_iff.mpr ⟨next, grows.step taken, ih next rest⟩

theorem locate {p : Path} {names : Names} (h : t.locate p = .ok names) :
    u.locate p = .ok names := by
  obtain ⟨passed, checked, h⟩ := bind_eq_ok_iff.mp h
  obtain ⟨place, followed, h⟩ := bind_eq_ok_iff.mp h
  refine bind_eq_ok_iff.mpr ⟨passed, checked, bind_eq_ok_iff.mpr ⟨place, grows.follow followed, ?_⟩⟩
  split at h
  · rw [if_pos ‹_›]
    exact grows.asDirectory h
  · rw [if_neg ‹_›]
    exact h

end Grows

/-! ### Making directories -/

theorem extends_makeThrough (cs : List Component) (t : FileTree) (names : Names) :
    Extends t (makeThrough cs t names).2 := by
  fun_induction makeThrough cs t names with
  | case1 t names => exact .refl t
  | case2 c rest t names e failed => exact .refl t
  | case3 c rest t names place taken e found ih => exact ih
  | case4 c rest t names place taken free fault failed => exact t.extends_passed
  | case5 c rest t names place taken free fine ih =>
    have free : FileTree.entry? t.passed place = none := free
    exact (t.extends_passed.trans (extends_insert free .directory)).trans ih

theorem extends_of_createDirectories {t u : FileTree} {p : Path} {r : Except DiskError Unit}
    (h : t.createDirectories p = (r, u)) : Extends t u := by
  have extended := extends_makeThrough (madeComponents p) t t.here
  unfold createDirectories at h
  split at h
  · obtain ⟨-, rfl⟩ := Prod.mk.inj h
    exact .refl t
  · split at h
    · obtain ⟨-, rfl⟩ := Prod.mk.inj h
      exact .refl t
    · split at h
      all_goals
        rename_i made
        rw [made] at extended
        obtain ⟨-, rfl⟩ := Prod.mk.inj h
        exact extended

/-! ### Reading and writing files -/

theorem readText_eq_ok_iff {t : FileTree} {p : Path} {text : String} :
    t.readText p = .ok text ↔
      ∃ names, t.locate p = .ok names ∧ t.entry? names = some (.file (some text)) := by
  unfold readText lookup
  cases located : t.locate p with
  | error e => simp [bind, Except.bind]
  | ok names =>
    cases found : t.entry? names with
    | none => simp [bind, Except.bind, found]
    | some e =>
      cases e with
      | directory => simp [bind, Except.bind, found]
      | file content => cases content <;> simp [bind, Except.bind, found]

/-- What a write leads to. It may find no place, and then nothing changes. Otherwise it stores the
text, it is refused, or it breaks off and leaves a beginning of the text. -/
inductive Wrote (t : FileTree) (p : Path) (text : String) :
    Except DiskError Unit → FileTree → Prop
  | noPlace (e : DiskError)
      (taken : ∀ names, t.locate p = .ok names → t.entry? names.pop = some .directory →
        t.entry? names = some .directory) :
      Wrote t p text (.error e) t
  | refused {cause : DiskError} (fault : t.fault? = some (.refused cause)) :
      Wrote t p text (.error cause) t.passed
  | brokenOff {names : Names} {bytes : Nat} {cause : DiskError} (located : t.locate p = .ok names)
      (free : t.entry? names ≠ some .directory)
      (fault : t.fault? = some (.brokenOff bytes cause)) :
      Wrote t p text (.error cause) (t.passed.insert names (.file (beginning text bytes)))
  | stored {names : Names} (located : t.locate p = .ok names)
      (free : t.entry? names ≠ some .directory) (fault : t.fault? = none) :
      Wrote t p text (.ok ()) (t.passed.insert names (.file (some text)))

theorem wrote_of_writeText {t u : FileTree} {p : Path} {text : String} {r : Except DiskError Unit}
    (h : t.writeText p text = (r, u)) : Wrote t p text r u := by
  unfold writeText at h
  cases located : t.locate p with
  | error e =>
    rw [located] at h
    obtain ⟨rfl, rfl⟩ := Prod.mk.inj h
    exact .noPlace e fun names leads => by cases located.symm.trans leads
  | ok names =>
    have here {place : Names} (leads : t.locate p = .ok place) : place = names :=
      Except.ok.inj (leads.symm.trans located)
    rw [located] at h
    dsimp only at h
    split at h
    · rename_i directory
      obtain ⟨rfl, rfl⟩ := Prod.mk.inj h
      refine .noPlace _ fun place leads _ => ?_
      rw [here leads, directory]
    · rename_i free
      split at h
      · rename_i e outside
        obtain ⟨rfl, rfl⟩ := Prod.mk.inj h
        refine .noPlace e fun place leads directory => ?_
        rw [here leads] at directory
        cases outside.symm.trans (asDirectory_eq_ok_iff.mpr ⟨rfl, directory⟩)
      · split at h
        · obtain ⟨rfl, rfl⟩ := Prod.mk.inj h
          exact .stored located free ‹_›
        · obtain ⟨rfl, rfl⟩ := Prod.mk.inj h
          exact .refused ‹_›
        · obtain ⟨rfl, rfl⟩ := Prod.mk.inj h
          exact .brokenOff located free ‹_›

/-- What is stored where a path leads is found there, and all else is as before. -/
theorem entry?_passed_insert {t : FileTree} {names : Names}
    (free : t.entry? names ≠ some .directory) (e : Entry) (x : Names) :
    FileTree.entry? (t.passed.insert names e) x = if x = names then some e else t.entry? x := by
  have below : names ≠ #[] := by
    rintro rfl
    exact free t.entry?_root
  rw [entry?_insert t.passed below, entry?_passed]

theorem grows_passed_insert {t : FileTree} {names : Names}
    (free : t.entry? names ≠ some .directory) (content : Option String) :
    Grows t (t.passed.insert names (.file content)) :=
  t.extends_passed.grows.trans (grows_insert_file (t.entry?_passed names ▸ free) content)

theorem Wrote.grows {t u : FileTree} {p : Path} {text : String} {r : Except DiskError Unit}
    (h : Wrote t p text r u) : Grows t u := by
  cases h with
  | noPlace e taken => exact .refl t
  | refused fault => exact t.extends_passed.grows
  | brokenOff located free fault => exact grows_passed_insert free _
  | stored located free fault => exact grows_passed_insert free _

theorem grows_of_writeText {t u : FileTree} {p : Path} {text : String} {r : Except DiskError Unit}
    (h : t.writeText p text = (r, u)) : Grows t u :=
  (wrote_of_writeText h).grows

theorem readText_of_writeText {t u : FileTree} {p : Path} {text : String}
    (h : t.writeText p text = (.ok (), u)) : u.readText p = .ok text := by
  have grows := grows_of_writeText h
  cases wrote_of_writeText h with
  | stored located free fault =>
    refine readText_eq_ok_iff.mpr ⟨_, grows.locate located, ?_⟩
    rw [entry?_passed_insert free, if_pos rfl]

theorem Extends.readText {t u : FileTree} (h : Extends t u) {p : Path} {text : String}
    (read : t.readText p = .ok text) : u.readText p = .ok text := by
  obtain ⟨names, located, found⟩ := readText_eq_ok_iff.mp read
  exact readText_eq_ok_iff.mpr ⟨names, h.grows.locate located, h.kept names _ found⟩

/-! ### Files that change -/

/-- A place has the same file on both disks, or a file on neither. -/
def SameFile (t u : FileTree) (names : Names) : Prop :=
  ∀ content, u.entry? names = some (.file content) ↔ t.entry? names = some (.file content)

section

variable {t u v : FileTree} {names : Names}

theorem SameFile.refl (t : FileTree) (names : Names) : SameFile t t names := fun _ => Iff.rfl

theorem SameFile.trans (first : SameFile t v names) (second : SameFile v u names) :
    SameFile t u names :=
  fun content => (second content).trans (first content)

/-- Making directories leaves the files as they are. -/
theorem file_of_makeThrough {cs : List Component} {place : Names} {content : Option String}
    (found : FileTree.entry? (makeThrough cs t place).2 names = some (.file content)) :
    t.entry? names = some (.file content) := by
  fun_induction makeThrough cs t place with
  | case1 t place => exact found
  | case2 c rest t place e failed => exact found
  | case3 c rest t place next taken e present ih => exact ih found
  | case4 c rest t place next taken free fault failed => exact found
  | case5 c rest t place next taken free fine ih =>
    have kept := ih found
    rw [entry?_passed_insert (by rw [free]; exact nofun)] at kept
    split at kept
    · cases kept
    · exact kept

theorem sameFile_of_createDirectories {p : Path} {r : Except DiskError Unit}
    (h : t.createDirectories p = (r, u)) (names : Names) : SameFile t u names := by
  intro content
  refine ⟨fun found => ?_, (extends_of_createDirectories h).kept names _⟩
  unfold createDirectories at h
  split at h
  · obtain ⟨-, rfl⟩ := Prod.mk.inj h
    exact found
  · split at h
    · obtain ⟨-, rfl⟩ := Prod.mk.inj h
      exact found
    · split at h
      all_goals
        rename_i made
        obtain ⟨-, rfl⟩ := Prod.mk.inj h
        have through : FileTree.entry? (makeThrough (madeComponents p) t t.here).2 names =
            some (.file content) := by rw [made]; exact found
        exact file_of_makeThrough through

/-- A write changes the file that its path leads to and no other. -/
theorem sameFile_of_writeText {p : Path} {text : String} {r : Except DiskError Unit}
    (h : t.writeText p text = (r, u)) (elsewhere : u.locate p ≠ .ok names) :
    SameFile t u names := by
  have grows := grows_of_writeText h
  have stored {place : Names} {content : Option String} (located : t.locate p = .ok place)
      (free : t.entry? place ≠ some .directory)
      (result : u = t.passed.insert place (.file content)) : SameFile t u names := by
    have other : names ≠ place := by
      rintro rfl
      exact elsewhere (grows.locate located)
    intro content
    rw [result, entry?_passed_insert free, if_neg other]
  cases wrote_of_writeText h with
  | noPlace e taken => exact .refl t names
  | refused fault => exact .refl t names
  | brokenOff located free fault => exact stored located free rfl
  | stored located free fault => exact stored located free rfl

end

/-! ### Files of one directory -/

section

variable {t u : FileTree} {dir : Path} {n : String}

theorem locate_join_iff (plain : PlainName n) {place : Names} :
    t.locate (dir.join ⟨n⟩) = .ok place ↔
      checkPath (dir.join ⟨n⟩) = .ok () ∧ n.utf8ByteSize ≤ maxNameBytes ∧
        ∃ parent, place = parent.push n ∧ t.entry? parent = some .directory ∧
          t.follow dir.steps = .ok parent := by
  have steps : t.follow (dir.join ⟨n⟩).steps = t.follow dir.steps >>= (t.step · (.name n)) := by
    rw [Path.steps_join dir plain, follow, List.foldlM_append, follow]
    simp only [List.foldlM_cons, List.foldlM_nil, bind_pure]
  unfold locate
  rw [Path.endsInSlash_join dir plain, steps]
  constructor
  · intro h
    obtain ⟨passed, checked, h⟩ := bind_eq_ok_iff.mp h
    obtain ⟨last, followed, ended⟩ := bind_eq_ok_iff.mp h
    obtain ⟨parent, first, taken⟩ := bind_eq_ok_iff.mp followed
    obtain ⟨same, directory, named⟩ := bind_eq_ok_iff.mp taken
    obtain ⟨rfl, found⟩ := asDirectory_eq_ok_iff.mp directory
    obtain rfl := Except.ok.inj ended
    split at named
    · cases named
    · rename_i short
      exact ⟨checked, Nat.le_of_not_lt short, same, (Except.ok.inj named).symm, found, first⟩
  · rintro ⟨checked, short, parent, rfl, found, followed⟩
    have taken : t.step parent (.name n) = .ok (parent.push n) := by
      refine bind_eq_ok_iff.mpr ⟨parent, asDirectory_eq_ok_iff.mpr ⟨rfl, found⟩, ?_⟩
      rw [if_neg (Nat.not_lt_of_le short)]
    exact bind_eq_ok_iff.mpr ⟨(), checked,
      bind_eq_ok_iff.mpr ⟨_, bind_eq_ok_iff.mpr ⟨parent, followed, taken⟩, rfl⟩⟩

theorem locate_join (plain : PlainName n) {place : Names}
    (h : t.locate (dir.join ⟨n⟩) = .ok place) :
    ∃ parent, place = parent.push n ∧ t.entry? parent = some .directory ∧
      t.follow dir.steps = .ok parent :=
  ((locate_join_iff plain).mp h).2.2

/-- Once one path into a directory leads somewhere, growing opens no other. -/
theorem Grows.locate_join_of {m : String} {place other : Names} (grows : Grows t u)
    (plain : PlainName n) (plain' : PlainName m) (known : t.locate (dir.join ⟨m⟩) = .ok other)
    (h : u.locate (dir.join ⟨n⟩) = .ok place) : t.locate (dir.join ⟨n⟩) = .ok place := by
  obtain ⟨checked, short, parent, rfl, -, followed⟩ := (locate_join_iff plain).mp h
  obtain ⟨before, -, directory, followed'⟩ := locate_join plain' known
  obtain rfl := Except.ok.inj ((grows.follow followed').symm.trans followed)
  exact (locate_join_iff plain).mpr ⟨checked, short, before, rfl, directory, followed'⟩

theorem readText_of_writeText_ne {m : String} {text old : String} {r : Except DiskError Unit}
    (plain : PlainName n) (plain' : PlainName m) (other : m ≠ n)
    (h : t.writeText (dir.join ⟨n⟩) text = (r, u)) (read : t.readText (dir.join ⟨m⟩) = .ok old) :
    u.readText (dir.join ⟨m⟩) = .ok old := by
  have grows := grows_of_writeText h
  obtain ⟨place, located, found⟩ := readText_eq_ok_iff.mp read
  have led := grows.locate located
  refine readText_eq_ok_iff.mpr ⟨place, led, (sameFile_of_writeText h ?_ _).mpr found⟩
  intro here
  obtain ⟨parent, rfl, -⟩ := locate_join plain' led
  obtain ⟨parent', same, -⟩ := locate_join plain here
  exact other (Array.push_eq_push.mp same).1

end

end FileTree

end CssPrinter
