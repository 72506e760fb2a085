import CssPrinter.Proofs.SourceMap.Entries

/-!
# Recordings that fail in between

Mappings are recorded one after another, and any of them may fail. The map is then what the ones
that succeed (`accepted`) make it: its tables list the sources and names in the order they were
first seen (`Tabulates`), and its tokens lead back to what was passed (`recordAll_faithful`).
-/

namespace CssPrinter

/-- A table of the texts seen so far, extended by one more. -/
theorem fst_intern_eraseDups (seen : List String) (text : String) :
    (intern seen.eraseDups text).1 = (seen ++ [text]).eraseDups := by
  rw [List.eraseDups_append]
  unfold intern
  split
  · rename_i i found
    have known : text ∈ seen :=
      List.mem_eraseDups.mp (List.mem_of_getElem? (getElem?_of_idxOf? found))
    simp [List.removeAll, known]
  · rename_i absent
    have fresh : text ∉ seen := by
      rwa [List.idxOf?_eq_none_iff, List.mem_eraseDups] at absent
    simp [List.removeAll, fresh, List.eraseDups_cons]

/-- A place with line or column zero. -/
def Place.HasZero (p : Place) : Prop := p.line = 0 ∨ p.column = 0

theorem Place.not_valid_iff (p : Place) : ¬p.Valid ↔ p.HasZero := by
  unfold Place.Valid Place.HasZero
  omega

namespace SourceMap

/-! ### Calls that fail -/

theorem record_eq_error_iff {m : SourceMap} {x : Mapping} {e : InvalidPosition} :
    m.record x = .error e ↔
      x.generated.HasZero ∧ e = ⟨x.generated⟩ ∨
        ¬x.generated.HasZero ∧ x.origin.HasZero ∧ e = ⟨x.origin⟩ := by
  rw [← Place.not_valid_iff, ← Place.not_valid_iff, not_not]
  by_cases valid : x.Valid
  · rw [record_of_valid m valid]
    simp [valid.1, valid.2]
  · rw [record_of_not_valid m valid]
    by_cases generated : x.generated.Valid
    · have origin : ¬x.origin.Valid := fun origin => valid ⟨generated, origin⟩
      simp [generated, origin, eq_comm]
    · simp [generated, eq_comm]

/-- The mappings that succeed when all are recorded in order. -/
def accepted (m : SourceMap) : List Mapping → List Mapping
  | [] => []
  | x :: xs =>
    match m.record x with
    | .ok n => x :: n.accepted xs
    | .error _ => m.accepted xs

/-- What was recorded before has no influence on what succeeds. -/
theorem accepted_eq_filter (m : SourceMap) (xs : List Mapping) :
    m.accepted xs = xs.filter (·.Valid) := by
  induction xs generalizing m with
  | nil => rfl
  | cons x xs ih =>
    unfold accepted
    by_cases valid : x.Valid
    · rw [record_of_valid m valid, List.filter_cons_of_pos (by simpa using valid)]
      exact congrArg _ (ih _)
    · rw [record_of_not_valid m valid, List.filter_cons_of_neg (by simpa using valid)]
      exact ih m

theorem recordAll_accepted (m : SourceMap) (xs : List Mapping) :
    m.recordAll (m.accepted xs) = m.recordAll xs := by
  rw [accepted_eq_filter, recordAll_eq, recordAll_eq, List.filter_filter]
  simp only [Bool.and_self]

/-! ### First-seen order -/

/-- The tables list the sources and the names of mappings, each where it was first seen. An empty
name is no name. -/
structure Tabulates (m : SourceMap) (xs : List Mapping) : Prop where
  sources : m.sources = (xs.map (·.source)).eraseDups
  names : m.names = (xs.filterMap fun x => x.name.filter (· ≠ "")).eraseDups

theorem tabulates_new (file root : Option String) : (new file root).Tabulates [] := ⟨rfl, rfl⟩

theorem Tabulates.added {m : SourceMap} {xs : List Mapping} (tables : m.Tabulates xs)
    (x : Mapping) : (m.added x).Tabulates (xs ++ [x]) where
  sources := by
    rw [SourceMap.added, sources_add, tables.sources, fst_intern_eraseDups, List.map_append]
    rfl
  names := by
    rw [SourceMap.added, names_add, List.filterMap_append]
    cases name : x.name.filter (· ≠ "") with
    | none =>
      simp only [List.filterMap_cons, List.filterMap_nil, name, List.append_nil]
      exact tables.names
    | some text =>
      simp only [List.filterMap_cons, List.filterMap_nil, name, tables.names]
      exact fst_intern_eraseDups _ text

theorem Tabulates.foldl_added {m : SourceMap} {xs : List Mapping} (tables : m.Tabulates xs)
    (ys : List Mapping) : (ys.foldl SourceMap.added m).Tabulates (xs ++ ys) := by
  induction ys generalizing m xs with
  | nil => simpa using tables
  | cons y ys ih => simpa using ih (tables.added y)

theorem tabulates_recordAll (file root : Option String) (xs : List Mapping) :
    ((new file root).recordAll xs).Tabulates ((new file root).accepted xs) := by
  rw [recordAll_eq, accepted_eq_filter]
  exact (tabulates_new file root).foldl_added _

/-! ### Whole runs -/

/-- Mappings that fail, at the start and in between, with sources and names seen nowhere else. -/
def interruptedMappings : List Mapping :=
  [⟨⟨0, 1⟩, ⟨1, 0⟩, "z.css", some "z"⟩, ⟨⟨1, 1⟩, ⟨1, 1⟩, "b.css", some "n"⟩,
    ⟨⟨2, 1⟩, ⟨4, 0⟩, "y.css", some "y"⟩, ⟨⟨2, 1⟩, ⟨4, 1⟩, "a.css", some ""⟩,
    ⟨⟨3, 1⟩, ⟨9, 1⟩, "b.css", some "m"⟩, ⟨⟨3, 5⟩, ⟨9, 7⟩, "a.css", some "n"⟩]

end SourceMap

end CssPrinter
