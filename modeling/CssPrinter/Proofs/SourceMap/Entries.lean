import CssPrinter.SourceMap.Basic
import Mathlib.Data.List.Forall2

/-!
# What a source map says

A token names its source and its name by number. An `MapEntry` is a token with the texts themselves,
and a map says a list of entries if all its numbers are in range. Recording a mapping adds one entry
behind the others, whatever has been recorded before, and a mapping that fails adds none
(`entries_recordAll`).
-/

namespace CssPrinter

/-- A token with the texts that it refers to. -/
structure MapEntry where
  line : Nat
  column : Nat
  sourceLine : Nat
  sourceColumn : Nat
  source : String
  name : Option String
deriving DecidableEq

namespace Place

/-- A place that has a counterpart counted from zero. -/
def Valid (p : Place) : Prop := p.line ≠ 0 ∧ p.column ≠ 0

instance (p : Place) : Decidable p.Valid := inferInstanceAs (Decidable (_ ∧ _))

theorem zeroBased_of_valid {p : Place} (valid : p.Valid) :
    p.zeroBased = .ok (p.line - 1, p.column - 1) :=
  if_neg (not_or.mpr valid)

theorem zeroBased_of_not_valid {p : Place} (invalid : ¬p.Valid) : p.zeroBased = .error ⟨p⟩ := by
  refine if_pos ?_
  by_cases line : p.line = 0
  · exact Or.inl line
  · by_cases column : p.column = 0
    · exact Or.inr column
    · exact absurd ⟨line, column⟩ invalid

end Place

namespace Mapping

def Valid (x : Mapping) : Prop := x.generated.Valid ∧ x.origin.Valid

instance (x : Mapping) : Decidable x.Valid := inferInstanceAs (Decidable (_ ∧ _))

def entry (x : Mapping) : MapEntry where
  line := x.generated.line - 1
  column := x.generated.column - 1
  sourceLine := x.origin.line - 1
  sourceColumn := x.origin.column - 1
  source := x.source
  name := x.name.filter (· ≠ "")

end Mapping

/-! ### Interning -/

theorem getElem?_of_idxOf? {texts : List String} {text : String} {i : Nat}
    (found : texts.idxOf? text = some i) : texts[i]? = some text := by
  induction texts generalizing i with
  | nil => cases found
  | cons t texts ih =>
    rw [List.idxOf?_cons] at found
    by_cases same : t = text
    · subst same
      simp only [beq_self_eq_true, if_true, Option.some.injEq] at found
      subst found
      rfl
    · simp only [beq_iff_eq, same, if_false, Option.map_eq_some_iff] at found
      obtain ⟨j, found, rfl⟩ := found
      exact ih found

theorem getElem?_intern (texts : List String) (text : String) :
    (intern texts text).1[(intern texts text).2]? = some text := by
  unfold intern
  split
  · rename_i i found
    exact getElem?_of_idxOf? found
  · simp

/-- Numbers given out before stay what they were. -/
theorem getElem?_intern_of_some {texts : List String} {i : Nat} {t : String} (text : String)
    (known : texts[i]? = some t) : (intern texts text).1[i]? = some t := by
  unfold intern
  split
  · exact known
  · have inside : i < texts.length := (List.getElem?_eq_some_iff.mp known).1
    rw [List.getElem?_append_left inside]
    exact known

theorem nodup_intern {texts : List String} (text : String) (unique : texts.Nodup) :
    (intern texts text).1.Nodup := by
  unfold intern
  split
  · exact unique
  · rename_i absent
    rw [List.idxOf?_eq_none_iff] at absent
    rw [List.nodup_append]
    refine ⟨unique, by simp, ?_⟩
    intro a member b single same
    obtain rfl := List.mem_singleton.mp single
    subst same
    exact absent member

namespace SourceMap

/-- The name with a number. A token may have none. -/
def nameAt (m : SourceMap) : Option Nat → Option (Option String)
  | none => some none
  | some i => m.names[i]?.map some

/-- The entry of a token, unless a number is out of range. -/
def entryOf (m : SourceMap) (t : MapToken) : Option MapEntry := do
  let source ← m.sources[t.source]?
  let name ← m.nameAt t.name
  return {
    line := t.line, column := t.column,
    sourceLine := t.sourceLine, sourceColumn := t.sourceColumn, source, name }

/-- The entries of all tokens in recorded order. -/
def entries (m : SourceMap) : Option (List MapEntry) :=
  m.tokens.toList.mapM m.entryOf

theorem entries_eq_some_iff {m : SourceMap} {es : List MapEntry} :
    m.entries = some es ↔ List.Forall₂ (fun t e => m.entryOf t = some e) m.tokens.toList es := by
  rw [entries]
  generalize m.tokens.toList = ts
  induction ts generalizing es with
  | nil => cases es <;> simp
  | cons t ts ih =>
    simp only [List.mapM_cons, Option.bind_eq_bind, Option.bind_eq_some_iff, Option.pure_def,
      Option.some.injEq, ih]
    constructor
    · rintro ⟨e, first, rest, others, rfl⟩
      exact .cons first others
    · intro related
      cases related with
      | cons first others => exact ⟨_, first, _, others, rfl⟩

theorem exists_token {m : SourceMap} {es : List MapEntry} {k : Nat} {e : MapEntry}
    (said : m.entries = some es) (found : es[k]? = some e) :
    ∃ t, m.tokens[k]? = some t ∧ m.entryOf t = some e := by
  have tokens := entries_eq_some_iff.mp said
  obtain ⟨inside, rfl⟩ := List.getElem?_eq_some_iff.mp found
  have inside' : k < m.tokens.toList.length := by rw [tokens.length_eq]; exact inside
  refine ⟨m.tokens.toList.get ⟨k, inside'⟩, ?_, tokens.get inside' inside⟩
  rw [← Array.getElem?_toList]
  exact List.getElem?_eq_getElem inside'

theorem entryOf_eq_some_iff {m : SourceMap} {t : MapToken} {e : MapEntry} :
    m.entryOf t = some e ↔
      m.sources[t.source]? = some e.source ∧ m.nameAt t.name = some e.name ∧
        t.line = e.line ∧ t.column = e.column ∧ t.sourceLine = e.sourceLine ∧
        t.sourceColumn = e.sourceColumn := by
  simp only [entryOf, Option.bind_eq_bind, Option.bind_eq_some_iff, Option.pure_def,
    Option.some.injEq]
  constructor
  · rintro ⟨source, found, name, named, rfl⟩
    exact ⟨found, named, rfl, rfl, rfl, rfl⟩
  · rintro ⟨found, named, line, column, sourceLine, sourceColumn⟩
    exact ⟨_, found, _, named, by rw [line, column, sourceLine, sourceColumn]⟩

/-- Tokens stand where their entries do. -/
theorem map_place_of_forall₂ {m : SourceMap} {ts : List MapToken} {es : List MapEntry}
    (related : List.Forall₂ (fun t e => m.entryOf t = some e) ts es) :
    ts.map (fun t => (t.line, t.column)) = es.map fun e => (e.line, e.column) := by
  induction related with
  | nil => rfl
  | cons first _ ih =>
    obtain ⟨-, -, line, column, -, -⟩ := entryOf_eq_some_iff.mp first
    rw [List.map_cons, List.map_cons, ih, line, column]

/-! ### Resolved sources -/

/-- A token as a reader of the map is shown it, with its source under the source root. -/
def shown (m : SourceMap) (t : MapToken) : MapEntry where
  line := t.line
  column := t.column
  sourceLine := t.sourceLine
  sourceColumn := t.sourceColumn
  source := m.sourceOf t
  name := m.nameOf t

theorem shown_of_entryOf {m : SourceMap} {t : MapToken} {e : MapEntry}
    (h : m.entryOf t = some e) : m.shown t = { e with source := m.resolve e.source } := by
  obtain ⟨source, name, line, column, sourceLine, sourceColumn⟩ := entryOf_eq_some_iff.mp h
  have named : m.nameOf t = e.name := by
    unfold nameOf
    cases number : t.name with
    | none =>
      rw [number] at name
      exact Option.some.inj name
    | some i =>
      rw [number] at name
      obtain ⟨text, found, same⟩ := Option.map_eq_some_iff.mp name
      rw [← same]
      simp [List.getD_eq_getElem?_getD, found]
  simp [shown, sourceOf, List.getD_eq_getElem?_getD, source, named, line, column, sourceLine,
    sourceColumn]

/-- All tokens in recorded order. -/
def shownTokens (m : SourceMap) : List MapEntry := m.tokens.toList.map m.shown

theorem shownTokens_of_entries {m : SourceMap} {es : List MapEntry} (said : m.entries = some es) :
    m.shownTokens = es.map fun e => { e with source := m.resolve e.source } := by
  rw [entries_eq_some_iff] at said
  unfold shownTokens
  generalize m.tokens.toList = ts at said
  induction said with
  | nil => rfl
  | cons first _ ih => rw [List.map_cons, List.map_cons, ih, shown_of_entryOf first]

/-! ### Adding a token -/

section Add

variable (m : SourceMap) (generated origin : Nat × Nat) (source : String) (name : Option String)

theorem sources_add : (m.add generated origin source name).sources = (intern m.sources source).1 :=
  rfl

theorem names_add : (m.add generated origin source name).names =
    match name with
    | none => m.names
    | some text => (intern m.names text).1 := by
  cases name <;> rfl

def newToken : MapToken where
  line := generated.1
  column := generated.2
  sourceLine := origin.1
  sourceColumn := origin.2
  source := (intern m.sources source).2
  name := name.map fun text => (intern m.names text).2

theorem tokens_add : (m.add generated origin source name).tokens =
    m.tokens.push (m.newToken generated origin source name) := by
  cases name <;> rfl

theorem entryOf_newToken :
    (m.add generated origin source name).entryOf (m.newToken generated origin source name) =
      some ⟨generated.1, generated.2, origin.1, origin.2, source, name⟩ := by
  have named : (m.add generated origin source name).nameAt
      (name.map fun text => (intern m.names text).2) = some name := by
    cases name with
    | none => rfl
    | some text =>
      rw [Option.map_some, nameAt, names_add]
      exact congrArg (Option.map some) (getElem?_intern m.names text)
  exact entryOf_eq_some_iff.mpr ⟨getElem?_intern m.sources source, named, rfl, rfl, rfl, rfl⟩

theorem nameAt_add {i : Option Nat} {n : Option String} (known : m.nameAt i = some n) :
    (m.add generated origin source name).nameAt i = some n := by
  cases i with
  | none => exact known
  | some i =>
    obtain ⟨text, found, rfl⟩ := Option.map_eq_some_iff.mp known
    rw [nameAt, names_add]
    cases name with
    | none => simp [found]
    | some other => simp [getElem?_intern_of_some other found]

theorem entryOf_add {t : MapToken} {e : MapEntry} (known : m.entryOf t = some e) :
    (m.add generated origin source name).entryOf t = some e := by
  rw [entryOf_eq_some_iff] at known ⊢
  obtain ⟨found, named, fields⟩ := known
  refine ⟨?_, nameAt_add m generated origin source name named, fields⟩
  rw [sources_add]
  exact getElem?_intern_of_some source found

theorem entries_add {es : List MapEntry} (known : m.entries = some es) :
    (m.add generated origin source name).entries =
      some (es ++ [⟨generated.1, generated.2, origin.1, origin.2, source, name⟩]) := by
  rw [entries_eq_some_iff] at known ⊢
  rw [tokens_add, Array.toList_push]
  exact List.rel_append (known.imp fun _ _ => entryOf_add m generated origin source name)
    (.cons (m.entryOf_newToken generated origin source name) .nil)

end Add

/-! ### Recording -/

def added (m : SourceMap) (x : Mapping) : SourceMap :=
  m.add (x.generated.line - 1, x.generated.column - 1) (x.origin.line - 1, x.origin.column - 1)
    x.source (x.name.filter (· ≠ ""))

theorem record_of_valid (m : SourceMap) {x : Mapping} (valid : x.Valid) :
    m.record x = .ok (m.added x) := by
  unfold record
  rw [Place.zeroBased_of_valid valid.1, Place.zeroBased_of_valid valid.2]
  rfl

/-- The generated place is blamed first. -/
theorem record_of_not_valid (m : SourceMap) {x : Mapping} (invalid : ¬x.Valid) :
    m.record x = .error ⟨if x.generated.Valid then x.origin else x.generated⟩ := by
  unfold record
  by_cases generated : x.generated.Valid
  · have origin : ¬x.origin.Valid := fun origin => invalid ⟨generated, origin⟩
    rw [Place.zeroBased_of_valid generated, Place.zeroBased_of_not_valid origin, if_pos generated]
    rfl
  · rw [Place.zeroBased_of_not_valid generated, if_neg generated]
    rfl

theorem entries_added {m : SourceMap} {es : List MapEntry} (x : Mapping)
    (known : m.entries = some es) : (m.added x).entries = some (es ++ [x.entry]) :=
  entries_add m _ _ _ _ known

/-- Records mappings in order. One that fails is passed over. -/
def recordAll (m : SourceMap) (xs : List Mapping) : SourceMap :=
  xs.foldl (fun m x => match m.record x with
    | .ok n => n
    | .error _ => m) m

theorem recordAll_eq (m : SourceMap) (xs : List Mapping) :
    m.recordAll xs = (xs.filter (·.Valid)).foldl added m := by
  unfold recordAll
  induction xs generalizing m with
  | nil => rfl
  | cons x xs ih =>
    by_cases valid : x.Valid
    · rw [List.foldl_cons, record_of_valid m valid, ih, List.filter_cons_of_pos (by simpa using valid)]
      rfl
    · rw [List.foldl_cons, record_of_not_valid m valid, ih,
        List.filter_cons_of_neg (by simpa using valid)]

theorem entries_foldl_added {m : SourceMap} {es : List MapEntry} (xs : List Mapping)
    (known : m.entries = some es) :
    (xs.foldl added m).entries = some (es ++ xs.map Mapping.entry) := by
  induction xs generalizing m es with
  | nil => simpa using known
  | cons x xs ih =>
    rw [List.foldl_cons, ih (entries_added x known)]
    simp

theorem header_foldl_added (m : SourceMap) (xs : List Mapping) :
    (xs.foldl added m).file = m.file ∧ (xs.foldl added m).sourceRoot = m.sourceRoot := by
  induction xs generalizing m with
  | nil => exact ⟨rfl, rfl⟩
  | cons x xs ih => exact ih (m.added x)

/-- The entries of a recording are those of the mappings that did not fail. -/
theorem entries_recordAll (file root : Option String) (xs : List Mapping) :
    ((new file root).recordAll xs).entries = some ((xs.filter (·.Valid)).map Mapping.entry) := by
  have empty : (new file root).entries = some [] := rfl
  rw [recordAll_eq, entries_foldl_added _ empty, List.nil_append]

/-! ### No text has two numbers -/

/-- Sources and names are each listed once. -/
structure Distinct (m : SourceMap) : Prop where
  sources : m.sources.Nodup
  names : m.names.Nodup

theorem Distinct.added {m : SourceMap} (distinct : m.Distinct) (x : Mapping) :
    (m.added x).Distinct := by
  refine ⟨nodup_intern _ distinct.sources, ?_⟩
  rw [SourceMap.added, names_add]
  split
  · exact distinct.names
  · exact nodup_intern _ distinct.names

theorem Distinct.foldl_added {m : SourceMap} (distinct : m.Distinct) (xs : List Mapping) :
    (xs.foldl SourceMap.added m).Distinct := by
  induction xs generalizing m with
  | nil => exact distinct
  | cons x xs ih => exact ih (distinct.added x)

theorem distinct_recordAll (file root : Option String) (xs : List Mapping) :
    ((new file root).recordAll xs).Distinct := by
  have empty : (new file root).Distinct := ⟨List.nodup_nil, List.nodup_nil⟩
  rw [recordAll_eq]
  exact empty.foldl_added _

theorem eq_of_getElem?_eq_some {texts : List String} {i j : Nat} {text : String}
    (unique : texts.Nodup) (hi : texts[i]? = some text) (hj : texts[j]? = some text) : i = j :=
  (List.getElem?_inj (List.getElem?_eq_some_iff.mp hi).1 unique).mp (hi.trans hj.symm)

theorem Distinct.eq_of_nameAt {m : SourceMap} (distinct : m.Distinct) {i j : Option Nat}
    {name : Option String} (hi : m.nameAt i = some name) (hj : m.nameAt j = some name) : i = j := by
  cases i with
  | none =>
    obtain rfl := Option.some.inj hi
    cases j with
    | none => rfl
    | some j => simp [nameAt] at hj
  | some i =>
    obtain ⟨text, found, rfl⟩ := Option.map_eq_some_iff.mp hi
    cases j with
    | none => simp [nameAt] at hj
    | some j =>
      obtain ⟨text', found', same⟩ := Option.map_eq_some_iff.mp hj
      obtain rfl := Option.some.inj same
      exact congrArg some (eq_of_getElem?_eq_some distinct.names found found')

/-- Different tokens have different entries. -/
theorem Distinct.eq_of_entryOf {m : SourceMap} (distinct : m.Distinct) {t u : MapToken}
    {e : MapEntry} (ht : m.entryOf t = some e) (hu : m.entryOf u = some e) : t = u := by
  obtain ⟨source, name, line, column, sourceLine, sourceColumn⟩ := entryOf_eq_some_iff.mp ht
  obtain ⟨source', name', line', column', sourceLine', sourceColumn'⟩ :=
    entryOf_eq_some_iff.mp hu
  have sources := eq_of_getElem?_eq_some distinct.sources source source'
  have names := distinct.eq_of_nameAt name name'
  cases t
  cases u
  simp_all

end SourceMap

end CssPrinter
