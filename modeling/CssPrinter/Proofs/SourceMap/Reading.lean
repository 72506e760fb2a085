import CssPrinter.Proofs.Json.RoundTrip
import CssPrinter.Proofs.SourceMap.Entries
import CssPrinter.Proofs.SourceMap.Mappings

/-!
# Reading a source map

`SourceMap.ofText` reads a map of version 3 from its JSON text. A map whose lines do not go back is
read back from its text, up to repeated tokens (`SourceMap.ofText_text`), and so a recording is read
back as the mappings that were recorded (`SourceMap.ofText_recordAll`).
-/

namespace CssPrinter.SourceMap

open Json

/-! ### The reader -/

def textsOf : Value → Option (List String)
  | .array items => items.mapM fun
    | .string s => some s
    | _ => none
  | _ => none

def textOf : Value → Option String
  | .string s => some s
  | _ => none

/-- A member that may be left out. -/
def optionalText (members : List (String × Value)) (key : String) : Option (Option String) :=
  match members.lookup key with
  | some v => (textOf v).map some
  | none => some none

def ofMembers (members : List (String × Value)) : Option SourceMap := do
  let .number (.natural 3) ← members.lookup "version" | none
  return {
    file := ← textOf (← members.lookup "file")
    sourceRoot := ← optionalText members "sourceRoot"
    sources := ← textsOf (← members.lookup "sources")
    names := ← textsOf (← members.lookup "names")
    tokens := (← Mappings.decode (← textOf (← members.lookup "mappings"))).toArray }

/-- Reads a map from its text. -/
def ofText (text : String) : Option SourceMap :=
  match Value.parse text with
  | .ok (.object members) => ofMembers members
  | _ => none

/-! ### Reading back -/

theorem exactItems_texts (texts : List String) : ExactItems (texts.map .string) :=
  exactItems_map exact_string texts

theorem itemsDepth_texts (texts : List String) : itemsDepth (texts.map .string) = 0 := by
  induction texts with
  | nil => rfl
  | cons text texts ih => rw [List.map_cons, itemsDepth, ih]; rfl

theorem textsOf_array (texts : List String) :
    textsOf (.array (texts.map .string)) = some texts := by
  unfold textsOf
  induction texts with
  | nil => rfl
  | cons text texts ih => simp_all

theorem exact_json (m : SourceMap) : m.json.Exact := by
  have sources := exactItems_texts m.sources
  have names := exactItems_texts m.names
  unfold json
  cases m.sourceRoot <;>
    simp [Value.Exact, ExactMembers, Value.nat, sources, names, maxNatural]

theorem depth_json (m : SourceMap) : m.json.depth = 2 := by
  unfold json
  cases m.sourceRoot <;>
    simp [Value.depth, membersDepth, Value.nat, itemsDepth_texts]

theorem parse_json (m : SourceMap) : Value.parse m.text = .ok m.json :=
  Value.parse_text m.exact_json (by rw [depth_json]; decide)

/-- The mappings stand in the map's text as one of its members. -/
theorem exists_mappings (m : SourceMap) :
    ∃ members, Value.parse m.text = .ok (.object members) ∧
      members.lookup "mappings" = some (.string (Mappings.encode m.tokens.toList)) := by
  refine ⟨_, m.parse_json, ?_⟩
  cases m.sourceRoot <;> simp [List.lookup_cons]

/-- A map is read back from its text, each run of equal tokens collapsed. -/
theorem ofText_text {m : SourceMap} (sorted : m.tokens.toList.Pairwise (·.line ≤ ·.line)) :
    ofText m.text = some { m with tokens := (m.tokens.toList.destutter (· ≠ ·)).toArray } := by
  rw [ofText, m.parse_json]
  have tokens := Mappings.decode_encode_destutter sorted
  unfold json
  cases m.sourceRoot <;>
    simp [ofMembers, List.lookup_cons, Value.nat, textOf, optionalText, textsOf_array, tokens]

/-! ### Recordings -/

theorem header_recordAll (m : SourceMap) (xs : List Mapping) :
    (m.recordAll xs).file = m.file ∧ (m.recordAll xs).sourceRoot = m.sourceRoot := by
  rw [recordAll_eq]
  exact header_foldl_added m _

theorem map_line_of_forall₂ {m : SourceMap} {ts : List MapToken} {es : List MapEntry}
    (related : List.Forall₂ (fun t e => m.entryOf t = some e) ts es) :
    ts.map (·.line) = es.map (·.line) := by
  have lines := congrArg (List.map Prod.fst) (map_place_of_forall₂ related)
  rw [List.map_map, List.map_map] at lines
  exact lines

/-- Repetitions among tokens are repetitions among their entries. -/
theorem forall₂_destutter' {m : SourceMap} (distinct : m.Distinct) {t : MapToken} {e : MapEntry}
    {ts : List MapToken} {es : List MapEntry} (first : m.entryOf t = some e)
    (related : List.Forall₂ (fun t e => m.entryOf t = some e) ts es) :
    List.Forall₂ (fun t e => m.entryOf t = some e) (ts.destutter' (· ≠ ·) t)
      (es.destutter' (· ≠ ·) e) := by
  induction related generalizing t e with
  | nil => exact .cons first .nil
  | cons second others ih =>
    rename_i u f us fs
    by_cases same : t = u
    · subst same
      obtain rfl := Option.some.inj (first.symm.trans second)
      rw [List.destutter'_cons_neg us (by simp), List.destutter'_cons_neg fs (by simp)]
      exact ih first
    · have other : e ≠ f := by
        rintro rfl
        exact same (distinct.eq_of_entryOf first second)
      rw [List.destutter'_cons_pos us same, List.destutter'_cons_pos fs other]
      exact .cons first (ih second)

theorem entries_destutter {m : SourceMap} (distinct : m.Distinct) {es : List MapEntry}
    (said : m.entries = some es) :
    entries { m with tokens := (m.tokens.toList.destutter (· ≠ ·)).toArray } =
      some (es.destutter (· ≠ ·)) := by
  have related := entries_eq_some_iff.mp said
  refine entries_eq_some_iff.mpr ?_
  show List.Forall₂ (fun t e => m.entryOf t = some e) _ _
  cases tokens : m.tokens.toList with
  | nil =>
    rw [tokens] at related
    cases related
    exact .nil
  | cons t ts =>
    rw [tokens] at related
    cases related with
    | cons first others => exact forall₂_destutter' distinct first others

/-- A recording is read back from its text. If the generated lines of the mappings that did not fail
never go back, the entries are those mappings in order, each run of equal ones collapsed. -/
theorem ofText_recordAll (file root : Option String) (xs : List Mapping)
    (ordered : ((xs.filter (·.Valid)).map (·.generated.line)).Pairwise (· ≤ ·)) :
    ∃ m, ofText ((new file root).recordAll xs).text = some m ∧
      m.entries = some (((xs.filter (·.Valid)).map Mapping.entry).destutter (· ≠ ·)) ∧
      m.file = file.getD "" ∧ m.sourceRoot = root ∧
      m.sources = ((new file root).recordAll xs).sources ∧
      m.names = ((new file root).recordAll xs).names := by
  have said := entries_recordAll file root xs
  have sorted : ((new file root).recordAll xs).tokens.toList.Pairwise (·.line ≤ ·.line) := by
    have lines : ((xs.filter (·.Valid)).map Mapping.entry).Pairwise (·.line ≤ ·.line) := by
      refine List.pairwise_map.mpr ((List.pairwise_map.mp ordered).imp ?_)
      exact fun le => Nat.sub_le_sub_right le 1
    have byLine := List.pairwise_map.mpr lines
    rw [← map_line_of_forall₂ (entries_eq_some_iff.mp said)] at byLine
    exact List.pairwise_map.mp byLine
  obtain ⟨sameFile, sameRoot⟩ := header_recordAll (new file root) xs
  exact ⟨_, ofText_text sorted, entries_destutter (distinct_recordAll file root xs) said, sameFile,
    sameRoot, rfl, rfl⟩

/-- Mappings of which one fails and one is a repetition. -/
def sampleMappings : List Mapping :=
  [⟨⟨1, 9⟩, ⟨7, 2⟩, "a\"\n.css", some "n"⟩, ⟨⟨0, 1⟩, ⟨1, 1⟩, "b.css", none⟩,
    ⟨⟨1, 3⟩, ⟨1, 1⟩, "c.css", some ""⟩, ⟨⟨1, 3⟩, ⟨1, 1⟩, "c.css", none⟩,
    ⟨⟨4, 1⟩, ⟨2, 5⟩, "a\"\n.css", some "n"⟩]

theorem ofText_recordAll_sample :
    ∃ m, ofText ((new none (some "")).recordAll sampleMappings).text = some m ∧
      m.entries = some [⟨0, 8, 6, 1, "a\"\n.css", some "n"⟩, ⟨0, 2, 0, 0, "c.css", none⟩,
        ⟨3, 0, 1, 4, "a\"\n.css", some "n"⟩] ∧
      m.file = "" ∧ m.sourceRoot = some "" := by
  obtain ⟨m, read, entries, file, root, -, -⟩ :=
    ofText_recordAll none (some "") sampleMappings (by decide)
  exact ⟨m, read, entries.trans (by decide), file, root⟩

end CssPrinter.SourceMap
