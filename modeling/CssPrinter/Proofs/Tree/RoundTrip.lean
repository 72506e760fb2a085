import CssPrinter.Proofs.Json.Records
import CssPrinter.Tree.Reading
import CssPrinter.Tree.Written

/-!
# Written trees are read back

Each record is read from what is written of it: its members are stored one after another, and those
that are left out stand in the blank already. A node is read from the members behind its tag
(`Reading.Reads`), at the top of the stylesheet from their outlines and elsewhere from their values.
The result is `Document.parse_written`.
-/

namespace CssPrinter

open Json

namespace Reading

/-! ### Fields -/

theorem asWord_word (n : UInt32) : (Written.word n).asWord = .ok n := by
  have small : n.toNat < UInt32.size := n.toNat_lt
  simp [Written.word, Value.nat, Value.asWord, small]

theorem asOptional_eq {α : Type} {read : Value → Except ReadError α} {v : Value} {a : α}
    (back : read v = .ok a) (given : v ≠ .null) : v.asOptional read = .ok (some a) := by
  unfold Value.asOptional
  split
  · exact absurd rfl given
  · rw [back]
    rfl

theorem asList_map {α : Type} {read : Value → Except ReadError α} {write : α → Value} {xs : List α}
    (back : ∀ x ∈ xs, read (write x) = .ok x) :
    (Value.array (xs.map write)).asList read = .ok xs := by
  rw [Value.asList]
  induction xs with
  | nil => rfl
  | cons x xs ih =>
    obtain ⟨first, others⟩ := List.forall_mem_cons.mp back
    rw [List.map_cons, List.mapM_cons, first, ih others]
    rfl

theorem strings_strings (texts : List String) : strings (Written.strings texts) = .ok texts :=
  asList_map fun _ _ => rfl

/-- An optional field is stored as it is written, or left as it is. -/
theorem stores_optional {α β : Type} {r : Record Value α} {key : String} {f : Field Value α}
    {write : β → Value} (set : Option β → α) (found : r.field? key = some f)
    (put : ∀ x, f.put (write x) (set none) = .ok (set (some x))) (o : Option β) :
    r.Stores (set none) (Written.optionalField key write o) (set o) := by
  cases o with
  | none => exact .nil _
  | some x => exact Record.stores_field found (put x)

theorem map_fst_optionalField {β : Type} (key : String) (write : β → Value) (o : Option β) :
    (Written.optionalField key write o).map Prod.fst = if o.isSome then [key] else [] := by
  cases o <;> rfl

/-! ### Parts of a node -/

theorem location_location (l : Location) : location.ofValue (Written.location l) = .ok l := by
  -- Which keys are written depends only on which optional fields are there.
  have keys : ∀ file name : Bool, location.Admits (["line", "column"] ++
      (if file then ["file"] else []) ++ if name then ["name"] else []) := by decide
  obtain ⟨line, column, file, name⟩ := l
  have first : location.Stores location.blank [("line", Written.word line)] ⟨line, 0, none, none⟩ :=
    Record.stores_field rfl (by simp only [asWord_word]; rfl)
  have second : location.Stores ⟨line, 0, none, none⟩ [("column", Written.word column)]
      ⟨line, column, none, none⟩ :=
    Record.stores_field rfl (by simp only [asWord_word]; rfl)
  have third : location.Stores _ (Written.optionalField "file" .string file) _ :=
    stores_optional (⟨line, column, ·, none⟩) rfl (fun _ => rfl) file
  have fourth : location.Stores _ (Written.optionalField "name" .string name) _ :=
    stores_optional (⟨line, column, file, ·⟩) rfl (fun _ => rfl) name
  refine Record.ofBody_members ?_ (((first.append second).append third).append fourth)
  simp only [List.map_append, map_fst_optionalField]
  exact keys _ _

theorem position_position (p : Position) : position.ofValue (Written.position p) = .ok p := by
  have keys : ∀ stop source : Bool, position.Admits ("start" ::
      ((if stop then ["end"] else []) ++ if source then ["source"] else [])) := by decide
  have read (l : Location) : (Written.location l).asOptional location.ofValue = .ok (some l) :=
    asOptional_eq (location_location l) nofun
  obtain ⟨start, stop, source⟩ := p
  have first : position.Stores position.blank [("start", Written.location start)]
      ⟨start, none, none⟩ :=
    Record.stores_field rfl (by simp only [location_location]; rfl)
  have second : position.Stores _ (Written.optionalField "end" Written.location stop) _ :=
    stores_optional (⟨start, ·, none⟩) rfl (fun l => by simp only [read]; rfl) stop
  have third : position.Stores _ (Written.optionalField "source" .string source) _ :=
    stores_optional (⟨start, stop, ·⟩) rfl (fun _ => rfl) source
  refine Record.ofBody_members ?_ (first.append (second.append third))
  simp only [List.map_cons, List.map_append, map_fst_optionalField]
  exact keys _ _

theorem asOptional_position (p : Position) :
    (Written.position p).asOptional position.ofValue = .ok (some p) :=
  asOptional_eq (position_position p) nofun

theorem textRecord_members (name key text : String) :
    (textRecord name key).ofBody (.members [(key, .string text)]) = .ok text := by
  have found : (textRecord name key).field? key = some ⟨key, .required, fun v _ => v.asString⟩ :=
    List.find?_cons_of_pos (by simp)
  have keys : (textRecord name key).Admits [key] := by
    simp [Record.Admits, Record.known, Record.field?, textRecord]
  exact Record.ofBody_members keys (Record.stores_field found rfl)

/-- What is written of a property besides its tag. -/
def propertyMembers (p : Property) : List (String × Value) :=
  [("property", .string p.name), ("value", .string p.value)] ++
    Written.optionalField "position" Written.position p.position

theorem keys_property (p : Property) : ∃ position : Bool, (propertyMembers p).map Prod.fst =
    ["property", "value"] ++ if position then ["position"] else [] :=
  ⟨p.position.isSome, by simp only [propertyMembers, List.map_append, map_fst_optionalField]; rfl⟩

theorem property_members (p : Property) :
    property.ofBody (.members (propertyMembers p)) = .ok p := by
  have keys : ∀ position : Bool, property.Admits (["property", "value"] ++
      if position then ["position"] else []) := by decide
  obtain ⟨given, written⟩ := keys_property p
  obtain ⟨name, value, position⟩ := p
  have first : property.Stores property.blank [("property", .string name)] ⟨name, "", none⟩ :=
    Record.stores_field rfl rfl
  have second : property.Stores ⟨name, "", none⟩ [("value", .string value)] ⟨name, value, none⟩ :=
    Record.stores_field rfl rfl
  have third : property.Stores _ (Written.optionalField "position" Written.position position) _ :=
    stores_optional (⟨name, value, ·⟩) rfl (fun p => by simp only [asOptional_position]; rfl)
      position
  exact Record.ofBody_members (written ▸ keys given) ((first.append second).append third)

theorem declaration_declaration (d : Declaration) :
    declaration (Written.declaration d) = .ok d := by
  cases d with
  | comment text =>
    have untagged : tagKey ∉ ["comment"] := by decide
    have body : declarationTags.bodyOfValue (Written.declaration (.comment text)) =
        .ok (.comment, .members [("comment", .string text)]) :=
      Tags.bodyOfValue_object rfl untagged
    rw [declaration, body]
    simp only [bind, Except.bind, comment, textRecord_members]
    rfl
  | property p =>
    have untagged : ∀ position : Bool, tagKey ∉ ["property", "value"] ++
      if position then ["position"] else [] := by decide
    obtain ⟨given, written⟩ := keys_property p
    have body : declarationTags.bodyOfValue (Written.declaration (.property p)) =
        .ok (.property, .members (propertyMembers p)) :=
      Tags.bodyOfValue_object rfl (written ▸ untagged given)
    rw [declaration, body]
    simp only [bind, Except.bind, property_members]
    rfl

theorem declarations_declarations (ds : List Declaration) :
    declarations (Written.declarations ds) = .ok ds :=
  asList_map fun d _ => declaration_declaration d

theorem keyframe_keyframe (k : Keyframe) : keyframe.ofValue (Written.keyframe k) = .ok k := by
  have keys : keyframe.Admits ["values", "declarations"] := by decide
  obtain ⟨values, declarations⟩ := k
  have first : keyframe.Stores keyframe.blank [("values", Written.strings values)] ⟨values, []⟩ :=
    Record.stores_field rfl (by simp only [strings_strings]; rfl)
  have second : keyframe.Stores ⟨values, []⟩
      [("declarations", Written.declarations declarations)] ⟨values, declarations⟩ :=
    Record.stores_field rfl (by simp only [declarations_declarations]; rfl)
  exact Record.ofBody_members keys (first.append second)

theorem keys_keyframes (k : Keyframes) : ∃ vendor : Bool, (Written.keyframes k).map Prod.fst =
    "name" :: ((if vendor then ["vendor"] else []) ++ ["keyframes"]) :=
  ⟨k.vendor.isSome, by
    simp only [Written.keyframes, List.map_cons, List.map_append, map_fst_optionalField]; rfl⟩

theorem keyframes_members (k : Keyframes) :
    keyframes.ofBody (.members (Written.keyframes k)) = .ok k := by
  have keys : ∀ vendor : Bool, keyframes.Admits ("name" ::
      ((if vendor then ["vendor"] else []) ++ ["keyframes"])) := by decide
  obtain ⟨given, written⟩ := keys_keyframes k
  obtain ⟨name, vendor, blocks⟩ := k
  have read : (Value.array (blocks.map Written.keyframe)).asList keyframe.ofValue = .ok blocks :=
    asList_map fun k _ => keyframe_keyframe k
  have first : keyframes.Stores keyframes.blank [("name", .string name)] ⟨name, none, []⟩ :=
    Record.stores_field rfl rfl
  have second : keyframes.Stores _ (Written.optionalField "vendor" .string vendor) _ :=
    stores_optional (⟨name, ·, []⟩) rfl (fun _ => rfl) vendor
  have third : keyframes.Stores ⟨name, vendor, []⟩
      [("keyframes", .array (blocks.map Written.keyframe))] ⟨name, vendor, blocks⟩ :=
    Record.stores_field rfl (by simp only [read]; rfl)
  exact Record.ofBody_members (written ▸ keys given) (first.append (second.append third))

theorem keys_rule (r : Rule) : ∃ position : Bool, (Written.rule r).map Prod.fst =
    ["selectors", "declarations"] ++ if position then ["position"] else [] :=
  ⟨r.position.isSome, by simp only [Written.rule, List.map_append, map_fst_optionalField]; rfl⟩

theorem rule_members (r : Rule) : rule.ofBody (.members (Written.rule r)) = .ok r := by
  have keys : ∀ position : Bool, rule.Admits (["selectors", "declarations"] ++
      if position then ["position"] else []) := by decide
  obtain ⟨given, written⟩ := keys_rule r
  obtain ⟨selectors, declarations, position⟩ := r
  have first : rule.Stores rule.blank [("selectors", Written.strings selectors)]
      ⟨selectors, [], none⟩ :=
    Record.stores_field rfl (by simp only [strings_strings]; rfl)
  have second : rule.Stores ⟨selectors, [], none⟩
      [("declarations", Written.declarations declarations)] ⟨selectors, declarations, none⟩ :=
    Record.stores_field rfl (by simp only [declarations_declarations]; rfl)
  have third : rule.Stores _ (Written.optionalField "position" Written.position position) _ :=
    stores_optional (⟨selectors, declarations, ·⟩) rfl
      (fun p => by simp only [asOptional_position]; rfl) position
  exact Record.ofBody_members (written ▸ keys given) ((first.append second).append third)

/-! ### Nodes -/

/-- A value as a part of a node. -/
def part (v : Value) : Part := ⟨v, fun _ => nodes v⟩

def parts (ms : List (String × Value)) : List (String × Part) :=
  ms.map fun m => (m.1, part m.2)

theorem memberParts_eq (ms : List (String × Value)) : memberParts ms = parts (untagged ms) := by
  induction ms with
  | nil => rw [memberParts]; rfl
  | cons m ms ih =>
    obtain ⟨key, v⟩ := m
    rw [memberParts, ih]
    by_cases tag : key = tagKey
    · rw [if_pos tag, untagged_tag tag]
    · rw [if_neg tag, untagged_other tag]
      rfl

theorem values_parts (ms : List (String × Value)) :
    (Body.members (parts ms)).map Part.value = .members ms := by
  rw [parts, Body.map, List.map_map]
  exact congrArg Body.members (List.map_id ms)

theorem lookup_kind (kind : Kind) : nodeTags.kinds.lookup kind.name = some kind := by
  cases kind <;> decide

section Tagged

variable {name : String} {kind : Kind} {ms : List (String × Value)}

theorem node_tagged (tagged : TaggedAs name ms) (known : nodeTags.ofName name = .ok kind) :
    node (.object ms) = nodeOfBody kind (.members (parts (untagged ms))) := by
  rw [node, Tags.ofMembers_tagged tagged, known, memberParts_eq]
  rfl

/-- At the top of the stylesheet a node is read as it is elsewhere. -/
theorem topNode_tagged (tagged : TaggedAs name ms) (known : nodeTags.ofName name = .ok kind)
    {levels : Nat} (shallow : (Value.object ms).depth ≤ levels + 1) :
    topNode levels (Value.object ms).outline = node (.object ms) := by
  have inside : ∀ m ∈ untagged ms, m.2.depth ≤ levels := fun m member =>
    membersDepth_le_iff.mp (Nat.le_of_succ_le_succ shallow) m (List.mem_filter.mp member).1
  have again : untagged (untagged ms) = untagged ms := by simp [untagged]
  rw [topNode, Tags.bodyOfOutline_tagged tagged inside, known, node_tagged tagged known]
  show nodeOfBody kind (.members (memberParts (untagged ms))) = _
  rw [memberParts_eq, again]

end Tagged

/-- A node is written as `ms` behind its tag, and these are read as the node. -/
structure Reads (n : Node) (ms : List (String × Value)) : Prop where
  written : Written.node n = .object ((tagKey, .string n.kind.name) :: ms)
  untagged : tagKey ∉ ms.map Prod.fst
  read : nodeOfBody n.kind (.members (parts ms)) = .ok n

namespace Reads

variable {n : Node} {ms : List (String × Value)}

/-- A node that holds no other nodes is read as a record of values. -/
theorem of_record {α : Type} {make : α → Node} {r : Record Value α} {a : α}
    (interpreted : ∀ body, nodeOfBody (make a).kind body = make <$> r.ofBody (body.map Part.value))
    (written : Written.node (make a) = .object ((tagKey, .string (make a).kind.name) :: ms))
    (untagged : tagKey ∉ ms.map Prod.fst) (read : r.ofBody (.members ms) = .ok a) :
    Reads (make a) ms := by
  refine ⟨written, untagged, ?_⟩
  rw [interpreted, values_parts, read]
  rfl

theorem tagged (h : Reads n ms) : TaggedAs n.kind.name ((tagKey, .string n.kind.name) :: ms) :=
  taggedAs_cons h.untagged

theorem node_eq (h : Reads n ms) : node (Written.node n) = .ok n := by
  rw [h.written, node_tagged h.tagged (Tags.ofName_eq (lookup_kind n.kind)), untagged_tag rfl,
    untagged_eq_self h.untagged]
  exact h.read

theorem topNode_eq (h : Reads n ms) {levels : Nat} (shallow : (Written.node n).depth ≤ levels + 1) :
    topNode levels (Written.node n).outline = .ok n := by
  have read := h.node_eq
  rw [h.written] at shallow read ⊢
  rw [topNode_tagged h.tagged (Tags.ofName_eq (lookup_kind n.kind)) shallow, read]

end Reads

theorem nodeList_nodes {ns : List Node} (each : ∀ n ∈ ns, ∃ ms, Reads n ms) :
    nodeList (Written.nodes ns) = .ok ns := by
  induction ns with
  | nil => rfl
  | cons n ns ih =>
    obtain ⟨⟨ms, first⟩, others⟩ := List.forall_mem_cons.mp each
    rw [Written.nodes, nodeList, first.node_eq, ih others]
    rfl

theorem reads_keyframes (k : Keyframes) : Reads (.keyframes k) (Written.keyframes k) := by
  have untagged : ∀ vendor : Bool, tagKey ∉ "name" ::
      ((if vendor then ["vendor"] else []) ++ ["keyframes"]) := by decide
  obtain ⟨given, written⟩ := keys_keyframes k
  exact .of_record (fun _ => rfl) (by rw [Written.node]; rfl) (written ▸ untagged given)
    (keyframes_members k)

theorem reads_rule (r : Rule) : Reads (.rule r) (Written.rule r) := by
  have untagged : ∀ position : Bool, tagKey ∉ ["selectors", "declarations"] ++
      if position then ["position"] else [] := by decide
  obtain ⟨given, written⟩ := keys_rule r
  exact .of_record (fun _ => rfl) (by rw [Written.node]; rfl) (written ▸ untagged given)
    (rule_members r)

theorem reads_media (query : String) {ns : List Node} (each : ∀ n ∈ ns, ∃ ms, Reads n ms) :
    Reads (.media query ns) [("media", .string query), ("rules", .array (Written.nodes ns))] := by
  have untagged : tagKey ∉ ["media", "rules"] := by decide
  have keys : media.Admits ["media", "rules"] := by decide
  have first : media.Stores media.blank [("media", part (.string query))] ⟨query, []⟩ :=
    Record.stores_field rfl rfl
  have second : media.Stores ⟨query, []⟩ [("rules", part (.array (Written.nodes ns)))]
      ⟨query, ns⟩ :=
    Record.stores_field rfl (by simp only [part, nodes, nodeList_nodes each]; rfl)
  -- `Reads.of_record` does not apply: the nodes of the block are interpreted from its parts.
  have read := Record.ofBody_members keys (first.append second)
  refine ⟨by rw [Written.node]; rfl, untagged, ?_⟩
  rw [Node.kind, nodeOfBody]
  exact congrArg (Except.map fun m => Node.media m.query m.nodes) read

mutual

theorem exists_reads : (n : Node) → ∃ ms, Reads n ms
  | .comment text => by
    have untagged : tagKey ∉ ["comment"] := by decide
    exact ⟨[("comment", .string text)], .of_record (fun _ => rfl) (by rw [Written.node]; rfl)
      untagged (textRecord_members _ _ text)⟩
  | .charset text => by
    have untagged : tagKey ∉ ["charset"] := by decide
    exact ⟨[("charset", .string text)], .of_record (fun _ => rfl) (by rw [Written.node]; rfl)
      untagged (textRecord_members _ _ text)⟩
  | .keyframes k => ⟨_, reads_keyframes k⟩
  | .media query ns => ⟨_, reads_media query (exists_reads_of_mem ns)⟩
  | .imports text => by
    have untagged : tagKey ∉ ["import"] := by decide
    exact ⟨[("import", .string text)], .of_record (fun _ => rfl) (by rw [Written.node]; rfl)
      untagged (textRecord_members _ _ text)⟩
  | .rule r => ⟨_, reads_rule r⟩

theorem exists_reads_of_mem : (ns : List Node) → ∀ n ∈ ns, ∃ ms, Reads n ms
  | [] => nofun
  | n :: ns => List.forall_mem_cons.mpr ⟨exists_reads n, exists_reads_of_mem ns⟩

end

end Reading

/-! ### Numbers of a written tree -/

namespace Written

theorem exact_word (n : UInt32) : (word n).Exact := by
  have small : n.toNat < 2 ^ 32 := n.toNat_lt
  show n.toNat ≤ maxNatural
  exact Nat.le_trans (Nat.le_of_lt small) (by decide)

theorem exactMembers_optionalField {α : Type} {key : String} {write : α → Value}
    (each : ∀ x, (write x).Exact) (o : Option α) : ExactMembers (optionalField key write o) := by
  cases o with
  | none => trivial
  | some x => exact ⟨each x, trivial⟩

theorem exactMembers_text (key : String) (o : Option String) :
    ExactMembers (optionalField key .string o) :=
  exactMembers_optionalField exact_string o

theorem exact_strings (texts : List String) : (strings texts).Exact :=
  exactItems_map exact_string texts

theorem exact_location (l : Location) : (location l).Exact := by
  have places : ExactMembers [("line", word l.line), ("column", word l.column)] :=
    ⟨exact_word _, exact_word _, trivial⟩
  exact (places.append (exactMembers_text _ l.file)).append (exactMembers_text _ l.name)

theorem exact_position (p : Position) : (position p).Exact :=
  ⟨exact_location p.start,
    (exactMembers_optionalField exact_location p.stop).append (exactMembers_text _ p.source)⟩

theorem exact_declaration (d : Declaration) : (declaration d).Exact := by
  cases d with
  | property p =>
    exact ⟨trivial, trivial, trivial, exactMembers_optionalField exact_position p.position⟩
  | comment text => exact ⟨trivial, trivial, trivial⟩

theorem exact_declarations (ds : List Declaration) : (declarations ds).Exact :=
  exactItems_map exact_declaration ds

theorem exact_keyframe (k : Keyframe) : (keyframe k).Exact :=
  ⟨exact_strings _, exact_declarations _, trivial⟩

theorem exactMembers_keyframes (k : Keyframes) : ExactMembers (keyframes k) :=
  ⟨trivial, (exactMembers_text _ k.vendor).append ⟨exactItems_map exact_keyframe k.blocks, trivial⟩⟩

theorem exactMembers_rule (r : Rule) : ExactMembers (rule r) :=
  ⟨exact_strings _, exact_declarations _, exactMembers_optionalField exact_position r.position⟩

mutual

theorem exact_node : (n : Node) → (node n).Exact
  | .comment text => by rw [node]; exact ⟨trivial, trivial, trivial⟩
  | .charset text => by rw [node]; exact ⟨trivial, trivial, trivial⟩
  | .keyframes k => by rw [node]; exact ⟨trivial, exactMembers_keyframes k⟩
  | .media query ns => by rw [node]; exact ⟨trivial, trivial, exactItems_nodes ns, trivial⟩
  | .imports text => by rw [node]; exact ⟨trivial, trivial, trivial⟩
  | .rule r => by rw [node]; exact ⟨trivial, exactMembers_rule r⟩

theorem exactItems_nodes : (ns : List Node) → ExactItems (nodes ns)
  | [] => by rw [nodes]; trivial
  | n :: ns => by rw [nodes]; exact ⟨exact_node n, exactItems_nodes ns⟩

end

theorem exact_document (d : Document) : (document d).Exact :=
  ⟨⟨exactItems_nodes d.nodes, trivial⟩, trivial⟩

end Written

/-! ### Documents -/

namespace Reading

theorem mapM_topNode {levels : Nat} {ns : List Node}
    (shallow : itemsDepth (Written.nodes ns) ≤ levels + 1) :
    (itemOutlines (Written.nodes ns)).mapM (topNode levels) = .ok ns := by
  induction ns with
  | nil => rw [Written.nodes]; rfl
  | cons n ns ih =>
    rw [Written.nodes] at shallow ⊢
    obtain ⟨first, others⟩ := Nat.max_le.mp shallow
    obtain ⟨ms, reads⟩ := exists_reads n
    rw [itemOutlines, List.mapM_cons, reads.topNode_eq first, ih others]
    rfl

theorem stylesheet_nodes {levels : Nat} {ns : List Node}
    (shallow : itemsDepth (Written.nodes ns) ≤ levels + 1) :
    (stylesheet levels).ofOutline ignored
      (Value.object [("rules", .array (Written.nodes ns))]).outline = .ok ns := by
  have keys : (stylesheet levels).Admits ["rules"] := by
    simp [Record.Admits, Record.known, Record.field?, stylesheet]
  have stores : (stylesheet levels).Stores [] [("rules", (Value.array (Written.nodes ns)).outline)]
      ns := by
    refine Record.stores_field rfl ?_
    simp only [Value.outline, topNodes, mapM_topNode shallow]
    rfl
  exact Record.ofOutline_object (by simp [outlined, Record.field?, stylesheet]) keys stores

theorem document_document {levels : Nat} {d : Document}
    (shallow : itemsDepth (Written.nodes d.nodes) ≤ levels + 1) :
    (document levels).ofOutline ignored (Written.document d).outline = .ok d := by
  have keys : (document levels).Admits ["stylesheet"] := by
    simp [Record.Admits, Record.known, Record.field?, document]
  have stores : (document levels).Stores {}
      [("stylesheet", (Value.object [("rules", .array (Written.nodes d.nodes))]).outline)] d := by
    refine Record.stores_field rfl ?_
    simp only [stylesheet_nodes shallow]
    rfl
  exact Record.ofOutline_object (by simp [outlined, Record.field?, document]) keys stores

end Reading

theorem Document.parseWithin_written {d : Document} {levels : Nat}
    (shallow : (Written.document d).depth ≤ levels) : parseWithin levels d.text = .ok d := by
  -- Three brackets are open around the nodes, and the fourth is a node's own.
  have inside : itemsDepth (Written.nodes d.nodes) ≤ levels - nodeDepth + 1 := by
    simp only [Written.document, Value.depth, membersDepth, nodeDepth] at shallow ⊢
    omega
  rw [parseWithin, text, draft_text _ (Written.exact_document d)]
  simp only [Reading.document_document inside]
  rfl

/-- A tree is read back from its text, if the text never has more than 127 brackets open. -/
theorem Document.parse_written {d : Document} (shallow : (Written.document d).depth ≤ 127) :
    Document.parse d.text = .ok d :=
  parseWithin_written shallow

def mediaTower : Nat → List Node
  | 0 => []
  | height + 1 => [.media "" (mediaTower height)]

/-- Empty texts and lists are kept, characters are escaped, and the nesting is the deepest there
can be. -/
def annotatedSheet : Document where
  nodes := [
    .charset "\"utf-8\"", .comment "\x00\n\\ é😀", .imports "",
    .keyframes { name := "fade", vendor := some "", blocks := [⟨["from", "50%"], []⟩, ⟨[], []⟩] },
    .media "print" (.rule {
      selectors := ["a", ""]
      declarations := [
        .comment "",
        .property ⟨"color", "\tred",
          some ⟨⟨0, 4294967295, some "", none⟩, some ⟨1, 2, none, some ""⟩, none⟩⟩]
      position := some ⟨⟨4294967295, 0, none, some "n"⟩, none, some ""⟩ } :: mediaTower 61)]

theorem parse_written_annotatedSheet :
    (Written.document annotatedSheet).depth = 127 ∧
      Document.parse annotatedSheet.text = .ok annotatedSheet := by
  have depth : (Written.document annotatedSheet).depth = 127 := by decide +kernel
  exact ⟨depth, Document.parse_written (Nat.le_of_eq depth)⟩

end CssPrinter
