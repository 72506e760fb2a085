import CssPrinter.Proofs.Tree.RoundTrip
import Mathlib.Order.MinMax

/-!
# Values with their members rearranged

Which members an object may have depends on its role in a tree. `Rearranged` says that the members
of the objects of a value stand in another order, with others between them that are not declared.
A rearranged value is nested no deeper (`Rearranged.depth_le`), and every object of a written tree
may be rearranged (`Written.rearranged_document`).
-/

namespace CssPrinter

open Json

/-! ### Rearranging -/

/-- What a value is read as. -/
inductive Role
  /-- A text, a number or a list of texts. -/
  | plain
  | list (role : Role)
  | location
  | position
  | declaration
  | keyframe
  | node
  | stylesheet
  | document

namespace Role

/-- The fields of a declaration besides its tag, and the roles of their values. -/
def declarationFields : Reading.DeclarationKind → List (String × Role)
  | .property => [("property", .plain), ("value", .plain), ("position", .position)]
  | .comment => [("comment", .plain)]

/-- The fields of a node besides its tag. -/
def nodeFields : Kind → List (String × Role)
  | .comment => [("comment", .plain)]
  | .charset => [("charset", .plain)]
  | .keyframes => [("name", .plain), ("vendor", .plain), ("keyframes", .list .keyframe)]
  | .media => [("media", .plain), ("rules", .list .node)]
  | .imports => [("import", .plain)]
  | .rule =>
    [("selectors", .plain), ("declarations", .list .declaration), ("position", .position)]

/-- The fields of an object that has one tag, the tag included. -/
def taggedFields {κ : Type} (t : Tags κ) (fields : κ → List (String × Role))
    (ms : List (String × Value)) : Option (List (String × Role)) :=
  match tagMembers ms with
  | [(_, .string name)] => (t.kinds.lookup name).map fun kind => (tagKey, .plain) :: fields kind
  | _ => none

/-- The fields that are declared for an object. Those of a declaration or a node depend on its
tag. -/
def fields? (ms : List (String × Value)) : Role → Option (List (String × Role))
  | .location => some [("line", .plain), ("column", .plain), ("file", .plain), ("name", .plain)]
  | .position => some [("start", .location), ("end", .location), ("source", .plain)]
  | .declaration => taggedFields Reading.declarationTags declarationFields ms
  | .keyframe => some [("values", .plain), ("declarations", .list .declaration)]
  | .node => taggedFields Reading.nodeTags nodeFields ms
  | .stylesheet => some [("rules", .list .node)]
  | .document => some [("stylesheet", .stylesheet)]
  | .plain => none
  | .list _ => none

end Role

/-- A value that may be put into any object. -/
def Json.Value.isFiller : Value → Bool
  | .null => true
  | .bool _ => true
  | .string _ => true
  | _ => false

mutual

/-- The second value is the first one, with the members of its objects in any order and with members
in them that are not declared. -/
inductive Rearranged : Role → Value → Value → Prop
  | plain (v : Value) : Rearranged .plain v v
  | list {role : Role} {vs ws : List Value} (items : RearrangedItems role vs ws) :
    Rearranged (.list role) (.array vs) (.array ws)
  | object {role : Role} {fields : List (String × Role)}
    {ms present extra ns : List (String × Value)} (declared : role.fields? ms = some fields)
    (members : RearrangedMembers fields ms present) (order : ns.Perm (present ++ extra))
    (fresh : ∀ m ∈ extra, fields.lookup m.1 = none ∧ m.2.isFiller = true) :
    Rearranged role (.object ms) (.object ns)

inductive RearrangedItems : Role → List Value → List Value → Prop
  | nil {role : Role} : RearrangedItems role [] []
  | cons {role : Role} {v w : Value} {vs ws : List Value} (first : Rearranged role v w)
    (others : RearrangedItems role vs ws) : RearrangedItems role (v :: vs) (w :: ws)

/-- Declared members in the same order. -/
inductive RearrangedMembers :
    List (String × Role) → List (String × Value) → List (String × Value) → Prop
  | nil {fields : List (String × Role)} : RearrangedMembers fields [] []
  | cons {fields : List (String × Role)} {key : String} {role : Role} {v w : Value}
    {ms ns : List (String × Value)} (known : fields.lookup key = some role)
    (first : Rearranged role v w) (others : RearrangedMembers fields ms ns) :
    RearrangedMembers fields ((key, v) :: ms) ((key, w) :: ns)

end

/-! ### Depth -/

theorem Json.Value.depth_of_isFiller {v : Value} (filler : v.isFiller = true) : v.depth = 0 := by
  cases v with
  | null | bool | string => rfl
  | number | array | object => cases filler

mutual

theorem Rearranged.depth_le {role : Role} {v w : Value} :
    Rearranged role v w → w.depth ≤ v.depth
  | .plain v => Nat.le_refl _
  | .list items => Nat.succ_le_succ items.depth_le
  | .object _ members order fresh => by
    refine Nat.succ_le_succ (membersDepth_le_iff.mpr fun m member => ?_)
    rcases List.mem_append.mp (order.subset member) with present | extra
    · exact membersDepth_le_iff.mp members.depth_le m present
    · rw [Value.depth_of_isFiller (fresh m extra).2]
      exact Nat.zero_le _

theorem RearrangedItems.depth_le {role : Role} {vs ws : List Value} :
    RearrangedItems role vs ws → itemsDepth ws ≤ itemsDepth vs
  | .nil => Nat.le_refl _
  | .cons first others => max_le_max first.depth_le others.depth_le

theorem RearrangedMembers.depth_le {fields : List (String × Role)}
    {ms ns : List (String × Value)} :
    RearrangedMembers fields ms ns → membersDepth ns ≤ membersDepth ms
  | .nil => Nat.le_refl _
  | .cons _ first others => max_le_max first.depth_le others.depth_le

end

/-! ### Written trees -/

theorem Rearranged.refl_object {role : Role} {fields : List (String × Role)}
    {ms : List (String × Value)} (declared : role.fields? ms = some fields)
    (members : RearrangedMembers fields ms ms) : Rearranged role (.object ms) (.object ms) :=
  .object declared members (.of_eq (List.append_nil ms).symm) nofun

theorem RearrangedMembers.append {fields : List (String × Role)}
    {ms ns ms' ns' : List (String × Value)} :
    RearrangedMembers fields ms ns → RearrangedMembers fields ms' ns' →
      RearrangedMembers fields (ms ++ ms') (ns ++ ns')
  | .nil, second => second
  | .cons known first others, second => .cons known first (others.append second)

theorem rearrangedItems_map {α : Type} {role : Role} {write : α → Value}
    (each : ∀ x, Rearranged role (write x) (write x)) (xs : List α) :
    RearrangedItems role (xs.map write) (xs.map write) := by
  induction xs with
  | nil => exact .nil
  | cons x xs ih => exact .cons (each x) ih

namespace Written

theorem rearranged_optionalField {α : Type} {fields : List (String × Role)} {key : String}
    {role : Role} {write : α → Value} (known : fields.lookup key = some role)
    (each : ∀ x, Rearranged role (write x) (write x)) (o : Option α) :
    RearrangedMembers fields (optionalField key write o) (optionalField key write o) := by
  cases o with
  | none => exact .nil
  | some x => exact .cons known (each x) .nil

theorem rearranged_text {fields : List (String × Role)} {key : String}
    (known : fields.lookup key = some .plain) (o : Option String) :
    RearrangedMembers fields (optionalField key .string o) (optionalField key .string o) :=
  rearranged_optionalField known (fun _ => .plain _) o

theorem rearranged_location (l : Location) : Rearranged .location (location l) (location l) :=
  .refl_object rfl ((RearrangedMembers.cons rfl (.plain _) (.cons rfl (.plain _)
    (rearranged_text rfl l.file))).append (rearranged_text rfl l.name))

theorem rearranged_position (p : Position) : Rearranged .position (position p) (position p) :=
  .refl_object rfl (.cons rfl (rearranged_location p.start)
    ((rearranged_optionalField rfl rearranged_location p.stop).append
      (rearranged_text rfl p.source)))

theorem rearranged_declaration (d : Declaration) :
    Rearranged .declaration (declaration d) (declaration d) := by
  cases d with
  | property p =>
    obtain ⟨name, value, given⟩ := p
    have declared : Role.declaration.fields? ([tag "declaration", ("property", .string name),
        ("value", .string value)] ++ optionalField "position" position given) =
        some ((tagKey, .plain) :: Role.declarationFields .property) := by
      cases given <;> rfl
    exact .refl_object declared (.cons rfl (.plain _) (.cons rfl (.plain _) (.cons rfl (.plain _)
      (rearranged_optionalField rfl rearranged_position given))))
  | comment text => exact .refl_object rfl (.cons rfl (.plain _) (.cons rfl (.plain _) .nil))

theorem rearranged_declarations (ds : List Declaration) :
    Rearranged (.list .declaration) (declarations ds) (declarations ds) :=
  .list (rearrangedItems_map rearranged_declaration ds)

theorem rearranged_keyframe (k : Keyframe) : Rearranged .keyframe (keyframe k) (keyframe k) :=
  .refl_object rfl (.cons rfl (.plain _) (.cons rfl (rearranged_declarations k.declarations) .nil))

theorem rearranged_keyframes (k : Keyframes) :
    Rearranged .node (.object (tag "keyframes" :: keyframes k))
      (.object (tag "keyframes" :: keyframes k)) := by
  obtain ⟨name, vendor, blocks⟩ := k
  have declared : Role.node.fields? (tag "keyframes" :: keyframes ⟨name, vendor, blocks⟩) =
      some ((tagKey, .plain) :: Role.nodeFields .keyframes) := by
    cases vendor <;> rfl
  have items := rearrangedItems_map rearranged_keyframe blocks
  exact .refl_object declared (.cons rfl (.plain _) (.cons rfl (.plain _)
    ((rearranged_text rfl vendor).append (.cons rfl (.list items) .nil))))

theorem rearranged_rule (r : Rule) :
    Rearranged .node (.object (tag "rule" :: rule r)) (.object (tag "rule" :: rule r)) := by
  obtain ⟨selectors, ds, given⟩ := r
  have declared : Role.node.fields? (tag "rule" :: rule ⟨selectors, ds, given⟩) =
      some ((tagKey, .plain) :: Role.nodeFields .rule) := by
    cases given <;> rfl
  exact .refl_object declared (.cons rfl (.plain _) (.cons rfl (.plain _)
    (.cons rfl (rearranged_declarations ds)
      (rearranged_optionalField rfl rearranged_position given))))

mutual

theorem rearranged_node : (n : Node) → Rearranged .node (node n) (node n)
  | .comment text => by
    rw [node]
    exact .refl_object rfl (.cons rfl (.plain _) (.cons rfl (.plain _) .nil))
  | .charset text => by
    rw [node]
    exact .refl_object rfl (.cons rfl (.plain _) (.cons rfl (.plain _) .nil))
  | .keyframes k => by
    rw [node]
    exact rearranged_keyframes k
  | .media query ns => by
    rw [node]
    exact .refl_object rfl (.cons rfl (.plain _) (.cons rfl (.plain _)
      (.cons rfl (.list (rearranged_nodes ns)) .nil)))
  | .imports text => by
    rw [node]
    exact .refl_object rfl (.cons rfl (.plain _) (.cons rfl (.plain _) .nil))
  | .rule r => by
    rw [node]
    exact rearranged_rule r

theorem rearranged_nodes : (ns : List Node) → RearrangedItems .node (nodes ns) (nodes ns)
  | [] => by
    rw [nodes]
    exact .nil
  | n :: ns => by
    rw [nodes]
    exact .cons (rearranged_node n) (rearranged_nodes ns)

end

theorem rearranged_document (d : Document) : Rearranged .document (document d) (document d) :=
  .refl_object rfl (.cons rfl
    (.refl_object rfl (.cons rfl (.list (rearranged_nodes d.nodes)) .nil)) .nil)

end Written

end CssPrinter
