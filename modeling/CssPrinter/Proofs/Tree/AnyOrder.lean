import CssPrinter.Proofs.Json.AnyOrder
import CssPrinter.Proofs.Tree.Rearranged

/-!
# Trees are read whatever the order of their members

What a value is read as stays the same when its members are rearranged (`Rearranged.carries`). This
is shown for one object of each role and then by induction for all of them. Since the grammar of
texts allows blanks between tokens, a tree is read from every text of a value that is rearranged
from its own (`Document.parse_rearranged`).
-/

namespace CssPrinter

open Json

namespace Reading

/-! ### One value in place of another -/

/-- Whatever the first value is read as, the second one is read as too. -/
structure Carried {α : Type} (read : Value → Except ReadError α) (v w : Value) : Prop where
  null : v = .null ↔ w = .null
  read : ∀ a, read v = .ok a → read w = .ok a

theorem carried_objects {α : Type} {read : Value → Except ReadError α}
    {ms ns : List (String × Value)}
    (same : ∀ a, read (.object ms) = .ok a → read (.object ns) = .ok a) :
    Carried read (.object ms) (.object ns) :=
  ⟨by simp, same⟩

theorem bind_of_carried {α β : Type} {x y : Except ReadError α} {k : α → Except ReadError β} {b : β}
    (same : ∀ a, x = .ok a → y = .ok a) (read : x >>= k = .ok b) : y >>= k = .ok b := by
  cases x with
  | error e => cases read
  | ok a => rwa [same a rfl]

theorem map_of_carried {α β : Type} {x y : Except ReadError α} {f : α → β} {b : β}
    (same : ∀ a, x = .ok a → y = .ok a) (read : f <$> x = .ok b) : f <$> y = .ok b := by
  cases x with
  | error e => cases read
  | ok a => rwa [same a rfl]

theorem Carried.asOptional {α : Type} {read : Value → Except ReadError α} {v w : Value}
    (h : Carried read v w) (o : Option α) (back : v.asOptional read = .ok o) :
    w.asOptional read = .ok o := by
  by_cases null : v = .null
  · rwa [h.null.mp null, ← null]
  · have given : w ≠ .null := fun same => null (h.null.mpr same)
    unfold Value.asOptional at back
    split at back
    · exact absurd rfl null
    · cases result : read v with
      | error e => rw [result] at back; cases back
      | ok a =>
        rw [result] at back
        obtain rfl := Except.ok.inj back
        exact asOptional_eq (h.read a result) given

theorem mapM_of_carried {α β γ : Type} {f : α → Except ReadError γ} {g : β → Except ReadError γ}
    {xs : List α} {ys : List β} {zs : List γ}
    (same : List.Forall₂ (fun x y => ∀ z, f x = .ok z → g y = .ok z) xs ys)
    (read : xs.mapM f = .ok zs) : ys.mapM g = .ok zs := by
  induction same generalizing zs with
  | nil => exact read
  | @cons x y xs ys first _ ih =>
    rw [List.mapM_cons] at read ⊢
    cases head : f x with
    | error e => rw [head] at read; cases read
    | ok z =>
      rw [head] at read
      have others : xs.mapM f >>= (fun zs => pure (z :: zs)) = .ok zs := read
      rw [first z head]
      show ys.mapM g >>= (fun zs => pure (z :: zs)) = .ok zs
      exact bind_of_carried (fun _ => ih) others

end Reading

open Reading

/-- Whatever the first value is read as in its role, the second one is read as too. A stylesheet and
its nodes are read along with the text, and may only be nested so deeply. -/
def Role.Carries : Role → Value → Value → Prop
  | .plain, v, w => w = v
  | .list role, v, w => ∃ vs ws, v = .array vs ∧ w = .array ws ∧ List.Forall₂ role.Carries vs ws
  | .location, v, w => Carried Reading.location.ofValue v w
  | .position, v, w => Carried Reading.position.ofValue v w
  | .declaration, v, w => Carried Reading.declaration v w
  | .keyframe, v, w => Carried Reading.keyframe.ofValue v w
  | .node, v, w => Carried Reading.node v w ∧
    ∀ levels, v.depth ≤ levels + 1 → Carried (fun v => topNode levels v.outline) v w
  | .stylesheet, v, w => ∀ levels, v.depth ≤ levels + 3 →
    Carried (fun v => (Reading.stylesheet levels).ofOutline ignored v.outline) v w
  | .document, v, w => ∀ levels, v.depth ≤ levels + 4 →
    Carried (fun v => (Reading.document levels).ofOutline ignored v.outline) v w

theorem asList_of_carries {α : Type} {role : Role} {read : Value → Except ReadError α}
    {v w : Value} (h : (Role.list role).Carries v w)
    (each : ∀ v w, role.Carries v w → Carried read v w) (xs : List α)
    (back : v.asList read = .ok xs) : w.asList read = .ok xs := by
  obtain ⟨vs, ws, rfl, rfl, items⟩ := h
  exact mapM_of_carried (items.imp fun v w carries => (each v w carries).read) back

/-! ### One object -/

/-- A declared member and one that it may be replaced by. -/
def Matches (fields : List (String × Role)) (m n : String × Value) : Prop :=
  m.1 = n.1 ∧ ∃ role, fields.lookup m.1 = some role ∧ role.Carries m.2 n.2

/-- The members of one object are rearranged, and their values have been seen to. -/
def Shuffled (fields : List (String × Role)) (ms ns : List (String × Value)) : Prop :=
  ∃ present extra, List.Forall₂ (Matches fields) ms present ∧ ns.Perm (present ++ extra) ∧
    ∀ m ∈ extra, fields.lookup m.1 = none ∧ m.2.isFiller = true

/-- A record has the declared fields, in any order, and reads each of them from any value that
carries its role. Values are seen by way of `view`. -/
structure Suits {π α : Type} (r : Record π α) (view : Value → π) (fields : List (String × Role)) :
    Prop where
  free : r.Free
  keys : r.fields.map Field.key = fields.map Prod.fst
  store : ∀ entry ∈ fields, ∀ v w, entry.2.Carries v w →
    ∀ a b, r.store a (entry.1, view v) = .ok b → r.store a (entry.1, view w) = .ok b

theorem field?_of_undeclared {π α : Type} {r : Record π α} {fields : List (String × Role)}
    (keys : r.fields.map Field.key = fields.map Prod.fst) {key : String}
    (undeclared : fields.lookup key = none) : r.field? key = none := by
  refine List.find?_eq_none.mpr fun f member same => ?_
  have listed : f.key ∈ fields.map Prod.fst := keys ▸ List.mem_map_of_mem member
  obtain ⟨entry, present, named⟩ := List.mem_map.mp listed
  have other := List.lookup_eq_none_iff.mp undeclared entry present
  rw [named, ← beq_iff_eq.mp same] at other
  simp at other

theorem mem_of_lookup {fields : List (String × Role)} {key : String} {role : Role}
    (known : fields.lookup key = some role) : (key, role) ∈ fields := by
  obtain ⟨before, behind, rfl, -⟩ := List.lookup_eq_some_iff.mp known
  exact List.mem_append_cons_self

namespace Shuffled

variable {fields : List (String × Role)} {ms ns : List (String × Value)}

theorem shuffles {π α : Type} {r : Record π α} {view : Value → π} (h : Shuffled fields ms ns)
    (keys : r.fields.map Field.key = fields.map Prod.fst)
    (follows : ∀ m ∈ ms, ∀ role w, (m.1, role) ∈ fields → role.Carries m.2 w →
      r.Follows (m.1, view m.2) (m.1, view w)) :
    r.Shuffles (ms.map fun m => (m.1, view m.2)) (ns.map fun m => (m.1, view m.2)) := by
  obtain ⟨present, extra, same, order, fresh⟩ := h
  refine ⟨present.map fun m => (m.1, view m.2), extra.map fun m => (m.1, view m.2), ?_, ?_, ?_⟩
  · clear order
    induction same with
    | nil => exact .nil
    | @cons m n ms present first _ ih =>
      obtain ⟨head, others⟩ := List.forall_mem_cons.mp follows
      obtain ⟨key, v⟩ := m
      obtain ⟨_, w⟩ := n
      obtain ⟨rfl, role, known, carries⟩ := first
      exact .cons (head role w (mem_of_lookup known) carries) (ih others)
  · rw [← List.map_append]
    exact order.map _
  · intro m member
    obtain ⟨source, present, rfl⟩ := List.mem_map.mp member
    exact field?_of_undeclared keys (fresh source present).1

theorem ofBody {π α : Type} {r : Record π α} {view : Value → π} (h : Shuffled fields ms ns)
    (suits : Suits r view fields) (a : α)
    (read : r.ofBody (.members (ms.map fun m => (m.1, view m.2))) = .ok a) :
    r.ofBody (.members (ns.map fun m => (m.1, view m.2))) = .ok a := by
  have shuffles := h.shuffles suits.keys fun m _ role w entry carries =>
    ⟨rfl, suits.store _ entry _ _ carries⟩
  exact Record.ofBody_of_shuffles suits.free shuffles read

theorem ofValues {α : Type} {r : Record Value α} (h : Shuffled fields ms ns)
    (suits : Suits r id fields) (a : α) (read : r.ofBody (.members ms) = .ok a) :
    r.ofBody (.members ns) = .ok a := by
  have same (ms : List (String × Value)) : (ms.map fun m => (m.1, id m.2)) = ms := List.map_id ms
  have shuffled := h.ofBody suits a
  rw [same, same] at shuffled
  exact shuffled read

end Shuffled

theorem store_plain {π α : Type} {r : Record π α} {view : Value → π} {key : String} (v w : Value)
    (h : Role.plain.Carries v w) (a b : α) (stored : r.store a (key, view v) = .ok b) :
    r.store a (key, view w) = .ok b := by
  obtain rfl : w = v := h
  exact stored

/-! ### Each record -/

theorem suits_location : Suits location id [("line", .plain), ("column", .plain), ("file", .plain),
    ("name", .plain)] where
  free := by
    simp only [Record.Free, location, List.pairwise_cons, List.forall_mem_cons]
    refine ⟨⟨?_, ?_, ?_, nofun⟩, ⟨?_, ?_, nofun⟩, ⟨?_, nofun⟩, nofun, .nil⟩ <;>
      exact Record.swaps_of_set (fun _ _ => rfl) (fun _ _ => rfl) fun _ _ _ => rfl
  keys := rfl
  store := by
    simp only [List.forall_mem_cons]
    exact ⟨store_plain, store_plain, store_plain, store_plain, nofun⟩

theorem suits_position :
    Suits position id [("start", .location), ("end", .location), ("source", .plain)] where
  free := by
    simp only [Record.Free, position, List.pairwise_cons, List.forall_mem_cons]
    refine ⟨⟨?_, ?_, nofun⟩, ⟨?_, nofun⟩, nofun, .nil⟩ <;>
      exact Record.swaps_of_set (fun _ _ => rfl) (fun _ _ => rfl) fun _ _ _ => rfl
  keys := rfl
  store := by
    simp only [List.forall_mem_cons]
    refine ⟨fun v w h a b => ?_, fun v w h a b => ?_, store_plain, nofun⟩
    · exact bind_of_carried h.read
    · exact bind_of_carried h.asOptional

theorem suits_textRecord (name key : String) : Suits (textRecord name key) id [(key, .plain)] where
  free := List.pairwise_singleton _ _
  keys := rfl
  store := by
    simp only [List.forall_mem_cons]
    exact ⟨store_plain, nofun⟩

theorem suits_property : Suits property id (Role.declarationFields .property) where
  free := by
    simp only [Record.Free, property, List.pairwise_cons, List.forall_mem_cons]
    refine ⟨⟨?_, ?_, nofun⟩, ⟨?_, nofun⟩, nofun, .nil⟩ <;>
      exact Record.swaps_of_set (fun _ _ => rfl) (fun _ _ => rfl) fun _ _ _ => rfl
  keys := rfl
  store := by
    simp only [Role.declarationFields, List.forall_mem_cons]
    refine ⟨store_plain, store_plain, fun v w h a b => ?_, nofun⟩
    exact bind_of_carried h.asOptional

theorem suits_keyframe :
    Suits keyframe id [("values", .plain), ("declarations", .list .declaration)] where
  free := by
    simp only [Record.Free, keyframe, List.pairwise_cons, List.forall_mem_cons]
    refine ⟨⟨?_, nofun⟩, nofun, .nil⟩
    exact Record.swaps_of_set (fun _ _ => rfl) (fun _ _ => rfl) fun _ _ _ => rfl
  keys := rfl
  store := by
    simp only [List.forall_mem_cons]
    refine ⟨store_plain, fun v w h a b => ?_, nofun⟩
    exact bind_of_carried (asList_of_carries h fun _ _ carries => carries)

theorem suits_keyframes : Suits keyframes id (Role.nodeFields .keyframes) where
  free := by
    simp only [Record.Free, keyframes, List.pairwise_cons, List.forall_mem_cons]
    refine ⟨⟨?_, ?_, nofun⟩, ⟨?_, nofun⟩, nofun, .nil⟩ <;>
      exact Record.swaps_of_set (fun _ _ => rfl) (fun _ _ => rfl) fun _ _ _ => rfl
  keys := rfl
  store := by
    simp only [Role.nodeFields, List.forall_mem_cons]
    refine ⟨store_plain, store_plain, fun v w h a b => ?_, nofun⟩
    exact bind_of_carried (asList_of_carries h fun _ _ carries => carries)

theorem suits_rule : Suits rule id (Role.nodeFields .rule) where
  free := by
    simp only [Record.Free, rule, List.pairwise_cons, List.forall_mem_cons]
    refine ⟨⟨?_, ?_, nofun⟩, ⟨?_, nofun⟩, nofun, .nil⟩ <;>
      exact Record.swaps_of_set (fun _ _ => rfl) (fun _ _ => rfl) fun _ _ _ => rfl
  keys := rfl
  store := by
    simp only [Role.nodeFields, List.forall_mem_cons]
    refine ⟨store_plain, fun v w h a b => ?_, fun v w h a b => ?_, nofun⟩
    · exact bind_of_carried (asList_of_carries h fun _ _ carries => carries)
    · exact bind_of_carried h.asOptional

theorem nodes_of_carries {v w : Value} (h : (Role.list .node).Carries v w) (ns : List Node)
    (read : nodes v = .ok ns) : nodes w = .ok ns := by
  obtain ⟨vs, ws, rfl, rfl, items⟩ := h
  have asMap (vs : List Value) : nodeList vs = vs.mapM node := by
    induction vs with
    | nil => rfl
    | cons v vs ih => rw [nodeList, ih, List.mapM_cons]
  rw [nodes, asMap] at read ⊢
  exact mapM_of_carried (items.imp fun _ _ carries => carries.1.read) read

theorem suits_media : Suits media part (Role.nodeFields .media) where
  free := by
    simp only [Record.Free, media, List.pairwise_cons, List.forall_mem_cons]
    refine ⟨⟨?_, nofun⟩, nofun, .nil⟩
    exact Record.swaps_of_set (fun _ _ => rfl) (fun _ _ => rfl) fun _ _ _ => rfl
  keys := rfl
  store := by
    simp only [Role.nodeFields, List.forall_mem_cons]
    refine ⟨store_plain, fun v w h a b => ?_, nofun⟩
    exact bind_of_carried (nodes_of_carries h)

/-! ### Tagged objects -/

section Tagged

variable {fields : List (String × Role)} {ms ns : List (String × Value)} {name : String}

theorem Shuffled.tagged (h : Shuffled ((tagKey, .plain) :: fields) ms ns)
    (tagged : TaggedAs name ms) : TaggedAs name ns := by
  -- The tag is declared as a plain field: it keeps its value, and nothing new has its key.
  obtain ⟨present, extra, same, order, fresh⟩ := h
  have kept : tagMembers present = tagMembers ms := by
    clear order tagged
    induction same with
    | nil => rfl
    | @cons m n ms present first _ ih =>
      obtain ⟨key, v⟩ := m
      obtain ⟨_, w⟩ := n
      obtain ⟨rfl, role, known, carries⟩ := first
      by_cases tag : key = tagKey
      · subst tag
        rw [List.lookup_cons_self] at known
        obtain rfl := Option.some.inj known
        obtain rfl : w = v := carries
        rw [tagMembers_tag rfl, tagMembers_tag rfl, ih]
      · rw [tagMembers_other tag, tagMembers_other tag, ih]
  have none : tagMembers extra = [] := by
    refine List.filter_eq_nil_iff.mpr fun m member tag => ?_
    have unknown := (fresh m member).1
    rw [of_decide_eq_true tag, List.lookup_cons_self] at unknown
    cases unknown
  have tags : (tagMembers ns).Perm (tagMembers (present ++ extra)) := order.filter _
  rw [tagMembers_append, none, List.append_nil, kept, show tagMembers ms = _ from tagged] at tags
  exact List.perm_singleton.mp tags

theorem lookup_tail {key : String} (other : key ≠ tagKey) :
    ((tagKey, Role.plain) :: fields).lookup key = fields.lookup key := by
  rw [List.lookup_cons, beq_eq_false_iff_ne.mpr other]

theorem Shuffled.untagged (h : Shuffled ((tagKey, .plain) :: fields) ms ns) :
    Shuffled fields (untagged ms) (untagged ns) := by
  obtain ⟨present, extra, same, order, fresh⟩ := h
  refine ⟨Json.untagged present, Json.untagged extra, ?_, ?_, fun m member => ?_⟩
  · clear order
    induction same with
    | nil => exact .nil
    | @cons m n ms present first _ ih =>
      obtain ⟨key, v⟩ := m
      obtain ⟨_, w⟩ := n
      obtain ⟨rfl, role, known, carries⟩ := first
      by_cases tag : key = tagKey
      · rw [untagged_tag tag, untagged_tag tag]
        exact ih
      · rw [untagged_other tag, untagged_other tag]
        exact .cons ⟨rfl, role, lookup_tail tag ▸ known, carries⟩ ih
  · have split : (Json.untagged ns).Perm (Json.untagged (present ++ extra)) := order.filter _
    rwa [untagged_append] at split
  · obtain ⟨member, other⟩ := List.mem_filter.mp member
    have fresh := fresh m member
    rwa [lookup_tail (of_decide_eq_true other)] at fresh

theorem exists_tag {κ : Type} {t : Tags κ} {table : κ → List (String × Role)}
    (declared : Role.taggedFields t table ms = some fields) :
    ∃ name kind, TaggedAs name ms ∧ t.ofName name = .ok kind ∧
      fields = (tagKey, .plain) :: table kind := by
  unfold Role.taggedFields at declared
  split at declared
  · rename_i key name tags
    obtain ⟨kind, known, rfl⟩ := Option.map_eq_some_iff.mp declared
    have tag : (key, Value.string name) ∈ tagMembers ms := tags ▸ List.mem_singleton_self _
    obtain rfl : key = tagKey := of_decide_eq_true (List.mem_filter.mp tag).2
    exact ⟨name, kind, tags, Tags.ofName_eq known, rfl⟩
  · cases declared

theorem carries_declaration {kind : DeclarationKind} (tagged : TaggedAs name ms)
    (known : declarationTags.ofName name = .ok kind)
    (h : Shuffled ((tagKey, .plain) :: Role.declarationFields kind) ms ns) :
    Role.declaration.Carries (.object ms) (.object ns) := by
  refine carried_objects fun d => ?_
  rw [declaration, declaration, Tags.bodyOfValue_tagged tagged,
    Tags.bodyOfValue_tagged (h.tagged tagged), known]
  cases kind with
  | property =>
    have same := h.untagged.ofValues suits_property
    exact bind_of_carried (k := fun p => pure (Declaration.property p)) same
  | comment =>
    have same := h.untagged.ofValues (suits_textRecord "Comment" _)
    exact bind_of_carried (k := fun text => pure (Declaration.comment text)) same

theorem nodeOfBody_of_shuffled {kind : Kind} (h : Shuffled (Role.nodeFields kind) ms ns) (n : Node)
    (read : nodeOfBody kind (.members (parts ms)) = .ok n) :
    nodeOfBody kind (.members (parts ns)) = .ok n := by
  cases kind with
  | comment | charset | imports =>
    rw [nodeOfBody, values_parts] at read ⊢
    exact map_of_carried (h.ofValues (suits_textRecord _ _)) read
  | keyframes =>
    rw [nodeOfBody, values_parts] at read ⊢
    exact map_of_carried (h.ofValues suits_keyframes) read
  | media => exact map_of_carried (h.ofBody suits_media) read
  | rule =>
    rw [nodeOfBody, values_parts] at read ⊢
    exact map_of_carried (h.ofValues suits_rule) read

theorem carries_node {kind : Kind} (tagged : TaggedAs name ms)
    (known : nodeTags.ofName name = .ok kind)
    (h : Shuffled ((tagKey, .plain) :: Role.nodeFields kind) ms ns)
    (deep : (Value.object ns).depth ≤ (Value.object ms).depth) :
    Role.node.Carries (.object ms) (.object ns) := by
  have same : ∀ n, node (.object ms) = .ok n → node (.object ns) = .ok n := by
    rw [node_tagged tagged known, node_tagged (h.tagged tagged) known]
    exact nodeOfBody_of_shuffled h.untagged
  -- Both paths lead to the same members, so what holds of values holds along with the text.
  refine ⟨carried_objects same, fun levels shallow => carried_objects ?_⟩
  rw [topNode_tagged tagged known shallow,
    topNode_tagged (h.tagged tagged) known (Nat.le_trans deep shallow)]
  exact same

end Tagged

/-! ### Along with the text -/

theorem itemOutlines_eq_map (vs : List Value) : itemOutlines vs = vs.map Value.outline := by
  induction vs with
  | nil => rfl
  | cons v vs ih => rw [itemOutlines, ih, List.map_cons]

theorem topNodes_of_carries {levels : Nat} {v w : Value} (h : (Role.list .node).Carries v w)
    (shallow : v.depth ≤ levels + 2) (ns : List Node) :
    topNodes levels v.outline = .ok ns → topNodes levels w.outline = .ok ns := by
  obtain ⟨vs, ws, rfl, rfl, items⟩ := h
  have inside := itemsDepth_le_iff.mp (Nat.le_of_succ_le_succ shallow)
  have each := ((List.forall₂_and_left vs ws).mpr ⟨inside, items⟩).imp
    fun v w carries => (carries.2.2 levels carries.1).read
  rw [Value.outline, Value.outline, topNodes, topNodes, itemOutlines_eq_map, itemOutlines_eq_map,
    List.mapM_map, List.mapM_map]
  exact bind_of_carried fun ns => mapM_of_carried each

section Outlines

variable {ms ns : List (String × Value)}

/-- A record with one field that is read along with the text. -/
theorem Shuffled.ofOutline {α : Type} {r : Record Outline α} {key : String} {role : Role}
    (h : Shuffled [(key, role)] ms ns) (free : r.Free) (keys : r.fields.map Field.key = [key])
    (follows : ∀ v w, v.depth ≤ membersDepth ms → role.Carries v w →
      r.Follows (key, v.outline) (key, w.outline)) (a : α)
    (read : r.ofOutline ignored (Value.object ms).outline = .ok a) :
    r.ofOutline ignored (Value.object ns).outline = .ok a := by
  have shuffles : r.Shuffles (outlined ms) (outlined ns) := by
    refine h.shuffles keys fun m member other w entry carries => ?_
    obtain ⟨same, rfl⟩ := Prod.mk.inj (List.mem_singleton.mp entry)
    exact same ▸ follows m.2 w (membersDepth_le_iff.mp (Nat.le_refl _) m member) carries
  refine Record.ofOutline_of_shuffles free shuffles (fun m member _ => ?_) read
  obtain ⟨source, -, rfl⟩ := List.mem_map.mp member
  rw [ignored, pass_outline]
  rfl

theorem carries_stylesheet (h : Shuffled [("rules", .list .node)] ms ns) :
    Role.stylesheet.Carries (.object ms) (.object ns) := by
  intro levels shallow
  have inside : membersDepth ms ≤ levels + 2 := Nat.le_of_succ_le_succ shallow
  refine carried_objects (h.ofOutline (List.pairwise_singleton _ _) rfl fun v w deep carries => ?_)
  exact ⟨rfl, fun _ => topNodes_of_carries carries (Nat.le_trans deep inside)⟩

theorem carries_document (h : Shuffled [("stylesheet", .stylesheet)] ms ns) :
    Role.document.Carries (.object ms) (.object ns) := by
  intro levels shallow
  have inside : membersDepth ms ≤ levels + 3 := Nat.le_of_succ_le_succ shallow
  refine carried_objects (h.ofOutline (List.pairwise_singleton _ _) rfl fun v w deep carries => ?_)
  exact ⟨rfl, fun _ _ => bind_of_carried (carries levels (Nat.le_trans deep inside)).read⟩

end Outlines

/-! ### All objects -/

theorem carries_object {role : Role} {fields : List (String × Role)} {ms ns : List (String × Value)}
    (declared : role.fields? ms = some fields) (h : Shuffled fields ms ns)
    (deep : (Value.object ns).depth ≤ (Value.object ms).depth) :
    role.Carries (.object ms) (.object ns) := by
  cases role with
  | plain => cases declared
  | list role => cases declared
  | location =>
    cases declared
    exact carried_objects (h.ofValues suits_location)
  | position =>
    cases declared
    exact carried_objects (h.ofValues suits_position)
  | declaration =>
    obtain ⟨name, kind, tagged, known, rfl⟩ := exists_tag declared
    exact carries_declaration tagged known h
  | keyframe =>
    cases declared
    exact carried_objects (h.ofValues suits_keyframe)
  | node =>
    obtain ⟨name, kind, tagged, known, rfl⟩ := exists_tag declared
    exact carries_node tagged known h deep
  | stylesheet =>
    cases declared
    exact carries_stylesheet h
  | document =>
    cases declared
    exact carries_document h

-- The induction is on how the value was rearranged: the values in an object come before the object.
mutual

theorem Rearranged.carries {role : Role} {v w : Value} : Rearranged role v w → role.Carries v w
  | .plain v => rfl
  | .list items => ⟨_, _, rfl, rfl, items.carries⟩
  | .object declared members order fresh =>
    carries_object declared ⟨_, _, members.carries, order, fresh⟩
      (Rearranged.object declared members order fresh).depth_le

theorem RearrangedItems.carries {role : Role} {vs ws : List Value} :
    RearrangedItems role vs ws → List.Forall₂ role.Carries vs ws
  | .nil => .nil
  | .cons first others => .cons first.carries others.carries

theorem RearrangedMembers.carries {fields : List (String × Role)} {ms ns : List (String × Value)} :
    RearrangedMembers fields ms ns → List.Forall₂ (Matches fields) ms ns
  | .nil => .nil
  | .cons known first others => .cons ⟨rfl, _, known, first.carries⟩ others.carries

end

/-! ### Documents -/

theorem Document.parseWithin_rearranged {d : Document} {levels : Nat} {w : Value} {s : String}
    (shallow : (Written.document d).depth ≤ levels)
    (rearranged : Rearranged .document (Written.document d) w) (denotes : Denotes s.toList w) :
    parseWithin levels s = .ok d := by
  have inside : itemsDepth (Written.nodes d.nodes) ≤ levels - nodeDepth + 1 := by
    simp only [Written.document, Value.depth, membersDepth, nodeDepth] at shallow ⊢
    omega
  have deep : (Written.document d).depth ≤ levels - nodeDepth + 4 := by
    unfold nodeDepth
    omega
  have read := (rearranged.carries _ deep).read d (document_document inside)
  rw [parseWithin, draft_denotes denotes]
  simp only [read]
  rfl

/-- A tree is read from every text that says what its own text says, with the members of objects in
any order, with others between them that are not declared and with blanks between tokens. -/
theorem Document.parse_rearranged {d : Document} (shallow : (Written.document d).depth ≤ 127) :
    Rearranged .document (Written.document d) (Written.document d) ∧
      Denotes d.text.toList (Written.document d) ∧
      ∀ w s, Rearranged .document (Written.document d) w → Denotes s.toList w →
        Document.parse s = .ok d := by
  refine ⟨Written.rearranged_document d, ?_, fun w s rearranged denotes => ?_⟩
  · rw [text, Value.text, String.toList_ofList]
    exact denotes_chars _ (Written.exact_document d)
  · exact parseWithin_rearranged shallow rearranged denotes

/-- An object may be written backwards, with new members in front. -/
theorem Rearranged.backward {role : Role} {fields : List (String × Role)}
    {ms present : List (String × Value)} (extra : List (String × Value))
    (declared : role.fields? ms = some fields) (members : RearrangedMembers fields ms present)
    (fresh : ∀ m ∈ extra, fields.lookup m.1 = none ∧ m.2.isFiller = true) :
    Rearranged role (.object ms) (.object (extra ++ present.reverse)) :=
  .object declared members
    (List.perm_append_comm.trans ((List.reverse_perm present).append_right extra)) fresh

def placedRule : Rule where
  selectors := ["a"]
  position := some ⟨⟨1, 2, none, none⟩, none, none⟩

/-- The rule written backwards. The position has a member with the key of a tag, which is none. -/
def backwardRule : Value :=
  .object [("note", .string "type"),
    ("position", .object [("type", .null),
      ("start", .object [("column", .nat 2), ("line", .nat 1)])]),
    ("declarations", .array []), ("selectors", .array [.string "a"]), ("type", .string "rule")]

theorem rearranged_backwardRule :
    Rearranged .node (.object (Written.tag "rule" :: Written.rule placedRule)) backwardRule := by
  have start : Rearranged .location (Written.location ⟨1, 2, none, none⟩) _ :=
    .backward [] rfl (.cons rfl (.plain _) (.cons rfl (.plain _) .nil)) (List.forall_mem_nil _)
  have place : Rearranged .position (Written.position ⟨⟨1, 2, none, none⟩, none, none⟩) _ :=
    .backward [("type", .null)] rfl (.cons rfl start .nil)
      (List.forall_mem_singleton.mpr ⟨rfl, rfl⟩)
  have rule : Rearranged .node (.object (Written.tag "rule" :: Written.rule placedRule)) _ :=
    .backward [("note", .string "type")] rfl (.cons rfl (.plain _) (.cons rfl (.plain _)
      (.cons rfl (.list .nil) (.cons rfl place .nil)))) (List.forall_mem_singleton.mpr ⟨rfl, rfl⟩)
  exact rule

theorem exact_backwardRule : backwardRule.Exact := by
  have place : ExactMembers [("column", .nat 2), ("line", .nat 1)] :=
    ⟨show 2 ≤ maxNatural by decide, show 1 ≤ maxNatural by decide, trivial⟩
  exact ⟨trivial, ⟨trivial, place, trivial⟩, trivial, ⟨trivial, trivial⟩, trivial, trivial⟩

def backwardText : String :=
  String.ofList ("\x7b \"type\" :true,\n\"stylesheet\":\x7b\"rules\"\t:[".toList ++
    backwardRule.chars ++ "\r]\x7d \x7d\n".toList)

theorem Json.Denotes.of_eq {s t : List Char} {v : Value} (h : Denotes s v) (same : s = t) :
    Denotes t v :=
  same ▸ h

theorem denotes_backwardText : Denotes backwardText.toList (.object [("type", .bool true),
    ("stylesheet", .object [("rules", .array [backwardRule])])]) := by
  have space : ∀ c ∈ [' ', '\n', '\t', '\r'], Blank [c] := by
    simp [Blank, Json.isBlank]
  have rules : DenotesMember _ ("rules", .array [backwardRule]) :=
    .intro blank_nil (quotes_quoted "rules") (space '\t' (by simp)) (.array (.last
      (.padded blank_nil (denotes_chars _ exact_backwardRule) (space '\r' (by simp)))))
  have sheet : DenotesMember _ ("stylesheet", .object [("rules", .array [backwardRule])]) :=
    .intro (space '\n' (by simp)) (quotes_quoted "stylesheet") blank_nil
      (.padded blank_nil (.object (.last rules)) (space ' ' (by simp)))
  have tag : DenotesMember _ ("type", .bool true) :=
    .intro (space ' ' (by simp)) (quotes_quoted "type") (space ' ' (by simp)) .yes
  have whole := Denotes.padded blank_nil (.object (.cons tag (.last sheet))) (space '\n' (by simp))
  refine whole.of_eq (Eq.trans ?_ String.toList_ofList.symm)
  decide +kernel

theorem parse_rearranged_placedRule :
    (Written.document ⟨[.rule placedRule]⟩).depth = 6 ∧
      Document.parse backwardText = .ok ⟨[.rule placedRule]⟩ := by
  have depth : (Written.document ⟨[.rule placedRule]⟩).depth = 6 := by decide +kernel
  have sheet : Rearranged .stylesheet
      (.object [("rules", .array (Written.nodes [.rule placedRule]))]) _ :=
    .backward [] rfl (.cons rfl (.list (.cons rearranged_backwardRule .nil)) .nil)
      (List.forall_mem_nil _)
  have whole : Rearranged .document (Written.document ⟨[.rule placedRule]⟩) _ :=
    .backward [("type", .bool true)] rfl (.cons rfl sheet .nil)
      (List.forall_mem_singleton.mpr ⟨rfl, rfl⟩)
  exact ⟨depth, (Document.parse_rearranged (by omega)).2.2 _ _ whole denotes_backwardText⟩

end CssPrinter
