import CssPrinter.Tree.Basic

/-!
# Comments of a tree

Comments stand among the nodes of a tree and among the declarations of a block. A tree may be free
of them, and any tree can be rid of them.
-/

namespace CssPrinter

def Declaration.isComment : Declaration → Bool
  | .comment _ => true
  | .property _ => false

namespace Node

def isComment : Node → Bool
  | .comment _ => true
  | _ => false

/-- The declaration blocks of a node, without those of the nodes in it. -/
def ownBlocks : Node → List (List Declaration)
  | .keyframes k => k.blocks.map (·.declarations)
  | .rule r => [r.declarations]
  | _ => []

/-- The node is no comment, and there is none among its declarations. -/
def CommentFree (n : Node) : Prop :=
  n.isComment = false ∧ ∀ ds ∈ n.ownBlocks, ∀ x ∈ ds, x.isComment = false

instance (n : Node) : Decidable n.CommentFree := inferInstanceAs (Decidable (_ ∧ _))

end Node

namespace Document

/-- The declaration blocks of rules and keyframes, in document order and at any depth. -/
def blocks (d : Document) : List (List Declaration) := d.allNodes.flatMap Node.ownBlocks

/-- There is no comment at any depth. -/
def CommentFree (d : Document) : Prop := ∀ n ∈ d.allNodes, n.CommentFree

instance (d : Document) : Decidable d.CommentFree :=
  inferInstanceAs (Decidable (∀ n ∈ d.allNodes, n.CommentFree))

end Document

/-! ### Removing comments -/

def uncommented (ds : List Declaration) : List Declaration := ds.filter fun x => !x.isComment

def Keyframe.withoutComments (k : Keyframe) : Keyframe :=
  { k with declarations := uncommented k.declarations }

def Keyframes.withoutComments (k : Keyframes) : Keyframes :=
  { k with blocks := k.blocks.map Keyframe.withoutComments }

def Rule.withoutComments (r : Rule) : Rule :=
  { r with declarations := uncommented r.declarations }

namespace Node

mutual

/-- A node without the comments in it. -/
def withoutComments : Node → Node
  | .keyframes k => .keyframes k.withoutComments
  | .media query ns => .media query (allWithoutComments ns)
  | .rule r => .rule r.withoutComments
  | n => n

def allWithoutComments : List Node → List Node
  | [] => []
  | n :: rest =>
    if n.isComment then allWithoutComments rest
    else withoutComments n :: allWithoutComments rest

end

end Node

/-- A document without all its comments. -/
def Document.withoutComments (d : Document) : Document := ⟨Node.allWithoutComments d.nodes⟩

theorem isComment_of_mem_uncommented {ds : List Declaration} {x : Declaration}
    (member : x ∈ uncommented ds) : x.isComment = false := by
  simpa using (List.mem_filter.mp member).2

/-! ### What is left -/

mutual

theorem commentFree_withoutComments :
    (n : Node) → n.isComment = false → ∀ m ∈ n.withoutComments.all, m.CommentFree
  | .comment _, kept => by cases kept
  | .charset _, _ | .imports _, _ => by
    simp [Node.withoutComments, Node.all, Node.CommentFree, Node.isComment, Node.ownBlocks]
  | .keyframes k, _ => by
    intro m member
    rw [Node.withoutComments, Node.all, List.mem_singleton] at member
    · subst member
      refine ⟨rfl, fun ds block x among => ?_⟩
      obtain ⟨b, present, rfl⟩ := List.mem_map.mp block
      obtain ⟨b, -, rfl⟩ := List.mem_map.mp present
      exact isComment_of_mem_uncommented among
    · simp
  | .media query ns, _ => by
    rw [Node.withoutComments, Node.all]
    refine List.forall_mem_cons.mpr ⟨⟨rfl, ?_⟩, commentFree_allWithoutComments ns⟩
    simp [Node.ownBlocks]
  | .rule r, _ => by
    intro m member
    rw [Node.withoutComments, Node.all, List.mem_singleton] at member
    · subst member
      refine ⟨rfl, fun ds block x among => ?_⟩
      obtain rfl := List.mem_singleton.mp block
      exact isComment_of_mem_uncommented among
    · simp

theorem commentFree_allWithoutComments :
    (ns : List Node) → ∀ m ∈ Node.allIn (Node.allWithoutComments ns), m.CommentFree
  | [] => by simp [Node.allWithoutComments, Node.allIn]
  | n :: ns => by
    have others := commentFree_allWithoutComments ns
    rw [Node.allWithoutComments]
    cases comment : n.isComment with
    | true => exact others
    | false =>
      have first := commentFree_withoutComments n comment
      simp only [Bool.false_eq_true, if_false, Node.allIn]
      exact List.forall_mem_append.mpr ⟨first, others⟩

end

mutual

theorem rules_withoutComments :
    (n : Node) → n.withoutComments.all.filterMap Node.rule? =
      (n.all.filterMap Node.rule?).map Rule.withoutComments
  | .comment _ | .charset _ | .imports _ | .keyframes _ => by
    simp [Node.withoutComments, Node.all, List.filterMap_cons, Node.rule?]
  | .media query ns => by
    have inside := rules_allWithoutComments ns
    simp [Node.withoutComments, Node.all, List.filterMap_cons, Node.rule?, inside]
  | .rule _ => by simp [Node.withoutComments, Node.all, Node.rule?]

theorem rules_allWithoutComments :
    (ns : List Node) → (Node.allIn (Node.allWithoutComments ns)).filterMap Node.rule? =
      ((Node.allIn ns).filterMap Node.rule?).map Rule.withoutComments
  | [] => by simp [Node.allWithoutComments, Node.allIn]
  | n :: ns => by
    have first := rules_withoutComments n
    have others := rules_allWithoutComments ns
    rw [Node.allWithoutComments]
    cases n with
    | comment text =>
      simpa [Node.isComment, Node.allIn, Node.all, List.filterMap_cons, Node.rule?] using others
    | _ => simp [Node.isComment, Node.allIn, first, others]

end

/-- A comment carries no rule, so the rules stay the same but for their declarations. -/
theorem Document.rules_withoutComments (d : Document) :
    d.withoutComments.rules = d.rules.map Rule.withoutComments :=
  rules_allWithoutComments d.nodes

end CssPrinter
