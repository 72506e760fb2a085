import CssPrinter.Proofs.Print.Failure
import CssPrinter.Proofs.Print.Inversion
import CssPrinter.Proofs.Tree.Comments

/-!
# Layout is whitespace

The `ink` of a text is what is left of it without spaces, tabs and line breaks. Two layouts that
indent by such characters print a tree without comments with the same ink, whatever its texts are
and at whatever depth it stands (`ink_node`). Compressing is a change of layout, so it changes
nothing else.
-/

namespace CssPrinter

def isBlank (c : Char) : Bool := c = ' ' || c = '\t' || c = '\r' || c = '\n'

/-- What is left without spaces, tabs, carriage returns and line feeds. -/
def ink (s : List Char) : List Char := s.filter fun c => !isBlank c

@[simp] theorem ink_nil : ink [] = [] := rfl

@[simp] theorem ink_append (s t : List Char) : ink (s ++ t) = ink s ++ ink t :=
  List.filter_append s t

theorem ink_cons (c : Char) (inked : isBlank c = false) (s : List Char) :
    ink (c :: s) = c :: ink s :=
  List.filter_cons_of_pos (by simp [inked])

theorem ink_of_blank {s : List Char} (blank : ∀ c ∈ s, isBlank c = true) : ink s = [] := by
  refine List.filter_eq_nil_iff.mpr fun c member => ?_
  simp [blank c member]

/-! ### Layout -/

namespace Style

variable {style : Style}

/-- Indentation is by characters that leave no ink. -/
def Inkless (style : Style) : Prop := ∀ c ∈ style.unit.toList, isBlank c = true

@[simp] theorem ink_gap : ink style.gap = [] :=
  ink_of_blank fun c member => by
    rcases blank_gap c member with rfl | rfl <;> rfl

@[simp] theorem ink_breakChars : ink style.breakChars = [] := by
  cases compress : style.compress with
  | true => rw [breakChars_of_compress compress, ink_nil]
  | false =>
    rw [breakChars_of_not_compress compress]
    rfl

theorem Inkless.ink_margin (inkless : style.Inkless) (d : Nat) : ink (style.margin d) = [] := by
  unfold margin leadText
  split
  · exact ink_of_blank (by simp)
  · exact ink_of_blank fun c member => inkless c (mem_of_mem_repeated member)

theorem ink_separated (fss : List (List Fragment)) :
    ink (charsOf (style.separated fss)) = fss.flatMap fun fs => ink (charsOf fs) := by
  fun_induction style.separated fss with
  | case1 => simp
  | case2 fs => simp
  | case3 fs rest _ ih => simp [ih]

end Style

/-! ### Two layouts -/

section Layouts

variable {style other : Style} (inkless : style.Inkless) (inkless' : other.Inkless)

include inkless inkless'

theorem ink_declarations (d e : Nat) {ds : List Declaration}
    (free : ∀ x ∈ ds, x.isComment = false) :
    ink (charsOf (style.declarations d ds)) = ink (charsOf (other.declarations e ds)) := by
  induction ds with
  | nil => rfl
  | cons x ds ih =>
    obtain ⟨first, others⟩ := List.forall_mem_cons.mp free
    cases x with
    | comment text => cases first
    | property p =>
      simp only [Style.declarations, charsOf_append, charsOf_property, ink_append, ih others,
        inkless.ink_margin, inkless'.ink_margin, ink_cons ':' rfl, Style.ink_gap,
        Style.ink_breakChars]

theorem ink_block (d e : Nat) {ds : List Declaration} (free : ∀ x ∈ ds, x.isComment = false) :
    ink (charsOf (style.block d ds)) = ink (charsOf (other.block e ds)) := by
  simp only [charsOf_block, ink_append, ink_cons '\x7b' rfl, ink_cons '\x7d' rfl, Style.ink_gap,
    Style.ink_breakChars, inkless.ink_margin, inkless'.ink_margin,
    ink_declarations inkless inkless' (d + 1) (e + 1) free]

theorem ink_keyframes (d e : Nat) {k : Keyframes}
    (free : ∀ b ∈ k.blocks, ∀ x ∈ b.declarations, x.isComment = false) :
    ink (charsOf (style.keyframes d k)) = ink (charsOf (other.keyframes e k)) := by
  have blocks : (k.blocks.map (style.keyframe (d + 1))).flatMap (fun fs => ink (charsOf fs)) =
      (k.blocks.map (other.keyframe (e + 1))).flatMap fun fs => ink (charsOf fs) := by
    rw [List.flatMap_map, List.flatMap_map]
    refine List.flatMap_congr fun b member => ?_
    simp only [Style.keyframe, Style.charsOf_indentation, charsOf_text, ink_append,
      inkless.ink_margin, inkless'.ink_margin,
      ink_block inkless inkless' (d + 1) (e + 1) (free b member)]
  simp only [Style.keyframes, Style.charsOf_indentation, charsOf_text, charsOf_append,
    Style.charsOf_openBlock, Style.charsOf_closeBlock, ink_append, Style.ink_separated,
    ink_cons '\x7b' rfl, ink_cons '\x7d' rfl, Style.ink_gap, Style.ink_breakChars,
    inkless.ink_margin, inkless'.ink_margin, blocks]

theorem ink_moreSelectors (d e : Nat) (more : List String) :
    ink (charsOf (style.moreSelectors d more)) = ink (charsOf (other.moreSelectors e more)) := by
  induction more with
  | nil => rfl
  | cons s more ih =>
    simp only [Style.moreSelectors, List.cons_append, Style.charsOf_indentation, charsOf_text,
      charsOf_append, Style.charsOf_lineBreak, ink_append, Style.ink_breakChars,
      inkless.ink_margin, inkless'.ink_margin, ih]

theorem ink_rule (d e : Nat) {r : Rule} (free : ∀ x ∈ r.declarations, x.isComment = false) :
    ink (charsOf (style.rule d r)) = ink (charsOf (other.rule e r)) := by
  rw [Style.rule, Style.rule, charsOf_append, charsOf_append, ink_append, ink_append,
    ink_block inkless inkless' d e free]
  congr 1
  unfold Style.selectors
  cases r.selectors with
  | nil => rfl
  | cons s more =>
    simp only [Style.charsOf_indentation, charsOf_mark, charsOf_text, ink_append,
      inkless.ink_margin, inkless'.ink_margin, ink_moreSelectors inkless inkless' d e more]

end Layouts

mutual

theorem ink_node {style other : Style} (inkless : style.Inkless) (inkless' : other.Inkless)
    (d e : Nat) :
    (n : Node) → (∀ m ∈ n.all, m.CommentFree) →
      ink (charsOf (style.node d n)) = ink (charsOf (other.node e n))
  | .comment text, free => by
    have impossible := (free (.comment text) (by simp [Node.all])).1
    cases impossible
  | .charset text, _ => by
    simp only [Style.node, Style.charsOf_indentation, charsOf_text, Style.charsOf_lineBreak,
      ink_append, Style.ink_breakChars, inkless.ink_margin, inkless'.ink_margin]
  | .keyframes k, free => by
    rw [Style.node, Style.node]
    refine ink_keyframes inkless inkless' d e fun b member => ?_
    exact (free (.keyframes k) (by simp [Node.all])).2 _ (List.mem_map_of_mem member)
  | .media query ns, free => by
    rw [Node.all] at free
    have inside := ink_nodeList inkless inkless' (d + 1) (e + 1) ns
      (List.forall_mem_cons.mp free).2
    simp only [Style.node, Style.charsOf_indentation, charsOf_text, charsOf_append,
      Style.charsOf_openBlock, Style.charsOf_closeBlock, ink_append, Style.ink_separated,
      ink_cons '\x7b' rfl, ink_cons '\x7d' rfl, Style.ink_gap, Style.ink_breakChars,
      inkless.ink_margin, inkless'.ink_margin, inside]
  | .imports text, _ => by
    simp only [Style.node, Style.charsOf_indentation, charsOf_text, ink_append,
      inkless.ink_margin, inkless'.ink_margin]
  | .rule r, free => by
    rw [Style.node, Style.node]
    refine ink_rule inkless inkless' d e ?_
    exact (free (.rule r) (by simp [Node.all])).2 _ (by simp [Node.ownBlocks])

theorem ink_nodeList {style other : Style} (inkless : style.Inkless) (inkless' : other.Inkless)
    (d e : Nat) :
    (ns : List Node) → (∀ m ∈ Node.allIn ns, m.CommentFree) →
      (style.nodeList d ns).flatMap (fun fs => ink (charsOf fs)) =
        (other.nodeList e ns).flatMap fun fs => ink (charsOf fs)
  | [], _ => by rw [Style.nodeList, Style.nodeList]
  | n :: ns, free => by
    rw [Node.allIn] at free
    obtain ⟨first, others⟩ := List.forall_mem_append.mp free
    rw [Style.nodeList, Style.nodeList, List.flatMap_cons, List.flatMap_cons,
      ink_node inkless inkless' d e n first, ink_nodeList inkless inkless' d e ns others]

end

/-! ### Compressing -/

theorem ink_fragments {d : Document} (free : d.CommentFree) {o₁ o₂ : Options}
    (inkless₁ : o₁.style.Inkless) (inkless₂ : o₂.style.Inkless) :
    ink (rendered (d.fragments o₁)).toList = ink (rendered (d.fragments o₂)).toList := by
  have text (o : Options) : ink (rendered (d.fragments o)).toList =
      (o.style.nodeList 0 d.nodes).flatMap fun fs => ink (charsOf fs) := Style.ink_separated _
  rw [text, text]
  exact ink_nodeList inkless₁ inkless₂ 0 0 d.nodes free

/-- A document without comments is printed with and without compression, or fails with the same
error in both cases. The two texts differ in whitespace only, if indentation is whitespace. -/
theorem Document.print_compress_ink (d : Document) (options : Options) (free : d.CommentFree)
    (blank : ∀ c ∈ options.unit.toList, c = ' ' ∨ c = '\t' ∨ c = '\r' ∨ c = '\n') :
    (∃ e, d.print { options with compress := false } = .error e ∧
      d.print { options with compress := true } = .error e) ∨
    ∃ pretty compressed, d.print { options with compress := false } = .ok pretty ∧
      d.print { options with compress := true } = .ok compressed ∧
      ink pretty.css.toList = ink compressed.css.toList := by
  have inkless : ∀ c ∈ options.unit.toList, isBlank c = true := by
    intro c member
    rcases blank c member with rfl | rfl | rfl | rfl <;> rfl
  have printed := d.print_eq_match { options with compress := false }
  have printed' := d.print_eq_match { options with compress := true }
  have wanted (compress : Bool) : Options.wantsMap { options with compress } = options.wantsMap :=
    rfl
  rw [wanted] at printed printed'
  cases fault : (d.rules.map Rule.check).findSome? (RuleCheck.fault? options.wantsMap) with
  | some e =>
    rw [fault] at printed printed'
    exact Or.inl ⟨e, printed, printed'⟩
  | none =>
    rw [fault] at printed printed'
    refine Or.inr ⟨_, _, printed, printed', ?_⟩
    have same : ink (rendered (d.fragments { options with compress := false })).toList =
        ink (rendered (d.fragments { options with compress := true })).toList :=
      ink_fragments free inkless inkless
    rw [String.toList_append, String.toList_append, ink_append, ink_append, same]
    rfl

end CssPrinter
