import CssPrinter.Proofs.Print.Indentation
import CssPrinter.Proofs.Print.Inversion
import CssPrinter.Proofs.Print.Places
import CssPrinter.Proofs.Print.Siblings
import CssPrinter.Proofs.Tree.Comments
import CssPrinter.Text.Split
import Mathlib.Algebra.Ring.Nat

/-!
# Nesting and indentation

What a media block holds is printed as it would be at the top level, with one more indentation unit
in front of every line. Units go astray inside lines as well: in front of each comma between two
selectors, and in front of the brace that closes a block behind an import, which ends no line. The
text of a block is the indented text with these units strewn into it (`Document.print_media`).
-/

namespace CssPrinter

/-! ### Strewn units -/

/-- The second text is the first one with some more units in it, each of them in front of a comma or
a closing brace. -/
inductive Strewn (unit : List Char) : Nat → List Char → List Char → Prop
  | nil : Strewn unit 0 [] []
  | keep (c : Char) {k : Nat} {s t : List Char} (rest : Strewn unit k s t) :
    Strewn unit k (c :: s) (c :: t)
  | stray {c : Char} (mark : c = ',' ∨ c = '\x7d') {k : Nat} {s t : List Char}
    (rest : Strewn unit k s t) : Strewn unit (k + 1) (c :: s) (unit ++ c :: t)

namespace Strewn

variable {unit s t : List Char} {k : Nat}

theorem refl (s : List Char) : Strewn unit 0 s s := by
  induction s with
  | nil => exact .nil
  | cons c s ih => exact .keep c ih

theorem append (first : Strewn unit k s t) {l : Nat} {s' t' : List Char}
    (second : Strewn unit l s' t') : Strewn unit (k + l) (s ++ s') (t ++ t') := by
  induction first with
  | nil =>
    rw [Nat.zero_add]
    exact second
  | keep c _ ih => exact .keep c ih
  | stray mark _ ih =>
    rw [Nat.add_right_comm, List.append_assoc]
    exact .stray mark ih

theorem prepend (r : List Char) (h : Strewn unit k s t) : Strewn unit k (r ++ s) (r ++ t) := by
  have both := (refl r).append h
  rw [Nat.zero_add] at both
  exact both

theorem length_eq (h : Strewn unit k s t) : t.length = s.length + k * unit.length := by
  induction h with
  | nil => simp
  | keep c _ ih => simp [ih, Nat.add_right_comm]
  | stray _ _ ih =>
    simp [ih, Nat.succ_mul]
    omega

theorem eq_of_zero (h : Strewn unit 0 s t) : t = s := by
  generalize zero : 0 = k at h
  induction h with
  | nil => rfl
  | keep c _ ih => rw [ih zero]
  | stray _ _ _ => cases zero

/-- Units that are not empty show. -/
theorem eq_iff (h : Strewn unit k s t) (filled : unit ≠ []) : t = s ↔ k = 0 := by
  constructor
  · rintro rfl
    have sum := h.length_eq
    have width := List.length_pos_iff.mpr filled
    have none : k * unit.length = 0 := by omega
    exact (Nat.mul_eq_zero.mp none).resolve_right (Nat.ne_of_gt width)
  · rintro rfl
    exact h.eq_of_zero

end Strewn

/-! ### Lines of the layout -/

namespace Fragment

/-- Whether a fragment puts something on its line. -/
def fills : Fragment → Bool
  | .lineBreak => false
  | f => f.written ≠ ""

def ends : Fragment → Bool
  | .comment _ => true
  | .lineBreak => true
  | _ => false

/-- Whether nothing stands on the line behind a fragment, given whether anything did before. -/
def leavesFresh (fresh : Bool) (f : Fragment) : Bool := f.ends || fresh && !f.fills

end Fragment

def freshAfter (fresh : Bool) (fs : List Fragment) : Bool := fs.foldl Fragment.leavesFresh fresh

/-- The text of fragments, with a unit in front of every line of the layout that is not empty. -/
def indented (unit : List Char) (fresh : Bool) : List Fragment → List Char
  | [] => []
  | f :: fs =>
    (if fresh && f.fills then unit else []) ++
      (f.written.toList ++ indented unit (f.leavesFresh fresh) fs)

theorem charsOf_cons (f : Fragment) (fs : List Fragment) :
    charsOf (f :: fs) = f.written.toList ++ charsOf fs := by
  simp [charsOf, rendered]

theorem indented_append (unit : List Char) (fresh : Bool) (fs gs : List Fragment) :
    indented unit fresh (fs ++ gs) =
      indented unit fresh fs ++ indented unit (freshAfter fresh fs) gs := by
  induction fs generalizing fresh with
  | nil => rfl
  | cons f fs ih =>
    rw [List.cons_append, indented, indented, ih]
    simp [freshAfter]

theorem Fragment.Inline.fills_eq {f : Fragment} (inline : f.Inline) :
    f.fills = decide (f.written ≠ "") := by
  cases f with
  | comment _ | lineBreak => exact inline.elim
  | lead _ | text _ | mark _ => rfl

theorem Fragment.Inline.leavesFresh_eq {f : Fragment} (inline : f.Inline) (fresh : Bool) :
    f.leavesFresh fresh = (fresh && decide (f.written = "")) := by
  have stays : f.ends = false := by
    cases f with
    | comment _ | lineBreak => exact inline.elim
    | lead _ | text _ | mark _ => rfl
  simp [leavesFresh, stays, inline.fills_eq]

section Inline

variable {unit : List Char} {fs : List Fragment} (inline : ∀ f ∈ fs, f.Inline)

include inline

theorem freshAfter_false : freshAfter false fs = false := by
  induction fs with
  | nil => rfl
  | cons f fs ih =>
    obtain ⟨first, others⟩ := List.forall_mem_cons.mp inline
    show freshAfter (f.leavesFresh false) fs = false
    rw [first.leavesFresh_eq]
    exact ih others

theorem indented_false : indented unit false fs = charsOf fs := by
  induction fs with
  | nil => rw [charsOf_nil, indented]
  | cons f fs ih =>
    obtain ⟨first, others⟩ := List.forall_mem_cons.mp inline
    rw [indented, first.leavesFresh_eq, charsOf_cons]
    exact congrArg (f.written.toList ++ ·) (ih others)

/-- A line that is not empty is indented once. -/
theorem indented_true (filled : charsOf fs ≠ []) :
    indented unit true fs = unit ++ charsOf fs ∧ freshAfter true fs = false := by
  induction fs with
  | nil => exact absurd charsOf_nil filled
  | cons f fs ih =>
    obtain ⟨first, others⟩ := List.forall_mem_cons.mp inline
    have later : freshAfter true (f :: fs) = freshAfter (f.leavesFresh true) fs := rfl
    rw [later, indented, first.leavesFresh_eq, first.fills_eq, charsOf_cons]
    by_cases empty : f.written = ""
    · rw [charsOf_cons, empty] at filled
      simpa [empty] using ih others (by simpa using filled)
    · simp [empty, indented_false others, freshAfter_false others]

end Inline

/-! ### One level deeper -/

/-- `gs` is what `fs` is one level deeper: it has a unit more in front of every line, and `k`
further ones inside lines. -/
structure Deepens (unit : List Char) (fresh : Bool) (k : Nat) (fs gs : List Fragment)
    (next : Bool) : Prop where
  state : freshAfter fresh fs = next
  text : Strewn unit k (indented unit fresh fs) (charsOf gs)

namespace Deepens

variable {unit : List Char} {fresh next last : Bool} {k l : Nat} {fs gs fs' gs' : List Fragment}

theorem nil (fresh : Bool) : Deepens unit fresh 0 [] [] fresh where
  state := rfl
  text := by
    rw [charsOf_nil]
    exact .nil

theorem append (first : Deepens unit fresh k fs gs next)
    (second : Deepens unit next l fs' gs' last) :
    Deepens unit fresh (k + l) (fs ++ fs') (gs ++ gs') last where
  state := by
    rw [freshAfter, List.foldl_append]
    exact (congrArg (freshAfter · fs') first.state).trans second.state
  text := by
    rw [indented_append, first.state, charsOf_append]
    exact first.text.append second.text

theorem lineBreak (fresh : Bool) : Deepens unit fresh 0 [.lineBreak] [.lineBreak] true where
  state := rfl
  text := by
    have text : indented unit fresh [.lineBreak] = charsOf [.lineBreak] := by
      simp [indented, Fragment.fills, Fragment.written]
    rw [text]
    exact .refl _

/-- A line up to its end. -/
theorem start {t : List Char} (inline : ∀ f ∈ fs, f.Inline) (filled : charsOf fs ≠ [])
    (deeper : charsOf gs = unit ++ t) (strewn : Strewn unit k (charsOf fs) t) :
    Deepens unit true k fs gs false := by
  obtain ⟨text, state⟩ : indented unit true fs = unit ++ charsOf fs ∧ freshAfter true fs = false :=
    indented_true inline filled
  refine ⟨state, ?_⟩
  rw [text, deeper]
  exact strewn.prepend unit

end Deepens

section Pretty

variable {style : Style} (kept : style.compress = false)

include kept

theorem margin_succ (d : Nat) : style.margin (d + 1) = style.unit.toList ++ style.margin d := by
  simp [Style.margin, Style.leadText, kept, repeated]

theorem margin_succ' (d : Nat) : style.margin (d + 1) = style.margin d ++ style.unit.toList := by
  induction d with
  | zero => simp [Style.margin, Style.leadText, kept, repeated]
  | succ d ih =>
    rw [margin_succ kept, ih, ← List.append_assoc, ← margin_succ kept, ih]

/-- Indentation that starts no line goes astray. -/
theorem strewn_margin (d : Nat) {c : Char} (mark : c = ',' ∨ c = '\x7d') :
    Strewn style.unit.toList 1 (style.margin d ++ [c]) (style.margin (d + 1) ++ [c]) := by
  rw [margin_succ' kept, List.append_assoc]
  exact (Strewn.stray mark .nil).prepend _

theorem deepens_openBlock {fs gs : List Fragment} (inline : ∀ f ∈ fs, f.Inline)
    (deeper : charsOf gs = style.unit.toList ++ charsOf fs) :
    Deepens style.unit.toList true 0 (fs ++ style.openBlock) (gs ++ style.openBlock) true := by
  have line : Deepens style.unit.toList true 0 (fs ++ [style.space, .text "\x7b"])
      (gs ++ [style.space, .text "\x7b"]) false := by
    refine .start (List.forall_mem_append.mpr ⟨inline, ?_⟩) (by simp) (by simp [deeper]) (.refl _)
    simp [Style.space, Fragment.Inline]
  have both := line.append (.lineBreak false)
  rw [Style.openBlock, lineBreak_of_not_compress kept]
  simpa using both

theorem deepens_closeBlock (fresh : Bool) (d : Nat) :
    Deepens style.unit.toList fresh (if fresh then 0 else 1) (style.closeBlock d)
      (style.closeBlock (d + 1)) true := by
  have inline : ∀ f ∈ [style.indentation d, .text "\x7d"], f.Inline := by
    simp [Style.indentation, Fragment.Inline]
  have line : Deepens style.unit.toList fresh (if fresh then 0 else 1)
      [style.indentation d, .text "\x7d"] [style.indentation (d + 1), .text "\x7d"] false := by
    cases fresh with
    | true => exact .start inline (by simp) (by simp [margin_succ kept]) (.refl _)
    | false =>
      refine ⟨freshAfter_false inline, ?_⟩
      rw [indented_false inline]
      simpa using strewn_margin kept d (Or.inr rfl)
  have both := line.append (.lineBreak false)
  rw [Style.closeBlock, Style.closeBlock, lineBreak_of_not_compress kept]
  simpa using both

theorem deepens_comment (d : Nat) (text : String) :
    Deepens style.unit.toList true 0 (style.comment d text) (style.comment (d + 1) text) true := by
  have split (d : Nat) : style.comment d text = [style.indentation d] ++ [.comment text] := by
    simp [Style.comment, kept]
  have indent (unit : List Char) : indented unit true [style.indentation d, .comment text] =
      unit ++ (style.margin d ++ charsOf [.comment text]) := by
    by_cases empty : style.leadText d .level = "" <;>
      simp [indented, Style.indentation, Fragment.fills, Fragment.leavesFresh, Fragment.ends,
        Fragment.written, Style.margin, empty]
  constructor
  · rw [split]
    rfl
  · rw [split, split, List.singleton_append, indent, List.singleton_append,
      Style.charsOf_indentation, margin_succ kept, List.append_assoc]
    exact .refl _

theorem deepens_property (d : Nat) (p : Property) (isLast : Bool) :
    Deepens style.unit.toList true 0 (style.property d p isLast) (style.property (d + 1) p isLast)
      true := by
  have line (stop : List Fragment) (inline : ∀ f ∈ stop, f.Inline) :
      Deepens style.unit.toList true 0
        ([style.indentation d, .text (p.name ++ ":"), style.space, .text p.value] ++ stop)
        ([style.indentation (d + 1), .text (p.name ++ ":"), style.space, .text p.value] ++ stop)
        false := by
    refine .start (List.forall_mem_append.mpr ⟨?_, inline⟩) (by simp) (by simp [margin_succ kept])
      (.refl _)
    simp [Style.indentation, Style.space, Fragment.Inline]
  have all := (line (if isLast then [] else [.text ";"]) (by
    cases isLast <;> simp [Fragment.Inline])).append (.lineBreak false)
  rw [Style.property, Style.property, lineBreak_of_not_compress kept]
  exact all

theorem deepens_declarations (d : Nat) (ds : List Declaration) :
    Deepens style.unit.toList true 0 (style.declarations d ds) (style.declarations (d + 1) ds)
      true := by
  induction ds with
  | nil =>
    rw [Style.declarations, Style.declarations]
    exact .nil true
  | cons x ds ih =>
    cases x with
    | comment text =>
      rw [Style.declarations, Style.declarations]
      exact (deepens_comment kept d text).append ih
    | property p =>
      rw [Style.declarations, Style.declarations]
      exact (deepens_property kept d p _).append ih

theorem deepens_block (d : Nat) {fs gs : List Fragment} (ds : List Declaration)
    (inline : ∀ f ∈ fs, f.Inline) (deeper : charsOf gs = style.unit.toList ++ charsOf fs) :
    Deepens style.unit.toList true 0 (fs ++ style.block d ds) (gs ++ style.block (d + 1) ds)
      true := by
  have opened := deepens_openBlock kept inline deeper
  have all := (opened.append (deepens_declarations kept (d + 1) ds)).append
    (deepens_closeBlock kept true d)
  simpa [Style.block] using all

/-- Every further selector takes a comma behind the one before it, and the comma is indented. -/
theorem deepens_selectors (d : Nat) {fs gs : List Fragment} (more : List String)
    (ds : List Declaration) (inline : ∀ f ∈ fs, f.Inline)
    (deeper : charsOf gs = style.unit.toList ++ charsOf fs) :
    Deepens style.unit.toList true more.length
      (fs ++ (style.moreSelectors d more ++ style.block d ds))
      (gs ++ (style.moreSelectors (d + 1) more ++ style.block (d + 1) ds)) true := by
  induction more generalizing fs gs with
  | nil => exact deepens_block kept d ds inline deeper
  | cons s more ih =>
    have comma : Deepens style.unit.toList true 1 (fs ++ [style.indentation d, .text ","])
        (gs ++ [style.indentation (d + 1), .text ","]) false := by
      have astray : Strewn style.unit.toList 1 (charsOf (fs ++ [style.indentation d, .text ","]))
          (charsOf fs ++ (style.margin (d + 1) ++ [','])) := by
        simpa using (strewn_margin kept d (Or.inl rfl)).prepend (charsOf fs)
      refine .start (List.forall_mem_append.mpr ⟨inline, ?_⟩) (by simp) (by simp [deeper]) astray
      simp [Style.indentation, Fragment.Inline]
    have next : Deepens style.unit.toList true more.length
        ([style.indentation d, .text s] ++ (style.moreSelectors d more ++ style.block d ds))
        ([style.indentation (d + 1), .text s] ++
          (style.moreSelectors (d + 1) more ++ style.block (d + 1) ds)) true :=
      ih (by simp [Style.indentation, Fragment.Inline]) (by simp [margin_succ kept])
    have all := (comma.append (.lineBreak false)).append next
    rw [Nat.add_zero, Nat.add_comm] at all
    simpa [Style.moreSelectors, lineBreak_of_not_compress kept] using all

theorem deepens_rule (d : Nat) {r : Rule} (filled : r.selectors ≠ []) :
    Deepens style.unit.toList true (r.selectors.length - 1) (style.rule d r)
      (style.rule (d + 1) r) true := by
  obtain ⟨s, more, selectors⟩ := List.exists_cons_of_ne_nil filled
  have head : Deepens style.unit.toList true more.length
      ([style.indentation d, .mark r, .text s] ++
        (style.moreSelectors d more ++ style.block d r.declarations))
      ([style.indentation (d + 1), .mark r, .text s] ++
        (style.moreSelectors (d + 1) more ++ style.block (d + 1) r.declarations)) true :=
    deepens_selectors kept d more r.declarations (by simp [Style.indentation, Fragment.Inline])
      (by simp [margin_succ kept])
  simpa [Style.rule, Style.selectors, selectors] using head

/-- Siblings are indented one by one. The last one decides whether a line is left open. -/
theorem deepens_separated {α : Type} {f g : α → List Fragment} {strays : α → Nat}
    {closed : α → Bool} {xs : List α}
    (each : ∀ x ∈ xs, Deepens style.unit.toList true (strays x) (f x) (g x) (closed x)) :
    Deepens style.unit.toList true (xs.map strays).sum (style.separated (xs.map f))
      (style.separated (xs.map g)) (xs.getLast?.all closed) := by
  induction xs with
  | nil => exact .nil true
  | cons x xs ih =>
    obtain ⟨first, others⟩ := List.forall_mem_cons.mp each
    cases xs with
    | nil => simpa [Style.separated] using first
    | cons y xs =>
      have all := first.append ((Deepens.lineBreak (closed x)).append (ih others))
      rw [Nat.zero_add] at all
      simpa [Style.separated_cons_cons, lineBreak_of_not_compress kept] using all

theorem deepens_keyframes (d : Nat) (k : Keyframes) :
    Deepens style.unit.toList true 0 (style.keyframes d k) (style.keyframes (d + 1) k) true := by
  have opened : Deepens style.unit.toList true 0
      ([style.indentation d, .text ("@" ++ k.vendor.getD "" ++ "keyframes " ++ k.name)] ++
        style.openBlock)
      ([style.indentation (d + 1), .text ("@" ++ k.vendor.getD "" ++ "keyframes " ++ k.name)] ++
        style.openBlock) true :=
    deepens_openBlock kept (by simp [Style.indentation, Fragment.Inline])
      (by simp [margin_succ kept])
  have each : ∀ b ∈ k.blocks, Deepens style.unit.toList true 0 (style.keyframe (d + 1) b)
      (style.keyframe (d + 1 + 1) b) true := by
    intro b _
    have block : Deepens style.unit.toList true 0
        ([style.indentation (d + 1), .text (String.intercalate ", " b.values)] ++
          style.block (d + 1) b.declarations)
        ([style.indentation (d + 1 + 1), .text (String.intercalate ", " b.values)] ++
          style.block (d + 1 + 1) b.declarations) true :=
      deepens_block kept (d + 1) b.declarations (by simp [Style.indentation, Fragment.Inline])
        (by simp [margin_succ kept (d + 1)])
    exact block
  have blocks := deepens_separated kept each
  have closed : k.blocks.getLast?.all (fun _ => true) = true := by cases k.blocks.getLast? <;> rfl
  rw [closed] at blocks
  have all := (opened.append blocks).append (deepens_closeBlock kept true d)
  simpa [Style.keyframes] using all

end Pretty

/-! ### Trees -/

namespace Node

def isImport : Node → Bool
  | .imports _ => true
  | _ => false

/-- Whether sibling nodes end with the end of a line. -/
def endLine (ns : List Node) : Bool := ns.getLast?.all fun n => !n.isImport

/-- The indentations that a node itself puts inside a line: one for each comma between selectors,
and one for the brace behind an import. -/
def strays : Node → Nat
  | .media _ ns => if endLine ns then 0 else 1
  | .rule r => r.selectors.length - 1
  | _ => 0

/-- The indentations inside lines, at any depth. -/
def straysIn (ns : List Node) : Nat := ((allIn ns).map strays).sum

theorem straysIn_eq_sum (ns : List Node) :
    straysIn ns = (ns.map fun n => (n.all.map strays).sum).sum := by
  unfold straysIn
  induction ns with
  | nil => simp [allIn]
  | cons n ns ih => simp [allIn, ih]

end Node

/-- The part of a tree that a node is, one level deeper. -/
def Node.Deepens (style : Style) (d : Nat) (n : Node) : Prop :=
  CssPrinter.Deepens style.unit.toList true (n.all.map strays).sum (style.node d n)
    (style.node (d + 1) n) (!n.isImport)

theorem deepens_nodes {style : Style} (kept : style.compress = false) (d : Nat) {ns : List Node}
    (each : ∀ n ∈ ns, n.Deepens style d) :
    Deepens style.unit.toList true (Node.straysIn ns) (style.nodes d ns) (style.nodes (d + 1) ns)
      (Node.endLine ns) := by
  rw [Style.nodes, Style.nodes, Style.nodeList_eq_map, Style.nodeList_eq_map, Node.straysIn_eq_sum]
  exact deepens_separated kept each

theorem deepens_media {style : Style} (kept : style.compress = false) (d : Nat) (query : String)
    {ns : List Node} (each : ∀ n ∈ ns, n.Deepens style (d + 1)) :
    (Node.media query ns).Deepens style d := by
  have opened : Deepens style.unit.toList true 0
      ([style.indentation d, .text ("@media " ++ query)] ++ style.openBlock)
      ([style.indentation (d + 1), .text ("@media " ++ query)] ++ style.openBlock) true :=
    deepens_openBlock kept (by simp [Style.indentation, Fragment.Inline])
      (by simp [margin_succ kept])
  have all := (opened.append (deepens_nodes kept (d + 1) each)).append
    (deepens_closeBlock kept (Node.endLine ns) d)
  rw [Nat.zero_add, Nat.add_comm] at all
  simpa [Node.Deepens, Node.all, Node.strays, Node.straysIn, Node.isImport, Style.node, Style.nodes]
    using all

mutual

theorem deepens_node {style : Style} (kept : style.compress = false) (d : Nat) :
    (n : Node) → (∀ r, .rule r ∈ n.all → r.selectors ≠ []) → n.Deepens style d
  | .comment text, _ => by
    simpa [Node.Deepens, Node.all, Node.strays, Node.isImport, Style.node] using
      deepens_comment kept d text
  | .charset text, _ => by
    have line : Deepens style.unit.toList true 0
        [style.indentation d, .text ("@charset " ++ text ++ ";")]
        [style.indentation (d + 1), .text ("@charset " ++ text ++ ";")] false :=
      .start (by simp [Style.indentation, Fragment.Inline]) (by simp) (by simp [margin_succ kept])
        (.refl _)
    have both := line.append (.lineBreak false)
    simpa [Node.Deepens, Node.all, Node.strays, Node.isImport, Style.node,
      lineBreak_of_not_compress kept] using both
  | .keyframes k, _ => by
    simpa [Node.Deepens, Node.all, Node.strays, Node.isImport, Style.node] using
      deepens_keyframes kept d k
  | .media query ns, filled => by
    rw [Node.all] at filled
    refine deepens_media kept d query (deepens_each kept (d + 1) ns fun r member => ?_)
    exact filled r (List.mem_cons_of_mem _ member)
  | .imports text, _ => by
    have line : Deepens style.unit.toList true 0
        [style.indentation d, .text ("@import " ++ text ++ ";")]
        [style.indentation (d + 1), .text ("@import " ++ text ++ ";")] false :=
      .start (by simp [Style.indentation, Fragment.Inline]) (by simp) (by simp [margin_succ kept])
        (.refl _)
    simpa [Node.Deepens, Node.all, Node.strays, Node.isImport, Style.node] using line
  | .rule r, filled => by
    have own := deepens_rule kept d (filled r (by simp [Node.all]))
    simpa [Node.Deepens, Node.all, Node.strays, Node.isImport, Style.node] using own

theorem deepens_each {style : Style} (kept : style.compress = false) (d : Nat) :
    (ns : List Node) → (∀ r, .rule r ∈ Node.allIn ns → r.selectors ≠ []) →
      ∀ n ∈ ns, n.Deepens style d
  | [], _ => fun n member => nomatch member
  | n :: ns, filled => by
    rw [Node.allIn] at filled
    refine List.forall_mem_cons.mpr ⟨?_, ?_⟩
    · exact deepens_node kept d n fun r member => filled r (List.mem_append_left _ member)
    · exact deepens_each kept d ns fun r member => filled r (List.mem_append_right _ member)

end

/-! ### Lines of the text -/

def indentLine (unit line : List Char) : List Char := if line = [] then [] else unit ++ line

/-- A text with a unit in front of every line that is not empty. -/
def indentLines (unit text : List Char) : List Char :=
  List.intercalate ['\n'] ((splitAt '\n' text).map (indentLine unit))

theorem indentLines_of_not_mem (unit : List Char) {line : List Char} (flat : '\n' ∉ line) :
    indentLines unit line = indentLine unit line := by
  rw [indentLines, splitAt_of_not_mem flat]
  exact List.intercalate_singleton

theorem indentLines_append (unit : List Char) {line : List Char} (flat : '\n' ∉ line)
    (rest : List Char) :
    indentLines unit (line ++ '\n' :: rest) =
      indentLine unit line ++ '\n' :: indentLines unit rest := by
  obtain ⟨next, more, parts⟩ := List.exists_cons_of_ne_nil (splitAt_ne_nil '\n' rest)
  rw [indentLines, indentLines, splitAt_append, splitAt_of_not_mem flat, parts]
  simp [List.intercalate_cons_cons]

def Fragment.comment? : Fragment → Option String
  | .comment s => some s
  | _ => none

def commentsOf (fs : List Fragment) : List String := fs.filterMap Fragment.comment?

theorem indentLine_append (unit : List Char) (line : List Char) {f : Fragment}
    (inline : f.Inline) (rest : List Fragment) :
    indentLine unit (line ++ f.written.toList) ++
        indented unit (line ++ f.written.toList = []) rest =
      indentLine unit line ++ indented unit (line = []) (f :: rest) := by
  rw [indented, inline.fills_eq, inline.leavesFresh_eq]
  by_cases start : line = [] <;> by_cases empty : f.written = "" <;>
    simp [indentLine, start, empty]

/-- Where no text has a line feed, the lines of the layout are those of the text. -/
theorem indentLines_charsOf (unit : List Char) {fs : List Fragment} (flat : AllFlat fs)
    (comments : FlatTexts (commentsOf fs)) {line : List Char} (open_ : '\n' ∉ line) :
    indentLines unit (line ++ charsOf fs) =
      indentLine unit line ++ indented unit (line = []) fs := by
  induction fs generalizing line with
  | nil =>
    rw [charsOf_nil, List.append_nil, indentLines_of_not_mem unit open_, indented, List.append_nil]
  | cons f fs ih =>
    obtain ⟨first, others⟩ := allFlat_cons.mp flat
    have step (inline : f.Inline) := indentLine_append unit line inline fs
    cases f with
    | lead s | text s =>
      have longer : '\n' ∉ line ++ s.toList := fun member =>
        (List.mem_append.mp member).elim open_ first
      rw [charsOf_cons, ← List.append_assoc, ← step trivial]
      exact ih others comments longer
    | mark r =>
      rw [charsOf_mark, ← step trivial]
      simpa [Fragment.written] using ih others comments open_
    | comment s =>
      obtain ⟨own, rest⟩ := List.forall_mem_cons.mp comments
      have next := ih others rest List.not_mem_nil
      have longer : '\n' ∉ line ++ ("/*" ++ s ++ "*/").toList := by simp [open_, own]
      have text : line ++ charsOf (.comment s :: fs) =
          line ++ ("/*" ++ s ++ "*/").toList ++ '\n' :: charsOf fs := by simp
      rw [text, indentLines_append unit longer]
      by_cases start : line = [] <;>
        simpa [indentLine, start, indented, Fragment.fills, Fragment.leavesFresh, Fragment.ends,
          Fragment.written] using next
    | lineBreak =>
      have next := ih others comments List.not_mem_nil
      rw [charsOf_break, indentLines_append unit open_]
      simpa [indentLine, indented, Fragment.fills, Fragment.leavesFresh, Fragment.ends,
        Fragment.written] using next

/-! ### Comments that are printed -/

def Declaration.comment? : Declaration → Option String
  | .comment text => some text
  | .property _ => none

/-- The comments of a node, without those of the nodes in it. -/
def Node.comments : Node → List String
  | .comment text => [text]
  | n => n.ownBlocks.flatMap fun ds => ds.filterMap Declaration.comment?

@[simp] theorem commentsOf_nil : commentsOf [] = [] := rfl

@[simp] theorem commentsOf_append (fs gs : List Fragment) :
    commentsOf (fs ++ gs) = commentsOf fs ++ commentsOf gs :=
  List.filterMap_append

@[simp] theorem commentsOf_cons (f : Fragment) (fs : List Fragment) :
    commentsOf (f :: fs) = f.comment?.toList ++ commentsOf fs := by
  cases f <;> rfl

section Comments

variable {style : Style} (kept : style.compress = false)

@[simp] theorem comment?_indentation (d : Nat) : (style.indentation d).comment? = none := rfl

@[simp] theorem comment?_space : style.space.comment? = none := rfl

@[simp] theorem comment?_text (s : String) : (Fragment.text s).comment? = none := rfl

@[simp] theorem comment?_comment (s : String) : (Fragment.comment s).comment? = some s := rfl

@[simp] theorem comment?_mark (r : Rule) : (Fragment.mark r).comment? = none := rfl

@[simp] theorem commentsOf_lineBreak : commentsOf style.lineBreak = [] := by
  unfold Style.lineBreak
  split <;> rfl

theorem commentsOf_separated (fss : List (List Fragment)) :
    commentsOf (style.separated fss) = fss.flatMap commentsOf := by
  fun_induction style.separated fss with
  | case1 => rfl
  | case2 fs => simp
  | case3 fs rest h ih => simp [ih]

theorem commentsOf_moreSelectors (d : Nat) (more : List String) :
    commentsOf (style.moreSelectors d more) = [] := by
  induction more with
  | nil => rfl
  | cons s more ih => simp [Style.moreSelectors, ih]

include kept

theorem commentsOf_declarations (d : Nat) (ds : List Declaration) :
    commentsOf (style.declarations d ds) = ds.filterMap Declaration.comment? := by
  induction ds with
  | nil => rfl
  | cons x ds ih =>
    cases x with
    | comment text =>
      simp [Style.declarations, Style.comment, kept, Declaration.comment?, ih]
    | property p =>
      cases last : ds.isEmpty <;>
        simp [Style.declarations, Style.property, last, List.filterMap_cons, Declaration.comment?,
          ih]

theorem commentsOf_block (d : Nat) (ds : List Declaration) :
    commentsOf (style.block d ds) = ds.filterMap Declaration.comment? := by
  simp [Style.block, Style.openBlock, Style.closeBlock, commentsOf_declarations kept]

theorem commentsOf_keyframes (d : Nat) (k : Keyframes) :
    commentsOf (style.keyframes d k) = (Node.keyframes k).comments := by
  simp [Style.keyframes, Style.openBlock, Style.closeBlock, commentsOf_separated, Style.keyframe,
    commentsOf_block kept, Node.comments, Node.ownBlocks, List.flatMap_map]

theorem commentsOf_rule (d : Nat) (r : Rule) :
    commentsOf (style.rule d r) = (Node.rule r).comments := by
  unfold Style.rule Style.selectors
  cases r.selectors <;>
    simp [commentsOf_moreSelectors, commentsOf_block kept, Node.comments, Node.ownBlocks]

end Comments

mutual

theorem commentsOf_node {style : Style} (kept : style.compress = false) (d : Nat) :
    (n : Node) → commentsOf (style.node d n) = n.all.flatMap Node.comments
  | .comment text => by
    simp [Style.node, Style.comment, kept, Node.all, Node.comments]
  | .charset text => by simp [Style.node, Node.all, Node.comments, Node.ownBlocks]
  | .keyframes k => by simp [Style.node, Node.all, commentsOf_keyframes kept]
  | .media query ns => by
    have inside := commentsOf_nodeList kept (d + 1) ns
    simp [Style.node, Style.openBlock, Style.closeBlock, commentsOf_separated, inside, Node.all,
      Node.comments, Node.ownBlocks]
  | .imports text => by simp [Style.node, Node.all, Node.comments, Node.ownBlocks]
  | .rule r => by simp [Style.node, Node.all, commentsOf_rule kept]

theorem commentsOf_nodeList {style : Style} (kept : style.compress = false) (d : Nat) :
    (ns : List Node) →
      (style.nodeList d ns).flatMap commentsOf = (Node.allIn ns).flatMap Node.comments
  | [] => by simp [Style.nodeList, Node.allIn]
  | n :: ns => by
    simp [Style.nodeList, Node.allIn, commentsOf_node kept d n, commentsOf_nodeList kept d ns]

end

/-! ### Media blocks -/

theorem Options.unit_ne_empty (o : Options) : o.unit ≠ "" := by
  unfold Options.unit
  cases given : nonEmpty o.indent with
  | none => decide
  | some unit => exact (nonEmpty_eq_some_iff.mp given).2

theorem Document.rules_media (query : String) (ns : List Node) :
    (Document.mk [.media query ns]).rules = (Document.mk ns).rules := by
  simp [Document.rules, Document.allNodes, Node.allIn, Node.all, List.filterMap_cons, Node.rule?]

theorem rendered_media {options : Options} (kept : options.compress = false) (query : String)
    (ns : List Node) :
    rendered ((Document.mk [.media query ns]).fragments options) =
      "@media " ++ query ++ " \x7b\n" ++ rendered (options.style.nodes 1 ns) ++ "\x7d\n" := by
  have kept : options.style.compress = false := kept
  have margin : options.style.margin 0 = [] := by
    simp [Style.margin, Style.leadText, kept, repeated]
  have gap : options.style.gap = [' '] := by simp [Style.gap, Style.leadText, kept]
  have chars (fs : List Fragment) : (rendered fs).toList = charsOf fs := rfl
  refine String.toList_inj.mp ?_
  simp [chars, Document.fragments, Style.nodes, Style.nodeList, Style.separated, Style.node, margin,
    gap, Style.breakChars_of_not_compress kept]

/-- A media block prints what it holds with every line indented, and some more indentation inside
lines. It can be printed if what it holds can. Nothing stands inside lines exactly if no rule in the
block has a second selector and no further block in it ends in an import. -/
theorem Document.print_media (options : Options) (query : String) (ns : List Node)
    (kept : options.compress = false) (plain : nonEmpty options.mapUrl = none) :
    ((∃ printed, (Document.mk [.media query ns]).print options = .ok printed) ↔
      ∃ inner, (Document.mk ns).print options = .ok inner) ∧
    ∀ inner printed, (Document.mk ns).print options = .ok inner →
      (Document.mk [.media query ns]).print options = .ok printed →
      inner.css = rendered (options.style.nodes 0 ns) ∧
      ∃ text, printed.css = "@media " ++ query ++ " \x7b\n" ++ text ++ "\x7d\n" ∧
        Strewn options.unit.toList (Node.straysIn ns)
          (indented options.unit.toList true (options.style.nodes 0 ns)) text.toList ∧
        (text.toList = indented options.unit.toList true (options.style.nodes 0 ns) ↔
          Node.straysIn ns = 0) ∧
        ('\n' ∉ options.unit.toList → FlatTexts (Node.textsIn ns) →
          FlatTexts ((Node.allIn ns).flatMap Node.comments) →
          indented options.unit.toList true (options.style.nodes 0 ns) =
            indentLines options.unit.toList inner.css.toList ∧
          (printed.css = "@media " ++ query ++ " \x7b\n" ++
              String.ofList (indentLines options.unit.toList inner.css.toList) ++ "\x7d\n" ↔
            Node.straysIn ns = 0)) := by
  have trailer : options.trailer = "" := by
    unfold Options.trailer
    rw [plain]
  constructor
  · rw [Document.exists_print_iff, Document.exists_print_iff, Document.rules_media]
  intro inner printed hi hp
  have cssI := (Document.print_eq_ok hi).2
  have cssP := (Document.print_eq_ok hp).2
  rw [trailer, String.append_empty] at cssI cssP
  rw [rendered_media kept] at cssP
  have filled : ∀ r, .rule r ∈ Node.allIn ns → r.selectors ≠ [] := by
    intro r member
    exact Document.selectors_of_print hi r (List.mem_filterMap.mpr ⟨_, member, rfl⟩)
  have kept : options.style.compress = false := kept
  have deeper := deepens_nodes kept 0 (deepens_each kept 0 ns filled)
  have unit : options.unit.toList ≠ [] := by simpa using options.unit_ne_empty
  have same : charsOf (options.style.nodes 1 ns) =
      indented options.unit.toList true (options.style.nodes 0 ns) ↔ Node.straysIn ns = 0 :=
    deeper.text.eq_iff unit
  refine ⟨cssI, _, cssP, deeper.text, same, fun flatUnit flatTexts flatComments => ?_⟩
  have lines : indented options.unit.toList true (options.style.nodes 0 ns) =
      indentLines options.unit.toList inner.css.toList := by
    have flat : AllFlat (options.style.nodes 0 ns) :=
      allFlat_separated (allFlat_nodeList flatUnit 0 ns flatTexts)
    have comments : commentsOf (options.style.nodes 0 ns) =
        (Node.allIn ns).flatMap Node.comments := by
      rw [Style.nodes, commentsOf_separated, commentsOf_nodeList kept]
    rw [← comments] at flatComments
    rw [cssI]
    exact (indentLines_charsOf options.unit.toList flat flatComments List.not_mem_nil).symm
  refine ⟨lines, ?_⟩
  rw [← lines, ← same, cssP, ← String.toList_inj]
  simp [charsOf]

/-- A block with a rule of two selectors, and with a block that ends in an import. -/
def nestedNodes : List Node :=
  [.rule { selectors := ["a", "b"], declarations := [.comment "c"] },
    .media "screen" [.charset "d", .imports "e"], .imports "f"]

theorem print_media_nestedNodes :
    ∃ inner printed text, (Document.mk nestedNodes).print {} = .ok inner ∧
      (Document.mk [.media "print" nestedNodes]).print {} = .ok printed ∧
      printed.css = "@media print \x7b\n" ++ text ++ "\x7d\n" ∧ Node.straysIn nestedNodes = 2 ∧
      Strewn [' ', ' '] 2 (indentLines [' ', ' '] inner.css.toList) text.toList ∧
      text.toList ≠ indentLines [' ', ' '] inner.css.toList := by
  obtain ⟨succeeds, parts⟩ := Document.print_media {} "print" nestedNodes rfl rfl
  obtain ⟨inner, hi⟩ : ∃ inner, (Document.mk nestedNodes).print {} = .ok inner := ⟨_, rfl⟩
  obtain ⟨printed, hp⟩ := succeeds.mpr ⟨inner, hi⟩
  obtain ⟨-, text, css, strewn, same, flat⟩ := parts inner printed hi hp
  obtain ⟨lines, -⟩ := flat (by decide) (by decide) (by decide)
  have two : Node.straysIn nestedNodes = 2 := by decide
  have unit : Options.unit {} = "  " := rfl
  rw [lines, two, unit] at strewn same
  exact ⟨inner, printed, text, hi, hp, css, two, strewn, fun equal => nomatch same.mp equal⟩

def pairedNodes : List Node := [.rule { selectors := ["a", "b"] }]

/-- The comma behind the first selector is indented, though it starts no line. -/
theorem print_media_pairedNodes_ne :
    ∃ inner printed, (Document.mk pairedNodes).print {} = .ok inner ∧
      (Document.mk [.media "q" pairedNodes]).print {} = .ok printed ∧
      inner.css = "a,\nb \x7b\n\x7d\n" ∧
      printed.css = "@media q \x7b\n  a  ,\n  b \x7b\n  \x7d\n\x7d\n" ∧
      printed.css ≠
        "@media q \x7b\n" ++ String.ofList (indentLines [' ', ' '] inner.css.toList) ++ "\x7d\n" :=
  ⟨_, _, rfl, rfl, by decide, by decide, by decide⟩

end CssPrinter
