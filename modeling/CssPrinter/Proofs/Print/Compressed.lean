import CssPrinter.Proofs.Print.Failure
import CssPrinter.Proofs.Tree.Comments

/-!
# Compressed text

Compressed text is described in pieces, where the bracket that closes a block of declarations is a
piece of its own. Comments show only there: a property ends in a semicolon unless it is the last
entry of its block, and the last entry may be a comment that is not printed. So a block that has
properties and ends in a comment keeps a semicolon before its bracket (`rendered_declarations`), and
nothing else tells a tree from the same tree without its comments.
-/

namespace CssPrinter

/-- A stretch of compressed text. -/
inductive Piece
  | text (s : String)
  /-- The bracket that closes a block of declarations. -/
  | close (ds : List Declaration)

namespace Piece

def block? : Piece → Option (List Declaration)
  | .close ds => some ds
  | .text _ => none

/-- The text of a piece, with `ending ds` before the bracket that closes `ds`. -/
def written (ending : List Declaration → String) : Piece → String
  | .text s => s
  | .close ds => ending ds ++ "\x7d"

end Piece

/-- The text of pieces, with `ending ds` before the bracket that closes `ds`. -/
def compact (ending : List Declaration → String) (ps : List Piece) : String :=
  String.join (ps.map (Piece.written ending))

/-- The declarations that some brackets close, in order. -/
def closed (ps : List Piece) : List (List Declaration) := ps.filterMap Piece.block?

section Pieces

variable (ending : List Declaration → String)

@[simp] theorem compact_nil : compact ending [] = "" := String.join_nil

@[simp] theorem compact_text (s : String) (ps : List Piece) :
    compact ending (.text s :: ps) = s ++ compact ending ps := String.join_cons

@[simp] theorem compact_close (ds : List Declaration) (ps : List Piece) :
    compact ending (.close ds :: ps) = ending ds ++ "\x7d" ++ compact ending ps := String.join_cons

@[simp] theorem compact_append (ps qs : List Piece) :
    compact ending (ps ++ qs) = compact ending ps ++ compact ending qs := by
  rw [compact, List.map_append, String.join_append]
  rfl

@[simp] theorem closed_nil : closed [] = [] := rfl

@[simp] theorem closed_text (s : String) (ps : List Piece) : closed (.text s :: ps) = closed ps :=
  rfl

@[simp] theorem closed_close (ds : List Declaration) (ps : List Piece) :
    closed (.close ds :: ps) = ds :: closed ps := rfl

@[simp] theorem closed_append (ps qs : List Piece) : closed (ps ++ qs) = closed ps ++ closed qs :=
  List.filterMap_append

end Pieces

theorem compact_congr {f g : List Declaration → String} {ps : List Piece}
    (same : ∀ ds ∈ closed ps, f ds = g ds) : compact f ps = compact g ps := by
  induction ps with
  | nil => rfl
  | cons p ps ih =>
    cases p with
    | text s => rw [compact_text, compact_text, ih same]
    | close ds =>
      obtain ⟨first, others⟩ := List.forall_mem_cons.mp same
      rw [compact_close, compact_close, first, ih others]

/-! ### Pieces of a tree -/

def Declaration.compact? : Declaration → Option String
  | .property p => some (p.name ++ ":" ++ p.value)
  | .comment _ => none

theorem filterMap_compact?_property (p : Property) (ds : List Declaration) :
    (Declaration.property p :: ds).filterMap Declaration.compact? =
      (p.name ++ ":" ++ p.value) :: ds.filterMap Declaration.compact? := rfl

theorem filterMap_compact?_comment (text : String) (ds : List Declaration) :
    (Declaration.comment text :: ds).filterMap Declaration.compact? =
      ds.filterMap Declaration.compact? := rfl

def blockPieces (ds : List Declaration) : List Piece :=
  [.text "\x7b", .text (String.intercalate ";" (ds.filterMap Declaration.compact?)), .close ds]

def Keyframe.pieces (k : Keyframe) : List Piece :=
  .text (String.intercalate ", " k.values) :: blockPieces k.declarations

def Keyframes.pieces (k : Keyframes) : List Piece :=
  .text ("@" ++ k.vendor.getD "" ++ "keyframes " ++ k.name ++ "\x7b") ::
    (k.blocks.flatMap Keyframe.pieces ++ [.text "\x7d"])

def Rule.pieces (r : Rule) : List Piece :=
  .text (String.intercalate "," r.selectors) :: blockPieces r.declarations

namespace Node

mutual

/-- The compressed text of a node. Comments are left out. -/
def pieces : Node → List Piece
  | .comment _ => []
  | .charset text => [.text ("@charset " ++ text ++ ";")]
  | .keyframes k => k.pieces
  | .media query ns => .text ("@media " ++ query ++ "\x7b") :: (piecesIn ns ++ [.text "\x7d"])
  | .imports text => [.text ("@import " ++ text ++ ";")]
  | .rule r => r.pieces

def piecesIn : List Node → List Piece
  | [] => []
  | n :: rest => pieces n ++ piecesIn rest

end

end Node

def Document.pieces (d : Document) : List Piece := Node.piecesIn d.nodes

theorem closed_keyframes (k : Keyframes) :
    closed k.pieces = k.blocks.map (·.declarations) := by
  have blocks (bs : List Keyframe) :
      closed (bs.flatMap Keyframe.pieces) = bs.map (·.declarations) := by
    induction bs with
    | nil => rfl
    | cons b bs ih => simp [Keyframe.pieces, blockPieces, ih]
  simp [Keyframes.pieces, blocks]

mutual

theorem closed_pieces : (n : Node) → closed n.pieces = n.all.flatMap Node.ownBlocks
  | .comment _ | .charset _ | .imports _ => by simp [Node.pieces, Node.all, Node.ownBlocks]
  | .keyframes k => by simp [Node.pieces, Node.all, Node.ownBlocks, closed_keyframes]
  | .media query ns => by
    have inside := closed_piecesIn ns
    simp [Node.pieces, Node.all, Node.ownBlocks, inside]
  | .rule r => by simp [Node.pieces, Node.all, Node.ownBlocks, Rule.pieces, blockPieces]

theorem closed_piecesIn :
    (ns : List Node) → closed (Node.piecesIn ns) = (Node.allIn ns).flatMap Node.ownBlocks
  | [] => by simp [Node.piecesIn, Node.allIn]
  | n :: ns => by
    have first := closed_pieces n
    have others := closed_piecesIn ns
    simp [Node.piecesIn, Node.allIn, first, others]

end

/-- Every block of declarations is closed once, in document order. -/
theorem Document.closed_pieces (d : Document) : closed d.pieces = d.blocks :=
  closed_piecesIn d.nodes

/-! ### The semicolon before a bracket -/

/-- A block that has a property and ends in a comment. -/
def isDangling (ds : List Declaration) : Bool :=
  ds.any (fun x => !x.isComment) && ds.getLast?.any Declaration.isComment

/-- What stands before the bracket that closes a block. -/
def leftover (ds : List Declaration) : String := if isDangling ds then ";" else ""

theorem leftover_comment_cons (text : String) (ds : List Declaration) :
    leftover (.comment text :: ds) = leftover ds := by
  unfold leftover isDangling
  cases ds with
  | nil => rfl
  | cons x ds => simp [Declaration.isComment, List.getLast?_cons_cons]

theorem leftover_of_filterMap_eq_nil {ds : List Declaration}
    (none : ds.filterMap Declaration.compact? = []) : leftover ds = "" := by
  have comments : ∀ x ∈ ds, x.isComment = true := by
    intro x member
    have absent := List.filterMap_eq_nil_iff.mp none x member
    cases x with
    | comment text => rfl
    | property p => cases absent
  have noProperty : ds.any (fun x => !x.isComment) = false := by simpa using comments
  simp [leftover, isDangling, noProperty]

/-- The leftover of a property that is not the last entry. If only comments follow it, the semicolon
has nothing to separate. -/
theorem leftover_property_cons (p : Property) {ds : List Declaration} (more : ds ≠ []) :
    leftover (.property p :: ds) =
      if ds.filterMap Declaration.compact? = [] then ";" else leftover ds := by
  obtain ⟨x, rest, rfl⟩ := List.exists_cons_of_ne_nil more
  have last : (Declaration.property p :: x :: rest).getLast? = (x :: rest).getLast? :=
    List.getLast?_cons_cons
  split
  · rename_i none
    obtain ⟨y, final⟩ : ∃ y, (x :: rest).getLast? = some y :=
      ⟨_, List.getLast?_eq_some_getLast more⟩
    have absent := List.filterMap_eq_nil_iff.mp none y (List.mem_of_getLast? final)
    cases y with
    | property q => cases absent
    | comment text =>
      unfold leftover isDangling
      rw [last, final]
      simp [Declaration.isComment]
  · rename_i some
    have property : (x :: rest).any (fun x => !x.isComment) = true := by
      by_contra none
      refine some (List.filterMap_eq_nil_iff.mpr fun y member => ?_)
      cases y with
      | comment text => rfl
      | property q => exact absurd (List.any_eq_true.mpr ⟨_, member, rfl⟩) none
    unfold leftover isDangling
    rw [last, List.any_cons, property]
    rfl

/-! ### Compressed layout -/

theorem rendered_text (s : String) (fs : List Fragment) :
    rendered (.text s :: fs) = s ++ rendered fs := rfl

section Layout

variable {style : Style} (compress : style.compress = true)

include compress

theorem lineBreak_of_compress : style.lineBreak = [] := if_pos compress

theorem rendered_indentation (d : Nat) (fs : List Fragment) :
    rendered (style.indentation d :: fs) = rendered fs := by
  simp [rendered, Style.indentation, Style.leadText, compress, Fragment.written]

theorem rendered_space (fs : List Fragment) : rendered (style.space :: fs) = rendered fs := by
  simp [rendered, Style.space, Style.leadText, compress, Fragment.written]

theorem rendered_openBlock : rendered style.openBlock = "\x7b" := by
  rw [Style.openBlock, rendered_space compress, lineBreak_of_compress compress]
  rfl

theorem rendered_closeBlock (d : Nat) : rendered (style.closeBlock d) = "\x7d" := by
  rw [Style.closeBlock, rendered_indentation compress, lineBreak_of_compress compress]
  rfl

theorem rendered_property (d : Nat) (p : Property) (isLast : Bool) :
    rendered (style.property d p isLast) =
      p.name ++ ":" ++ p.value ++ if isLast then "" else ";" := by
  rw [Style.property, lineBreak_of_compress compress]
  simp only [List.cons_append, List.nil_append, List.append_nil]
  rw [rendered_indentation compress, rendered_text, rendered_space compress, rendered_text]
  cases isLast <;> simp [rendered, Fragment.written, String.append_assoc]

/-- Properties are separated by semicolons, and a dangling block keeps one more. -/
theorem rendered_declarations (d : Nat) (ds : List Declaration) :
    rendered (style.declarations d ds) =
      String.intercalate ";" (ds.filterMap Declaration.compact?) ++ leftover ds := by
  induction ds with
  | nil => rfl
  | cons x ds ih =>
    cases x with
    | comment text =>
      have silent : style.comment d text = [] := if_pos compress
      rw [Style.declarations, silent, List.nil_append, ih, leftover_comment_cons,
        filterMap_compact?_comment]
    | property p =>
      rw [Style.declarations, rendered_append, rendered_property compress, ih,
        filterMap_compact?_property]
      cases ds with
      | nil => simp [leftover, isDangling, Declaration.isComment]
      | cons y ds =>
        rw [leftover_property_cons p (List.cons_ne_nil y ds), List.isEmpty_cons]
        simp only [Bool.false_eq_true, if_false]
        split
        · rename_i none
          rw [none, leftover_of_filterMap_eq_nil none]
          simp
        · rename_i some
          rw [String.intercalate_cons_of_ne_nil some]
          simp [String.append_assoc]

theorem rendered_block (d : Nat) (ds : List Declaration) :
    rendered (style.block d ds) = compact leftover (blockPieces ds) := by
  simp [Style.block, rendered_openBlock compress, rendered_declarations compress,
    rendered_closeBlock compress, blockPieces, String.append_assoc]

theorem rendered_separated (fss : List (List Fragment)) :
    rendered (style.separated fss) = String.join (fss.map rendered) := by
  fun_induction style.separated fss with
  | case1 => rfl
  | case2 fs => simp
  | case3 fs rest _ ih => simp [lineBreak_of_compress compress, ih]

theorem rendered_keyframes (d : Nat) (k : Keyframes) :
    rendered (style.keyframes d k) = compact leftover k.pieces := by
  have blocks (bs : List Keyframe) :
      String.join ((bs.map (style.keyframe (d + 1))).map rendered) =
        compact leftover (bs.flatMap Keyframe.pieces) := by
    induction bs with
    | nil => rfl
    | cons b bs ih =>
      simp only [List.map_cons, String.join_cons, ih, List.flatMap_cons, compact_append,
        Style.keyframe, rendered_indentation compress, rendered_text, rendered_block compress,
        Keyframe.pieces, compact_text]
  rw [Style.keyframes, rendered_indentation compress, rendered_text, rendered_append,
    rendered_append, rendered_openBlock compress, rendered_separated compress, blocks,
    rendered_closeBlock compress]
  simp [Keyframes.pieces, String.append_assoc]

theorem rendered_selectors (d : Nat) (s : String) (more : List String) :
    s ++ rendered (style.moreSelectors d more) = String.intercalate "," (s :: more) := by
  induction more generalizing s with
  | nil => simp [Style.moreSelectors, rendered]
  | cons t more ih =>
    rw [String.intercalate_cons_cons, ← ih t, Style.moreSelectors,
      lineBreak_of_compress compress]
    simp only [List.cons_append, List.nil_append]
    rw [rendered_indentation compress, rendered_text, rendered_indentation compress,
      rendered_text]
    simp [String.append_assoc]

theorem rendered_rule (d : Nat) (r : Rule) :
    rendered (style.rule d r) = compact leftover r.pieces := by
  rw [Style.rule, rendered_append, rendered_block compress, Rule.pieces, compact_text]
  congr 1
  unfold Style.selectors
  cases r.selectors with
  | nil => rfl
  | cons s more =>
    dsimp only
    rw [rendered_indentation compress, ← rendered_selectors compress d s more]
    simp [rendered, Fragment.written]

end Layout

mutual

theorem rendered_node {style : Style} (compress : style.compress = true) (d : Nat) :
    (n : Node) → rendered (style.node d n) = compact leftover n.pieces
  | .comment text => by
    have silent : style.comment d text = [] := if_pos compress
    rw [Style.node, silent, Node.pieces]
    rfl
  | .charset text => by
    rw [Style.node, rendered_indentation compress, lineBreak_of_compress compress, Node.pieces,
      rendered_text, compact_text]
    rfl
  | .keyframes k => by
    rw [Style.node, Node.pieces, rendered_keyframes compress]
  | .media query ns => by
    have inside := rendered_nodeList compress (d + 1) ns
    rw [Style.node, rendered_indentation compress, rendered_text, rendered_append,
      rendered_append, rendered_openBlock compress, rendered_separated compress, inside,
      rendered_closeBlock compress, Node.pieces]
    simp [String.append_assoc]
  | .imports text => by
    rw [Style.node, rendered_indentation compress, Node.pieces, rendered_text, compact_text]
    rfl
  | .rule r => by
    rw [Style.node, Node.pieces, rendered_rule compress]

theorem rendered_nodeList {style : Style} (compress : style.compress = true) (d : Nat) :
    (ns : List Node) →
      String.join ((style.nodeList d ns).map rendered) = compact leftover (Node.piecesIn ns)
  | [] => by
    rw [Style.nodeList, Node.piecesIn]
    rfl
  | n :: ns => by
    rw [Style.nodeList, Node.piecesIn, List.map_cons, String.join_cons, compact_append,
      rendered_node compress d n, rendered_nodeList compress d ns]

end

theorem rendered_fragments {options : Options} (compress : options.compress = true)
    (d : Document) : rendered (d.fragments options) = compact leftover d.pieces := by
  have text : rendered (d.fragments options) =
      String.join ((options.style.nodeList 0 d.nodes).map rendered) :=
    rendered_separated compress _
  rw [text]
  exact rendered_nodeList compress 0 d.nodes

/-! ### Without comments -/

theorem filterMap_uncommented (ds : List Declaration) :
    (uncommented ds).filterMap Declaration.compact? = ds.filterMap Declaration.compact? := by
  induction ds with
  | nil => rfl
  | cons x ds ih =>
    cases x with
    | comment text => exact ih
    | property p => exact congrArg (List.cons (p.name ++ ":" ++ p.value)) ih

theorem leftover_uncommented (ds : List Declaration) : leftover (uncommented ds) = "" := by
  have last : (uncommented ds).getLast?.any Declaration.isComment = false := by
    cases final : (uncommented ds).getLast? with
    | none => rfl
    | some x => exact isComment_of_mem_uncommented (List.mem_of_getLast? final)
  simp [leftover, isDangling, last]

section Without

variable (ending : List Declaration → String)

theorem compact_block_withoutComments (ds : List Declaration) :
    compact ending (blockPieces (uncommented ds)) =
      compact (fun ds => ending (uncommented ds)) (blockPieces ds) := by
  simp [blockPieces, filterMap_uncommented]

theorem compact_keyframes_withoutComments (k : Keyframes) :
    compact ending k.withoutComments.pieces =
      compact (fun ds => ending (uncommented ds)) k.pieces := by
  have blocks (bs : List Keyframe) :
      compact ending ((bs.map Keyframe.withoutComments).flatMap Keyframe.pieces) =
        compact (fun ds => ending (uncommented ds)) (bs.flatMap Keyframe.pieces) := by
    induction bs with
    | nil => rfl
    | cons b bs ih =>
      simp only [List.map_cons, List.flatMap_cons, compact_append, ih, Keyframe.pieces,
        Keyframe.withoutComments, compact_text, compact_block_withoutComments]
  simp [Keyframes.pieces, Keyframes.withoutComments, blocks]

mutual

/-- Removing comments changes no piece but the brackets, which close fewer declarations. -/
theorem compact_withoutComments :
    (n : Node) → compact ending n.withoutComments.pieces =
      compact (fun ds => ending (uncommented ds)) n.pieces
  | .comment _ | .charset _ | .imports _ => by simp [Node.withoutComments, Node.pieces]
  | .keyframes k => by
    rw [Node.withoutComments, Node.pieces, Node.pieces, compact_keyframes_withoutComments]
  | .media query ns => by
    have inside := compact_allWithoutComments ns
    simp [Node.withoutComments, Node.pieces, inside]
  | .rule r => by
    simp [Node.withoutComments, Node.pieces, Rule.pieces, Rule.withoutComments,
      compact_block_withoutComments]

theorem compact_allWithoutComments :
    (ns : List Node) → compact ending (Node.piecesIn (Node.allWithoutComments ns)) =
      compact (fun ds => ending (uncommented ds)) (Node.piecesIn ns)
  | [] => by simp [Node.allWithoutComments, Node.piecesIn]
  | n :: ns => by
    have first := compact_withoutComments n
    have others := compact_allWithoutComments ns
    rw [Node.allWithoutComments]
    cases n with
    | comment text => simpa [Node.isComment, Node.piecesIn, Node.pieces] using others
    | _ => simp [Node.isComment, Node.piecesIn, first, others]

end

end Without

theorem Document.compact_withoutComments (d : Document) :
    compact leftover d.withoutComments.pieces = compact (fun _ => "") d.pieces := by
  have same : compact leftover d.withoutComments.pieces =
      compact (fun ds => leftover (uncommented ds)) d.pieces :=
    compact_allWithoutComments leftover d.nodes
  rw [same]
  exact compact_congr fun ds _ => leftover_uncommented ds

/-- Each dangling block makes the text longer by one character. -/
theorem length_compact_leftover (ps : List Piece) :
    (compact leftover ps).length =
      (compact (fun _ => "") ps).length + (closed ps).countP isDangling := by
  induction ps with
  | nil => rfl
  | cons p ps ih =>
    cases p with
    | text s =>
      simp only [compact_text, closed_text, String.length_append, ih]
      omega
    | close ds =>
      have longer : (leftover ds).length = if isDangling ds then 1 else 0 := by
        unfold leftover
        split <;> rfl
      simp only [compact_close, closed_close, String.length_append, ih, longer, List.countP_cons,
        String.length_empty]
      omega

-- Whether a rule is faulty does not depend on its declarations.
theorem Document.exists_print_withoutComments {d : Document} {options : Options}
    (printable : ∃ printed, d.print options = .ok printed) :
    ∃ plain, d.withoutComments.print options = .ok plain := by
  rw [Document.exists_print_iff] at printable ⊢
  rw [d.rules_withoutComments]
  exact List.forall_mem_map.mpr printable

/-- Blocks that end in a comment, with and without properties, and comments between nodes. -/
def danglingSheet : Document where
  nodes := [
    .comment "header",
    .keyframes ⟨"k", none, [⟨["from"], [.property ⟨"top", "0", none⟩, .comment "x"]⟩]⟩,
    .media "print" [
      .rule { selectors := ["a", "b"], declarations := [.comment "only"] },
      .comment "between",
      .rule {
        selectors := ["c"]
        declarations := [.comment "first", .property ⟨"p", "1", none⟩, .comment "middle",
          .property ⟨"q", "2", none⟩]
        position := some (.ofStart 3 1) }]]

end CssPrinter
