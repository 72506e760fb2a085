import CssPrinter.Print.Printer

/-!
# Printed text as fragments

What printing a tree writes, stretch by stretch. A fragment says where its text comes from, and a
mark stands where the first selector of a rule starts. The fragments of a tree depend on the layout
and the depth they stand at, but on no cursor: `Place.after` says where a fragment leads.
-/

namespace CssPrinter

/-- A stretch of printed text. -/
inductive Fragment
  /-- What the layout puts in front of a text. -/
  | lead (s : String)
  | text (s : String)
  /-- A comment with its delimiters, and the line break that ends it. -/
  | comment (s : String)
  | lineBreak
  /-- The first selector of a rule starts here. Nothing is written. -/
  | mark (r : Rule)

namespace Fragment

def written : Fragment → String
  | .lead s => s
  | .text s => s
  | .comment s => "/*" ++ s ++ "*/\n"
  | .lineBreak => "\n"
  | .mark _ => ""

/-- The line feeds that are line breaks of the layout or lie inside a comment. -/
def feeds : Fragment → Nat
  | .comment s => lineFeeds s + 1
  | .lineBreak => 1
  | _ => 0

def mark? : Fragment → Option Rule
  | .mark r => some r
  | _ => none

end Fragment

/-- The place behind a fragment that starts at `p`. -/
def Place.after (p : Place) : Fragment → Place
  | .lead s => p.offsetColumn (utf16Width s)
  | .text s => p.offsetColumn (utf16Width s)
  | .comment s => ⟨p.line + lineFeeds s + 1, 1⟩
  | .lineBreak => ⟨p.line + 1, 1⟩
  | .mark _ => p

def Place.afterAll (p : Place) (fs : List Fragment) : Place :=
  fs.foldl Place.after p

def rendered : List Fragment → String
  | [] => ""
  | f :: fs => f.written ++ rendered fs

@[simp] theorem rendered_append (fs gs : List Fragment) :
    rendered (fs ++ gs) = rendered fs ++ rendered gs := by
  induction fs with
  | nil => simp [rendered]
  | cons f fs ih => simp [rendered, ih, String.append_assoc]

@[simp] theorem Place.afterAll_append (p : Place) (fs gs : List Fragment) :
    p.afterAll (fs ++ gs) = (p.afterAll fs).afterAll gs :=
  List.foldl_append

@[simp] theorem Place.afterAll_cons (p : Place) (f : Fragment) (fs : List Fragment) :
    p.afterAll (f :: fs) = (p.after f).afterAll fs := rfl

@[simp] theorem Place.afterAll_nil (p : Place) : p.afterAll [] = p := rfl

/-- The marks of fragments that start at `p`, each with its place. -/
def marks (p : Place) : List Fragment → List (Place × Rule)
  | [] => []
  | .mark r :: fs => (p, r) :: marks p fs
  | f :: fs => marks (p.after f) fs

theorem marks_append (p : Place) (fs gs : List Fragment) :
    marks p (fs ++ gs) = marks p fs ++ marks (p.afterAll fs) gs := by
  induction fs generalizing p with
  | nil => rfl
  | cons f fs ih => cases f <;> simp [marks, ih, Place.after]

def markedRules (fs : List Fragment) : List Rule := fs.filterMap Fragment.mark?

theorem map_snd_marks (p : Place) (fs : List Fragment) :
    (marks p fs).map Prod.snd = markedRules fs := by
  unfold markedRules
  induction fs generalizing p with
  | nil => rfl
  | cons f fs ih => cases f <;> simp [marks, List.filterMap_cons, Fragment.mark?, ih]

/-! ### The fragments of a tree -/

theorem not_mem_intercalate {c : Char} {texts : List String}
    (absent : ∀ s ∈ texts, c ∉ s.toList) (comma : c ≠ ',') (blank : c ≠ ' ') :
    c ∉ (String.intercalate ", " texts).toList := by
  induction texts with
  | nil => simp
  | cons s texts ih =>
    have first := absent s List.mem_cons_self
    have others := ih fun t member => absent t (List.mem_cons_of_mem _ member)
    cases texts with
    | nil => simpa using first
    | cons t texts =>
      rw [String.intercalate_cons_cons, String.toList_append, String.toList_append]
      simp only [List.mem_append, not_or]
      exact ⟨⟨first, by simp [comma, blank]⟩, others⟩

/-- How text is laid out. In compressed layout nothing is put in front of a text and there are no
line breaks. -/
structure Style where
  compress : Bool
  unit : String

def Options.style (o : Options) : Style := ⟨o.compress, o.unit⟩

namespace Style

variable (style : Style)

def leadText (depth : Nat) (lead : Lead) : String :=
  if style.compress then ""
  else
    match lead with
    | .level => repeated style.unit depth
    | .literal text => text
    | .nothing => ""

def indentation (depth : Nat) : Fragment := .lead (style.leadText depth .level)

def space : Fragment := .lead (style.leadText 0 (.literal " "))

def lineBreak : List Fragment := if style.compress then [] else [.lineBreak]

def openBlock : List Fragment := style.space :: .text "\x7b" :: style.lineBreak

def closeBlock (depth : Nat) : List Fragment :=
  style.indentation depth :: .text "\x7d" :: style.lineBreak

/-- Siblings with a line break between them. -/
def separated : List (List Fragment) → List Fragment
  | [] => []
  | [fs] => fs
  | fs :: rest => fs ++ (style.lineBreak ++ separated rest)

theorem separated_cons_cons (fs gs : List Fragment) (rest : List (List Fragment)) :
    style.separated (fs :: gs :: rest) = fs ++ (style.lineBreak ++ style.separated (gs :: rest)) :=
  rfl

def comment (depth : Nat) (text : String) : List Fragment :=
  if style.compress then [] else [style.indentation depth, .comment text]

def property (depth : Nat) (p : Property) (isLast : Bool) : List Fragment :=
  [style.indentation depth, .text (p.name ++ ":"), style.space, .text p.value] ++
    (if isLast then [] else [.text ";"]) ++ style.lineBreak

def declarations (depth : Nat) : List Declaration → List Fragment
  | [] => []
  | .comment text :: rest => style.comment depth text ++ declarations depth rest
  | .property p :: rest => style.property depth p rest.isEmpty ++ declarations depth rest

def block (depth : Nat) (ds : List Declaration) : List Fragment :=
  style.openBlock ++ style.declarations (depth + 1) ds ++ style.closeBlock depth

def keyframe (depth : Nat) (k : Keyframe) : List Fragment :=
  style.indentation depth :: .text (String.intercalate ", " k.values) ::
    style.block depth k.declarations

def keyframes (depth : Nat) (k : Keyframes) : List Fragment :=
  style.indentation depth :: .text ("@" ++ k.vendor.getD "" ++ "keyframes " ++ k.name) ::
    (style.openBlock ++ style.separated (k.blocks.map (style.keyframe (depth + 1))) ++
      style.closeBlock depth)

def moreSelectors (depth : Nat) : List String → List Fragment
  | [] => []
  | s :: rest =>
    style.indentation depth :: .text "," :: style.lineBreak ++
      style.indentation depth :: .text s :: moreSelectors depth rest

/-- The selectors of a rule. A rule without any has a mark all the same. -/
def selectors (depth : Nat) (r : Rule) : List Fragment :=
  match r.selectors with
  | [] => [.mark r]
  | s :: rest => style.indentation depth :: .mark r :: .text s :: style.moreSelectors depth rest

def rule (depth : Nat) (r : Rule) : List Fragment :=
  style.selectors depth r ++ style.block depth r.declarations

mutual

def node (depth : Nat) : Node → List Fragment
  | .comment text => style.comment depth text
  | .charset text =>
    style.indentation depth :: .text ("@charset " ++ text ++ ";") :: style.lineBreak
  | .keyframes k => style.keyframes depth k
  | .media query ns =>
    style.indentation depth :: .text ("@media " ++ query) ::
      (style.openBlock ++ style.separated (nodeList (depth + 1) ns) ++ style.closeBlock depth)
  | .imports text => [style.indentation depth, .text ("@import " ++ text ++ ";")]
  | .rule r => style.rule depth r

def nodeList (depth : Nat) : List Node → List (List Fragment)
  | [] => []
  | n :: rest => node depth n :: nodeList depth rest

end

theorem nodeList_eq_map (depth : Nat) (ns : List Node) :
    style.nodeList depth ns = ns.map (style.node depth) := by
  induction ns with
  | nil => rw [nodeList, List.map_nil]
  | cons n ns ih => rw [nodeList, List.map_cons, ih]

def nodes (depth : Nat) (ns : List Node) : List Fragment :=
  style.separated (style.nodeList depth ns)

end Style

/-- What printing a tree writes before the line that points to the map. -/
def Document.fragments (d : Document) (o : Options) : List Fragment :=
  o.style.nodes 0 d.nodes

end CssPrinter
