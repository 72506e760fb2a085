import CssPrinter.Json.Value
import CssPrinter.Tree.Basic

/-!
# Trees as JSON

Fields are written in a fixed order, the tag first. Optional fields are left out when they are
absent; empty lists are kept.
-/

namespace CssPrinter

open Json (Value)

namespace Written

/-- A field that is left out when it is absent. -/
def optionalField {α : Type} (key : String) (value : α → Value) : Option α → List (String × Value)
  | none => []
  | some a => [(key, value a)]

def strings (texts : List String) : Value :=
  .array (texts.map .string)

def tag (name : String) : String × Value :=
  ("type", .string name)

def word (n : UInt32) : Value :=
  .nat n.toNat

def location (l : Location) : Value :=
  .object ([("line", word l.line), ("column", word l.column)] ++
    optionalField "file" .string l.file ++ optionalField "name" .string l.name)

def position (p : Position) : Value :=
  .object (("start", location p.start) ::
    (optionalField "end" location p.stop ++ optionalField "source" .string p.source))

def declaration : Declaration → Value
  | .property p =>
    .object ([tag "declaration", ("property", .string p.name), ("value", .string p.value)] ++
      optionalField "position" position p.position)
  | .comment text => .object [tag "comment", ("comment", .string text)]

def declarations (ds : List Declaration) : Value :=
  .array (ds.map declaration)

def keyframe (k : Keyframe) : Value :=
  .object [("values", strings k.values), ("declarations", declarations k.declarations)]

def keyframes (k : Keyframes) : List (String × Value) :=
  ("name", .string k.name) :: (optionalField "vendor" .string k.vendor ++
    [("keyframes", .array (k.blocks.map keyframe))])

def rule (r : Rule) : List (String × Value) :=
  [("selectors", strings r.selectors), ("declarations", declarations r.declarations)] ++
    optionalField "position" position r.position

mutual

def node : Node → Value
  | .comment text => .object [tag "comment", ("comment", .string text)]
  | .charset text => .object [tag "charset", ("charset", .string text)]
  | .keyframes k => .object (tag "keyframes" :: keyframes k)
  | .media query ns =>
    .object [tag "media", ("media", .string query), ("rules", .array (nodes ns))]
  | .imports text => .object [tag "import", ("import", .string text)]
  | .rule r => .object (tag "rule" :: rule r)

def nodes : List Node → List Value
  | [] => []
  | n :: rest => node n :: nodes rest

end

def document (d : Document) : Value :=
  .object [("stylesheet", .object [("rules", .array (nodes d.nodes))])]

end Written

/-- The JSON text of a tree. -/
def Document.text (d : Document) : String :=
  (Written.document d).text

end CssPrinter
