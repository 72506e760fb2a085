import CssPrinter.Json.Record
import CssPrinter.Tree.Basic

/-!
# Trees from JSON

A document and its stylesheet are read along with the text. Each node of the stylesheet is first
read whole and then interpreted, so a fault of the text anywhere in a node comes before a complaint
about what the node says.
-/

namespace CssPrinter

open Json

namespace Reading

/-! ### Parts of a node -/

def location : Record Value Location where
  name := "Location"
  blank := { line := 0, column := 0 }
  fields := [
    ⟨"line", .required, fun v l => do return { l with line := ← v.asWord }⟩,
    ⟨"column", .required, fun v l => do return { l with column := ← v.asWord }⟩,
    ⟨"file", .free, fun v l => do return { l with file := ← v.asOptional Value.asString }⟩,
    ⟨"name", .free, fun v l => do return { l with name := ← v.asOptional Value.asString }⟩]

def position : Record Value Position where
  name := "Position"
  blank := { start := location.blank }
  fields := [
    ⟨"start", .required, fun v p => do return { p with start := ← location.ofValue v }⟩,
    ⟨"end", .free, fun v p => do return { p with stop := ← v.asOptional location.ofValue }⟩,
    ⟨"source", .free, fun v p => do return { p with source := ← v.asOptional Value.asString }⟩]

def property : Record Value Property where
  name := "Property"
  blank := { name := "", value := "" }
  fields := [
    ⟨"property", .required, fun v p => do return { p with name := ← v.asString }⟩,
    ⟨"value", .required, fun v p => do return { p with value := ← v.asString }⟩,
    ⟨"position", .free, fun v p => do
      return { p with position := ← v.asOptional position.ofValue }⟩]

/-- A record with a text as its only field. -/
def textRecord (name key : String) : Record Value String where
  name := name
  blank := ""
  fields := [⟨key, .required, fun v _ => v.asString⟩]

def comment : Record Value String := textRecord "Comment" "comment"

def charset : Record Value String := textRecord "Charset" "charset"

def imports : Record Value String := textRecord "Import" "import"

inductive DeclarationKind
  | property
  | comment

def declarationTags : Tags DeclarationKind where
  name := "Declaration"
  kinds := [("declaration", .property), ("comment", .comment)]

def declaration (v : Value) : Except ReadError Declaration := do
  match ← declarationTags.bodyOfValue v with
  | (.property, body) => return .property (← property.ofBody body)
  | (.comment, body) => return .comment (← comment.ofBody body)

def declarations (v : Value) : Except ReadError (List Declaration) :=
  v.asList declaration

def strings (v : Value) : Except ReadError (List String) :=
  v.asList Value.asString

def keyframe : Record Value Keyframe where
  name := "Keyframe"
  blank := { values := [] }
  fields := [
    ⟨"values", .required, fun v k => do return { k with values := ← strings v }⟩,
    ⟨"declarations", .free, fun v k => do return { k with declarations := ← declarations v }⟩]

def keyframes : Record Value Keyframes where
  name := "Keyframes"
  blank := { name := "" }
  fields := [
    ⟨"name", .required, fun v k => do return { k with name := ← v.asString }⟩,
    ⟨"vendor", .free, fun v k => do return { k with vendor := ← v.asOptional Value.asString }⟩,
    ⟨"keyframes", .free, fun v k => do return { k with blocks := ← v.asList keyframe.ofValue }⟩]

def rule : Record Value Rule where
  name := "Rule"
  blank := { selectors := [] }
  fields := [
    ⟨"selectors", .required, fun v r => do return { r with selectors := ← strings v }⟩,
    ⟨"declarations", .free, fun v r => do return { r with declarations := ← declarations v }⟩,
    ⟨"position", .free, fun v r => do
      return { r with position := ← v.asOptional position.ofValue }⟩]

/-! ### Nodes -/

def nodeTags : Tags Kind where
  name := "Node"
  kinds := [Kind.comment, .charset, .keyframes, .media, .imports, .rule].map fun k => (k.name, k)

/-- A value inside a node. As a list of nodes it is interpreted only where one is wanted. -/
structure Part where
  value : Value
  nodes : Unit → Except ReadError (List Node)

structure Media where
  query : String
  nodes : List Node

def media : Record Part Media where
  name := "Media"
  blank := { query := "", nodes := [] }
  fields := [
    ⟨"media", .required, fun p m => do return { m with query := ← p.value.asString }⟩,
    ⟨"rules", .free, fun p m => do return { m with nodes := ← p.nodes () }⟩]

/-- Interprets what a node of the given kind consists of. -/
def nodeOfBody (kind : Kind) (body : Body Part) : Except ReadError Node :=
  match kind with
  | .comment => Node.comment <$> comment.ofBody (body.map Part.value)
  | .charset => Node.charset <$> charset.ofBody (body.map Part.value)
  | .keyframes => Node.keyframes <$> keyframes.ofBody (body.map Part.value)
  | .media => (fun m => Node.media m.query m.nodes) <$> media.ofBody body
  | .imports => Node.imports <$> imports.ofBody (body.map Part.value)
  | .rule => Node.rule <$> rule.ofBody (body.map Part.value)

mutual

/-- Interprets a value as a node. -/
def node : Value → Except ReadError Node
  | .object ms => do
    let kind ← nodeTags.ofMembers none ms
    nodeOfBody kind (.members (memberParts ms))
  | .array [] => .error missingTag
  | .array (v :: rest) => do
    let kind ← nodeTags.ofValue v
    nodeOfBody kind (.items (itemParts rest))
  | v => wrongType v (.tagged nodeTags.name)

def nodes : Value → Except ReadError (List Node)
  | .array vs => nodeList vs
  | v => wrongType v .sequence

def nodeList : List Value → Except ReadError (List Node)
  | [] => .ok []
  | v :: rest => do
    let n ← node v
    return n :: (← nodeList rest)

/-- The members but for the tag. -/
def memberParts : List (String × Value) → List (String × Part)
  | [] => []
  | (key, v) :: rest =>
    if key = tagKey then memberParts rest
    else (key, ⟨v, fun _ => nodes v⟩) :: memberParts rest

def itemParts : List Value → List Part
  | [] => []
  | v :: rest => ⟨v, fun _ => nodes v⟩ :: itemParts rest

end

/-! ### Documents -/

/-- Reads a node of the stylesheet: its text first, then what it says. -/
def topNode (levels : Nat) (o : Outline) : Except ReadError Node := do
  match ← nodeTags.bodyOfOutline levels o with
  | (kind, .members ms) => nodeOfBody kind (.members (memberParts ms))
  | (kind, .items vs) => nodeOfBody kind (.items (itemParts vs))

def topNodes (levels : Nat) : Outline → Except ReadError (List Node)
  | .array items close => do
    let ns ← items.mapM (topNode levels)
    orFault close
    return ns
  | o => o.wrongType .sequence

/-- A member that is no field is passed over. -/
def ignored (_ : String) (o : Outline) : Except ReadError Unit :=
  orFault o.pass

def stylesheet (levels : Nat) : Record Outline (List Node) where
  name := "Stylesheet"
  blank := []
  fields := [⟨"rules", .free, fun o _ => topNodes levels o⟩]

def document (levels : Nat) : Record Outline Document where
  name := "CssDocument"
  blank := {}
  fields := [
    ⟨"stylesheet", .required, fun o _ => do
      return { nodes := ← (stylesheet levels).ofOutline ignored o }⟩]

end Reading

/-- The brackets that are open around what a node consists of: those of the document, the
stylesheet, its list of nodes and the node. -/
def nodeDepth : Nat := 4

/-- Reads a tree from JSON text with at most `levels` open brackets. -/
def Document.parseWithin (levels : Nat) (text : String) : Except ReadError Document := do
  let draft := Draft.ofText text
  let d ← (Reading.document (levels - nodeDepth)).ofOutline Reading.ignored draft.outline
  orFault draft.finish
  return d

/-- Reads a tree from JSON text. -/
def Document.parse (text : String) : Except ReadError Document :=
  parseWithin nestingLimit text

end CssPrinter
