import CssPrinter.Json.Value
import CssPrinter.SourceMap.Place
import CssPrinter.SourceMap.Mappings

/-!
# Recording a source map

A recorder collects tokens and numbers sources and names in the order they are first seen. A record
that fails leaves no trace.
-/

namespace CssPrinter

/-- A recorded source map. -/
structure SourceMap where
  file : String
  sourceRoot : Option String
  sources : List String := []
  names : List String := []
  tokens : Array MapToken := #[]

/-- A mapping to record: a generated place and the place it comes from. -/
structure Mapping where
  generated : Place
  origin : Place
  source : String
  name : Option String

/-- The number of `text` in a list, which is extended by it if need be. -/
def intern (texts : List String) (text : String) : List String × Nat :=
  match texts.idxOf? text with
  | some i => (texts, i)
  | none => (texts ++ [text], texts.length)

namespace SourceMap

/-- A map without tokens. Without a name the generated file is called by the empty text. -/
def new (file sourceRoot : Option String) : SourceMap :=
  { file := file.getD "", sourceRoot }

/-- Adds a token. -/
def add (m : SourceMap) (generated origin : Nat × Nat) (source : String) (name : Option String) :
    SourceMap :=
  let (sources, sourceIndex) := intern m.sources source
  let (names, nameIndex) :=
    match name with
    | none => (m.names, none)
    | some name =>
      let (names, index) := intern m.names name
      (names, some index)
  let token : MapToken := {
    line := generated.1, column := generated.2,
    sourceLine := origin.1, sourceColumn := origin.2,
    source := sourceIndex, name := nameIndex }
  { m with sources, names, tokens := m.tokens.push token }

/-- Records a mapping. The generated place is checked first. An empty name is no name. -/
def record (m : SourceMap) (x : Mapping) : Except InvalidPosition SourceMap := do
  let generated ← x.generated.zeroBased
  let origin ← x.origin.zeroBased
  return m.add generated origin x.source (x.name.filter (· ≠ ""))

def size (m : SourceMap) : Nat := m.tokens.size

/-- A short description of a map that is being recorded. -/
def summary (m : SourceMap) : String :=
  "MappingRecorder \x7b len: " ++ Nat.repr m.size ++ ", .. \x7d"

/-! ### Text -/

/-- The map as JSON. A missing source root is left out, an empty one is kept. -/
def json (m : SourceMap) : Json.Value :=
  .object (
    [("version", .nat 3), ("file", .string m.file), ("sources", .array (m.sources.map .string))] ++
    (match m.sourceRoot with
      | some root => [("sourceRoot", .string root)]
      | none => []) ++
    [("names", .array (m.names.map .string)),
      ("mappings", .string (Mappings.encode m.tokens.toList))])

/-- The text of the map. -/
def text (m : SourceMap) : String :=
  m.json.text

/-! ### Looking up -/

/-- Whether a source name stands on its own whatever the source root is. -/
def isRooted (source : String) : Bool :=
  ["/", "http:", "https:"].any fun start => start.toList.isPrefixOf source.toList

/-- A text without one slash at its end. -/
def withoutSlash (root : String) : String :=
  if root.toList.getLast? = some '/' then String.ofList root.toList.dropLast else root

/-- A source name under the source root. -/
def resolve (m : SourceMap) (source : String) : String :=
  match m.sourceRoot with
  | some root => if root = "" ∨ isRooted source then source else withoutSlash root ++ "/" ++ source
  | none => source

/-- The resolved source of a token. -/
def sourceOf (m : SourceMap) (t : MapToken) : String :=
  m.resolve (m.sources.getD t.source "")

/-- The name of a token. -/
def nameOf (m : SourceMap) (t : MapToken) : Option String :=
  t.name.map fun i => m.names.getD i ""

end SourceMap

end CssPrinter
