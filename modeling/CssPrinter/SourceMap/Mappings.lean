import CssPrinter.SourceMap.Vlq
import CssPrinter.Text.Split

/-!
# The mappings of a source map

Tokens are written as differences from the token before. A semicolon ends a generated line and
brings the generated column back to zero; the four other totals run on. A token equal to the one
before it is left out. `decode` reads the text back.
-/

namespace CssPrinter

/-- A generated place, the source place it comes from, and the numbers of source and name. All
count from zero. -/
structure MapToken where
  line : Nat
  column : Nat
  sourceLine : Nat
  sourceColumn : Nat
  source : Nat
  name : Option Nat
deriving DecidableEq

namespace Mappings

/-- The totals of the writer, which differences are taken from. -/
structure Totals where
  line : Nat := 0
  column : Int := 0
  source : Int := 0
  sourceLine : Int := 0
  sourceColumn : Int := 0
  name : Int := 0
deriving DecidableEq

/-- The totals after a token. A token without a name keeps the last one. -/
def Totals.after (p : Totals) (t : MapToken) : Totals where
  line := max p.line t.line
  column := t.column
  source := t.source
  sourceLine := t.sourceLine
  sourceColumn := t.sourceColumn
  name := match t.name with
    | some n => n
    | none => p.name

/-- The differences of a token from the totals. -/
def segment (p : Totals) (t : MapToken) : List Char :=
  Vlq.encode (t.column - p.column) ++ Vlq.encode (t.source - p.source) ++
    Vlq.encode (t.sourceLine - p.sourceLine) ++ Vlq.encode (t.sourceColumn - p.sourceColumn) ++
    match t.name with
    | some n => Vlq.encode (n - p.name)
    | none => []

/-- The text of the tokens after `last`. -/
def encodeFrom (p : Totals) (last : Option MapToken) : List MapToken → List Char
  | [] => []
  | t :: rest =>
    if p.line < t.line then
      List.replicate (t.line - p.line) ';' ++ segment { p with column := 0 } t ++
        encodeFrom (p.after t) (some t) rest
    else if last = some t then encodeFrom p last rest
    else
      (if last.isSome then [','] else []) ++ segment p t ++ encodeFrom (p.after t) (some t) rest

/-- The mappings text of tokens. -/
def encode (ts : List MapToken) : String :=
  String.ofList (encodeFrom {} none ts)

/-! ### Reading back

The reader has running totals of its own, which it moves by the differences that it reads. -/

/-- The running totals of a reader. -/
structure Reader where
  line : Nat := 0
  column : Int := 0
  source : Int := 0
  sourceLine : Int := 0
  sourceColumn : Int := 0
  name : Int := 0
deriving DecidableEq

/-- Adds the differences of a segment to the totals. -/
def Reader.moved (r : Reader) (column source sourceLine sourceColumn name : Int) : Reader where
  line := r.line
  column := r.column + column
  source := r.source + source
  sourceLine := r.sourceLine + sourceLine
  sourceColumn := r.sourceColumn + sourceColumn
  name := r.name + name

/-- The totals at the start of the next line. -/
def Reader.nextLine (r : Reader) : Reader :=
  { r with line := r.line + 1, column := 0 }

/-- A running total as a number, which is never negative. -/
def total (i : Int) : Option Nat :=
  if i < 0 then none else some i.toNat

/-- The token that stands at the totals. -/
def Reader.token (r : Reader) (named : Bool) : Option MapToken := do
  return {
    line := r.line
    column := ← total r.column
    source := ← total r.source
    sourceLine := ← total r.sourceLine
    sourceColumn := ← total r.sourceColumn
    name := ← if named then some <$> total r.name else some none }

/-- Reads one segment: four differences, or five with a name. -/
def decodeSegment (r : Reader) (s : List Char) : Option (MapToken × Reader) := do
  match ← Vlq.decode s with
  | [column, source, sourceLine, sourceColumn] =>
    let r := r.moved column source sourceLine sourceColumn 0
    return (← r.token false, r)
  | [column, source, sourceLine, sourceColumn, name] =>
    let r := r.moved column source sourceLine sourceColumn name
    return (← r.token true, r)
  | _ => none

def decodeSegments (r : Reader) : List (List Char) → Option (List MapToken × Reader)
  | [] => some ([], r)
  | s :: rest => do
    let (t, r) ← decodeSegment r s
    let (ts, r) ← decodeSegments r rest
    return (t :: ts, r)

/-- Reads the segments of each line. An empty line has none. -/
def decodeLines (r : Reader) : List (List Char) → Option (List MapToken)
  | [] => some []
  | s :: rest => do
    let (ts, r) ← decodeSegments r (if s.isEmpty then [] else splitAt ',' s)
    return ts ++ (← decodeLines r.nextLine rest)

/-- The tokens of a mappings text. -/
def decode (text : String) : Option (List MapToken) :=
  decodeLines {} (splitAt ';' text.toList)

end Mappings

end CssPrinter
