import CssPrinter.SourceMap.Place
import CssPrinter.Text.Measure

/-!
# The layout writer

A writer holds the text written so far and a cursor: line, column and nesting level, all counted
from 1. The cursor is moved by the operations, not computed from the text. In compressed layout
there are neither line breaks nor anything in front of a text.
-/

namespace CssPrinter

/-- What stands in front of a text. -/
inductive Lead
  /-- The indentation unit, once for each level below the first. -/
  | level
  | literal (text : String)
  | nothing
deriving DecidableEq

/-- An operation on a writer. -/
inductive Op
  | write (text : String) (lead : Lead)
  | writeln (text : String) (lead : Lead)
  | newline
  /-- Appends text and leaves the cursor where it is. -/
  | trailer (text : String)
  /-- Counts line breaks that were written inside a text. -/
  | addLines (count : Nat)
  | indent
  | dedent
deriving DecidableEq

structure Writer where
  compress : Bool
  /-- Empty in compressed layout. -/
  unit : String
  text : String := ""
  line : Nat := 1
  column : Nat := 1
  level : Nat := 1

namespace Writer

def new (unit : String) (compress : Bool) : Writer :=
  { compress, unit := if compress then "" else unit }

/-- The cursor. -/
def cursor (w : Writer) : Place := ⟨w.line, w.column⟩

/-- The width of the indentation at the current level. -/
def pendingIndent (w : Writer) : Nat :=
  (w.level - 1) * utf16Width w.unit

/-- The text that a lead stands for. -/
def leadText (w : Writer) (lead : Lead) : String :=
  if w.compress then ""
  else
    match lead with
    | .level => repeated w.unit (w.level - 1)
    | .literal text => text
    | .nothing => ""

def write (w : Writer) (text : String) (lead : Lead) : Writer :=
  let before := w.leadText lead
  { w with
    text := w.text ++ before ++ text
    column := w.column + utf16Width before + utf16Width text }

def newline (w : Writer) : Writer :=
  if w.compress then w
  else { w with text := w.text ++ "\n", line := w.line + 1, column := 1 }

/-- Carries out an operation. There is no level above the first. -/
def apply (w : Writer) : Op → Writer
  | .write text lead => w.write text lead
  | .writeln text lead => (w.write text lead).newline
  | .newline => w.newline
  | .trailer text => { w with text := w.text ++ text }
  | .addLines count => { w with line := w.line + count }
  | .indent => { w with level := w.level + 1 }
  | .dedent => { w with level := max 1 (w.level - 1) }

/-- Carries out operations in order. -/
def run (w : Writer) (ops : List Op) : Writer :=
  ops.foldl apply w

end Writer

end CssPrinter
