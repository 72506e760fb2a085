import CssPrinter.Layout.Writer

/-!
# The layout writer in machine words

A writer that counts lines, columns and levels in words of 32 bits. A count that has become too
large goes on from zero. The text it writes is that of `Writer`, as long as the level does not become
too large.
-/

namespace CssPrinter

structure Writer32 where
  compress : Bool
  /-- Empty in compressed layout. -/
  unit : String
  text : String := ""
  line : UInt32 := 1
  column : UInt32 := 1
  level : UInt32 := 1

namespace Writer32

def new (unit : String) (compress : Bool) : Writer32 :=
  { compress, unit := if compress then "" else unit }

/-- The width of a text as a word. -/
def width (text : String) : UInt32 := UInt32.ofNat (utf16Width text)

/-- The width of the indentation at the current level. -/
def pendingIndent (w : Writer32) : UInt32 :=
  (w.level - 1) * width w.unit

/-- The text that a lead stands for, and its width. That of an indentation is not measured. -/
def leadOf (w : Writer32) (lead : Lead) : String × UInt32 :=
  if w.compress then ("", 0)
  else
    match lead with
    | .level => (repeated w.unit (w.level.toNat - 1), w.pendingIndent)
    | .literal text => (text, width text)
    | .nothing => ("", 0)

def write (w : Writer32) (text : String) (lead : Lead) : Writer32 :=
  let before := w.leadOf lead
  { w with
    text := w.text ++ before.1 ++ text
    column := w.column + before.2 + width text }

def newline (w : Writer32) : Writer32 :=
  if w.compress then w
  else { w with text := w.text ++ "\n", line := w.line + 1, column := 1 }

/-- Carries out an operation. There is no level above the first. -/
def apply (w : Writer32) : Op → Writer32
  | .write text lead => w.write text lead
  | .writeln text lead => (w.write text lead).newline
  | .newline => w.newline
  | .trailer text => { w with text := w.text ++ text }
  | .addLines count => { w with line := w.line + UInt32.ofNat count }
  | .indent => { w with level := w.level + 1 }
  | .dedent => { w with level := if w.level ≤ 1 then 1 else w.level - 1 }

end Writer32

end CssPrinter
