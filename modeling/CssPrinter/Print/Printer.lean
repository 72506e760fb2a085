import CssPrinter.Print.Options
import CssPrinter.Print.Script
import CssPrinter.SourceMap.Basic

/-!
# Printing a tree

The steps of a tree's script are carried out in order on a writer and, if a map is wanted, on a map.
The first step that fails ends the whole.
-/

namespace CssPrinter

/-- Why a tree cannot be printed. -/
inductive PrintError
  | emptySelectors
  | invalidPosition (e : InvalidPosition)
deriving DecidableEq

def PrintError.message : PrintError → String
  | .emptySelectors => "malformed rule: selector list is empty"
  | .invalidPosition e => e.message

/-- A tree being printed. -/
structure Printer where
  writer : Writer
  map : Option SourceMap

namespace Printer

/-- What a rule at the writer's cursor is mapped to. The selector will stand behind the
indentation. -/
def mapping (options : Options) (w : Writer) (p : Position) : Mapping where
  generated := w.cursor.offsetColumn w.pendingIndent
  origin := ⟨p.start.line.toNat, p.start.column.toNat⟩
  source := options.sourceOf p
  name := p.start.name

/-- Starts a rule: it must have a selector, and its position goes into the map. -/
def startRule (options : Options) (p : Printer) (r : Rule) : Except PrintError Printer :=
  if r.selectors.isEmpty then .error .emptySelectors
  else
    match p.map, r.position with
    | some map, some position => do
      let map ← (map.record (mapping options p.writer position)).mapError .invalidPosition
      return { p with map := some map }
    | _, _ => .ok p

def step (options : Options) (p : Printer) : Step → Except PrintError Printer
  | .layout op => .ok { p with writer := p.writer.apply op }
  | .rule r => p.startRule options r

def run (options : Options) (p : Printer) (steps : List Step) : Except PrintError Printer :=
  steps.foldlM (step options) p

def new (options : Options) : Printer where
  writer := Writer.new options.unit options.compress
  map := if options.wantsMap then some (SourceMap.new options.file options.rootUrl) else none

end Printer

/-- A printed tree. -/
structure Printed where
  css : String
  map : Option SourceMap

/-- The text of the map. -/
def Printed.mapText (p : Printed) : Option String :=
  p.map.map SourceMap.text

/-- Prints a tree. -/
def Document.print (d : Document) (options : Options) : Except PrintError Printed := do
  let p ← (Printer.new options).run options (Script.nodes options.compress d.nodes)
  return { css := p.writer.text ++ options.trailer, map := p.map }

end CssPrinter
