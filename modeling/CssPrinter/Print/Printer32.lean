import CssPrinter.Layout.Writer32
import CssPrinter.Print.Printer

/-!
# Printing a tree in machine words

The same script as in `Document.print`, carried out on a writer that counts in words of 32 bits.
Where a count has become too large, rules are recorded at other places, and one that seems to start
at line or column zero is refused.
-/

namespace CssPrinter

/-- A tree being printed. -/
structure Printer32 where
  writer : Writer32
  map : Option SourceMap

namespace Printer32

/-- What a rule at the writer's cursor is mapped to. -/
def mapping (options : Options) (w : Writer32) (p : Position) : Mapping where
  generated := ⟨w.line.toNat, (w.column + w.pendingIndent).toNat⟩
  origin := ⟨p.start.line.toNat, p.start.column.toNat⟩
  source := options.sourceOf p
  name := p.start.name

/-- Starts a rule: it must have a selector, and its position goes into the map. -/
def startRule (options : Options) (p : Printer32) (r : Rule) : Except PrintError Printer32 :=
  if r.selectors.isEmpty then .error .emptySelectors
  else
    match p.map, r.position with
    | some map, some position => do
      let map ← (map.record (mapping options p.writer position)).mapError .invalidPosition
      return { p with map := some map }
    | _, _ => .ok p

def step (options : Options) (p : Printer32) : Step → Except PrintError Printer32
  | .layout op => .ok { p with writer := p.writer.apply op }
  | .rule r => p.startRule options r

def run (options : Options) (p : Printer32) (steps : List Step) : Except PrintError Printer32 :=
  steps.foldlM (step options) p

def new (options : Options) : Printer32 where
  writer := Writer32.new options.unit options.compress
  map := if options.wantsMap then some (SourceMap.new options.file options.rootUrl) else none

end Printer32

/-- Prints a tree. -/
def Document.print32 (d : Document) (options : Options) : Except PrintError Printed := do
  let p ← (Printer32.new options).run options (Script.nodes options.compress d.nodes)
  return { css := p.writer.text ++ options.trailer, map := p.map }

end CssPrinter
