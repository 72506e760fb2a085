import CssPrinter.Command.Arguments
import CssPrinter.Disk.Path
import CssPrinter.Print.Printer

/-!
# Where results go

A result is printed as the CSS itself or as one line of JSON, or it is written to a directory under
the name of its input.
-/

namespace CssPrinter

/-- A text that ends in a line break. -/
def terminated (text : String) : String :=
  if text.toList.getLast? = some '\n' then text else text ++ "\n"

/-- What is told about one input: its path, the CSS, and the text of the map if there is one. -/
structure Result where
  input : String
  css : String
  map : Option String

namespace Result

/-- A missing map is left out. -/
def json (r : Result) : Json.Value :=
  .object ([("input", .string r.input), ("css", .string r.css)] ++
    match r.map with
    | some map => [("map", .string map)]
    | none => [])

/-- The result as it is printed. -/
def format (r : Result) : Format → String
  | .human => terminated r.css
  | .json => r.json.text ++ "\n"

end Result

namespace Printed

def result (p : Printed) (input : Path) : Result := ⟨input.text, p.css, p.mapText⟩

/-- The result of an input as it is printed. -/
def format (p : Printed) (f : Format) (input : Path) : String :=
  (p.result input).format f

end Printed

/-- The name of the CSS file for an input. -/
def cssName (input : Path) : String :=
  input.stem.getD "stylesheet" ++ ".css"

/-- The CSS file for an input. -/
def cssPath (outDir input : Path) : Path :=
  outDir.join ⟨cssName input⟩

/-- The map that belongs to a CSS file. -/
def mapPath (css : Path) : Path :=
  ⟨css.text ++ ".map"⟩

end CssPrinter
