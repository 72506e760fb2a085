import CssPrinter.Command.Comments
import CssPrinter.Json.Record

/-!
# Configuration files

Defaults for the options of printing, as JSON text with comments.
-/

namespace CssPrinter

open Json

/-- What a configuration file says. -/
structure Config where
  compress : Option Bool := none
  indent : Option String := none
  map : Option Bool := none
  mapUrl : Option String := none
  file : Option String := none
  rootUrl : Option String := none
  original : Option String := none
deriving DecidableEq

namespace Config

/-- The name of the configuration file in a workspace. -/
def fileName : String := "css-stringify.json"

def bool? (o : Outline) : Except ReadError (Option Bool) := o.asOptional Outline.asBool

def text? (o : Outline) : Except ReadError (Option String) := o.asOptional Outline.asString

def record : Record Outline Config where
  name := "StringifyConfig"
  blank := {}
  fields := [
    ⟨"compress", .inLists, fun o c => do return { c with compress := ← bool? o }⟩,
    ⟨"indent", .inLists, fun o c => do return { c with indent := ← text? o }⟩,
    ⟨"map", .inLists, fun o c => do return { c with map := ← bool? o }⟩,
    ⟨"mapUrl", .inLists, fun o c => do return { c with mapUrl := ← text? o }⟩,
    ⟨"file", .inLists, fun o c => do return { c with file := ← text? o }⟩,
    ⟨"rootUrl", .inLists, fun o c => do return { c with rootUrl := ← text? o }⟩,
    ⟨"original", .inLists, fun o c => do return { c with original := ← text? o }⟩]

/-- Keys that are no options are refused. -/
def refused (key : String) (_ : Outline) : Except ReadError Unit :=
  .error (.shape (.unknownField key (record.fields.map Field.key)))

/-- Reads configuration text. -/
def parse (text : String) : Except ReadError Config := do
  let draft := Draft.ofText (stripComments text)
  let c ← record.ofOutline refused draft.outline
  orFault draft.finish
  return c

end Config

end CssPrinter
