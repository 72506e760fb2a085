import CssPrinter.Tree.Basic

/-!
# Options of printing
-/

namespace CssPrinter

/-- How a tree is printed. -/
structure Options where
  /-- Without indentation and line breaks, and without comments. -/
  compress : Bool := false
  indent : Option String := none
  map : Bool := false
  /-- Where the map will be found. Wanted for the last line of the text, it also asks for a map. -/
  mapUrl : Option String := none
  /-- The generated file, as the map names it. -/
  file : Option String := none
  /-- The root of the source names in the map. -/
  rootUrl : Option String := none
  /-- The source of rules whose position names none. -/
  original : Option String := none
deriving DecidableEq

namespace Options

/-- The indentation unit, two spaces unless another is given. -/
def unit (o : Options) : String :=
  (nonEmpty o.indent).getD "  "

def wantsMap (o : Options) : Bool :=
  o.map || (nonEmpty o.mapUrl).isSome

/-- The line that points to the map. -/
def trailer (o : Options) : String :=
  match nonEmpty o.mapUrl with
  | some url => "\n/*# sourceMappingURL=" ++ url ++ " */"
  | none => ""

/-- The source of a position: its own file, else the one the options name, else a question mark. -/
def sourceOf (o : Options) (p : Position) : String :=
  (p.file.or (nonEmpty o.original)).getD "?"

end Options

end CssPrinter
