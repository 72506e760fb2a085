/-!
# Comments in configuration text

`stripComments` takes comments out of a JSON text and leaves quoted texts alone. A line comment
leaves its line break behind, a block comment nothing.
-/

namespace CssPrinter

/-- Where in the text a character stands. -/
inductive Region
  | code
  | quote
  /-- Behind a backslash in a quoted text. -/
  | escape
  | lineComment
  | blockComment
deriving DecidableEq

/-- The text without its comments, from a place in the given region on. -/
def strip : Region → List Char → List Char
  | _, [] => []
  | .code, '/' :: '/' :: rest => strip .lineComment rest
  | .code, '/' :: '*' :: rest => strip .blockComment rest
  | .code, c :: rest => c :: strip (if c = '"' then .quote else .code) rest
  | .quote, c :: rest =>
    c :: strip (if c = '\\' then .escape else if c = '"' then .code else .quote) rest
  | .escape, c :: rest => c :: strip .quote rest
  | .lineComment, c :: rest =>
    if c = '\n' then c :: strip .code rest else strip .lineComment rest
  | .blockComment, '*' :: '/' :: rest => strip .code rest
  | .blockComment, _ :: rest => strip .blockComment rest

/-- A text without its comments. -/
def stripComments (text : String) : String :=
  String.ofList (strip .code text.toList)

end CssPrinter
