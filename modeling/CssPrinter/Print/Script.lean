import CssPrinter.Layout.Writer
import CssPrinter.Tree.Basic

/-!
# The script of a tree

Printing a tree is a list of steps in document order: layout operations, and a mark where each rule
starts. The script depends on the tree and on whether comments are kept, and on nothing else.
-/

namespace CssPrinter

/-- A step of printing. -/
inductive Step
  | layout (op : Op)
  /-- A rule starts here, before its indentation. -/
  | rule (r : Rule)

namespace Script

def write (text : String) (lead : Lead) : Step := .layout (.write text lead)

def writeln (text : String) (lead : Lead) : Step := .layout (.writeln text lead)

def newline : Step := .layout .newline

def openBlock : List Step :=
  [writeln "\x7b" (.literal " "), .layout .indent]

def closeBlock : List Step :=
  [.layout .dedent, writeln "\x7d" .level]

/-- Scripts of siblings with a line break between them. -/
def separated : List (List Step) → List Step
  | [] => []
  | [s] => s
  | s :: rest => s ++ newline :: separated rest

/-- A comment is left out of compressed text. Its own line breaks are counted after the one that
ends it. -/
def comment (compress : Bool) (text : String) : List Step :=
  if compress then []
  else [writeln ("/*" ++ text ++ "*/") .level, .layout (.addLines (lineFeeds text))]

/-- A property ends in a semicolon unless it is the last entry of its block. -/
def property (p : Property) (isLast : Bool) : List Step :=
  [write (p.name ++ ":") .level, write p.value (.literal " ")] ++
    (if isLast then [] else [write ";" .nothing]) ++ [newline]

def declarations (compress : Bool) : List Declaration → List Step
  | [] => []
  | .comment text :: rest => comment compress text ++ declarations compress rest
  | .property p :: rest => property p rest.isEmpty ++ declarations compress rest

def keyframe (compress : Bool) (k : Keyframe) : List Step :=
  write (String.intercalate ", " k.values) .level :: openBlock ++
    declarations compress k.declarations ++ closeBlock

def keyframes (compress : Bool) (k : Keyframes) : List Step :=
  write ("@" ++ k.vendor.getD "" ++ "keyframes " ++ k.name) .level :: openBlock ++
    separated (k.blocks.map (keyframe compress)) ++ closeBlock

/-- Selectors stand on lines of their own. The comma after one is indented like a line. -/
def selectors : List String → List Step
  | [] => []
  | [s] => [write s .level]
  | s :: rest => [write s .level, writeln "," .level] ++ selectors rest

def rule (compress : Bool) (r : Rule) : List Step :=
  .rule r :: selectors r.selectors ++ openBlock ++ declarations compress r.declarations ++
    closeBlock

mutual

def node (compress : Bool) : Node → List Step
  | .comment text => comment compress text
  | .charset text => [writeln ("@charset " ++ text ++ ";") .level]
  | .keyframes k => keyframes compress k
  | .media query nodes =>
    write ("@media " ++ query) .level :: openBlock ++ separated (scripts compress nodes) ++
      closeBlock
  | .imports text => [write ("@import " ++ text ++ ";") .level]
  | .rule r => rule compress r

def scripts (compress : Bool) : List Node → List (List Step)
  | [] => []
  | n :: rest => node compress n :: scripts compress rest

end

/-- The script of sibling nodes. -/
def nodes (compress : Bool) (ns : List Node) : List Step :=
  separated (scripts compress ns)

end Script

end CssPrinter
