import CssPrinter.Text.Split

/-!
# Paths

A path is a text. Two paths are the same when their components are, whatever slashes and dots stand
between them; paths are ordered by their components, a parent before its children.
-/

namespace CssPrinter

structure Path where
  text : String
deriving DecidableEq

/-- A component of a path. -/
inductive Component
  | root
  | here
  | up
  | name (n : String)
deriving DecidableEq

namespace Component

/-- What a part between slashes means, if it means anything. -/
def ofPart (part : List Char) : Option Component :=
  if part = [] then none
  else if part = ['.'] then some .here
  else if part = ['.', '.'] then some .up
  else some (.name (String.ofList part))

def name? : Component → Option String
  | .name n => some n
  | _ => none

/-- Texts in the order of components: the root, this directory, the parent, then names. -/
def key : Component → String
  | .root => "0"
  | .here => "1"
  | .up => "2"
  | .name n => "3" ++ n

end Component

namespace Path

def parts (p : Path) : List (List Char) :=
  splitAt '/' p.text.toList

def isAbsolute (p : Path) : Bool :=
  p.text.toList.head? = some '/'

/-- Every component as written, dots included. -/
def steps (p : Path) : List Component :=
  (if p.isAbsolute then [.root] else []) ++ p.parts.filterMap Component.ofPart

/-- The components: of the dots that stand for the same directory only one at the very start
counts. -/
def components (p : Path) : List Component :=
  match p.steps with
  | [] => []
  | first :: rest => first :: rest.filter (· ≠ .here)

def endsInSlash (p : Path) : Bool :=
  p.text.toList.getLast? = some '/'

/-- What paths are compared by. -/
def key (p : Path) : List String :=
  p.components.map Component.key

/-- The last component, if it is a name. -/
def fileName (p : Path) : Option String :=
  p.components.getLast?.bind Component.name?

/-- A file name cut at its last dot. A dot at the very start does not count. -/
def splitName (name : String) : String × Option String :=
  match cutAt '.' name.toList.reverse with
  | (extension, some stem) =>
    if stem = [] then (name, none)
    else (String.ofList stem.reverse, some (String.ofList extension.reverse))
  | (_, none) => (name, none)

/-- The file name without its extension. -/
def stem (p : Path) : Option String :=
  p.fileName.map fun name => (splitName name).1

def extension (p : Path) : Option String :=
  p.fileName.bind fun name => (splitName name).2

/-- A path below a directory. An absolute path stands for itself. -/
def join (dir path : Path) : Path :=
  if path.isAbsolute then path
  else if dir.text = "" ∨ dir.endsInSlash then ⟨dir.text ++ path.text⟩
  else ⟨dir.text ++ "/" ++ path.text⟩

/-- The path that names lead to from a directory. -/
def descend (dir : Path) (names : List String) : Path :=
  names.foldl (fun p n => p.join ⟨n⟩) dir

/-! ### Sorting -/

/-- The paths without those that equal the one kept before them, which is `p` at first. -/
def distinctAfter (p : Path) : List Path → List Path
  | [] => []
  | q :: rest =>
    if q.key = p.key then distinctAfter p rest else q :: distinctAfter q rest

def distinct : List Path → List Path
  | [] => []
  | p :: rest => p :: distinctAfter p rest

/-- Sorts paths; of equal ones the first is kept. -/
def sorted (paths : List Path) : List Path :=
  distinct (paths.mergeSort fun p q => !q.key.lex p.key)

end Path

end CssPrinter
