import CssPrinter.Disk.Basic

/-!
# A disk as a value

A `FileTree` holds directories and files by the names that lead to them from the root. Paths are
followed one step at a time, and each step but the last must lead into a directory.

Names are texts. A file that is reached only through names that are none is a `Stray`, which a walk
comes upon and no path leads to. A change can fail for reasons that lie outside of the tree, such as
a file that must not be written or a disk that is full: `faults` lists what happens to the changes
to come. A write that breaks off has emptied the file before.

What is left out: there are no links, and names are the same only if their texts are, so two places
never share a file. All regular files can be read. Nobody else changes the disk in the meantime, and
what was written without a failure is there.
-/

namespace CssPrinter

/-- The names from the root down. -/
abbrev Names := Array String

inductive Entry
  | directory
  /-- A file holds a text, or bytes that are none. -/
  | file (content : Option String)
deriving DecidableEq

def Entry.isFile : Entry → Bool
  | .file _ => true
  | .directory => false

/-- A file on whose way from a directory on there are bytes that are no text. -/
structure Stray where
  directory : Names
  /-- What leads on from the directory. -/
  rest : ByteArray
  notText : ¬ rest.IsValidUTF8

/-- The path of a stray whose directory is reached by the given one. -/
def Stray.rawIn (s : Stray) (dir : Path) : RawPath :=
  ⟨(dir.join ⟨""⟩).text.toUTF8 ++ s.rest⟩

/-- Why a change of the disk fails, though there is a place for it. -/
inductive Fault
  /-- Nothing is changed. -/
  | refused (cause : DiskError)
  /-- A file is emptied, and writing it breaks off after so many bytes. -/
  | brokenOff (bytes : Nat) (cause : DiskError)

def Fault.cause : Fault → DiskError
  | .refused cause => cause
  | .brokenOff _ cause => cause

structure FileTree where
  /-- The working directory. -/
  here : Names
  entries : List (Names × Entry)
  strays : List Stray := []
  /-- What happens to the changes to come, one after the other. All further ones succeed. -/
  faults : List (Option Fault) := []

namespace FileTree

/-- What is stored under the given names. The root is always there. -/
def entry? (t : FileTree) (names : Names) : Option Entry :=
  if names = #[] then some .directory else t.entries.lookup names

/-- Stores an entry in place of what was there. -/
def insert (t : FileTree) (names : Names) (e : Entry) : FileTree :=
  { t with entries := (names, e) :: t.entries.filter (·.1 ≠ names) }

/-! ### Following paths -/

/-- How many bytes a name may have. -/
def maxNameBytes : Nat := 255

/-- How many bytes a path may have. -/
def maxPathBytes : Nat := 4095

/-- Whether a path is one that can be followed at all. -/
def checkPath (p : Path) : Except DiskError Unit :=
  if '\x00' ∈ p.text.toList then .error .invalidPath
  else if p.text = "" then .error .notFound
  else if maxPathBytes < p.text.utf8ByteSize then .error .nameTooLong
  else .ok ()

/-- The names of a directory. -/
def asDirectory (t : FileTree) (names : Names) : Except DiskError Names :=
  match t.entry? names with
  | some .directory => .ok names
  | some (.file _) => .error .notADirectory
  | none => .error .notFound

/-- One step from an existing directory. -/
def step (t : FileTree) (names : Names) : Component → Except DiskError Names
  | .root => .ok #[]
  | .here => t.asDirectory names
  | .up => (t.asDirectory names).map Array.pop
  | .name n => do
    let names ← t.asDirectory names
    if maxNameBytes < n.utf8ByteSize then .error .nameTooLong else .ok (names.push n)

/-- The place that steps from the working directory lead to. It need not exist. -/
def follow (t : FileTree) (steps : List Component) : Except DiskError Names :=
  steps.foldlM t.step t.here

/-- The place that a path leads to. A path that ends in a slash leads to a directory. -/
def locate (t : FileTree) (p : Path) : Except DiskError Names := do
  checkPath p
  let names ← t.follow p.steps
  if p.endsInSlash then t.asDirectory names else .ok names

/-- What a path leads to. -/
def lookup (t : FileTree) (p : Path) : Except DiskError Entry := do
  match t.entry? (← t.locate p) with
  | some e => .ok e
  | none => .error .notFound

def isPresent (t : FileTree) (p : Path) : Bool :=
  (t.lookup p).isOk

def isDirectory (t : FileTree) (p : Path) : Bool :=
  match t.lookup p with
  | .ok .directory => true
  | _ => false

def readText (t : FileTree) (p : Path) : Except DiskError String := do
  match ← t.lookup p with
  | .file (some text) => .ok text
  | .file none => .error .notText
  | .directory => .error .isADirectory

/-- The names that lead to files. -/
def files (t : FileTree) : List Names :=
  (t.entries.map Prod.fst).filter fun names => (t.entry? names).any Entry.isFile

/-- The names that lead from a directory to something below it. -/
def below? (dir names : Names) : Option (List String) :=
  if dir.isPrefixOf names ∧ dir ≠ names then some (names.toList.drop dir.size) else none

/-- The files below a directory whose names are texts, but for those in directories whose paths have
become too long to be followed. -/
def pathsBelow (t : FileTree) (p : Path) : List Path :=
  match t.locate p with
  | .ok dir =>
    ((t.files.filterMap (below? dir)).filter fun rest =>
      (checkPath (p.descend rest.dropLast)).isOk).map p.descend
  | .error _ => []

/-- The other files below a directory. -/
def straysBelow (t : FileTree) (p : Path) : List RawPath :=
  match t.locate p with
  | .ok dir =>
    (t.strays.filter fun s => dir.isPrefixOf s.directory).map fun s =>
      s.rawIn (p.descend (s.directory.toList.drop dir.size))
  | .error _ => []

/-- All files below a directory. -/
def filesBelow (t : FileTree) (p : Path) : List RawPath :=
  (t.pathsBelow p).map Path.raw ++ t.straysBelow p

/-! ### Changes -/

/-- What happens to the next change. -/
def fault? (t : FileTree) : Option Fault := t.faults.head?.join

/-- The disk when the next change is over, but for the change. -/
def passed (t : FileTree) : FileTree := { t with faults := t.faults.tail }

/-- Makes the missing ones among the directories that components lead through from a place on. -/
def makeThrough : List Component → FileTree → Names → Except DiskError Unit × FileTree
  | [], t, _ => (.ok (), t)
  | c :: rest, t, names =>
    match t.step names c with
    | .error e => (.error e, t)
    | .ok place =>
      match t.entry? place with
      | some _ => makeThrough rest t place
      | none =>
        match t.fault? with
        | some fault => (.error fault.cause, t.passed)
        | none => makeThrough rest (t.passed.insert place .directory) place

/-- The components of a path that are made where they are missing. The last one is not if a dot
stands behind it. -/
def madeComponents (p : Path) : List Component :=
  if p.steps.getLast? = some .here then p.components.dropLast else p.components

/-- Whether steps lead to a directory. -/
def expectDirectory (t : FileTree) (steps : List Component) : Except DiskError Unit := do
  match t.entry? (← t.follow steps) with
  | some .directory => .ok ()
  | _ => .error .alreadyExists

/-- Makes a directory and those it lies in. Those made before a failure stay. -/
def createDirectories (t : FileTree) (p : Path) : Except DiskError Unit × FileTree :=
  if p.components = [] then (.ok (), t)
  else
    match checkPath p with
    | .error e => (.error e, t)
    | .ok () =>
      match makeThrough (madeComponents p) t t.here with
      | (.error e, t) => (.error e, t)
      | (.ok (), t) => (t.expectDirectory p.steps, t)

/-- What is in a file when writing a text broke off after so many bytes. -/
def beginning (text : String) (bytes : Nat) : Option String :=
  String.fromUTF8? (text.toUTF8.extract 0 bytes)

/-- Writes a file. -/
def writeText (t : FileTree) (p : Path) (text : String) : Except DiskError Unit × FileTree :=
  match t.locate p with
  | .error e => (.error e, t)
  | .ok names =>
    match t.entry? names with
    | some .directory => (.error .isADirectory, t)
    | _ =>
      match t.asDirectory names.pop with
      | .error e => (.error e, t)
      | .ok _ =>
        match t.fault? with
        | none => (.ok (), t.passed.insert names (.file (some text)))
        | some (.refused cause) => (.error cause, t.passed)
        | some (.brokenOff bytes cause) =>
          (.error cause, t.passed.insert names (.file (beginning text bytes)))

instance : Disk (StateM FileTree) where
  isPresent p := do return (← get).isPresent p
  isDirectory p := do return (← get).isDirectory p
  filesBelow p := do return (← get).filesBelow p
  readText p := do return (← get).readText p
  createDirectories p := modifyGet fun t => t.createDirectories p
  writeText p text := modifyGet fun t => t.writeText p text

end FileTree

end CssPrinter
