import CssPrinter.Command.Result
import CssPrinter.Disk.Basic
import CssPrinter.Tree.Reading

/-!
# A run over all inputs

Inputs are collected, then all of them are read and printed, then the results go out in order. An
input that fails is reported and does not stop the others.

A report holds all that is printed, so printing itself never fails here. A closed standard output,
on which a run would stop with an error of its own, has no counterpart, and neither has an error in
writing a result as JSON, which texts cannot cause.
-/

namespace CssPrinter

open Json (ReadError)

/-- Why an input, or the whole run, fails. -/
inductive RunError
  | noInputs
  | read (path : Path) (cause : DiskError)
  | parse (path : Path) (cause : ReadError)
  | print (path : Path) (cause : PrintError)
  | write (path : Path) (cause : DiskError)

namespace RunError

def message : RunError → String
  | .noInputs => "no stylesheet trees found"
  | .read path _ => "failed to read " ++ path.text
  | .parse path _ => "invalid stylesheet tree in " ++ path.text
  | .print path _ => "failed to stringify " ++ path.text
  | .write path _ => "failed to write output for " ++ path.text

def code : RunError → String
  | .noInputs => "css_stringify::no_inputs"
  | .read _ _ => "css_stringify::read"
  | .parse _ _ => "css_stringify::parse"
  | .print _ _ => "css_stringify::stringify"
  | .write _ _ => "css_stringify::write"

def help : RunError → Option String
  | .noInputs => some "pass `.json` tree files or directories containing them"
  | .parse _ _ =>
    some ("expected the JSON produced by a CSS parser: " ++
      "\x7b\"stylesheet\": \x7b\"rules\": [...]\x7d\x7d")
  | _ => none

end RunError

/-- The outcome of a run. -/
structure Report where
  succeeded : Nat := 0
  failed : Nat := 0
  /-- What was printed. -/
  output : String := ""
  errors : List RunError := []

section
variable {m : Type → Type} [Monad m] [Disk m]

/-! ### Configuration -/

/-- The configuration in use, and whether there is a file that could not be used. -/
structure Loaded where
  config : Config := {}
  unusable : Bool := false

/-- Loads a configuration file. Without one, and if it cannot be used, nothing is configured. -/
def Config.loadFile (path : Path) : m Loaded := do
  if ← Disk.isPresent path then
    match ← Disk.readText path with
    | .error _ => return { unusable := true }
    | .ok text =>
      match Config.parse text with
      | .error _ => return { unusable := true }
      | .ok config => return { config }
  else return {}

/-- Loads the configuration of a workspace. -/
def Config.load (workspace : Path) : m Loaded :=
  Config.loadFile (workspace.join ⟨Config.fileName⟩)

def Arguments.loadConfig (a : Arguments) : m Loaded :=
  match a.config with
  | some path => Config.loadFile path
  | none => Config.load a.workspace

/-! ### Inputs -/

/-- Whether a file found in a directory is taken for a tree. -/
def isTreeFile (p : Path) : Bool :=
  p.extension = some "json" ∧ p.fileName ≠ some Config.fileName

/-- The files that an input stands for. In a directory, files whose paths are no text are passed
over. -/
def expand (input : Path) : m (List Path) := do
  if ← Disk.isDirectory input then
    return ((← Disk.filesBelow input).filterMap RawPath.path?).filter isTreeFile
  else return [input]

/-- The files that the inputs stand for, in order and without repetitions. -/
def collect (inputs : List Path) : m (List Path) := do
  return Path.sorted (← inputs.mapM expand).flatten

/-- Reads and prints a tree file. -/
def printFile (options : Options) (path : Path) : m (Except RunError Printed) := do
  match ← Disk.readText path with
  | .error e => return .error (.read path e)
  | .ok text =>
    match Document.parse text with
    | .error e => return .error (.parse path e)
    | .ok d => return (d.print options).mapError (.print path)

/-- The options for one input. The map names the file that is written. -/
def optionsFor (base : Options) (outDir : Option Path) (input : Path) : Options :=
  match base.file, outDir with
  | none, some dir => { base with file := (cssPath dir input).fileName }
  | _, _ => base

/-! ### Output -/

/-- Writes the CSS, then the map if there is one. -/
def writeFiles (outDir input : Path) (p : Printed) : m (Except DiskError Unit) := do
  match ← Disk.createDirectories outDir with
  | .error e => return .error e
  | .ok () =>
    let css := cssPath outDir input
    match ← Disk.writeText css p.css with
    | .error e => return .error e
    | .ok () =>
      match p.mapText with
      | none => return .ok ()
      | some map => Disk.writeText (mapPath css) map

/-- Puts out one result. -/
def emit (a : Arguments) (input : Path) (p : Printed) : m (Except RunError String) := do
  match a.outDir with
  | none => return .ok (p.format a.output input)
  | some dir =>
    match ← writeFiles dir input p with
    | .ok () => return .ok ""
    | .error e => return .error (.write input e)

/-- Puts out one result, if there is one, and counts it. -/
def Report.add (a : Arguments) (r : Report) (x : Path × Except RunError Printed) : m Report := do
  let emitted ← match x.2 with
    | .error e => pure (.error e)
    | .ok p => emit a x.1 p
  match emitted with
  | .ok text => return { r with succeeded := r.succeeded + 1, output := r.output ++ text }
  | .error e => return { r with failed := r.failed + 1, errors := r.errors ++ [e] }

/-- A run with its configuration loaded. -/
def runWith (a : Arguments) (config : Config) : m (Except RunError Report) := do
  let base := a.options config
  let files ← collect a.inputs
  if files.isEmpty then return .error .noInputs
  else
    let results ← files.mapM fun file => printFile (optionsFor base a.outDir file) file
    return .ok (← (files.zip results).foldlM (Report.add a) {})

/-- A run. -/
def run (a : Arguments) : m (Except RunError Report) := do
  let loaded ← a.loadConfig
  runWith a loaded.config

/-! ### The program -/

/-- What the program leaves behind when it ends. -/
structure Outcome where
  exitCode : Nat
  output : String := ""
  errors : List RunError := []
  configUnusable : Bool := false

/-- The name and version of the program. -/
def versionText : String := "css-stringify 0.9.5\n"

def usageText : String := "Usage: css-stringify [OPTIONS] <INPUTS>...\n"

/-- The program on a command line. It fails with 2 for a bad command line, and with 1 if there is
no input or one fails. -/
def execute (argv : List String) : m Outcome := do
  match Arguments.parse argv with
  | .error .displayVersion => return { exitCode := 0, output := versionText }
  | .error .displayHelp => return { exitCode := 0, output := usageText }
  | .error _ => return { exitCode := 2 }
  | .ok a =>
    let loaded ← a.loadConfig
    match ← runWith a loaded.config with
    | .error e => return { exitCode := 1, errors := [e], configUnusable := loaded.unusable }
    | .ok r =>
      return {
        exitCode := if r.failed = 0 then 0 else 1
        output := r.output
        errors := r.errors
        configUnusable := loaded.unusable }

end

end CssPrinter
