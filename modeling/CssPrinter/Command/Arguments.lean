import CssPrinter.Command.Config
import CssPrinter.Disk.Path
import CssPrinter.Print.Options

/-!
# The command line

Arguments are read from left to right. A setting given as two arguments waits for the next argument
to be understood before it is accepted: an argument that cannot be understood is the error then.
-/

namespace CssPrinter

/-- How results are printed. -/
inductive Format
  | human
  | json
deriving DecidableEq

def Format.ofName? : String → Option Format
  | "human" => some .human
  | "json" => some .json
  | _ => none

/-- What the command line says. -/
structure Arguments where
  inputs : List Path
  workspace : Path := ⟨"."⟩
  config : Option Path := none
  compress : Bool := false
  indent : Option String := none
  map : Bool := false
  mapUrl : Option String := none
  file : Option String := none
  rootUrl : Option String := none
  original : Option String := none
  outDir : Option Path := none
  output : Format := .human
deriving DecidableEq

/-- Why a command line is not carried out. -/
inductive ArgumentError
  | unknownArgument
  | invalidValue
  | tooManyValues
  | argumentConflict
  | missingRequiredArgument
  | displayHelp
  | displayVersion
deriving DecidableEq

/-- An option without a value. -/
inductive Flag
  | compress
  | map
deriving DecidableEq

/-- An option with a value. -/
inductive Setting
  | workspace
  | config
  | indent
  | mapUrl
  | file
  | rootUrl
  | original
  | outDir
  | output
deriving DecidableEq

/-- An argument as it is understood. -/
inductive Argument
  /-- Everything behind it is an input. -/
  | separator
  | flag (f : Flag)
  /-- An option that takes no value is given one. -/
  | overfull
  | setting (s : Setting)
  | settingTo (s : Setting) (value : String)
  | help
  | version
  | unknown
  | plain (text : String)

namespace Argument

/-- The option of a name. -/
def named : String → Argument
  | "compress" => .flag .compress
  | "map" => .flag .map
  | "workspace" => .setting .workspace
  | "config" => .setting .config
  | "indent" => .setting .indent
  | "map-url" => .setting .mapUrl
  | "file" => .setting .file
  | "root-url" => .setting .rootUrl
  | "original" => .setting .original
  | "out-dir" => .setting .outDir
  | "output" => .setting .output
  | "help" => .help
  | "version" => .version
  | _ => .unknown

/-- An option with a value behind an equals sign. -/
def withValue (a : Argument) (value : String) : Argument :=
  match a with
  | .setting s => .settingTo s value
  | .unknown => .unknown
  | _ => .overfull

/-- Two dashes start a long option, one dash and a letter a short one. -/
def ofText (text : String) : Argument :=
  match text.toList with
  | ['-', '-'] => .separator
  | '-' :: '-' :: rest =>
    match cutAt '=' rest with
    | (name, none) => named (String.ofList name)
    | (name, some value) => (named (String.ofList name)).withValue (String.ofList value)
  | '-' :: 'h' :: _ => .help
  | '-' :: 'V' :: _ => .version
  | '-' :: _ :: _ => .unknown
  | _ => .plain text

end Argument

/-- A command line that has been read in part. -/
structure CommandLine where
  /-- The latest first. -/
  inputs : List String := []
  flags : List Flag := []
  settings : List (Setting × String) := []
  /-- A setting that is not accepted yet, and its value if that has been seen. -/
  pending : Option (Setting × Option String) := none
  /-- Only inputs follow. -/
  separated : Bool := false

namespace CommandLine

/-- Accepts a setting, once. -/
def set (c : CommandLine) (s : Setting) (value : String) : Except ArgumentError CommandLine :=
  if (c.settings.lookup s).isSome then .error .argumentConflict
  else if s = .output ∧ (Format.ofName? value).isNone then .error .invalidValue
  else .ok { c with settings := (s, value) :: c.settings }

/-- Accepts the pending setting. -/
def settle (c : CommandLine) : Except ArgumentError CommandLine :=
  match c.pending with
  | none => .ok c
  | some (_, none) => .error .invalidValue
  | some (s, some value) => { c with pending := none }.set s value

def addInput (c : CommandLine) (text : String) : Except ArgumentError CommandLine := do
  let c ← c.settle
  return { c with inputs := text :: c.inputs }

/-- Reads one argument while options are possible. -/
def read (c : CommandLine) : Argument → Except ArgumentError CommandLine
  | .separator => .ok { c with separated := true }
  | .unknown => .error .unknownArgument
  | .overfull => .error .tooManyValues
  | .help => do
    let _ ← c.settle
    .error .displayHelp
  | .version => do
    let _ ← c.settle
    .error .displayVersion
  | .flag f => do
    let c ← c.settle
    if f ∈ c.flags then .error .argumentConflict else return { c with flags := f :: c.flags }
  | .setting s => do
    let c ← c.settle
    return { c with pending := some (s, none) }
  | .settingTo s value => do
    let c ← c.settle
    c.set s value
  | .plain text =>
    match c.pending with
    | some (s, none) => .ok { c with pending := some (s, some text) }
    | _ => c.addInput text

def next (c : CommandLine) (text : String) : Except ArgumentError CommandLine :=
  if c.separated then c.addInput text else c.read (.ofText text)

/-- The arguments of a command line that has been read. -/
def arguments (c : CommandLine) : Arguments where
  inputs := c.inputs.reverse.map Path.mk
  workspace := ((c.settings.lookup .workspace).map Path.mk).getD ⟨"."⟩
  config := (c.settings.lookup .config).map Path.mk
  compress := .compress ∈ c.flags
  indent := c.settings.lookup .indent
  map := .map ∈ c.flags
  mapUrl := c.settings.lookup .mapUrl
  file := c.settings.lookup .file
  rootUrl := c.settings.lookup .rootUrl
  original := c.settings.lookup .original
  outDir := (c.settings.lookup .outDir).map Path.mk
  output := ((c.settings.lookup .output).bind Format.ofName?).getD .human

end CommandLine

namespace Arguments

/-- Reads a command line, without the name of the program. At least one input is needed. -/
def parse (argv : List String) : Except ArgumentError Arguments := do
  let c ← argv.foldlM CommandLine.next {}
  let c ← c.settle
  if c.inputs.isEmpty then .error .missingRequiredArgument else return c.arguments

/-- The options of printing: those of the command line, then those of the configuration. -/
def options (a : Arguments) (c : Config) : Options where
  compress := a.compress || c.compress.getD false
  indent := a.indent.or c.indent
  map := a.map || c.map.getD false
  mapUrl := a.mapUrl.or c.mapUrl
  file := a.file.or c.file
  rootUrl := a.rootUrl.or c.rootUrl
  original := a.original.or c.original

end Arguments

end CssPrinter
