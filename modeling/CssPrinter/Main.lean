import CssPrinter.Command.Run

/-!
# The program

The disk of the machine, and the command line.
-/

namespace CssPrinter

/-- The cause of a failed access. -/
def diskError : IO.Error → DiskError
  | .noFileOrDirectory .. => .notFound
  | .alreadyExists .. => .alreadyExists
  | .inappropriateType .. => .isADirectory
  | _ => .other

/-- The result of an access, whether it fails or not. -/
def attempt {α : Type} (x : IO α) : IO (Except DiskError α) := do
  try return .ok (← x)
  catch e => return .error (diskError e)

def isDirectoryOnDisk (p : Path) : IO Bool := do
  match ← attempt (IO.FS.realPath p.text) with
  | .ok place => place.isDir
  | .error _ => return false

/-- All regular files below a directory of the machine. Links are followed to the directory itself,
but none that is found there. -/
partial def filesOnDisk (dir : Path) : IO (List Path) := do
  match ← attempt do (← IO.FS.realPath dir.text).readDir with
  | .error _ => return []
  | .ok found =>
    let files ← found.toList.mapM fun x => do
      let p := dir.join ⟨x.fileName⟩
      match ← attempt x.path.symlinkMetadata with
      | .error _ => return []
      | .ok data =>
        match data.type with
        | .dir => filesOnDisk p
        | .file => return [p]
        | _ => return []
    return files.flatten

instance : Disk IO where
  isPresent p := do return (← attempt (IO.FS.realPath p.text)).isOk
  isDirectory := isDirectoryOnDisk
  filesBelow p := do return (← filesOnDisk p).map Path.raw
  readText p := do
    match ← attempt (IO.FS.readBinFile p.text) with
    | .error e => return .error e
    | .ok bytes =>
      match String.fromUTF8? bytes with
      | some text => return .ok text
      | none => return .error .notText
  createDirectories p := do
    if p.components = [] then return .ok () else attempt (IO.FS.createDirAll p.text)
  writeText p text := attempt (IO.FS.writeFile p.text text)

/-- An error as it is reported. -/
def RunError.report (e : RunError) : String :=
  e.code ++ ": " ++ e.message ++ "\n" ++
    match e.help with
    | some help => "  help: " ++ help ++ "\n"
    | none => ""

end CssPrinter

open CssPrinter in
def main (argv : List String) : IO UInt32 := do
  let outcome ← execute argv
  if outcome.exitCode = 2 then (← IO.getStderr).putStr usageText
  if outcome.configUnusable then
    (← IO.getStderr).putStr "warning: the configuration file cannot be used\n"
  for e in outcome.errors do (← IO.getStderr).putStr e.report
  (← IO.getStdout).putStr outcome.output
  return UInt32.ofNat outcome.exitCode
