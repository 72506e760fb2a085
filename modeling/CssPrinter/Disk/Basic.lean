import CssPrinter.Disk.Path

/-!
# Access to files

What a run needs of a disk, for any monad that offers it.
-/

namespace CssPrinter

/-- Why a file cannot be read or written. -/
inductive DiskError
  | notFound
  | alreadyExists
  | isADirectory
  | notADirectory
  /-- The file does not hold text. -/
  | notText
  /-- There is a null character in the path. -/
  | invalidPath
  /-- A name in the path, or the path as a whole, has too many bytes. -/
  | nameTooLong
  | other
deriving DecidableEq

/-- A path as it is found on a disk: bytes, which need not be text. -/
structure RawPath where
  bytes : ByteArray

def Path.raw (p : Path) : RawPath := ⟨p.text.toUTF8⟩

/-- The path, if its bytes are text. -/
def RawPath.path? (r : RawPath) : Option Path :=
  (String.fromUTF8? r.bytes).map Path.mk

class Disk (m : Type → Type) where
  isPresent : Path → m Bool
  isDirectory : Path → m Bool
  /-- All regular files below a directory, each as the directory joined with the names that lead
  there. -/
  filesBelow : Path → m (List RawPath)
  readText : Path → m (Except DiskError String)
  /-- Makes a directory and those it lies in. -/
  createDirectories : Path → m (Except DiskError Unit)
  /-- Writes a file, in place of one that was there. -/
  writeText : Path → String → m (Except DiskError Unit)

end CssPrinter
