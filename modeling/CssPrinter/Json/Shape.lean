import CssPrinter.Json.Outline
import CssPrinter.Text.Quoted

/-!
# Values of the wrong shape

A `ShapeError` says how a value differs from what was wanted. `ReadError` adds the faults of the
text itself.
-/

namespace CssPrinter.Json

/-- What was found. -/
inductive Found
  | null
  | bool (b : Bool)
  | integer (i : Int)
  | real (x : Double)
  | string (s : String)
  | sequence
  | map

/-- What was wanted. -/
inductive Wanted
  | string
  | boolean
  | word
  | sequence
  | record (name : String)
  | tagged (name : String)
  | tag

/-- The range that an integer has to lie in. -/
inductive Range
  | word
  | tagIndex (count : Nat)

/-- The number of items that a list has to have. -/
inductive Size
  | record (name : String) (count : Nat)
  | sequence (count : Nat)

inductive ShapeError
  | wrongType (found : Found) (wanted : Wanted)
  | outOfRange (i : Int) (range : Range)
  | wrongSize (count : Nat) (size : Size)
  | unknownTag (name : String) (known : List String)
  | unknownField (name : String) (known : List String)
  | missingField (name : String)
  | repeatedField (name : String)

/-- Why a text cannot be read as wanted. -/
inductive ReadError
  | fault (f : Fault)
  | shape (e : ShapeError)

/-! ### Wording -/

def Found.message : Found → String
  | .null => "null"
  | .bool b => "boolean `" ++ (if b then "true" else "false") ++ "`"
  | .integer i => "integer `" ++ Int.repr i ++ "`"
  | .real x => "floating point `" ++ x.text ++ "`"
  | .string s => "string " ++ Text.quoted s
  | .sequence => "sequence"
  | .map => "map"

def Wanted.message : Wanted → String
  | .string => "a string"
  | .boolean => "a boolean"
  | .word => "u32"
  | .sequence => "a sequence"
  | .record name => "struct " ++ name
  | .tagged name => "internally tagged enum " ++ name
  | .tag => "variant identifier"

def Range.message : Range → String
  | .word => "u32"
  | .tagIndex count => "variant index 0 <= i < " ++ Nat.repr count

/-- A count with its noun. -/
def elements (count : Nat) : String :=
  Nat.repr count ++ (if count = 1 then " element" else " elements")

def Size.message : Size → String
  | .record name count => "struct " ++ name ++ " with " ++ elements count
  | .sequence count => elements count ++ " in sequence"

def backquoted (name : String) : String := "`" ++ name ++ "`"

/-- The names that were possible. -/
def alternatives : List String → String
  | [a, b] => backquoted a ++ " or " ++ backquoted b
  | [a] => backquoted a
  | names => "one of " ++ String.intercalate ", " (names.map backquoted)

def ShapeError.message : ShapeError → String
  | .wrongType found wanted => "invalid type: " ++ found.message ++ ", expected " ++ wanted.message
  | .outOfRange i range =>
    "invalid value: integer `" ++ Int.repr i ++ "`, expected " ++ range.message
  | .wrongSize count size => "invalid length " ++ Nat.repr count ++ ", expected " ++ size.message
  | .unknownTag name known =>
    "unknown variant " ++ backquoted name ++ ", expected " ++ alternatives known
  | .unknownField name known =>
    "unknown field " ++ backquoted name ++ ", expected " ++ alternatives known
  | .missingField name => "missing field " ++ backquoted name
  | .repeatedField name => "duplicate field " ++ backquoted name

/-! ### Looking at what is there -/

def Number.found : Number → Found
  | .natural n => .integer n
  | .negative n => .integer (-n)
  | .real x => .real x

def Value.found : Value → Found
  | .null => .null
  | .bool b => .bool b
  | .number n => n.found
  | .string s => .string s
  | .array _ => .sequence
  | .object _ => .map

/-- Lists and objects are recognised by their first character, all else is read whole. -/
def Outline.found : Outline → Except Fault Found
  | .scalar s => s.content.map fun s => s.value.found
  | .text s => s.content.map .string
  | .array _ _ => .ok .sequence
  | .object _ _ => .ok .map
  | .absent f => .error f

/-- Lets a fault stand for the error it is. -/
def orFault {α : Type} (r : Except Fault α) : Except ReadError α :=
  r.mapError .fault

def wrongType {α : Type} (v : Value) (wanted : Wanted) : Except ReadError α :=
  .error (.shape (.wrongType v.found wanted))

def Outline.wrongType {α : Type} (o : Outline) (wanted : Wanted) : Except ReadError α := do
  .error (.shape (.wrongType (← orFault o.found) wanted))

/-! ### Simple values -/

namespace Value

def asString : Value → Except ReadError String
  | .string s => .ok s
  | v => wrongType v .string

/-- A natural below `2 ^ 32`. -/
def asWord : Value → Except ReadError UInt32
  | .number (.natural n) =>
    if n < UInt32.size then .ok (UInt32.ofNat n) else .error (.shape (.outOfRange n .word))
  | .number (.negative n) => .error (.shape (.outOfRange (-n) .word))
  | v => wrongType v .word

/-- Null counts as absent. -/
def asOptional {α : Type} (read : Value → Except ReadError α) :
    Value → Except ReadError (Option α)
  | .null => .ok none
  | v => (read v).map some

def asList {α : Type} (read : Value → Except ReadError α) : Value → Except ReadError (List α)
  | .array vs => vs.mapM read
  | v => wrongType v .sequence

end Value

namespace Outline

def asString : Outline → Except ReadError String
  | .text s => orFault s.content
  | o => o.wrongType .string

def asBool (o : Outline) : Except ReadError Bool :=
  match o with
  | .scalar s => do
    match ← orFault s.content with
    | .bool b => .ok b
    | _ => o.wrongType .boolean
  | o => o.wrongType .boolean

/-- Null counts as absent. -/
def asOptional {α : Type} (read : Outline → Except ReadError α) (o : Outline) :
    Except ReadError (Option α) :=
  match o with
  | .scalar ⟨.ok .null, _⟩ => .ok none
  | o => (read o).map some

end Outline

end CssPrinter.Json
