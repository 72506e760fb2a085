import CssPrinter.Number.Shortest

/-!
# JSON values

An object keeps its members in text order, repeated names included. `Value.text` writes a value
without spaces.
-/

namespace CssPrinter.Json

/-- A number of a JSON text: a natural below `2 ^ 64`, the negative of one up to `2 ^ 63`, or a
double. -/
inductive Number
  | natural (n : Nat)
  | negative (n : Nat)
  | real (x : Double)
deriving DecidableEq

/-- A JSON value. -/
inductive Value
  | null
  | bool (b : Bool)
  | number (n : Number)
  | string (s : String)
  | array (items : List Value)
  | object (members : List (String × Value))

namespace Value

/-- A natural number as a value. -/
def nat (n : Nat) : Value := .number (.natural n)

/-- A present text, or null. -/
def optional : Option String → Value
  | none => .null
  | some s => .string s

end Value

/-! ### Writing -/

def hexDigit (n : Nat) : Char := Nat.digitChar (n % 16)

/-- The five control characters with an escape of their own have it, the others take four
hexadecimal digits. Everything else but the quote and the backslash is written as it is. -/
def escaped (c : Char) : List Char :=
  if c = '"' then ['\\', '"']
  else if c = '\\' then ['\\', '\\']
  else if c = '\x08' then ['\\', 'b']
  else if c = '\x0c' then ['\\', 'f']
  else if c = '\n' then ['\\', 'n']
  else if c = '\r' then ['\\', 'r']
  else if c = '\t' then ['\\', 't']
  else if c.toNat < 0x20 then ['\\', 'u', '0', '0', hexDigit (c.toNat / 16), hexDigit c.toNat]
  else [c]

/-- A text between quotes. -/
def quoted (s : String) : List Char :=
  '"' :: s.toList.flatMap escaped ++ ['"']

def Number.text : Number → List Char
  | .natural n => Nat.toDigits 10 n
  | .negative n => '-' :: Nat.toDigits 10 n
  | .real x => x.text.toList

/-- Texts with commas between them. -/
def commaSeparated : List (List Char) → List Char
  | [] => []
  | [t] => t
  | t :: rest => t ++ ',' :: commaSeparated rest

mutual

/-- The characters of a value's text. -/
def Value.chars : Value → List Char
  | .null => ['n', 'u', 'l', 'l']
  | .bool true => ['t', 'r', 'u', 'e']
  | .bool false => ['f', 'a', 'l', 's', 'e']
  | .number n => n.text
  | .string s => quoted s
  | .array items => '[' :: commaSeparated (itemTexts items) ++ [']']
  | .object members => '\x7b' :: commaSeparated (memberTexts members) ++ ['\x7d']

def itemTexts : List Value → List (List Char)
  | [] => []
  | v :: rest => v.chars :: itemTexts rest

def memberTexts : List (String × Value) → List (List Char)
  | [] => []
  | (key, v) :: rest => (quoted key ++ ':' :: v.chars) :: memberTexts rest

end

/-- The text of a value, without spaces. -/
def Value.text (v : Value) : String :=
  String.ofList v.chars

end CssPrinter.Json
