import CssPrinter.Json.Value

/-!
# Tokens of a JSON text

`tokens` cuts a text into brackets, commas, colons, words, numbers and quoted texts. A damaged token
is a token too: what is wrong with it is said when something reads it, because what comes first in
the text is reported first. After a token that does not end, there are no further tokens.
-/

namespace CssPrinter.Json

/-- Why a text cannot be read on. -/
inductive Fault
  /-- The text ends where more is needed. -/
  | ended
  /-- Something stands there that may not. -/
  | malformed
deriving DecidableEq

/-- A word, number or quoted text as it stands. One who needs its content takes `content`. One who
passes over it takes `passage`, which accepts unpaired surrogates and numbers of any size. -/
structure Lexeme (α : Type) where
  content : Except Fault α
  passage : Except Fault Unit

/-- The value of a word or a number. -/
inductive Scalar
  | null
  | bool (b : Bool)
  | number (n : Number)

inductive Token
  | openArray
  | closeArray
  | openObject
  | closeObject
  | comma
  | colon
  | scalar (s : Lexeme Scalar)
  | text (s : Lexeme String)
  /-- A character that starts no token. -/
  | stray

namespace Lexeme

def whole {α : Type} (a : α) : Lexeme α := ⟨.ok a, .ok ()⟩

/-- Broken for everyone. -/
def broken {α : Type} (f : Fault) : Lexeme α := ⟨.error f, .error f⟩

end Lexeme

/-! ### Words and numbers -/

/-- Reads the letters still expected of a word. -/
def word (s : Scalar) : List Char → List Char → Lexeme Scalar × List Char
  | [], rest => (.whole s, rest)
  | _ :: _, [] => (.broken .ended, [])
  | e :: expected, c :: rest => if c = e then word s expected rest else (.broken .malformed, [])

/-- A written number: sign, digits, digits after the point, and exponent. -/
structure Numeral where
  negative : Bool
  whole : List Char
  fraction : List Char
  exponent : Option Int

def digitValue (c : Char) : Nat := c.toNat - '0'.toNat

def digitsValue (digits : List Char) : Nat :=
  digits.foldl (fun n c => n * 10 + digitValue c) 0

/-- The largest number that is kept exactly. -/
def maxNatural : Nat := UInt64.size - 1

/-- Appends digits to `n` as long as the result is kept exactly. The rest is returned. -/
def absorb (n : Nat) : List Char → Nat × List Char
  | [] => (n, [])
  | c :: rest =>
    if n * 10 + digitValue c ≤ maxNatural then absorb (n * 10 + digitValue c) rest
    else (n, c :: rest)

namespace Numeral

/-- A number with a point or an exponent, and one too large to be exact, is a double made of the
leading digits that fit. -/
def real (x : Numeral) : Option Double :=
  let (n, excess) := absorb 0 x.whole
  let (n, unused) := absorb n x.fraction
  let scale : Int := excess.length - (x.fraction.length - unused.length)
  (Magnitude.ofDecimal n (scale + x.exponent.getD 0)).map (⟨x.negative, ·⟩)

/-- The number, unless it is too large for a double. Minus zero is a double. -/
def value (x : Numeral) : Option Number :=
  let n := digitsValue x.whole
  if x.fraction.isEmpty ∧ x.exponent.isNone ∧ n ≤ maxNatural then
    if !x.negative then some (.natural n)
    else if n = 0 ∨ UInt64.size / 2 < n then x.real.map .real
    else some (.negative n)
  else x.real.map .real

def lexeme (x : Numeral) : Lexeme Scalar :=
  match x.value with
  | some n => .whole (.number n)
  | none => ⟨.error .malformed, .ok ()⟩

end Numeral

/-- A digit is missing where `rest` starts. Only a reader of the content tells the end of the text
apart. -/
def digitMissing (rest : List Char) : Lexeme Scalar × List Char :=
  (⟨.error (if rest.isEmpty then .ended else .malformed), .error .malformed⟩, [])

/-- Reads the exponent, if there is one. -/
def exponentPart (x : Numeral) (s : List Char) : Lexeme Scalar × List Char :=
  let read (negative : Bool) (s : List Char) : Lexeme Scalar × List Char :=
    match s.takeWhile Char.isDigit with
    | [] => digitMissing s
    | digits =>
      let n : Int := digitsValue digits
      (Numeral.lexeme { x with exponent := some (if negative then -n else n) },
        s.dropWhile Char.isDigit)
  match s with
  | c :: s =>
    if c = 'e' ∨ c = 'E' then
      match s with
      | '+' :: s => read false s
      | '-' :: s => read true s
      | s => read false s
    else (x.lexeme, c :: s)
  | [] => (x.lexeme, [])

/-- Reads the digits after the point, if there is one, and the exponent. -/
def fractionPart (x : Numeral) (s : List Char) : Lexeme Scalar × List Char :=
  match s with
  | '.' :: s =>
    match s.takeWhile Char.isDigit with
    | [] => digitMissing s
    | digits => exponentPart { x with fraction := digits } (s.dropWhile Char.isDigit)
  | s => exponentPart x s

/-- Reads a number from its first digit on. A number of several digits does not start with zero. -/
def number (negative : Bool) (s : List Char) : Lexeme Scalar × List Char :=
  match s.takeWhile Char.isDigit with
  | [] => digitMissing s
  | '0' :: _ :: _ => (.broken .malformed, [])
  | digits => fractionPart ⟨negative, digits, [], none⟩ (s.dropWhile Char.isDigit)

/-! ### Quoted texts -/

/-- A character of a quoted text, or a code unit given by its number. -/
inductive Piece
  | char (c : Char)
  | unit (n : Nat)

def hexValue (c : Char) : Option Nat :=
  if '0' ≤ c ∧ c ≤ '9' then some (c.toNat - '0'.toNat)
  else if 'a' ≤ c ∧ c ≤ 'f' then some (c.toNat - 'a'.toNat + 10)
  else if 'A' ≤ c ∧ c ≤ 'F' then some (c.toNat - 'A'.toNat + 10)
  else none

/-- The number written by four hexadecimal digits. -/
def hexUnit (a b c d : Char) : Option Nat := do
  return (((← hexValue a) * 16 + (← hexValue b)) * 16 + (← hexValue c)) * 16 + (← hexValue d)

/-- What a backslash and one character stand for. -/
def unescaped (c : Char) : Option Char :=
  if c = '"' ∨ c = '\\' ∨ c = '/' then some c
  else if c = 'b' then some '\x08'
  else if c = 'f' then some '\x0c'
  else if c = 'n' then some '\n'
  else if c = 'r' then some '\r'
  else if c = 't' then some '\t'
  else none

/-- The bytes that a text takes in UTF-8. -/
def byteCount : List Char → Nat
  | [] => 0
  | c :: rest => c.utf8Size + byteCount rest

def addPiece (p : Piece) (r : List Piece × Except Fault (List Char)) :
    List Piece × Except Fault (List Char) :=
  (p :: r.1, r.2)

/-- Reads to the closing quote. The result is what was read and the text after the quote, or why
there is none. A numbered code unit takes four bytes, whatever they are. -/
def pieces : List Char → List Piece × Except Fault (List Char)
  | [] => ([], .error .ended)
  | c :: rest =>
    if c = '"' then ([], .ok rest)
    else if c = '\\' then
      match rest with
      | [] => ([], .error .ended)
      | e :: rest =>
        if e = 'u' then
          match rest with
          | h₁ :: h₂ :: h₃ :: h₄ :: rest =>
            match hexUnit h₁ h₂ h₃ h₄ with
            | some n => addPiece (.unit n) (pieces rest)
            | none => ([], .error .malformed)
          | short => ([], .error (if byteCount short < 4 then .ended else .malformed))
        else
          match unescaped e with
          | some c => addPiece (.char c) (pieces rest)
          | none => ([], .error .malformed)
    else if c.toNat < 0x20 then ([], .error .malformed)
    else addPiece (.char c) (pieces rest)

def isLead (n : Nat) : Bool := 0xD800 ≤ n && n < 0xDC00

def isTrail (n : Nat) : Bool := 0xDC00 ≤ n && n < 0xE000

/-- Joins code units to characters. An unpaired surrogate is malformed. Pieces that stop inside a
pair have ended. -/
def joined : List Piece → Except Fault (List Char)
  | [] => .ok []
  | .char c :: rest => (joined rest).map (c :: ·)
  | .unit n :: rest =>
    if isTrail n then .error .malformed
    else if isLead n then
      match rest with
      | [] => .error .ended
      | .unit m :: rest =>
        if isTrail m then
          (joined rest).map (Char.ofNat (0x10000 + (n - 0xD800) * 0x400 + (m - 0xDC00)) :: ·)
        else .error .malformed
      | .char _ :: _ => .error .malformed
    else (joined rest).map (Char.ofNat n :: ·)

/-- Reads a quoted text from behind its opening quote. -/
def quotation (s : List Char) : Lexeme String × List Char :=
  match pieces s with
  | (ps, .ok rest) =>
    match joined ps with
    | .ok cs => (.whole (String.ofList cs), rest)
    | .error _ => (⟨.error .malformed, .ok ()⟩, rest)
  | (ps, .error f) =>
    match joined ps with
    | .error .malformed => (⟨.error .malformed, .error f⟩, [])
    | _ => (.broken f, [])

/-! ### Texts -/

/-- What may stand between tokens. -/
def isBlank (c : Char) : Bool :=
  c = ' ' || c = '\t' || c = '\n' || c = '\r'

/-- The token that starts with `c`, and the text after it. -/
def token (c : Char) (rest : List Char) : Token × List Char :=
  if c = '[' then (.openArray, rest)
  else if c = ']' then (.closeArray, rest)
  else if c = '\x7b' then (.openObject, rest)
  else if c = '\x7d' then (.closeObject, rest)
  else if c = ',' then (.comma, rest)
  else if c = ':' then (.colon, rest)
  else if c = '"' then (quotation rest).map .text id
  else if c = 'n' then (word .null ['u', 'l', 'l'] rest).map .scalar id
  else if c = 't' then (word (.bool true) ['r', 'u', 'e'] rest).map .scalar id
  else if c = 'f' then (word (.bool false) ['a', 'l', 's', 'e'] rest).map .scalar id
  else if c = '-' then (number true rest).map .scalar id
  else if c.isDigit then (number false (c :: rest)).map .scalar id
  else (.stray, [])

/-! ### Every token takes up text -/

theorem length_word_le (s : Scalar) (expected rest : List Char) :
    (word s expected rest).2.length ≤ rest.length := by
  fun_induction word s expected rest with
  | case1 => exact Nat.le_refl _
  | case2 => exact Nat.le_refl _
  | case3 expected c rest ih => exact Nat.le_succ_of_le ih
  | case4 => exact Nat.zero_le _

theorem length_dropWhile_le (p : Char → Bool) (s : List Char) :
    (s.dropWhile p).length ≤ s.length :=
  (List.dropWhile_sublist p).length_le

theorem length_exponentPart_le (x : Numeral) (s : List Char) :
    (exponentPart x s).2.length ≤ s.length := by
  have drop := length_dropWhile_le Char.isDigit
  unfold exponentPart digitMissing
  dsimp only
  repeat' split
  all_goals simp only [List.length_cons, List.length_nil, Nat.zero_le, Nat.le_refl]
  all_goals exact Nat.le_trans (drop _) (by omega)

theorem length_fractionPart_le (x : Numeral) (s : List Char) :
    (fractionPart x s).2.length ≤ s.length := by
  unfold fractionPart digitMissing
  split
  · split
    · exact Nat.zero_le _
    · exact Nat.le_trans (length_exponentPart_le _ _)
        (Nat.le_succ_of_le (length_dropWhile_le _ _))
  · exact length_exponentPart_le _ _

theorem length_number_le (negative : Bool) (s : List Char) :
    (number negative s).2.length ≤ (s.dropWhile Char.isDigit).length := by
  unfold number digitMissing
  split
  · exact Nat.zero_le _
  · exact Nat.zero_le _
  · exact length_fractionPart_le _ _

theorem length_pieces_lt {s rest : List Char} (h : (pieces s).2 = .ok rest) :
    rest.length < s.length := by
  fun_induction pieces s with
  | case2 => cases h; exact Nat.lt_succ_self _
  | case4 | case7 | case10 =>
    rename_i ih
    have := ih h
    simp only [List.length_cons]
    omega
  | _ => cases h

theorem length_quotation_le (s : List Char) : (quotation s).2.length ≤ s.length := by
  unfold quotation
  split
  · rename_i h
    have := length_pieces_lt (congrArg Prod.snd h)
    split <;> exact Nat.le_of_lt this
  · split <;> exact Nat.zero_le _

theorem length_snd_ite_le {p : Prop} [Decidable p] {r r' : Token × List Char} {n : Nat}
    (pos : p → r.2.length ≤ n) (neg : ¬p → r'.2.length ≤ n) :
    (if p then r else r').2.length ≤ n := by
  by_cases h : p
  · rw [if_pos h]; exact pos h
  · rw [if_neg h]; exact neg h

theorem length_token_le (c : Char) (rest : List Char) :
    (token c rest).2.length ≤ rest.length := by
  unfold token
  iterate 6 refine length_snd_ite_le (fun _ => Nat.le_refl _) (fun _ => ?_)
  refine length_snd_ite_le (fun _ => length_quotation_le _) (fun _ => ?_)
  iterate 3 refine length_snd_ite_le (fun _ => length_word_le _ _ _) (fun _ => ?_)
  refine length_snd_ite_le (fun _ => ?_) (fun _ => ?_)
  · exact Nat.le_trans (length_number_le _ _) (length_dropWhile_le _ _)
  refine length_snd_ite_le (fun digit => ?_) (fun _ => Nat.zero_le _)
  refine Nat.le_trans (length_number_le _ _) ?_
  rw [List.dropWhile_cons_of_pos digit]
  exact length_dropWhile_le _ _

/-- The tokens of a text. -/
def tokens : List Char → List Token
  | [] => []
  | c :: rest =>
    if isBlank c then tokens rest
    else (token c rest).1 :: tokens (token c rest).2
termination_by s => s.length
decreasing_by
  · exact Nat.lt_succ_self _
  · exact Nat.lt_succ_of_le (length_token_le c rest)

end CssPrinter.Json
