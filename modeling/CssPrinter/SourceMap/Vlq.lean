/-!
# Variable-length quantities

An integer is written in base 32, the lowest digit first. The lowest bit of the first digit is the
sign. Each digit is a character of the base-64 alphabet, whose sixth bit says that more follow.
-/

namespace CssPrinter.Vlq

/-- The base-64 alphabet. -/
def alphabet : List Char :=
  "ABCDEFGHIJKLMNOPQRSTUVWXYZabcdefghijklmnopqrstuvwxyz0123456789+/".toList

def digit (n : Nat) : Char :=
  alphabet.getD n 'A'

/-- The natural that stands for an integer: twice its size, and one more if it is negative. -/
def signed (i : Int) : Nat :=
  if i < 0 then 2 * i.natAbs + 1 else 2 * i.natAbs

def unsigned (n : Nat) : Int :=
  if n % 2 = 1 then -(n / 2 : Nat) else (n / 2 : Nat)

/-- The digits of a natural. -/
def digits (n : Nat) : List Char :=
  if n < 32 then [digit n] else digit (n % 32 + 32) :: digits (n / 32)
termination_by n

/-- The characters of an integer. -/
def encode (i : Int) : List Char :=
  digits (signed i)

/-- The number that a character stands for: capitals, small letters and digits count up, then comes
the plus sign and last the slash. -/
def value? (c : Char) : Option Nat :=
  if 'A' ≤ c ∧ c ≤ 'Z' then some (c.toNat - 'A'.toNat)
  else if 'a' ≤ c ∧ c ≤ 'z' then some (26 + (c.toNat - 'a'.toNat))
  else if '0' ≤ c ∧ c ≤ '9' then some (52 + (c.toNat - '0'.toNat))
  else if c = '+' then some 62
  else if c = '/' then some 63
  else none

/-- Reads integers up to the end of the text. `low` is what the digits read so far amount to, and
`weight` what the next digit counts; between two integers it is 1. -/
def readFrom (low weight : Nat) : List Char → Option (List Int)
  | [] => if weight = 1 then some [] else none
  | c :: rest => do
    let n ← value? c
    if n < 32 then return unsigned (low + n * weight) :: (← readFrom 0 1 rest)
    else readFrom (low + (n - 32) * weight) (weight * 32) rest

/-- The integers that a text consists of. -/
def decode (s : List Char) : Option (List Int) :=
  readFrom 0 1 s

end CssPrinter.Vlq
