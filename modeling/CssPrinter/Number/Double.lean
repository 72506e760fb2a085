/-!
# Binary64 values in exact arithmetic

A finite double is `significand · 2 ^ exponent`. Products and quotients are computed on naturals and
rounded once, to the nearest double and a half to the even significand. `ofDecimal` reads a decimal
the way the JSON reader does: the digits become a double, which is then multiplied or divided by the
double nearest to a power of ten. The result is the nearest double for short decimals and may be
one step off for long ones.
-/

namespace CssPrinter

/-- A finite magnitude, `significand · 2 ^ exponent`. -/
structure Magnitude where
  significand : Nat
  exponent : Int
deriving DecidableEq

/-- A finite double. Zero has a sign. -/
structure Double where
  negative : Bool
  magnitude : Magnitude
deriving DecidableEq

namespace Magnitude

/-- The exponent of the smallest doubles. -/
def minExponent : Int := -1074

/-- The exponent of the largest doubles. -/
def maxExponent : Int := 971

def zero : Magnitude := ⟨0, minExponent⟩

/-- The natural nearest to `num / den`; of two equally near ones the even one. -/
def roundDiv (num den : Nat) : Nat :=
  let quotient := num / den
  let rest := num % den
  if 2 * rest < den then quotient
  else if 2 * rest = den then quotient + quotient % 2
  else quotient + 1

/-- Numerator and denominator of `num / den · 2 ^ shift`. -/
def shifted (num den : Nat) (shift : Int) : Nat × Nat :=
  if 0 ≤ shift then (num * Nat.pow 2 shift.toNat, den)
  else (num, den * Nat.pow 2 (-shift).toNat)

/-- The double nearest to `num / den · 2 ^ shift`, if that is finite. -/
def nearest (num den : Nat) (shift : Int) : Option Magnitude :=
  if num = 0 then some zero
  else
    -- with this exponent the significand lies strictly between 2 ^ 52 and 2 ^ 54
    let low : Int := (num.log2 : Int) - den.log2 + shift - 53
    let (n, d) := shifted num den (shift - low)
    let exponent := max minExponent (if n / d < Nat.pow 2 53 then low else low + 1)
    let (n, d) := shifted num den (shift - exponent)
    let significand := roundDiv n d
    let rounded : Magnitude :=
      if significand = Nat.pow 2 53 then ⟨Nat.pow 2 52, exponent + 1⟩ else ⟨significand, exponent⟩
    if rounded.exponent ≤ maxExponent then some rounded else none

/-- The double nearest to `10 ^ n`. -/
def powerOfTen (n : Nat) : Option Magnitude :=
  nearest (Nat.pow 10 n) 1 0

def mul (x y : Magnitude) : Option Magnitude :=
  nearest (x.significand * y.significand) 1 (x.exponent + y.exponent)

def div (x y : Magnitude) : Option Magnitude :=
  nearest x.significand y.significand (x.exponent - y.exponent)

/-- The largest power of ten that is a double. -/
def maxPower : Nat := 308

/-- `x / 10 ^ n`, in steps of at most `10 ^ maxPower`. -/
def divPower (x : Magnitude) (n : Nat) : Option Magnitude :=
  if n ≤ maxPower then do x.div (← powerOfTen n)
  else if x.significand = 0 then some x
  else do divPower (← x.div (← powerOfTen maxPower)) (n - maxPower)
termination_by n
decreasing_by simp only [maxPower] at *; omega

/-- `digits · 10 ^ exponent`, none when it is too large. -/
def ofDecimal (digits : Nat) (exponent : Int) : Option Magnitude := do
  let x ← nearest digits 1 0
  if exponent < 0 then x.divPower (-exponent).toNat
  else if exponent ≤ maxPower then x.mul (← powerOfTen exponent.toNat)
  else if digits = 0 then some x
  else none

end Magnitude

end CssPrinter
