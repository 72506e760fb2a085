import CssPrinter.Number.Double

/-!
# The shortest decimal of a double

Among the decimals that read back as a double, `shortest` takes one with the fewest digits, and of
those the nearest. `Double.text` lays the digits out: positional from `1e-5` up to `1e16`, with an
exponent outside.
-/

namespace CssPrinter

namespace Magnitude

/-- Compares `a · 2 ^ e` with `b · 10 ^ k`. -/
def compareDecimal (a : Nat) (e : Int) (b : Nat) (k : Int) : Ordering :=
  let left := a * Nat.pow 2 e.toNat * Nat.pow 10 (-k).toNat
  let right := b * Nat.pow 10 k.toNat * Nat.pow 2 (-e).toNat
  compare left right

/-- `d · 10 ^ k` reads back as `x`: it lies between the midpoints to the two neighbours, and on one
of them only if the significand is even. Midpoints are counted in quarters of a unit. -/
def readsBack (x : Magnitude) (d : Nat) (k : Int) : Bool :=
  let below := if x.significand = Nat.pow 2 52 ∧ minExponent < x.exponent then 1 else 2
  let low := compareDecimal (4 * x.significand - below) (x.exponent - 2) d k
  let high := compareDecimal (4 * x.significand + 2) (x.exponent - 2) d k
  (low == .lt || (low == .eq && x.significand % 2 == 0)) &&
    (high == .gt || (high == .eq && x.significand % 2 == 0))

/-- The decimal exponent of the leading digit of a positive `x`. -/
def leadingPower (x : Magnitude) : Int :=
  if 0 ≤ x.exponent then
    (Nat.toDigits 10 (x.significand * Nat.pow 2 x.exponent.toNat)).length - 1
  else
    let unit := Nat.pow 2 (-x.exponent).toNat
    if unit ≤ x.significand then (Nat.toDigits 10 (x.significand / unit)).length - 1
    else
      -- `unit / significand`, rounded up, has as many digits as there are places to go
      let ratio := (unit + x.significand - 1) / x.significand
      Int.negOfNat (Nat.toDigits 10 (ratio - 1)).length

/-- The largest `d` with `d · 10 ^ k ≤ x`. -/
def floorAt (x : Magnitude) (k : Int) : Nat :=
  x.significand * Nat.pow 2 x.exponent.toNat * Nat.pow 10 (-k).toNat /
    (Nat.pow 10 k.toNat * Nat.pow 2 (-x.exponent).toNat)

/-- The nearer of `d · 10 ^ k` and `(d + 1) · 10 ^ k`, if either reads back. -/
def candidate (x : Magnitude) (k : Int) : Option Nat :=
  let d := x.floorAt k
  let half := compareDecimal (2 * x.significand) x.exponent (2 * d + 1) k
  match x.readsBack d k, x.readsBack (d + 1) k with
  | true, true => some (if half == .gt || (half == .eq && d % 2 == 1) then d + 1 else d)
  | true, false => some d
  | false, true => some (d + 1)
  | false, false => none

/-- Digits and power of ten of the shortest decimal that reads back, trying `places` digits and
then up to `fuel` more. Seventeen digits always suffice. -/
def shortestFrom (x : Magnitude) (places : Nat) : Nat → Nat × Int
  | 0 => (x.floorAt (x.leadingPower - places + 1), x.leadingPower - places + 1)
  | fuel + 1 =>
    let k := x.leadingPower - places + 1
    match x.candidate k with
    | some d => (d, k)
    | none => shortestFrom x (places + 1) fuel

/-- Drops zeros at the end, at most `fuel` of them. -/
def trimZeros : Nat → Nat × Int → Nat × Int
  | 0, dk => dk
  | fuel + 1, (d, k) => if d % 10 = 0 ∧ d ≠ 0 then trimZeros fuel (d / 10, k + 1) else (d, k)

/-- The shortest decimal `d · 10 ^ k` that reads back as `x`. -/
def shortest (x : Magnitude) : Nat × Int :=
  if x.significand = 0 then (0, 0) else trimZeros 17 (x.shortestFrom 1 17)

/-- Whole numbers below `10 ^ 16` and fractions from `10 ^ -5` on are written out in full, with at
least one digit on each side of the point. All others have one digit before the point and an
exponent with its sign. -/
def layout (digits : List Char) (k : Int) : List Char :=
  let point : Int := digits.length + k
  if 0 ≤ k ∧ point ≤ 16 then digits ++ List.replicate k.toNat '0' ++ ['.', '0']
  else if 0 < point ∧ point ≤ 16 then digits.take point.toNat ++ '.' :: digits.drop point.toNat
  else if -5 < point ∧ point ≤ 0 then '0' :: '.' :: List.replicate (-point).toNat '0' ++ digits
  else
    let power := point - 1
    let tail := 'e' :: (if power < 0 then '-' else '+') :: Nat.toDigits 10 power.natAbs
    match digits with
    | [d] => d :: tail
    | d :: rest => d :: '.' :: rest ++ tail
    | [] => tail

/-- The decimal text of a magnitude. -/
def digitsText (x : Magnitude) : List Char :=
  let (d, k) := x.shortest
  layout (Nat.toDigits 10 d) k

end Magnitude

/-- The decimal text of a double. -/
def Double.text (x : Double) : String :=
  String.ofList ((if x.negative then ['-'] else []) ++ x.magnitude.digitsText)

end CssPrinter
