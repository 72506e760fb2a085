/-!
# Places in a text

Places in a text are counted from 1. Source maps count from 0, so a place with a zero in it has no
counterpart there.
-/

namespace CssPrinter

/-- A place in a text. -/
structure Place where
  line : Nat
  column : Nat
deriving DecidableEq

/-- A place with line or column zero. -/
structure InvalidPosition where
  place : Place
deriving DecidableEq

namespace Place

/-- Where every text starts. -/
def start : Place := ⟨1, 1⟩

def offsetColumn (p : Place) (offset : Nat) : Place :=
  { p with column := p.column + offset }

def text (p : Place) : String :=
  Nat.repr p.line ++ ":" ++ Nat.repr p.column

/-- Line and column counted from zero. -/
def zeroBased (p : Place) : Except InvalidPosition (Nat × Nat) :=
  if p.line = 0 ∨ p.column = 0 then .error ⟨p⟩ else .ok (p.line - 1, p.column - 1)

end Place

def InvalidPosition.message (e : InvalidPosition) : String :=
  "invalid source position " ++ e.place.text ++ ": lines and columns start at 1"

end CssPrinter
