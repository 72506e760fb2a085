/-!
# Measures of a text

Columns count UTF-16 code units and lines end at a line feed. Both measures add up over `++`.
-/

namespace CssPrinter

/-- One unit inside the basic plane, a surrogate pair outside it. -/
def utf16Units (c : Char) : Nat :=
  if c.val ≤ 0xFFFF then 1 else 2

def unitCount : List Char → Nat
  | [] => 0
  | c :: rest => utf16Units c + unitCount rest

/-- The number of UTF-16 code units of a text. -/
def utf16Width (text : String) : Nat :=
  unitCount text.toList

/-- The number of line feeds in a text. -/
def lineFeeds (text : String) : Nat :=
  text.toList.count '\n'

@[simp] theorem unitCount_append (s t : List Char) :
    unitCount (s ++ t) = unitCount s + unitCount t := by
  induction s with
  | nil => simp [unitCount]
  | cons c s ih => rw [List.cons_append, unitCount, unitCount, ih, Nat.add_assoc]

@[simp] theorem utf16Width_empty : utf16Width "" = 0 := by
  simp [utf16Width, unitCount]

@[simp] theorem utf16Width_append (s t : String) :
    utf16Width (s ++ t) = utf16Width s + utf16Width t := by
  simp [utf16Width]

@[simp] theorem lineFeeds_empty : lineFeeds "" = 0 := by
  simp [lineFeeds]

@[simp] theorem lineFeeds_append (s t : String) :
    lineFeeds (s ++ t) = lineFeeds s + lineFeeds t := by
  simp [lineFeeds]

/-- A text written `n` times in a row. -/
def repeated (text : String) : Nat → String
  | 0 => ""
  | n + 1 => text ++ repeated text n

theorem utf16Width_repeated (text : String) (n : Nat) :
    utf16Width (repeated text n) = n * utf16Width text := by
  induction n with
  | zero => simp [repeated]
  | succ n ih => rw [repeated, utf16Width_append, ih, Nat.succ_mul, Nat.add_comm]

theorem mem_of_mem_repeated {c : Char} {text : String} {n : Nat}
    (member : c ∈ (repeated text n).toList) : c ∈ text.toList := by
  induction n with
  | zero => simp [repeated] at member
  | succ n ih =>
    rw [repeated, String.toList_append] at member
    rcases List.mem_append.mp member with member | member
    · exact member
    · exact ih member

end CssPrinter
