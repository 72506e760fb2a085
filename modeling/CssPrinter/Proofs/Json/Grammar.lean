import CssPrinter.Json.Outline

/-!
# Texts that denote a value

`Denotes` is the grammar of JSON texts whose numbers are naturals: blanks may stand between tokens,
and every character of a quoted text may be spelled in any way there is. A reader that waits for a
value and is given such a text moves on as if it had been given the value's outline
(`Denotes.readAs`). So the draft of the text is the outline of the value (`draft_denotes`).
-/

namespace CssPrinter.Json

/-! ### Numbers -/

/-- What may follow a value: nothing, a blank, or the end of an item. -/
def Ends (rest : List Char) : Prop :=
  ∀ c, rest.head? = some c → c ∈ [',', ']', '\x7d', ' ', '\t', '\n', '\r']

theorem ends_cons {c : Char} (mark : c ∈ [',', ']', '\x7d', ' ', '\t', '\n', '\r'])
    (rest : List Char) : Ends (c :: rest) := by
  intro d head
  exact Option.some.inj head ▸ mark

theorem digitsValue_toDigits (n : Nat) : digitsValue (Nat.toDigits 10 n) = n := by
  have same : digitsValue (Nat.toDigits 10 n) = Nat.ofDigitChars 10 (Nat.toDigits 10 n) 0 := by
    rw [Nat.ofDigitChars_eq_foldl]
    unfold digitsValue digitValue
    simp only [Nat.mul_comm]
  rw [same, Nat.ofDigitChars_ten_toDigits]

theorem head?_toDigits_ne_zero {n : Nat} (positive : 0 < n) :
    (Nat.toDigits 10 n).head? ≠ some '0' := by
  induction n using Nat.strongRecOn with
  | ind n ih =>
    by_cases small : n < 10
    · rw [Nat.toDigits_of_lt_base small]
      simpa using Nat.ne_of_gt positive
    · rw [Nat.toDigits_of_base_le (by decide) (Nat.le_of_not_lt small), List.head?_append]
      have first := ih (n / 10) (by omega) (by omega)
      cases head : (Nat.toDigits 10 (n / 10)).head? with
      | none => exact absurd (List.head?_eq_none_iff.mp head) Nat.toDigits_ne_nil
      | some c => simpa [head] using first

/-- Only zero starts with a zero. -/
theorem toDigits_ne_zero_cons (n : Nat) (c : Char) (cs : List Char) :
    Nat.toDigits 10 n ≠ '0' :: c :: cs := by
  intro digits
  by_cases positive : 0 < n
  · exact head?_toDigits_ne_zero positive (by rw [digits]; rfl)
  · obtain rfl : n = 0 := by omega
    cases digits

theorem Ends.takeWhile_isDigit {rest : List Char} (ends : Ends rest) :
    rest.takeWhile Char.isDigit = [] ∧ rest.dropWhile Char.isDigit = rest := by
  cases rest with
  | nil => exact ⟨rfl, rfl⟩
  | cons c rest =>
    have other : ¬c.isDigit = true := by
      have mark := ends c rfl
      simp only [List.mem_cons, List.not_mem_nil, or_false] at mark
      rcases mark with rfl | rfl | rfl | rfl | rfl | rfl | rfl <;> decide
    exact ⟨List.takeWhile_cons_of_neg other, List.dropWhile_cons_of_neg other⟩

theorem Ends.fractionPart_eq {rest : List Char} (ends : Ends rest) (x : Numeral) :
    fractionPart x rest = (x.lexeme, rest) := by
  cases rest with
  | nil => rfl
  | cons c rest =>
    have mark := ends c rfl
    simp only [List.mem_cons, List.not_mem_nil, or_false] at mark
    rcases mark with rfl | rfl | rfl | rfl | rfl | rfl | rfl <;> rfl

theorem number_toDigits {n : Nat} (exact : n ≤ maxNatural) {rest : List Char} (ends : Ends rest) :
    number false (Nat.toDigits 10 n ++ rest) = (.whole (.number (.natural n)), rest) := by
  have all : ∀ c ∈ Nat.toDigits 10 n, c.isDigit = true :=
    fun c member => Nat.isDigit_of_mem_toDigits (by decide) (by decide) member
  have taken : (Nat.toDigits 10 n ++ rest).takeWhile Char.isDigit = Nat.toDigits 10 n := by
    rw [List.takeWhile_append_of_pos all, ends.takeWhile_isDigit.1, List.append_nil]
  have left : (Nat.toDigits 10 n ++ rest).dropWhile Char.isDigit = rest := by
    rw [List.dropWhile_append_of_pos all, ends.takeWhile_isDigit.2]
  unfold number
  rw [taken, left]
  split
  · rename_i none
    exact absurd none Nat.toDigits_ne_nil
  · rename_i zero
    exact absurd zero (toDigits_ne_zero_cons n _ _)
  · rw [ends.fractionPart_eq]
    simp [Numeral.lexeme, Numeral.value, digitsValue_toDigits, exact]

/-! ### Quoted texts -/

/-- The spellings of a character in a quoted text: as it is, by a letter, by its number, or by the
numbers of a surrogate pair. -/
inductive Spells : List Char → Char → Prop
  | plain {c : Char} (quote : c ≠ '"') (backslash : c ≠ '\\') (visible : ¬c.toNat < 0x20) :
    Spells [c] c
  | letter {e c : Char} (known : unescaped e = some c) : Spells ['\\', e] c
  | unit {h₁ h₂ h₃ h₄ : Char} {n : Nat} (digits : hexUnit h₁ h₂ h₃ h₄ = some n)
    (lead : isLead n = false) (trail : isTrail n = false) :
    Spells ['\\', 'u', h₁, h₂, h₃, h₄] (Char.ofNat n)
  | pair {h₁ h₂ h₃ h₄ k₁ k₂ k₃ k₄ : Char} {n m : Nat} (first : hexUnit h₁ h₂ h₃ h₄ = some n)
    (lead : isLead n = true) (second : hexUnit k₁ k₂ k₃ k₄ = some m) (trail : isTrail m = true) :
    Spells ['\\', 'u', h₁, h₂, h₃, h₄, '\\', 'u', k₁, k₂, k₃, k₄]
      (Char.ofNat (0x10000 + (n - 0xD800) * 0x400 + (m - 0xDC00)))

/-- A text between quotes that spells the characters of `s` one by one. -/
inductive SpellsAll : List Char → List Char → Prop
  | nil : SpellsAll [] []
  | cons {t ts : List Char} {c : Char} {cs : List Char} (first : Spells t c)
    (others : SpellsAll ts cs) : SpellsAll (t ++ ts) (c :: cs)

inductive Quotes : List Char → String → Prop
  | quote {t : List Char} {s : String} (spelled : SpellsAll t s.toList) :
    Quotes ('"' :: t ++ ['"']) s

theorem pieces_quote (rest : List Char) : pieces ('"' :: rest) = ([], .ok rest) := by
  rw [pieces.eq_def]
  rfl

theorem pieces_letter {e c : Char} (known : unescaped e = some c) (rest : List Char) :
    pieces ('\\' :: e :: rest) = addPiece (.char c) (pieces rest) := by
  have other : e ≠ 'u' := by
    rintro rfl
    cases known
  rw [pieces.eq_def]
  simp [other, known]

theorem pieces_plain {c : Char} (quote : c ≠ '"') (backslash : c ≠ '\\')
    (visible : ¬c.toNat < 0x20) (rest : List Char) :
    pieces (c :: rest) = addPiece (.char c) (pieces rest) := by
  rw [pieces.eq_def]
  simp only [quote, backslash, visible, if_false]

theorem pieces_unit {h₁ h₂ h₃ h₄ : Char} {n : Nat} (digits : hexUnit h₁ h₂ h₃ h₄ = some n)
    (rest : List Char) :
    pieces ('\\' :: 'u' :: h₁ :: h₂ :: h₃ :: h₄ :: rest) = addPiece (.unit n) (pieces rest) := by
  simp [pieces, digits]

theorem joined_char (c : Char) (ps : List Piece) :
    joined (.char c :: ps) = (joined ps).map (c :: ·) := by
  rw [joined]

theorem joined_unit {n : Nat} (lead : isLead n = false) (trail : isTrail n = false)
    (ps : List Piece) : joined (.unit n :: ps) = (joined ps).map (Char.ofNat n :: ·) := by
  rw [joined.eq_def]
  simp [trail, lead]

theorem joined_pair {n m : Nat} (lead : isLead n = true) (trail : isTrail m = true)
    (ps : List Piece) :
    joined (.unit n :: .unit m :: ps) =
      (joined ps).map (Char.ofNat (0x10000 + (n - 0xD800) * 0x400 + (m - 0xDC00)) :: ·) := by
  have other : isTrail n = false := by
    simp only [isLead, isTrail, Bool.and_eq_true, decide_eq_true_eq, Bool.and_eq_false_iff,
      decide_eq_false_iff_not] at lead ⊢
    omega
  rw [joined.eq_def]
  simp [trail, lead, other]

/-- A spelling is read as pieces that join to the character. -/
theorem Spells.exists_pieces {t : List Char} {c : Char} (h : Spells t c) :
    ∃ ps, (∀ rest, pieces (t ++ rest) = (ps ++ (pieces rest).1, (pieces rest).2)) ∧
      ∀ qs, joined (ps ++ qs) = (joined qs).map (c :: ·) := by
  cases h with
  | plain quote backslash visible =>
    exact ⟨[.char c], pieces_plain quote backslash visible, joined_char c⟩
  | letter known => exact ⟨[.char c], pieces_letter known, joined_char c⟩
  | unit digits lead trail => exact ⟨[.unit _], pieces_unit digits, joined_unit lead trail⟩
  | pair first lead second trail =>
    refine ⟨[.unit _, .unit _], fun rest => ?_, joined_pair lead trail⟩
    exact (pieces_unit first _).trans (congrArg (addPiece _) (pieces_unit second rest))

theorem SpellsAll.exists_pieces {t cs : List Char} (h : SpellsAll t cs) (rest : List Char) :
    ∃ ps, pieces (t ++ '"' :: rest) = (ps, .ok rest) ∧ joined ps = .ok cs := by
  induction h with
  | nil => exact ⟨[], pieces_quote rest, by rw [joined]⟩
  | cons first _ ih =>
    obtain ⟨ps, read, whole⟩ := ih
    obtain ⟨qs, start, join⟩ := first.exists_pieces
    refine ⟨qs ++ ps, ?_, ?_⟩
    · rw [List.append_assoc, start, read]
    · rw [join, whole]
      rfl

theorem SpellsAll.quotation_eq {t : List Char} {s : String} (h : SpellsAll t s.toList)
    (rest : List Char) : quotation (t ++ '"' :: rest) = (.whole s, rest) := by
  obtain ⟨ps, read, whole⟩ := h.exists_pieces rest
  unfold quotation
  rw [read]
  simp [whole]

/-! ### Tokens -/

def Progress.read (p : Progress) (s : List Char) : Progress := (tokens s).foldl Progress.step p

theorem read_nil (p : Progress) : p.read [] = p := by
  rw [Progress.read, tokens]
  rfl

theorem read_cons {c : Char} {s rest : List Char} {t : Token} (p : Progress)
    (solid : isBlank c = false) (found : token c s = (t, rest)) :
    p.read (c :: s) = (p.step t).read rest := by
  rw [Progress.read, tokens, if_neg (by simp [solid]), found]
  rfl

theorem read_comma (p : Progress) (s : List Char) : p.read (',' :: s) = (p.step .comma).read s :=
  read_cons p rfl rfl

theorem read_colon (p : Progress) (s : List Char) : p.read (':' :: s) = (p.step .colon).read s :=
  read_cons p rfl rfl

theorem read_closeArray (p : Progress) (s : List Char) :
    p.read (']' :: s) = (p.step .closeArray).read s :=
  read_cons p rfl rfl

theorem read_closeObject (p : Progress) (s : List Char) :
    p.read ('\x7d' :: s) = (p.step .closeObject).read s :=
  read_cons p rfl rfl

/-- Nothing but blanks. -/
def Blank (s : List Char) : Prop := ∀ c ∈ s, isBlank c = true

theorem Blank.read {s : List Char} (blank : Blank s) (p : Progress) (rest : List Char) :
    p.read (s ++ rest) = p.read rest := by
  induction s with
  | nil => rfl
  | cons c s ih =>
    obtain ⟨first, others⟩ := List.forall_mem_cons.mp blank
    rw [Progress.read, List.cons_append, tokens, if_pos first]
    exact ih others

theorem Blank.ends {s rest : List Char} (blank : Blank s) (ends : Ends rest) :
    Ends (s ++ rest) := by
  cases s with
  | nil => exact ends
  | cons c s =>
    have first := blank c List.mem_cons_self
    simp only [isBlank, Bool.or_eq_true, decide_eq_true_eq] at first
    exact ends_cons (by rcases first with ((rfl | rfl) | rfl) | rfl <;> decide) _

theorem Quotes.read {t : List Char} {s : String} (h : Quotes t s) (p : Progress)
    (rest : List Char) : p.read (t ++ rest) = (p.step (.text (.whole s))).read rest := by
  obtain ⟨spelled⟩ := h
  rename_i t
  have found : token '"' (t ++ '"' :: rest) = (.text (.whole s), rest) := by
    have quote : token '"' (t ++ '"' :: rest) = (quotation (t ++ '"' :: rest)).map .text id := rfl
    rw [quote, spelled.quotation_eq]
    rfl
  have text : '"' :: t ++ ['"'] ++ rest = '"' :: (t ++ '"' :: rest) := by simp
  rw [text, read_cons p (by decide) found]

theorem token_digit {c : Char} (digit : c.isDigit = true) (rest : List Char) :
    isBlank c = false ∧ token c rest = (number false (c :: rest)).map .scalar id := by
  have other {d : Char} (unlike : d.isDigit = false) : c ≠ d := by
    rintro rfl
    rw [digit] at unlike
    cases unlike
  constructor
  · simp [isBlank, other (d := ' ') rfl, other (d := '\t') rfl, other (d := '\n') rfl,
      other (d := '\r') rfl]
  · unfold token
    iterate 11 rw [if_neg (other rfl)]
    rw [if_pos digit]

theorem read_natural (p : Progress) {n : Nat} (exact : n ≤ maxNatural) {rest : List Char}
    (ends : Ends rest) :
    p.read (Nat.toDigits 10 n ++ rest) =
      (p.step (.scalar (.whole (.number (.natural n))))).read rest := by
  have number := number_toDigits exact ends
  cases digits : Nat.toDigits 10 n with
  | nil => exact absurd digits Nat.toDigits_ne_nil
  | cons c cs =>
    have digit : c.isDigit = true :=
      Nat.isDigit_of_mem_toDigits (by decide) (by decide) (digits ▸ List.mem_cons_self)
    obtain ⟨solid, found⟩ := token_digit digit (cs ++ rest)
    rw [digits, List.cons_append] at number
    rw [number] at found
    exact read_cons p solid found

/-! ### Values -/

mutual

def Value.outline : Value → Outline
  | .null => .scalar (.whole .null)
  | .bool b => .scalar (.whole (.bool b))
  | .number n => .scalar (.whole (.number n))
  | .string s => .text (.whole s)
  | .array items => .array (itemOutlines items) (.ok ())
  | .object members => .object (memberOutlines members) (.ok ())

def itemOutlines : List Value → List Outline
  | [] => []
  | v :: rest => v.outline :: itemOutlines rest

def memberOutlines : List (String × Value) → List (Lexeme String × Outline)
  | [] => []
  | (key, v) :: rest => (.whole key, v.outline) :: memberOutlines rest

end

mutual

/-- The texts of a value. Blanks may stand around every token. -/
inductive Denotes : List Char → Value → Prop
  | null : Denotes ['n', 'u', 'l', 'l'] .null
  | yes : Denotes ['t', 'r', 'u', 'e'] (.bool true)
  | no : Denotes ['f', 'a', 'l', 's', 'e'] (.bool false)
  | natural {n : Nat} (exact : n ≤ maxNatural) : Denotes (Nat.toDigits 10 n) (.number (.natural n))
  | string {t : List Char} {s : String} (quotes : Quotes t s) : Denotes t (.string s)
  | emptyArray {b : List Char} (blank : Blank b) : Denotes ('[' :: b ++ [']']) (.array [])
  | array {s : List Char} {vs : List Value} (items : DenotesItems s vs) :
    Denotes ('[' :: s ++ [']']) (.array vs)
  | emptyObject {b : List Char} (blank : Blank b) : Denotes ('\x7b' :: b ++ ['\x7d']) (.object [])
  | object {s : List Char} {ms : List (String × Value)} (members : DenotesMembers s ms) :
    Denotes ('\x7b' :: s ++ ['\x7d']) (.object ms)
  | padded {a s b : List Char} {v : Value} (before : Blank a) (inner : Denotes s v)
    (behind : Blank b) : Denotes (a ++ s ++ b) v

/-- The texts of items, of which there are some. -/
inductive DenotesItems : List Char → List Value → Prop
  | last {s : List Char} {v : Value} (value : Denotes s v) : DenotesItems s [v]
  | cons {s t : List Char} {v : Value} {vs : List Value} (value : Denotes s v)
    (rest : DenotesItems t vs) : DenotesItems (s ++ ',' :: t) (v :: vs)

inductive DenotesMember : List Char → String × Value → Prop
  | intro {a t b s : List Char} {key : String} {v : Value} (before : Blank a) (name : Quotes t key)
    (behind : Blank b) (value : Denotes s v) : DenotesMember (a ++ t ++ b ++ ':' :: s) (key, v)

inductive DenotesMembers : List Char → List (String × Value) → Prop
  | last {s : List Char} {m : String × Value} (member : DenotesMember s m) : DenotesMembers s [m]
  | cons {s t : List Char} {m : String × Value} {ms : List (String × Value)}
    (member : DenotesMember s m) (rest : DenotesMembers t ms) :
    DenotesMembers (s ++ ',' :: t) (m :: ms)

end

/-- A value may start, inside of `frames`. -/
structure Awaits (p : Progress) (frames : List Frame) : Prop where
  scalar : ∀ s, p.step (.scalar s) = .put (.scalar s) frames
  text : ∀ s, p.step (.text s) = .put (.text s) frames
  openArray : p.step .openArray = .firstItem frames
  openObject : p.step .openObject = .firstName frames

theorem awaits_value (frames : List Frame) : Awaits (.value frames) frames :=
  ⟨fun _ => rfl, fun _ => rfl, rfl, rfl⟩

theorem awaits_firstItem (frames : List Frame) :
    Awaits (.firstItem frames) (.items [] :: frames) :=
  ⟨fun _ => rfl, fun _ => rfl, rfl, rfl⟩

theorem Awaits.read_openArray {p : Progress} {frames : List Frame} (awaits : Awaits p frames)
    (s : List Char) : p.read ('[' :: s) = (Progress.firstItem frames).read s :=
  awaits.openArray ▸ read_cons p rfl rfl

theorem Awaits.read_openObject {p : Progress} {frames : List Frame} (awaits : Awaits p frames)
    (s : List Char) : p.read ('\x7b' :: s) = (Progress.firstName frames).read s :=
  awaits.openObject ▸ read_cons p rfl rfl

/-- The name of a member may start, behind the members that are done. -/
def AwaitsName (p : Progress) (done : List (Lexeme String × Outline)) (frames : List Frame) :
    Prop :=
  ∀ name, p.step (.text name) = .colon done name frames

/-- A text is read as the outline of a value. -/
def ReadAs (s : List Char) (v : Value) : Prop :=
  ∀ (p : Progress) (frames : List Frame) (rest : List Char), Awaits p frames → Ends rest →
    p.read (s ++ rest) = (Progress.put v.outline frames).read rest

/-- A text up to the closing bracket is read as items, the last one of those before it first. -/
def ItemsReadAs (s : List Char) (vs : List Value) : Prop :=
  ∀ (p : Progress) (done : List Outline) (frames : List Frame) (rest : List Char),
    Awaits p (.items done :: frames) →
    p.read (s ++ ']' :: rest) =
      (Progress.put (.array (done.reverse ++ itemOutlines vs) (.ok ())) frames).read rest

def MemberReadAs (s : List Char) (m : String × Value) : Prop :=
  ∀ (p : Progress) (done : List (Lexeme String × Outline)) (frames : List Frame)
    (rest : List Char), AwaitsName p done frames → Ends rest →
    p.read (s ++ rest) =
      (Progress.afterMember ((.whole m.1, m.2.outline) :: done) frames).read rest

def MembersReadAs (s : List Char) (ms : List (String × Value)) : Prop :=
  ∀ (p : Progress) (done : List (Lexeme String × Outline)) (frames : List Frame)
    (rest : List Char), AwaitsName p done frames →
    p.read (s ++ '\x7d' :: rest) =
      (Progress.put (.object (done.reverse ++ memberOutlines ms) (.ok ())) frames).read rest

section Brackets

variable {b s : List Char} {vs : List Value} {ms : List (String × Value)}

theorem readAs_emptyArray (blank : Blank b) : ReadAs ('[' :: b ++ [']']) (.array []) := by
  intro p frames rest awaits _
  rw [List.append_assoc, List.cons_append, awaits.read_openArray, blank.read, List.singleton_append,
    read_closeArray, Value.outline, itemOutlines]
  rfl

theorem readAs_array (items : ItemsReadAs s vs) : ReadAs ('[' :: s ++ [']']) (.array vs) := by
  intro p frames rest awaits _
  rw [List.append_assoc, List.cons_append, awaits.read_openArray, List.singleton_append,
    items _ [] frames rest (awaits_firstItem frames), Value.outline]
  rfl

theorem readAs_emptyObject (blank : Blank b) :
    ReadAs ('\x7b' :: b ++ ['\x7d']) (.object []) := by
  intro p frames rest awaits _
  rw [List.append_assoc, List.cons_append, awaits.read_openObject, blank.read,
    List.singleton_append, read_closeObject, Value.outline, memberOutlines]
  rfl

theorem readAs_object (members : MembersReadAs s ms) :
    ReadAs ('\x7b' :: s ++ ['\x7d']) (.object ms) := by
  intro p frames rest awaits _
  rw [List.append_assoc, List.cons_append, awaits.read_openObject, List.singleton_append,
    members _ [] frames rest fun _ => rfl, Value.outline]
  rfl

end Brackets

mutual

/-- What denotes a value is read as it. -/
theorem Denotes.readAs {s : List Char} {v : Value} : Denotes s v → ReadAs s v
  | .null => by
    intro p frames rest awaits _
    have found : token 'n' ('u' :: 'l' :: 'l' :: rest) = (.scalar (.whole .null), rest) := rfl
    rw [Value.outline, ← awaits.scalar]
    exact read_cons p rfl found
  | .yes => by
    intro p frames rest awaits _
    have found : token 't' ('r' :: 'u' :: 'e' :: rest) = (.scalar (.whole (.bool true)), rest) :=
      rfl
    rw [Value.outline, ← awaits.scalar]
    exact read_cons p rfl found
  | .no => by
    intro p frames rest awaits _
    have found : token 'f' ('a' :: 'l' :: 's' :: 'e' :: rest) =
        (.scalar (.whole (.bool false)), rest) := rfl
    rw [Value.outline, ← awaits.scalar]
    exact read_cons p rfl found
  | .natural exact => by
    intro p frames rest awaits ends
    rw [Value.outline, read_natural p exact ends, awaits.scalar]
  | .string quotes => by
    intro p frames rest awaits _
    rw [Value.outline, quotes.read, awaits.text]
  | .emptyArray blank => readAs_emptyArray blank
  | .array items => readAs_array items.readAs
  | .emptyObject blank => readAs_emptyObject blank
  | .object members => readAs_object members.readAs
  | .padded before inner behind => by
    intro p frames rest awaits ends
    rw [List.append_assoc, List.append_assoc, before.read,
      inner.readAs p frames _ awaits (behind.ends ends), behind.read]

theorem DenotesItems.readAs {s : List Char} {vs : List Value} :
    DenotesItems s vs → ItemsReadAs s vs
  | .last value => by
    intro p done frames rest awaits
    rw [value.readAs p _ _ awaits (ends_cons (by decide) rest), read_closeArray]
    simp [Progress.put, Progress.step, itemOutlines]
  | .cons (t := t) value others => by
    intro p done frames rest awaits
    rw [List.append_assoc, List.cons_append,
      value.readAs p _ _ awaits (ends_cons (by decide) (t ++ ']' :: rest)), read_comma]
    refine (others.readAs _ _ frames rest (awaits_value _)).trans ?_
    simp [itemOutlines]

theorem DenotesMember.readAs {s : List Char} {m : String × Value} :
    DenotesMember s m → MemberReadAs s m
  | .intro before name behind value => by
    intro p done frames rest awaits ends
    simp only [List.append_assoc, List.cons_append]
    rw [before.read, name.read, awaits, behind.read, read_colon]
    exact value.readAs _ _ rest (awaits_value _) ends

theorem DenotesMembers.readAs {s : List Char} {ms : List (String × Value)} :
    DenotesMembers s ms → MembersReadAs s ms
  | .last member => by
    intro p done frames rest awaits
    rw [member.readAs p done frames _ awaits (ends_cons (by decide) rest), read_closeObject]
    simp [Progress.step, memberOutlines]
  | .cons (t := t) member others => by
    intro p done frames rest awaits
    rw [List.append_assoc, List.cons_append,
      member.readAs p done frames _ awaits (ends_cons (by decide) (t ++ '\x7d' :: rest)),
      read_comma]
    refine (others.readAs _ _ frames rest fun _ => rfl).trans ?_
    simp [memberOutlines]

end

theorem draft_denotes {text : String} {v : Value} (h : Denotes text.toList v) :
    Draft.ofText text = ⟨v.outline, .ok ()⟩ := by
  have read := h.readAs (.value []) [] [] (awaits_value []) (fun _ head => nomatch head)
  rw [List.append_nil, read_nil] at read
  have whole : (tokens text.toList).foldl Progress.step (.value []) = .complete v.outline false :=
    read
  rw [Draft.ofText, Draft.ofTokens, whole]
  rfl

end CssPrinter.Json
