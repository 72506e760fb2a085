import CssPrinter.Proofs.Json.Grammar

/-!
# Written values are read back

The text that is written of a value denotes it (`denotes_chars`), if its numbers are exact. So the
value is read back if it does not nest too deeply (`Value.parse_text`).
-/

namespace CssPrinter.Json

/-! ### Quoted texts -/

theorem hexValue_hexDigit (n : Nat) : hexValue (hexDigit n) = some (n % 16) := by
  have all : ∀ k < 16, hexValue (Nat.digitChar k) = some k := by decide
  exact all (n % 16) (Nat.mod_lt n (by decide))

/-- A character is written with a letter of its own, by its number or as it is. -/
theorem escaped_cases (c : Char) :
    (∃ e ∈ ['"', '\\', 'b', 'f', 'n', 'r', 't'],
      unescaped e = some c ∧ escaped c = ['\\', e]) ∨
    (c.toNat < 0x20 ∧
      escaped c = ['\\', 'u', '0', '0', hexDigit (c.toNat / 16), hexDigit c.toNat]) ∨
    (c ≠ '"' ∧ c ≠ '\\' ∧ ¬c.toNat < 0x20 ∧ escaped c = [c]) := by
  by_cases short : c ∈ ['"', '\\', '\x08', '\x0c', '\n', '\r', '\t']
  · left
    simp only [List.mem_cons, List.not_mem_nil, or_false] at short
    rcases short with rfl | rfl | rfl | rfl | rfl | rfl | rfl <;> exact ⟨_, by decide, rfl, rfl⟩
  · simp only [List.mem_cons, List.not_mem_nil, or_false, not_or] at short
    obtain ⟨quote, backslash, b, f, n, r, t⟩ := short
    by_cases control : c.toNat < 0x20
    · refine Or.inr (Or.inl ⟨control, ?_⟩)
      simp only [escaped, quote, backslash, b, f, n, r, t, control, if_true, if_false]
    · refine Or.inr (Or.inr ⟨quote, backslash, control, ?_⟩)
      simp only [escaped, quote, backslash, b, f, n, r, t, control, if_false]

theorem spells_escaped (c : Char) : Spells (escaped c) c := by
  rcases escaped_cases c with ⟨e, -, known, text⟩ | ⟨control, text⟩ |
    ⟨quote, backslash, visible, text⟩
  · exact text ▸ .letter known
  · have zero : hexValue '0' = some 0 := by decide
    have digits : hexUnit '0' '0' (hexDigit (c.toNat / 16)) (hexDigit c.toNat) =
        some c.toNat := by
      simp only [hexUnit, zero, hexValue_hexDigit, Option.bind_eq_bind, Option.bind_some,
        Option.pure_def, Option.some.injEq]
      omega
    have lead : isLead c.toNat = false := by
      simp [isLead]
      omega
    have trail : isTrail c.toNat = false := by
      simp [isTrail]
      omega
    have spelled := Spells.unit digits lead trail
    rw [Char.ofNat_toNat] at spelled
    exact text ▸ spelled
  · exact text ▸ .plain quote backslash visible

theorem quotes_quoted (s : String) : Quotes (quoted s) s := by
  have all (cs : List Char) : SpellsAll (cs.flatMap escaped) cs := by
    induction cs with
    | nil => exact .nil
    | cons c cs ih => exact .cons (spells_escaped c) ih
  exact .quote (all s.toList)

/-! ### Values -/

mutual

/-- A value whose numbers are naturals that are kept exactly. -/
def Value.Exact : Value → Prop
  | .number (.natural n) => n ≤ maxNatural
  | .number _ => False
  | .array items => ExactItems items
  | .object members => ExactMembers members
  | _ => True

def ExactItems : List Value → Prop
  | [] => True
  | v :: rest => v.Exact ∧ ExactItems rest

def ExactMembers : List (String × Value) → Prop
  | [] => True
  | (_, v) :: rest => v.Exact ∧ ExactMembers rest

end

theorem exact_string (s : String) : (Value.string s).Exact := trivial

theorem exactItems_map {α : Type} {write : α → Value} (each : ∀ x, (write x).Exact) (xs : List α) :
    ExactItems (xs.map write) := by
  induction xs with
  | nil => trivial
  | cons x xs ih => exact ⟨each x, ih⟩

theorem ExactMembers.append {ms ns : List (String × Value)} (first : ExactMembers ms)
    (second : ExactMembers ns) : ExactMembers (ms ++ ns) := by
  induction ms with
  | nil => exact second
  | cons m ms ih => exact ⟨first.1, ih first.2⟩

mutual

/-- How many brackets are open at once in a value's text. -/
def Value.depth : Value → Nat
  | .array items => itemsDepth items + 1
  | .object members => membersDepth members + 1
  | _ => 0

def itemsDepth : List Value → Nat
  | [] => 0
  | v :: rest => max v.depth (itemsDepth rest)

def membersDepth : List (String × Value) → Nat
  | [] => 0
  | (_, v) :: rest => max v.depth (membersDepth rest)

end

theorem itemsDepth_le_iff {vs : List Value} {levels : Nat} :
    itemsDepth vs ≤ levels ↔ ∀ v ∈ vs, v.depth ≤ levels := by
  induction vs with
  | nil => simp [itemsDepth]
  | cons v vs ih => rw [itemsDepth, Nat.max_le, ih, List.forall_mem_cons]

theorem membersDepth_le_iff {ms : List (String × Value)} {levels : Nat} :
    membersDepth ms ≤ levels ↔ ∀ m ∈ ms, m.2.depth ≤ levels := by
  induction ms with
  | nil => simp [membersDepth]
  | cons m ms ih => rw [membersDepth, Nat.max_le, ih, List.forall_mem_cons]

theorem blank_nil : Blank [] := fun _ member => nomatch member

theorem denotesMember_text (key : String) {v : Value} (value : Denotes v.chars v) :
    DenotesMember (quoted key ++ ':' :: v.chars) (key, v) := by
  have member := DenotesMember.intro blank_nil (quotes_quoted key) blank_nil value
  simpa using member

mutual

theorem denotes_chars : (v : Value) → v.Exact → Denotes v.chars v
  | .null, _ => .null
  | .bool true, _ => .yes
  | .bool false, _ => .no
  | .number (.natural _), exact => .natural exact
  | .string s, _ => .string (quotes_quoted s)
  | .array [], _ => .emptyArray blank_nil
  | .array (v :: vs), exact => .array (denotesItems_texts (v :: vs) exact nofun)
  | .object [], _ => .emptyObject blank_nil
  | .object (m :: ms), exact => .object (denotesMembers_texts (m :: ms) exact nofun)

theorem denotesItems_texts : (vs : List Value) → ExactItems vs → vs ≠ [] →
    DenotesItems (commaSeparated (itemTexts vs)) vs
  | [], _, filled => absurd rfl filled
  | [v], exact, _ => .last (denotes_chars v exact.1)
  | v :: w :: vs, exact, _ =>
    .cons (denotes_chars v exact.1) (denotesItems_texts (w :: vs) exact.2 nofun)

theorem denotesMembers_texts : (ms : List (String × Value)) → ExactMembers ms → ms ≠ [] →
    DenotesMembers (commaSeparated (memberTexts ms)) ms
  | [], _, filled => absurd rfl filled
  | [(key, v)], exact, _ => .last (denotesMember_text key (denotes_chars v exact.1))
  | (key, v) :: m :: ms, exact, _ =>
    .cons (denotesMember_text key (denotes_chars v exact.1))
      (denotesMembers_texts (m :: ms) exact.2 nofun)

end

/-! ### Reading whole texts -/

/-- Blanks behind the text of a value do not matter. -/
theorem draft_padded (v : Value) (exact : v.Exact) {s : String}
    (blank : ∀ c ∈ s.toList, isBlank c = true) :
    Draft.ofText (v.text ++ s) = ⟨v.outline, .ok ()⟩ := by
  refine draft_denotes ?_
  rw [String.toList_append, Value.text, String.toList_ofList]
  exact .padded blank_nil (denotes_chars v exact) blank

theorem draft_text (v : Value) (exact : v.Exact) : Draft.ofText v.text = ⟨v.outline, .ok ()⟩ := by
  have padded := draft_padded v exact (s := "") (by simp)
  rwa [String.append_empty] at padded

mutual

theorem outline_value : (v : Value) → {levels : Nat} → v.depth ≤ levels →
    v.outline.value levels = .ok v
  | .null, _, _ => rfl
  | .bool _, _, _ => rfl
  | .number _, _, _ => rfl
  | .string _, _, _ => rfl
  | .array items, 0, deep => absurd deep (Nat.not_succ_le_zero _)
  | .array items, levels + 1, deep => by
    rw [Value.outline, Outline.value, outline_items items (Nat.le_of_succ_le_succ deep)]
    rfl
  | .object members, 0, deep => absurd deep (Nat.not_succ_le_zero _)
  | .object members, levels + 1, deep => by
    rw [Value.outline, Outline.value, outline_members members (Nat.le_of_succ_le_succ deep)]
    rfl

theorem outline_items : (items : List Value) → {levels : Nat} → itemsDepth items ≤ levels →
    itemValues levels (itemOutlines items) = .ok items
  | [], _, _ => rfl
  | v :: rest, levels, deep => by
    obtain ⟨first, others⟩ := Nat.max_le.mp deep
    rw [itemOutlines, itemValues, outline_value v first, outline_items rest others]
    rfl

theorem outline_members : (members : List (String × Value)) → {levels : Nat} →
    membersDepth members ≤ levels → memberValues levels (memberOutlines members) = .ok members
  | [], _, _ => rfl
  | (key, v) :: rest, levels, deep => by
    obtain ⟨first, others⟩ := Nat.max_le.mp deep
    rw [memberOutlines, memberValues, outline_value v first, outline_members rest others]
    rfl

end

mutual

theorem pass_outline : (v : Value) → v.outline.pass = .ok ()
  | .null => rfl
  | .bool _ => rfl
  | .number _ => rfl
  | .string _ => rfl
  | .array items => by
    rw [Value.outline, Outline.pass, passItems_outlines items]
    rfl
  | .object members => by
    rw [Value.outline, Outline.pass, passMembers_outlines members]
    rfl

theorem passItems_outlines : (vs : List Value) → passItems (itemOutlines vs) = .ok ()
  | [] => rfl
  | v :: vs => by
    rw [itemOutlines, passItems, pass_outline v]
    exact passItems_outlines vs

theorem passMembers_outlines :
    (ms : List (String × Value)) → passMembers (memberOutlines ms) = .ok ()
  | [] => rfl
  | (key, v) :: ms => by
    rw [memberOutlines, passMembers, pass_outline v]
    exact passMembers_outlines ms

end

/-- A written value is read back, with or without blanks behind it. -/
theorem Value.parse_padded {v : Value} (exact : v.Exact) (shallow : v.depth ≤ nestingLimit)
    {s : String} (blank : ∀ c ∈ s.toList, isBlank c = true) :
    Value.parse (v.text ++ s) = .ok v := by
  rw [Value.parse, Value.parseWithin, draft_padded v exact blank, outline_value v shallow]
  rfl

theorem Value.parse_text {v : Value} (exact : v.Exact) (shallow : v.depth ≤ nestingLimit) :
    Value.parse v.text = .ok v := by
  have padded := Value.parse_padded exact shallow (s := "") (by simp)
  rwa [String.append_empty] at padded

end CssPrinter.Json
