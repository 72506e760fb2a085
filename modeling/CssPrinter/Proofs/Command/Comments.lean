import CssPrinter.Command.Config
import Mathlib.Data.List.Chain

/-!
# What is left without comments

A text made of complete passages loses exactly its comments (`strip_passages`). In any text, however
broken, what is kept is read again in the regions it came from (`scan_strip`): no two characters
that a comment stood between open a new one.
-/

namespace CssPrinter

/-! ### Texts in passages -/

/-- A part of a quoted text. A backslash takes the next character with it. -/
inductive QuotedPart
  | plain (c : Char) (ordinary : c ≠ '"' ∧ c ≠ '\\')
  | escape (c : Char)

def QuotedPart.chars : QuotedPart → List Char
  | .plain c _ => [c]
  | .escape c => ['\\', c]

/-- A stretch of text that does not depend on what stands around it. -/
inductive Passage
  | plain (c : Char) (ordinary : c ≠ '"' ∧ c ≠ '/')
  | quotation (parts : List QuotedPart)
  | lineComment (body : List Char) (inline : '\n' ∉ body)
  | blockComment (body : List Char) (unclosed : ¬['*', '/'] <:+: body)

namespace Passage

def chars : Passage → List Char
  | .plain c _ => [c]
  | .quotation parts => '"' :: parts.flatMap QuotedPart.chars ++ ['"']
  | .lineComment body _ => ['/', '/'] ++ body ++ ['\n']
  | .blockComment body _ => ['/', '*'] ++ body ++ ['*', '/']

/-- What is left of a passage without comments. -/
def kept : Passage → List Char
  | .lineComment _ _ => ['\n']
  | .blockComment _ _ => []
  | p => p.chars

end Passage

/-- How a text ends: behind its last passage, or in a comment that goes on to the end. -/
inductive Ending
  | complete
  | lineComment (body : List Char) (inline : '\n' ∉ body)
  | blockComment (body : List Char) (unclosed : ¬['*', '/'] <:+: body)

def Ending.chars : Ending → List Char
  | .complete => []
  | .lineComment body _ => ['/', '/'] ++ body
  | .blockComment body _ => ['/', '*'] ++ body

def passageText (ps : List Passage) (e : Ending) : String :=
  String.ofList (ps.flatMap Passage.chars ++ e.chars)

def keptText (ps : List Passage) : String :=
  String.ofList (ps.flatMap Passage.kept)

theorem strip_quote (parts : List QuotedPart) (rest : List Char) :
    strip .quote (parts.flatMap QuotedPart.chars ++ '"' :: rest) =
      parts.flatMap QuotedPart.chars ++ '"' :: strip .code rest := by
  induction parts with
  | nil => rfl
  | cons part parts ih =>
    rw [List.flatMap_cons, List.append_assoc, List.append_assoc, ← ih]
    cases part with
    | plain c ordinary =>
      obtain ⟨quote, backslash⟩ := ordinary
      rw [QuotedPart.chars, List.singleton_append, strip, if_neg backslash, if_neg quote]
      rfl
    | escape c =>
      rw [QuotedPart.chars, List.cons_append, List.singleton_append, strip, if_pos rfl, strip]
      rfl

theorem strip_lineComment {body : List Char} (inline : '\n' ∉ body) (rest : List Char) :
    strip .lineComment (body ++ rest) = strip .lineComment rest := by
  induction body with
  | nil => rfl
  | cons c body ih =>
    rw [List.mem_cons, not_or] at inline
    rw [List.cons_append, strip, if_neg (Ne.symm inline.1), ih inline.2]

/-- What follows the body matters only if the body ends in a star. -/
theorem strip_blockComment {body rest : List Char} (unclosed : ¬['*', '/'] <:+: body)
    (apart : rest.head? ≠ some '/') :
    strip .blockComment (body ++ rest) = strip .blockComment rest := by
  induction body with
  | nil => rfl
  | cons c body ih =>
    have inside : ¬['*', '/'] <:+: body := fun found => unclosed (List.infix_cons found)
    -- A star and a slash would lie in the body, or on both sides of its end.
    have stays : ∀ after, c = '*' → body ++ rest = '/' :: after → False := by
      rintro after rfl next
      cases body with
      | nil => exact apart (by rw [List.nil_append] at next; rw [next]; rfl)
      | cons d body =>
        obtain rfl : d = '/' := (List.cons.inj next).1
        exact unclosed ⟨[], body, rfl⟩
    rw [List.cons_append, strip.eq_9 _ _ stays, ih inside]

theorem strip_passage (p : Passage) (rest : List Char) :
    strip .code (p.chars ++ rest) = p.kept ++ strip .code rest := by
  cases p with
  | plain c ordinary =>
    obtain ⟨quote, slash⟩ := ordinary
    show strip .code (c :: rest) = c :: strip .code rest
    rw [strip.eq_4 c rest (fun _ same _ => slash same) (fun _ same _ => slash same), if_neg quote]
  | quotation parts =>
    have opened (s : List Char) : strip .code ('"' :: s) = '"' :: strip .quote s := rfl
    have text : Passage.chars (.quotation parts) ++ rest =
        '"' :: (parts.flatMap QuotedPart.chars ++ '"' :: rest) := by
      simp [Passage.chars]
    rw [text, opened, strip_quote]
    simp [Passage.kept, Passage.chars]
  | lineComment body inline =>
    have opened (s : List Char) : strip .code ('/' :: '/' :: s) = strip .lineComment s := rfl
    have ended (s : List Char) : strip .lineComment ('\n' :: s) = '\n' :: strip .code s := rfl
    have text : Passage.chars (.lineComment body inline) ++ rest =
        '/' :: '/' :: (body ++ '\n' :: rest) := by
      simp [Passage.chars]
    rw [text, opened, strip_lineComment inline, ended]
    rfl
  | blockComment body unclosed =>
    have opened (s : List Char) : strip .code ('/' :: '*' :: s) = strip .blockComment s := rfl
    have ended (s : List Char) : strip .blockComment ('*' :: '/' :: s) = strip .code s := rfl
    have text : Passage.chars (.blockComment body unclosed) ++ rest =
        '/' :: '*' :: (body ++ '*' :: '/' :: rest) := by
      simp [Passage.chars]
    rw [text, opened, strip_blockComment unclosed (by simp), ended]
    rfl

theorem strip_ending (e : Ending) : strip .code e.chars = [] := by
  cases e with
  | complete => rfl
  | lineComment body inline =>
    have none : strip .lineComment (body ++ []) = [] := strip_lineComment inline []
    rw [List.append_nil] at none
    exact none
  | blockComment body unclosed =>
    have none : strip .blockComment (body ++ []) = [] := strip_blockComment unclosed (by simp)
    rw [List.append_nil] at none
    exact none

theorem strip_passages (ps : List Passage) (e : Ending) :
    strip .code (ps.flatMap Passage.chars ++ e.chars) = ps.flatMap Passage.kept := by
  induction ps with
  | nil => exact strip_ending e
  | cons p ps ih =>
    rw [List.flatMap_cons, List.append_assoc, strip_passage, ih, List.flatMap_cons]

-- Openers inside a quoted text, and a comment whose marks overlap with its body.
example : strip .code "\"//\\\"\"/*/ **/1//2\n/*3".toList = "\"//\\\"\"1\n".toList := by decide

/-! ### Texts of any kind -/

/-- The characters that are kept, each with the region it is read in. -/
def scan : Region → List Char → List (Region × Char)
  | _, [] => []
  | .code, '/' :: '/' :: rest => scan .lineComment rest
  | .code, '/' :: '*' :: rest => scan .blockComment rest
  | .code, c :: rest => (.code, c) :: scan (if c = '"' then .quote else .code) rest
  | .quote, c :: rest =>
    (.quote, c) :: scan (if c = '\\' then .escape else if c = '"' then .code else .quote) rest
  | .escape, c :: rest => (.escape, c) :: scan .quote rest
  | .lineComment, c :: rest =>
    if c = '\n' then (.code, c) :: scan .code rest else scan .lineComment rest
  | .blockComment, '*' :: '/' :: rest => scan .code rest
  | .blockComment, _ :: rest => scan .blockComment rest

theorem map_snd_scan (r : Region) (s : List Char) : (scan r s).map Prod.snd = strip r s := by
  fun_induction scan r s with
  | case1 r => rfl
  | case2 rest ih | case3 rest ih | case9 rest ih => exact ih
  | case4 c rest line block ih => rw [List.map_cons, ih, strip.eq_4 _ _ line block]
  | case5 c rest ih | case6 c rest ih => rw [List.map_cons, ih, strip]
  | case7 rest ih => rw [List.map_cons, ih, strip, if_pos rfl]
  | case8 c rest other ih => rw [ih, strip, if_neg other]
  | case10 c rest inside ih => rw [ih, strip.eq_9 _ _ inside]

/-- The region that what is kept of a text is read in. -/
def Region.kept : Region → Region
  | .lineComment => .code
  | .blockComment => .code
  | r => r

theorem Region.kept_code (p : Prop) [Decidable p] :
    (if p then Region.quote else .code).kept = if p then .quote else .code := by
  split <;> rfl

theorem Region.kept_quote (p q : Prop) [Decidable p] [Decidable q] :
    (if p then Region.escape else if q then .code else .quote).kept =
      if p then .escape else if q then .code else .quote := by
  repeat' split
  all_goals rfl

/-- A text may follow a slash that opens no comment. -/
def Harmless (s : List Char) : Prop := s.head? ≠ some '/' ∧ s.head? ≠ some '*'

theorem harmless_of_single {c : Char} {s : List Char}
    (line : ∀ rest, c = '/' → s = '/' :: rest → False)
    (block : ∀ rest, c = '/' → s = '*' :: rest → False) : c = '/' → Harmless s := by
  intro slash
  constructor
  · intro head
    obtain ⟨rest, text⟩ := List.head?_eq_some_iff.mp head
    exact line rest slash text
  · intro head
    obtain ⟨rest, text⟩ := List.head?_eq_some_iff.mp head
    exact block rest slash text

theorem Harmless.strip {s : List Char} (harmless : Harmless s) : Harmless (strip .code s) := by
  cases s with
  | nil => exact harmless
  | cons c s =>
    -- A comment starts with a slash, so the first character is kept.
    have other : c ≠ '/' := fun same => harmless.1 (by rw [same]; rfl)
    rw [strip.eq_4 c s (fun _ same _ => other same) (fun _ same _ => other same)]
    exact harmless

theorem scan_code_cons {c : Char} {s : List Char} (single : c = '/' → Harmless s) :
    scan .code (c :: s) = (.code, c) :: scan (if c = '"' then .quote else .code) s := by
  refine scan.eq_4 c s ?_ ?_
  · rintro rest slash rfl
    exact (single slash).1 rfl
  · rintro rest slash rfl
    exact (single slash).2 rfl

/-- What is kept is read again in the regions it came from. -/
theorem scan_strip (r : Region) (s : List Char) : scan r.kept (strip r s) = scan r s := by
  fun_induction strip r s with
  | case1 r => cases r <;> rfl
  | case2 rest ih | case3 rest ih | case9 rest ih => exact ih
  | case4 c rest line block ih =>
    -- Behind a slash stands what stood there before, even if comments were removed further on.
    have single : c = '/' → Harmless (strip (if c = '"' then .quote else .code) rest) := by
      rintro rfl
      exact (harmless_of_single line block rfl).strip
    rw [Region.kept_code] at ih
    show scan .code (c :: _) = _
    rw [scan_code_cons single, ih, scan.eq_4 c rest line block]
  | case5 c rest ih =>
    rw [Region.kept_quote] at ih
    show scan .quote (c :: _) = _
    rw [scan, scan, ih]
  | case6 c rest ih =>
    show scan .escape (c :: _) = _
    rw [scan, scan, ← ih]
    rfl
  | case7 rest ih => rw [scan, if_pos rfl, ← ih]; rfl
  | case8 c rest other ih => rw [scan, if_neg other]; exact ih
  | case10 c rest inside ih => rw [scan.eq_9 _ _ inside]; exact ih

/-- A slash in code and a character that makes it the start of a comment. -/
def Opens (x y : Region × Char) : Prop := x = (.code, '/') ∧ (y.2 = '/' ∨ y.2 = '*')

theorem isChain_scan (r : Region) (s : List Char) :
    (scan r s).IsChain fun x y => ¬Opens x y := by
  fun_induction scan r s with
  | case1 r => exact .nil
  | case2 rest ih | case3 rest ih | case8 c rest other ih | case9 rest ih
  | case10 c rest inside ih => exact ih
  | case4 c rest line block ih =>
    refine List.isChain_cons.mpr ⟨?_, ih⟩
    rintro y member ⟨same, next⟩
    obtain rfl : c = '/' := (Prod.mk.inj same).2
    have head : (strip .code rest).head? = some y.2 := by
      rw [← map_snd_scan, List.head?_map]
      exact congrArg (Option.map Prod.snd) member
    have harmless := (harmless_of_single line block rfl).strip
    rw [Harmless, head] at harmless
    rcases next with slash | star
    · exact harmless.1 (by rw [slash])
    · exact harmless.2 (by rw [star])
  | case5 c rest ih | case6 c rest ih | case7 rest ih =>
    refine List.isChain_cons.mpr ⟨?_, ih⟩
    rintro y member ⟨same, next⟩
    exact absurd same (by simp)

theorem scan_stripComments (text : String) :
    scan .code (stripComments text).toList = scan .code text.toList := by
  rw [stripComments, String.toList_ofList]
  exact scan_strip .code text.toList

theorem stripComments_again (text : String) :
    stripComments (stripComments text) = stripComments text := by
  conv_lhs => rw [stripComments, ← map_snd_scan, scan_stripComments, map_snd_scan]
  rfl

theorem Config.parse_stripComments (text : String) :
    Config.parse (stripComments text) = Config.parse text := by
  rw [Config.parse, Config.parse, stripComments_again]

theorem stripComments_passages (ps : List Passage) (e : Ending) :
    stripComments (passageText ps e) = keptText ps := by
  rw [stripComments, passageText, String.toList_ofList, strip_passages]
  rfl

/-- A text of passages loses its comments and nothing else, and it configures what it does without
them. A quoted text stays as it is, whatever stands in it. -/
theorem stripComments_passageText (ps : List Passage) (e : Ending) :
    stripComments (passageText ps e) = keptText ps ∧
      Config.parse (passageText ps e) = Config.parse (keptText ps) ∧
      ∀ parts after, stripComments (passageText (ps ++ .quotation parts :: after) e) =
        keptText ps ++ String.ofList (Passage.chars (.quotation parts)) ++ keptText after := by
  have stripped := stripComments_passages ps e
  refine ⟨stripped, ?_, ?_⟩
  · rw [← stripped, Config.parse_stripComments]
  · intro parts after
    rw [stripComments_passages]
    simp [keptText, Passage.kept, String.append_assoc]

/-- Stripping a second time changes nothing. What is kept is read again in the same regions, so the
quoted texts are the same ones, and no two neighbours in it open a comment. -/
theorem stripComments_idempotent (text : String) :
    stripComments (stripComments text) = stripComments text ∧
      (scan .code text.toList).map Prod.snd = (stripComments text).toList ∧
      scan .code (stripComments text).toList = scan .code text.toList ∧
      (scan .code (stripComments text).toList).IsChain fun x y => ¬Opens x y := by
  refine ⟨stripComments_again text, ?_, scan_stripComments text, isChain_scan _ _⟩
  rw [map_snd_scan, stripComments, String.toList_ofList]

end CssPrinter
