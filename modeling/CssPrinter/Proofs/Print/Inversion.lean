import CssPrinter.Proofs.Print.Fragment
import CssPrinter.Proofs.Tree.Clean
import Mathlib.Data.List.Basic

/-!
# Reading printed text back

Printed text is a prefix code: if the texts of two clean items, each with something behind it, are
equal, then the items are equal and so is what stands behind them. Here this is shown of
declarations, selectors and values, and of siblings for which it holds one by one. A block ends where
a closing brace follows, which no printed item looks like (`Closing`).
-/

namespace CssPrinter

/-! ### Cutting texts -/

theorem cut_inj (stops : List Char) {s t k l : List Char} {a b : Char} (left : ∀ c ∈ s, c ∉ stops)
    (right : ∀ c ∈ t, c ∉ stops) (ha : a ∈ stops) (hb : b ∈ stops)
    (h : s ++ a :: k = t ++ b :: l) : s = t ∧ a = b ∧ k = l := by
  induction s generalizing t with
  | nil =>
    cases t with
    | nil =>
      obtain ⟨rfl, rfl⟩ := List.cons.inj h
      exact ⟨rfl, rfl, rfl⟩
    | cons c t =>
      obtain ⟨rfl, -⟩ := List.cons.inj h
      exact absurd ha (right a List.mem_cons_self)
  | cons c s ih =>
    cases t with
    | nil =>
      obtain ⟨rfl, -⟩ := List.cons.inj h
      exact absurd hb (left c List.mem_cons_self)
    | cons c' t =>
      obtain ⟨rfl, rest⟩ := List.cons.inj h
      obtain ⟨rfl, same⟩ := ih (fun x member => left x (List.mem_cons_of_mem _ member))
        (fun x member => right x (List.mem_cons_of_mem _ member)) rest
      exact ⟨rfl, same⟩

theorem cut_at_inj {a : Char} {s t k l : List Char} (left : a ∉ s) (right : a ∉ t)
    (h : s ++ a :: k = t ++ a :: l) : s = t ∧ k = l := by
  have apart {s : List Char} (absent : a ∉ s) : ∀ c ∈ s, c ∉ [a] :=
    fun c member stop => absent (List.mem_singleton.mp stop ▸ member)
  obtain ⟨texts, -, behind⟩ :=
    cut_inj [a] (apart left) (apart right) List.mem_cons_self List.mem_cons_self h
  exact ⟨texts, behind⟩

/-- A comment ends at the first end mark. -/
theorem comment_inj {s t k l : List Char} (left : ¬['*', '/'] <:+: s) (right : ¬['*', '/'] <:+: t)
    (h : s ++ '*' :: '/' :: k = t ++ '*' :: '/' :: l) : s = t ∧ k = l := by
  induction s generalizing t with
  | nil =>
    match t with
    | [] => simpa using h
    | [c] => simp at h
    | c :: c' :: t =>
      simp only [List.nil_append, List.cons_append, List.cons.injEq] at h
      obtain ⟨rfl, rfl, -⟩ := h
      exact absurd ⟨[], t, rfl⟩ right
  | cons c s ih =>
    cases t with
    | nil =>
      match s with
      | [] => simp at h
      | c' :: s =>
        simp only [List.nil_append, List.cons_append, List.cons.injEq] at h
        obtain ⟨rfl, rfl, -⟩ := h
        exact absurd ⟨[], s, rfl⟩ left
    | cons c' t =>
      obtain ⟨rfl, rest⟩ := List.cons.inj h
      obtain ⟨rfl, same⟩ := ih (fun inside => left (inside.trans (List.suffix_cons _ _).isInfix))
        (fun inside => right (inside.trans (List.suffix_cons _ _).isInfix)) rest
      exact ⟨rfl, same⟩

theorem Avoids.of_subset {s : String} {cs ds : List Char} (avoids : Avoids s ds)
    (subset : cs ⊆ ds) : ∀ c ∈ s.toList, c ∉ cs :=
  fun c member inside => avoids c member (subset inside)

theorem Avoids.not_mem {s : String} {cs : List Char} (avoids : Avoids s cs) {c : Char}
    (stop : c ∈ cs) : c ∉ s.toList :=
  fun member => avoids c member stop

theorem head?_append_ne {s k : List Char} {c : Char} (first : s.head? ≠ some c)
    (behind : k.head? ≠ some c) : (s ++ k).head? ≠ some c := by
  cases s with
  | nil => exact behind
  | cons a s => exact first

/-- The first character that is neither a space nor a tab, if there is one, is a closing brace. -/
def Closing (k : List Char) : Prop :=
  ∀ c, k.find? (fun c => c ≠ ' ' ∧ c ≠ '\t') = some c → c = '\x7d'

theorem closing_nil : Closing [] := by
  intro c found
  cases found

theorem closing_append {s : List Char} (blank : ∀ c ∈ s, c = ' ' ∨ c = '\t') (k : List Char) :
    Closing (s ++ '\x7d' :: k) := by
  intro c found
  have passed : s.find? (fun c => c ≠ ' ' ∧ c ≠ '\t') = none := by
    refine List.find?_eq_none.mpr fun c member => ?_
    rcases blank c member with rfl | rfl <;> decide
  rw [List.find?_append, passed] at found
  exact (Option.some.inj found).symm

theorem not_closing {s k : List Char} {a : Char} (open_ : '\x7d' ∉ s) (brace : a ≠ '\x7d')
    (space : a ≠ ' ') (tab : a ≠ '\t') : ¬Closing (s ++ a :: k) := by
  intro closing
  induction s with
  | nil => exact brace (closing a (by simp [space, tab]))
  | cons c s ih =>
    by_cases blank : c = ' ' ∨ c = '\t'
    · refine ih (fun member => open_ (List.mem_cons_of_mem _ member)) fun x found => closing x ?_
      rw [List.cons_append, List.find?_cons_of_neg]
      · exact found
      · rcases blank with rfl | rfl <;> decide
    · have first := closing c (by simp only [List.cons_append]; rw [List.find?_cons_of_pos]; grind)
      exact open_ (first ▸ List.mem_cons_self)

/-! ### Characters of fragments -/

def charsOf (fs : List Fragment) : List Char := (rendered fs).toList

@[simp] theorem charsOf_nil : charsOf [] = [] := by simp [charsOf, rendered]

@[simp] theorem charsOf_append (fs gs : List Fragment) :
    charsOf (fs ++ gs) = charsOf fs ++ charsOf gs := by
  simp [charsOf]

@[simp] theorem charsOf_lead (s : String) (fs : List Fragment) :
    charsOf (.lead s :: fs) = s.toList ++ charsOf fs := by
  simp [charsOf, rendered, Fragment.written]

@[simp] theorem charsOf_text (s : String) (fs : List Fragment) :
    charsOf (.text s :: fs) = s.toList ++ charsOf fs := by
  simp [charsOf, rendered, Fragment.written]

@[simp] theorem charsOf_comment (s : String) (fs : List Fragment) :
    charsOf (.comment s :: fs) =
      '/' :: '*' :: (s.toList ++ '*' :: '/' :: '\n' :: charsOf fs) := by
  simp [charsOf, rendered, Fragment.written]

@[simp] theorem charsOf_break (fs : List Fragment) :
    charsOf (.lineBreak :: fs) = '\n' :: charsOf fs := by
  simp [charsOf, rendered, Fragment.written]

@[simp] theorem charsOf_mark (r : Rule) (fs : List Fragment) :
    charsOf (.mark r :: fs) = charsOf fs := by
  simp [charsOf, rendered, Fragment.written]

/-! ### Layout -/

namespace Style

variable (style : Style)

def margin (d : Nat) : List Char := (style.leadText d .level).toList

def gap : List Char := (style.leadText 0 (.literal " ")).toList

def breakChars : List Char := charsOf style.lineBreak

@[simp] theorem charsOf_indentation (d : Nat) (fs : List Fragment) :
    charsOf (style.indentation d :: fs) = style.margin d ++ charsOf fs :=
  charsOf_lead _ _

@[simp] theorem charsOf_space (fs : List Fragment) :
    charsOf (style.space :: fs) = style.gap ++ charsOf fs :=
  charsOf_lead _ _

@[simp] theorem charsOf_lineBreak : charsOf style.lineBreak = style.breakChars := rfl

@[simp] theorem charsOf_openBlock :
    charsOf style.openBlock = style.gap ++ '\x7b' :: style.breakChars := by
  simp [openBlock]

@[simp] theorem charsOf_closeBlock (d : Nat) :
    charsOf (style.closeBlock d) = style.margin d ++ '\x7d' :: style.breakChars := by
  simp [closeBlock]

variable {style}

theorem margin_of_compress (compress : style.compress = true) (d : Nat) :
    style.margin d = [] := by
  simp [margin, leadText, compress]

theorem breakChars_of_compress (compress : style.compress = true) : style.breakChars = [] := by
  simp [breakChars, lineBreak, compress]

theorem breakChars_of_not_compress (kept : style.compress = false) :
    style.breakChars = ['\n'] := by
  simp [breakChars, lineBreak, kept]

/-- Indentation is by spaces and tabs. -/
def Blank (style : Style) : Prop := ∀ c ∈ style.unit.toList, c = ' ' ∨ c = '\t'

theorem Blank.margin (blank : style.Blank) (d : Nat) :
    ∀ c ∈ style.margin d, c = ' ' ∨ c = '\t' := by
  intro c member
  cases compress : style.compress with
  | true => simp [margin_of_compress compress] at member
  | false =>
    have inside : c ∈ (repeated style.unit d).toList := by
      simpa [Style.margin, leadText, compress] using member
    exact blank c (mem_of_mem_repeated inside)

theorem Blank.brace_not_mem_margin (blank : style.Blank) (d : Nat) : '\x7d' ∉ style.margin d :=
  fun member => by simpa using blank.margin d _ member

theorem blank_gap : ∀ c ∈ style.gap, c = ' ' ∨ c = '\t' := by
  intro c member
  cases compress : style.compress with
  | true => simp [gap, leadText, compress] at member
  | false => exact .inl (by simpa [gap, leadText, compress] using member)

end Style

section Inversion

variable {style : Style}

/-! ### Declarations -/

theorem charsOf_property (d : Nat) (p : Property) (isLast : Bool) :
    charsOf (style.property d p isLast) =
      style.margin d ++ (p.name.toList ++ ':' :: (style.gap ++ (p.value.toList ++
        ((if isLast then [] else [';']) ++ style.breakChars)))) := by
  cases isLast <;> simp [Style.property]

theorem charsOf_styleComment (kept : style.compress = false) (d : Nat) (text : String) :
    charsOf (style.comment d text) =
      style.margin d ++ '/' :: '*' :: (text.toList ++ ['*', '/', '\n']) := by
  simp [Style.comment, kept]

/-- Declarations start with a printed one, or nothing is printed of them. -/
theorem declarations_cases (style : Style) (d : Nat) (ds : List Declaration) :
    (charsOf (style.declarations d ds) = [] ∧ bareDeclarations style.compress ds = []) ∨
    ∃ x rest, x :: rest <:+ ds ∧ x.isPrinted style.compress = true ∧
      charsOf (style.declarations d ds) = charsOf (style.declarations d (x :: rest)) ∧
      bareDeclarations style.compress ds = x.bare :: bareDeclarations style.compress rest := by
  induction ds with
  | nil => exact .inl ⟨by simp [Style.declarations], rfl⟩
  | cons x ds ih =>
    cases printed : x.isPrinted style.compress with
    | true => exact .inr ⟨x, ds, List.suffix_rfl, printed, rfl, by simp [bareDeclarations, printed]⟩
    | false =>
      have same : bareDeclarations style.compress (x :: ds) = bareDeclarations style.compress ds := by
        simp [bareDeclarations, printed]
      have silent : style.declarations d (x :: ds) = style.declarations d ds := by
        cases x with
        | property p => cases printed
        | comment text =>
          have compress : style.compress = true := by simpa [Declaration.isPrinted] using printed
          simp [Style.declarations, Style.comment, compress]
      rw [same, silent]
      refine ih.imp_right ?_
      rintro ⟨y, rest, suffix, others⟩
      exact ⟨y, rest, suffix.trans (List.suffix_cons _ _), others⟩

/-- A value ends at a semicolon exactly if more declarations follow. -/
theorem value_end (style : Style) (isLast : Bool) (rest : List Char)
    (last : isLast = true → style.compress = true → rest.head? = some '\x7d') :
    ∃ a r, (if isLast then [] else [';']) ++ (style.breakChars ++ rest) = a :: r ∧
      a ∈ ['\x7d', ';', '\n'] ∧ (isLast = true ↔ a ≠ ';') := by
  cases isLast with
  | false => exact ⟨';', _, rfl, by decide, by decide⟩
  | true =>
    cases compress : style.compress with
    | true =>
      -- Neither a semicolon nor a line break: the closing brace ends the value.
      obtain ⟨r, rfl⟩ := List.head?_eq_some_iff.mp (last rfl compress)
      exact ⟨'\x7d', r, by simp [Style.breakChars_of_compress compress], by decide, by decide⟩
    | false =>
      exact ⟨'\n', rest, by simp [Style.breakChars_of_not_compress compress], by decide, by decide⟩

theorem property_inj (d : Nat) {p q : Property} {a b : Bool} {k l : List Char}
    (left : (Declaration.property p).Clean) (right : (Declaration.property q).Clean)
    (lastLeft : a = true → style.compress = true → k.head? = some '\x7d')
    (lastRight : b = true → style.compress = true → l.head? = some '\x7d')
    (h : charsOf (style.property d p a) ++ k = charsOf (style.property d q b) ++ l) :
    p.name = q.name ∧ p.value = q.value ∧ k = l := by
  rw [charsOf_property, charsOf_property] at h
  simp only [List.append_assoc, List.cons_append, List.append_cancel_left_eq] at h
  obtain ⟨names, h⟩ := cut_at_inj (left.1.not_mem List.mem_cons_self)
    (right.1.not_mem List.mem_cons_self) h
  rw [List.append_cancel_left_eq] at h
  obtain ⟨x, r, endLeft, stopLeft, flagLeft⟩ := value_end style a k lastLeft
  obtain ⟨y, t, endRight, stopRight, flagRight⟩ := value_end style b l lastRight
  rw [endLeft, endRight] at h
  have stops : ['\x7d', ';', '\n'] ⊆ reserved := by decide
  obtain ⟨values, rfl, rfl⟩ := cut_inj ['\x7d', ';', '\n'] (left.2.2.of_subset stops)
    (right.2.2.of_subset stops) stopLeft stopRight h
  obtain rfl : a = b := Bool.eq_iff_iff.mpr (flagLeft.trans flagRight.symm)
  have behind := endLeft.trans endRight.symm
  simp only [List.append_cancel_left_eq] at behind
  exact ⟨String.toList_inj.mp names, String.toList_inj.mp values, behind⟩

theorem head?_property_ne_slash {p : Property} (clean : (Declaration.property p).Clean)
    (k : List Char) : (p.name.toList ++ ':' :: k).head? ≠ some '/' :=
  head?_append_ne clean.2.1.2 (by simp)

theorem declaration_inj {d : Nat} {x y : Declaration} {xs ys : List Declaration} {k l : List Char}
    (left : x.Clean) (right : y.Clean) (printedLeft : x.isPrinted style.compress = true)
    (printedRight : y.isPrinted style.compress = true)
    (h : charsOf (style.declarations (d + 1) (x :: xs)) ++ (style.margin d ++ '\x7d' :: k) =
      charsOf (style.declarations (d + 1) (y :: ys)) ++ (style.margin d ++ '\x7d' :: l)) :
    x.bare = y.bare ∧
      charsOf (style.declarations (d + 1) xs) ++ (style.margin d ++ '\x7d' :: k) =
        charsOf (style.declarations (d + 1) ys) ++ (style.margin d ++ '\x7d' :: l) := by
  have ended (ds : List Declaration) (k : List Char) : ds.isEmpty = true → style.compress = true →
      (charsOf (style.declarations (d + 1) ds) ++ (style.margin d ++ '\x7d' :: k)).head? =
        some '\x7d' := by
    intro empty compress
    obtain rfl := List.isEmpty_iff.mp empty
    simp [Style.declarations, Style.margin_of_compress compress]
  cases x with
  | property p =>
    cases y with
    | property q =>
      simp only [Style.declarations, charsOf_append, List.append_assoc] at h
      obtain ⟨names, values, behind⟩ :=
        property_inj (d + 1) left right (ended xs k) (ended ys l) h
      exact ⟨by simp [Declaration.bare, names, values], behind⟩
    | comment text =>
      have kept : style.compress = false := by simpa [Declaration.isPrinted] using printedRight
      simp only [Style.declarations, charsOf_append, charsOf_property, charsOf_styleComment kept,
        List.append_assoc, List.cons_append, List.append_cancel_left_eq] at h
      exact absurd (congrArg List.head? h) (head?_property_ne_slash left _)
  | comment text =>
    have kept : style.compress = false := by simpa [Declaration.isPrinted] using printedLeft
    cases y with
    | property q =>
      simp only [Style.declarations, charsOf_append, charsOf_property, charsOf_styleComment kept,
        List.append_assoc, List.cons_append, List.append_cancel_left_eq] at h
      exact absurd (congrArg List.head? h.symm) (head?_property_ne_slash right _)
    | comment text' =>
      simp only [Style.declarations, charsOf_append, charsOf_styleComment kept,
        List.append_assoc, List.cons_append, List.append_cancel_left_eq, List.cons.injEq,
        true_and, List.nil_append] at h
      obtain ⟨texts, behind⟩ := comment_inj left right h
      exact ⟨congrArg Declaration.comment (String.toList_inj.mp texts), (List.cons.inj behind).2⟩

/-- No declaration looks like the end of its block. -/
theorem not_closing_declaration (blank : style.Blank) (d : Nat) {x : Declaration}
    (xs : List Declaration) (clean : x.Clean) (printed : x.isPrinted style.compress = true)
    (k : List Char) : ¬Closing (charsOf (style.declarations d (x :: xs)) ++ k) := by
  have outside := blank.brace_not_mem_margin d
  cases x with
  | property p =>
    simp only [Style.declarations, charsOf_append, charsOf_property, List.append_assoc,
      List.cons_append]
    rw [← List.append_assoc]
    refine not_closing ?_ (by decide) (by decide) (by decide)
    have absent : '\x7d' ∉ p.name.toList := clean.1.not_mem (by decide)
    simp [outside, absent]
  | comment text =>
    have kept : style.compress = false := by simpa [Declaration.isPrinted] using printed
    simp only [Style.declarations, charsOf_append, charsOf_styleComment kept, List.append_assoc,
      List.cons_append]
    exact not_closing outside (by decide) (by decide) (by decide)

theorem declarations_inj (blank : style.Blank) {d : Nat} {ds es : List Declaration}
    {k l : List Char} (left : ∀ x ∈ ds, x.Clean) (right : ∀ x ∈ es, x.Clean)
    (h : charsOf (style.declarations (d + 1) ds) ++ (style.margin d ++ '\x7d' :: k) =
      charsOf (style.declarations (d + 1) es) ++ (style.margin d ++ '\x7d' :: l)) :
    bareDeclarations style.compress ds = bareDeclarations style.compress es ∧ k = l := by
  -- What is not printed is skipped on both sides, so the induction is on the length.
  induction size : ds.length using Nat.strongRecOn generalizing ds es with
  | ind n ih =>
  have closing (k : List Char) : Closing (style.margin d ++ '\x7d' :: k) :=
    closing_append (blank.margin d) k
  rcases declarations_cases style (d + 1) ds with
    ⟨noneLeft, bareLeft⟩ | ⟨x, xs, suffixLeft, printedLeft, textLeft, bareLeft⟩ <;>
  rcases declarations_cases style (d + 1) es with
    ⟨noneRight, bareRight⟩ | ⟨y, ys, suffixRight, printedRight, textRight, bareRight⟩
  · rw [noneLeft, noneRight] at h
    exact ⟨by rw [bareLeft, bareRight], by simpa using h⟩
  · rw [noneLeft, textRight] at h
    exact absurd (h ▸ closing k) (not_closing_declaration blank _ _
      (right y (suffixRight.subset List.mem_cons_self)) printedRight _)
  · rw [noneRight, textLeft] at h
    exact absurd (h ▸ closing l) (not_closing_declaration blank _ _
      (left x (suffixLeft.subset List.mem_cons_self)) printedLeft _)
  · rw [textLeft, textRight] at h
    obtain ⟨heads, tails⟩ := declaration_inj (left x (suffixLeft.subset List.mem_cons_self))
      (right y (suffixRight.subset List.mem_cons_self)) printedLeft printedRight h
    have shorter : xs.length < n := size ▸ suffixLeft.length_le
    obtain ⟨rest, same⟩ := ih xs.length shorter
      (fun z member => left z (suffixLeft.subset (List.mem_cons_of_mem _ member)))
      (fun z member => right z (suffixRight.subset (List.mem_cons_of_mem _ member))) tails rfl
    exact ⟨by rw [bareLeft, bareRight, heads, rest], same⟩

/-! ### Blocks, selectors and values -/

theorem charsOf_block (d : Nat) (ds : List Declaration) :
    charsOf (style.block d ds) =
      style.gap ++ '\x7b' :: (style.breakChars ++ (charsOf (style.declarations (d + 1) ds) ++
        (style.margin d ++ '\x7d' :: style.breakChars))) := by
  simp [Style.block]

theorem block_inj (blank : style.Blank) {d : Nat} {ds es : List Declaration} {k l : List Char}
    (left : ∀ x ∈ ds, x.Clean) (right : ∀ x ∈ es, x.Clean)
    (h : style.breakChars ++ (charsOf (style.declarations (d + 1) ds) ++
        (style.margin d ++ '\x7d' :: (style.breakChars ++ k))) =
      style.breakChars ++ (charsOf (style.declarations (d + 1) es) ++
        (style.margin d ++ '\x7d' :: (style.breakChars ++ l)))) :
    bareDeclarations style.compress ds = bareDeclarations style.compress es ∧ k = l := by
  rw [List.append_cancel_left_eq] at h
  obtain ⟨same, behind⟩ := declarations_inj blank left right h
  exact ⟨same, List.append_cancel_left behind⟩

theorem not_mem_of_blank {stops pad : List Char} (blanks : ∀ c ∈ pad, c = ' ' ∨ c = '\t')
    (space : ' ' ∉ stops) (tab : '\t' ∉ stops) : ∀ c ∈ pad, c ∉ stops := by
  intro c member
  rcases blanks c member with rfl | rfl
  · exact space
  · exact tab

theorem padded_inj (stops : List Char) {s t : String} {p q k l : List Char} {a b : Char}
    (left : ∀ c ∈ s.toList, c ∉ stops) (right : ∀ c ∈ t.toList, c ∉ stops)
    (padLeft : ∀ c ∈ p, c ∉ stops) (padRight : ∀ c ∈ q, c ∉ stops) (ha : a ∈ stops)
    (hb : b ∈ stops) (h : s.toList ++ (p ++ a :: k) = t.toList ++ (q ++ b :: l)) :
    s.toList ++ p = t.toList ++ q ∧ a = b ∧ k = l := by
  rw [← List.append_assoc, ← List.append_assoc] at h
  exact cut_inj stops
    (fun c member => (List.mem_append.mp member).elim (left c) (padLeft c))
    (fun c member => (List.mem_append.mp member).elim (right c) (padRight c)) ha hb h

theorem header_inj {s t : String} {k l : List Char} (left : '\x7b' ∉ s.toList)
    (right : '\x7b' ∉ t.toList)
    (h : s.toList ++ (style.gap ++ '\x7b' :: k) = t.toList ++ (style.gap ++ '\x7b' :: l)) :
    s = t ∧ k = l := by
  have gap : '\x7b' ∉ style.gap := fun member => by simpa using style.blank_gap _ member
  rw [← List.append_assoc, ← List.append_assoc] at h
  obtain ⟨texts, behind⟩ := cut_at_inj (fun member => (List.mem_append.mp member).elim left gap)
    (fun member => (List.mem_append.mp member).elim right gap) h
  exact ⟨String.toList_inj.mp (List.append_cancel_right texts), behind⟩

theorem charsOf_moreSelectors_cons (d : Nat) (s : String) (more : List String) :
    charsOf (style.moreSelectors d (s :: more)) =
      style.margin d ++ ',' :: (style.breakChars ++ (style.margin d ++ (s.toList ++
        charsOf (style.moreSelectors d more)))) := by
  simp [Style.moreSelectors]

theorem selectors_inj (blank : style.Blank) {d : Nat} {s t : String} {ss ts : List String}
    {k l : List Char} (left : ∀ x ∈ s :: ss, Avoids x (',' :: reserved))
    (right : ∀ x ∈ t :: ts, Avoids x (',' :: reserved))
    (h : s.toList ++ (charsOf (style.moreSelectors d ss) ++ (style.gap ++ '\x7b' :: k)) =
      t.toList ++ (charsOf (style.moreSelectors d ts) ++ (style.gap ++ '\x7b' :: l))) :
    s :: ss = t :: ts ∧ k = l := by
  -- A comma is indented, so a selector is cut with the blanks behind it, which are then dropped.
  have margin : ∀ c ∈ style.margin d, c ∉ [',', '\x7b'] :=
    not_mem_of_blank (blank.margin d) (by decide) (by decide)
  have gap : ∀ c ∈ style.gap, c ∉ [',', '\x7b'] :=
    not_mem_of_blank style.blank_gap (by decide) (by decide)
  have stops : [',', '\x7b'] ⊆ ',' :: reserved := by decide
  induction ss generalizing s t ts with
  | nil =>
    have first := (left s List.mem_cons_self).of_subset stops
    have second := (right t List.mem_cons_self).of_subset stops
    cases ts with
    | nil =>
      obtain ⟨texts, -, behind⟩ := padded_inj _ first second gap gap (by simp) (by simp) h
      obtain rfl := String.toList_inj.mp (List.append_cancel_right texts)
      exact ⟨rfl, behind⟩
    | cons t' ts =>
      simp only [charsOf_moreSelectors_cons, List.append_assoc, List.cons_append] at h
      obtain ⟨-, stop, -⟩ := padded_inj _ first second gap margin (by simp) (by simp) h
      cases stop
  | cons s' ss ih =>
    have first := (left s List.mem_cons_self).of_subset stops
    have second := (right t List.mem_cons_self).of_subset stops
    rw [charsOf_moreSelectors_cons] at h
    cases ts with
    | nil =>
      simp only [List.append_assoc, List.cons_append] at h
      obtain ⟨-, stop, -⟩ := padded_inj _ first second margin gap (by simp) (by simp) h
      cases stop
    | cons t' ts =>
      simp only [charsOf_moreSelectors_cons, List.append_assoc, List.cons_append] at h
      obtain ⟨texts, -, behind⟩ := padded_inj _ first second margin margin (by simp) (by simp) h
      simp only [List.append_cancel_left_eq] at behind
      obtain ⟨others, same⟩ := ih (fun x member => left x (List.mem_cons_of_mem _ member))
        (fun x member => right x (List.mem_cons_of_mem _ member)) behind
      obtain rfl := String.toList_inj.mp (List.append_cancel_right texts)
      exact ⟨congrArg (s :: ·) others, same⟩

theorem toList_intercalate_cons_cons (v w : String) (vs : List String) :
    (String.intercalate ", " (v :: w :: vs)).toList =
      v.toList ++ ',' :: ' ' :: (String.intercalate ", " (w :: vs)).toList := by
  rw [String.intercalate_cons_cons, String.toList_append, String.toList_append,
    List.append_assoc]
  rfl

theorem values_inj {v w : String} {vs ws : List String} (left : ∀ x ∈ v :: vs, ',' ∉ x.toList)
    (right : ∀ x ∈ w :: ws, ',' ∉ x.toList)
    (h : (String.intercalate ", " (v :: vs)).toList = (String.intercalate ", " (w :: ws)).toList) :
    v :: vs = w :: ws := by
  induction vs generalizing v w ws with
  | nil =>
    cases ws with
    | nil => simpa [String.toList_inj] using h
    | cons w' ws =>
      rw [toList_intercalate_cons_cons, String.intercalate_singleton] at h
      exact absurd (by simp [h]) (left v List.mem_cons_self)
  | cons v' vs ih =>
    rw [toList_intercalate_cons_cons] at h
    cases ws with
    | nil =>
      rw [String.intercalate_singleton] at h
      exact absurd (by simp [← h]) (right w List.mem_cons_self)
    | cons w' ws =>
      rw [toList_intercalate_cons_cons] at h
      obtain ⟨texts, behind⟩ :=
        cut_at_inj (left v List.mem_cons_self) (right w List.mem_cons_self) h
      obtain rfl := String.toList_inj.mp texts
      have others := ih (fun x member => left x (List.mem_cons_of_mem _ member))
        (fun x member => right x (List.mem_cons_of_mem _ member)) (List.cons.inj behind).2
      rw [others]

/-! ### Siblings -/

/-- What is written behind a sibling. -/
def Style.following (style : Style) (fss : List (List Fragment)) : List Char :=
  if fss = [] then [] else style.breakChars ++ charsOf (style.separated fss)

theorem charsOf_separated_cons (fs : List Fragment) (fss : List (List Fragment)) :
    charsOf (style.separated (fs :: fss)) = charsOf fs ++ style.following fss := by
  cases fss <;> simp [Style.separated, Style.following]

theorem following_cons (fs : List Fragment) (fss : List (List Fragment)) :
    style.following (fs :: fss) =
      style.breakChars ++ (charsOf fs ++ style.following fss) := by
  rw [Style.following, if_neg (List.cons_ne_nil _ _), charsOf_separated_cons]

theorem not_closing_following {fs : List Fragment} (opens : ∀ k, ¬Closing (charsOf fs ++ k))
    (fss : List (List Fragment)) (k : List Char) :
    ¬Closing (style.following (fs :: fss) ++ k) := by
  rw [following_cons]
  cases compress : style.compress with
  | true =>
    rw [Style.breakChars_of_compress compress, List.nil_append, List.append_assoc]
    exact opens _
  | false =>
    rw [Style.breakChars_of_not_compress compress]
    exact not_closing List.not_mem_nil (by decide) (by decide) (by decide)

theorem following_inj {xs ys : List (List Fragment)} {k l : List Char}
    (openLeft : ∀ fs ∈ xs, ∀ k, ¬Closing (charsOf fs ++ k))
    (openRight : ∀ fs ∈ ys, ∀ k, ¬Closing (charsOf fs ++ k))
    (closedLeft : Closing k) (closedRight : Closing l)
    (h : style.following xs ++ k = style.following ys ++ l) :
    charsOf (style.separated xs) ++ k = charsOf (style.separated ys) ++ l := by
  cases xs with
  | nil =>
    cases ys with
    | nil => exact h
    | cons fs ys =>
      have opens := openRight fs List.mem_cons_self
      replace h : k = style.following (fs :: ys) ++ l := h
      exact absurd (h ▸ closedLeft) (not_closing_following opens _ _)
  | cons fs xs =>
    have opens := openLeft fs List.mem_cons_self
    cases ys with
    | nil =>
      replace h : style.following (fs :: xs) ++ k = l := h
      exact absurd (h ▸ closedRight) (not_closing_following opens _ _)
    | cons gs ys => simpa [following_cons, charsOf_separated_cons] using h

/-- Siblings of which none looks like the end of a block are read back one by one. -/
theorem siblings_inj {α β : Type} {text : α → List Fragment} {key : α → β} {xs ys : List α}
    {k l : List Char}
    (each : ∀ x ∈ xs, ∀ y ∈ ys, ∀ k l, charsOf (text x) ++ k = charsOf (text y) ++ l →
      key x = key y ∧ k = l)
    (openLeft : ∀ x ∈ xs, ∀ k, ¬Closing (charsOf (text x) ++ k))
    (openRight : ∀ y ∈ ys, ∀ k, ¬Closing (charsOf (text y) ++ k))
    (closedLeft : Closing k) (closedRight : Closing l)
    (h : charsOf (style.separated (xs.map text)) ++ k =
      charsOf (style.separated (ys.map text)) ++ l) :
    xs.map key = ys.map key ∧ k = l := by
  induction xs generalizing ys with
  | nil =>
    cases ys with
    | nil => exact ⟨rfl, h⟩
    | cons y ys =>
      rw [List.map_cons, charsOf_separated_cons, List.append_assoc] at h
      replace h : k = charsOf (text y) ++ _ := h
      exact absurd (h ▸ closedLeft) (openRight y List.mem_cons_self _)
  | cons x xs ih =>
    rw [List.map_cons, charsOf_separated_cons, List.append_assoc] at h
    cases ys with
    | nil =>
      replace h : charsOf (text x) ++ _ = l := h
      exact absurd (h ▸ closedRight) (openLeft x List.mem_cons_self _)
    | cons y ys =>
      rw [List.map_cons, charsOf_separated_cons, List.append_assoc] at h
      obtain ⟨keys, behind⟩ := each x List.mem_cons_self y List.mem_cons_self _ _ h
      have openTail := fun x member => openLeft x (List.mem_cons_of_mem _ member)
      have openTail' := fun y member => openRight y (List.mem_cons_of_mem _ member)
      obtain ⟨others, same⟩ := ih
        (fun x member y member' => each x (List.mem_cons_of_mem _ member) y
          (List.mem_cons_of_mem _ member')) openTail openTail'
        (following_inj (List.forall_mem_map.mpr openTail) (List.forall_mem_map.mpr openTail')
          closedLeft closedRight behind)
      exact ⟨by rw [List.map_cons, List.map_cons, keys, others], same⟩

/-- Siblings that are not printed leave no trace. -/
theorem charsOf_separated_filter {α : Type} {text : α → List Fragment} {printed : α → Bool}
    (silent : ∀ x, printed x = false → style.compress = true ∧ text x = []) (xs : List α) :
    charsOf (style.separated (xs.map text)) =
      charsOf (style.separated ((xs.filter printed).map text)) := by
  cases compress : style.compress with
  | false =>
    have every : xs.filter printed = xs := List.filter_eq_self.mpr fun x _ => by
      by_contra unprinted
      simp [(silent x (by simpa using unprinted)).1] at compress
    rw [every]
  | true =>
    have joined (fs : List Fragment) (fss : List (List Fragment)) :
        charsOf (style.separated (fs :: fss)) = charsOf fs ++ charsOf (style.separated fss) := by
      rw [charsOf_separated_cons]
      cases fss with
      | nil => rfl
      | cons gs fss =>
        rw [following_cons, Style.breakChars_of_compress compress, charsOf_separated_cons]
        rfl
    induction xs with
    | nil => rfl
    | cons x xs ih =>
      cases shown : printed x with
      | true => rw [List.filter_cons_of_pos shown, List.map_cons, List.map_cons, joined, joined, ih]
      | false =>
        rw [List.filter_cons_of_neg (by simp [shown]), List.map_cons, joined, (silent x shown).2, ih]
        rfl

theorem group_inj (blank : style.Blank) {d : Nat} {α β : Type} {text : α → List Fragment}
    {key : α → β} {xs ys : List α} {k l : List Char}
    (each : ∀ x ∈ xs, ∀ y ∈ ys, ∀ k l, charsOf (text x) ++ k = charsOf (text y) ++ l →
      key x = key y ∧ k = l)
    (openLeft : ∀ x ∈ xs, ∀ k, ¬Closing (charsOf (text x) ++ k))
    (openRight : ∀ y ∈ ys, ∀ k, ¬Closing (charsOf (text y) ++ k))
    (h : style.breakChars ++ (charsOf (style.separated (xs.map text)) ++
        (style.margin d ++ '\x7d' :: (style.breakChars ++ k))) =
      style.breakChars ++ (charsOf (style.separated (ys.map text)) ++
        (style.margin d ++ '\x7d' :: (style.breakChars ++ l)))) :
    xs.map key = ys.map key ∧ k = l := by
  rw [List.append_cancel_left_eq] at h
  obtain ⟨keys, behind⟩ := siblings_inj each openLeft openRight
    (closing_append (blank.margin d) _) (closing_append (blank.margin d) _) h
  simpa [keys] using behind

end Inversion

end CssPrinter
