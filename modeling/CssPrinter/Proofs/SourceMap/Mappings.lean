import CssPrinter.SourceMap.Mappings
import Mathlib.Data.List.Destutter

/-!
# Mappings texts are read back

A quantity is read back from its digits whatever follows (`Vlq.readFrom_encode`), a segment from its
differences, and a line from its segments. Hence decoding inverts encoding for tokens whose lines do
not go back, but for repetitions, which are not written (`Mappings.decode_encode_destutter`).
-/

namespace CssPrinter

/-! ### Quantities -/

namespace Vlq

theorem value?_digit {n : Nat} (small : n < 64) : value? (digit n) = some n := by
  have all : ∀ n < 64, value? (digit n) = some n := by decide +kernel
  exact all n small

theorem digit_mem (n : Nat) : digit n ∈ alphabet := by
  unfold digit
  rw [List.getD_eq_getElem?_getD]
  cases found : alphabet[n]? with
  | none => decide
  | some c => exact List.mem_of_getElem? found

theorem mem_alphabet_of_mem_digits {n : Nat} {c : Char} (member : c ∈ digits n) :
    c ∈ alphabet := by
  induction n using digits.induct with
  | case1 n small =>
    rw [digits, if_pos small] at member
    exact List.mem_singleton.mp member ▸ digit_mem n
  | case2 n large ih =>
    rw [digits, if_neg large] at member
    rcases List.mem_cons.mp member with rfl | member
    · exact digit_mem _
    · exact ih member

theorem digits_ne_nil (n : Nat) : digits n ≠ [] := by
  rw [digits]
  split <;> exact List.cons_ne_nil _ _

theorem readFrom_digits (low weight n : Nat) (rest : List Char) :
    readFrom low weight (digits n ++ rest) =
      (readFrom 0 1 rest).map (unsigned (low + n * weight) :: ·) := by
  induction n using digits.induct generalizing low weight with
  | case1 n small =>
    rw [digits, if_pos small, List.singleton_append, readFrom,
      value?_digit (Nat.lt_trans small (by decide)), Option.bind_eq_bind, Option.bind_some,
      if_pos small]
    cases readFrom 0 1 rest <;> rfl
  | case2 n large ih =>
    have bound : n % 32 + 32 < 64 := by omega
    have total : low + n % 32 * weight + n / 32 * (weight * 32) = low + n * weight := by
      rw [Nat.mul_comm weight 32, ← Nat.mul_assoc, Nat.add_assoc, ← Nat.add_mul, Nat.mod_add_div']
    rw [digits, if_neg large, List.cons_append, readFrom, value?_digit bound,
      Option.bind_eq_bind, Option.bind_some, if_neg (by omega), Nat.add_sub_cancel, ih, total]

theorem unsigned_signed (i : Int) : unsigned (signed i) = i := by
  unfold signed unsigned
  by_cases negative : i < 0
  · rw [if_pos negative, if_pos (by omega)]
    omega
  · rw [if_neg negative, if_neg (by omega)]
    omega

theorem readFrom_encode (i : Int) (rest : List Char) :
    readFrom 0 1 (encode i ++ rest) = (readFrom 0 1 rest).map (i :: ·) := by
  rw [encode, readFrom_digits, Nat.zero_add, Nat.mul_one, unsigned_signed]

theorem decode_flatMap_encode (is : List Int) : decode (is.flatMap encode) = some is := by
  unfold decode
  induction is with
  | nil => rfl
  | cons i is ih => rw [List.flatMap_cons, readFrom_encode, ih]; rfl

end Vlq

/-! ### Segments -/

namespace Mappings

def differences (p : Totals) (t : MapToken) : List Int :=
  [t.column - p.column, t.source - p.source, t.sourceLine - p.sourceLine,
    t.sourceColumn - p.sourceColumn] ++
    match t.name with
    | some n => [n - p.name]
    | none => []

theorem segment_eq (p : Totals) (t : MapToken) :
    segment p t = (differences p t).flatMap Vlq.encode := by
  unfold segment differences
  cases t.name <;> simp

theorem segment_ne_nil (p : Totals) (t : MapToken) : segment p t ≠ [] := by
  intro empty
  simp [segment, Vlq.encode, Vlq.digits_ne_nil] at empty

theorem separator_not_mem_segment {c : Char} (separator : c = ',' ∨ c = ';') (p : Totals)
    (t : MapToken) : c ∉ segment p t := by
  have other : c ∉ Vlq.alphabet := by rcases separator with rfl | rfl <;> decide
  rw [segment_eq, List.mem_flatMap]
  rintro ⟨i, -, member⟩
  exact other (Vlq.mem_alphabet_of_mem_digits member)

theorem total_natCast (n : Nat) : total n = some n :=
  if_neg (by omega)

/-- A reader that has come as far as the writer. -/
def Totals.reader (p : Totals) : Reader :=
  ⟨p.line, p.column, p.source, p.sourceLine, p.sourceColumn, p.name⟩

theorem token_reader_after {p : Totals} {t : MapToken} (line : p.line = t.line) :
    (p.after t).reader.token t.name.isSome = some t := by
  obtain ⟨tokenLine, column, sourceLine, sourceColumn, source, name⟩ := t
  obtain rfl : p.line = tokenLine := line
  unfold Totals.reader Totals.after Reader.token
  cases name <;> simp [total_natCast]

/-- The differences of a token lead a reader from the totals before it to the totals after it. -/
theorem moved_reader {p : Totals} {t : MapToken} (line : p.line = t.line) :
    p.reader.moved (t.column - p.column) (t.source - p.source) (t.sourceLine - p.sourceLine)
      (t.sourceColumn - p.sourceColumn) (match t.name with | some n => n - p.name | none => 0) =
      (p.after t).reader := by
  unfold Totals.reader Totals.after Reader.moved
  cases t.name <;> simp only [line, Reader.mk.injEq] <;> omega

theorem decodeSegment_segment {p : Totals} {t : MapToken} (line : p.line = t.line) :
    decodeSegment p.reader (segment p t) = some (t, (p.after t).reader) := by
  have moved := moved_reader line
  have token := token_reader_after line
  rw [segment_eq, decodeSegment, Vlq.decode_flatMap_encode]
  unfold differences
  cases name : t.name with
  | none =>
    rw [name] at moved token
    show (p.reader.moved _ _ _ _ 0).token false >>= _ = _
    rw [moved]
    exact congrArg (· >>= _) token
  | some n =>
    rw [name] at moved token
    show (p.reader.moved _ _ _ _ _).token true >>= _ = _
    rw [moved]
    exact congrArg (· >>= _) token

theorem decodeSegments_concat {q r r' : Reader} {parts : List (List Char)} {ts : List MapToken}
    {s : List Char} {t : MapToken} (before : decodeSegments q parts = some (ts, r))
    (next : decodeSegment r s = some (t, r')) :
    decodeSegments q (parts ++ [s]) = some (ts ++ [t], r') := by
  induction parts generalizing q ts with
  | nil =>
    simp only [decodeSegments, Option.some.injEq, Prod.mk.injEq] at before
    obtain ⟨rfl, rfl⟩ := before
    simp [decodeSegments, next]
  | cons part parts ih =>
    simp only [decodeSegments, Option.bind_eq_bind, Option.bind_eq_some_iff, Option.pure_def,
      Option.some.injEq] at before
    obtain ⟨⟨u, q'⟩, first, ⟨us, r⟩, others, equal⟩ := before
    obtain ⟨rfl, rfl⟩ := Prod.mk.inj equal
    simp [decodeSegments, first, ih others]

/-! ### Lines -/

/-- A piece of a line: its tokens, and the writer's totals behind them, where the reader is too. -/
structure LineRead (q : Reader) (cur : List Char) (done : List MapToken) (p : Totals) : Prop where
  unbroken : ';' ∉ cur
  read : decodeSegments q (if cur.isEmpty then [] else splitAt ',' cur) = some (done, p.reader)

namespace LineRead

theorem empty (p : Totals) : LineRead p.reader [] [] p := ⟨List.not_mem_nil, rfl⟩

theorem first {p : Totals} {t : MapToken} (line : p.line = t.line) :
    LineRead p.reader (segment p t) [t] (p.after t) := by
  refine ⟨separator_not_mem_segment (.inr rfl) p t, ?_⟩
  rw [if_neg (by simp [segment_ne_nil]),
    splitAt_of_not_mem (separator_not_mem_segment (.inl rfl) p t)]
  exact decodeSegments_concat (show decodeSegments p.reader [] = some ([], p.reader) from rfl)
    (decodeSegment_segment line)

theorem next {q : Reader} {p : Totals} {cur : List Char} {done : List MapToken} {t : MapToken}
    (h : LineRead q cur done p) (begun : cur ≠ []) (line : p.line = t.line) :
    LineRead q (cur ++ ',' :: segment p t) (done ++ [t]) (p.after t) := by
  have before := h.read
  rw [if_neg (by simpa using begun)] at before
  refine ⟨?_, ?_⟩
  · rw [List.mem_append, List.mem_cons, not_or, not_or]
    exact ⟨h.unbroken, by decide, separator_not_mem_segment (.inr rfl) p t⟩
  · rw [if_neg (by simp), splitAt_append,
      splitAt_of_not_mem (separator_not_mem_segment (.inl rfl) p t)]
    exact decodeSegments_concat before (decodeSegment_segment line)

theorem decodeLines_end {q : Reader} {p : Totals} {cur : List Char} {done : List MapToken}
    (h : LineRead q cur done p) : decodeLines q (splitAt ';' cur) = some done := by
  rw [splitAt_of_not_mem h.unbroken, decodeLines, h.read]
  simp [decodeLines]

theorem decodeLines_break {q : Reader} {p : Totals} {cur : List Char} {done : List MapToken}
    (h : LineRead q cur done p) (rest : List Char) :
    decodeLines q (splitAt ';' (cur ++ ';' :: rest)) =
      (decodeLines p.reader.nextLine (splitAt ';' rest)).map (done ++ ·) := by
  rw [splitAt_append, splitAt_of_not_mem h.unbroken, List.singleton_append, decodeLines, h.read,
    Option.map_eq_bind]
  rfl

/-- Several line breaks. The lines between them are empty. -/
theorem decodeLines_breaks {q : Reader} {p : Totals} {cur : List Char} {done : List MapToken}
    (h : LineRead q cur done p) (n : Nat) (rest : List Char) :
    decodeLines q (splitAt ';' (cur ++ (List.replicate (n + 1) ';' ++ rest))) =
      (decodeLines { p with line := p.line + (n + 1), column := 0 : Totals }.reader
        (splitAt ';' rest)).map (done ++ ·) := by
  induction n generalizing q p cur done with
  | zero => exact h.decodeLines_break rest
  | succ n ih =>
    rw [List.replicate_succ, List.cons_append, h.decodeLines_break]
    have later := ih (LineRead.empty { p with line := p.line + 1, column := 0 })
    simp only [List.nil_append] at later
    rw [show p.reader.nextLine =
      ({ p with line := p.line + 1, column := 0 } : Totals).reader from rfl, later, Option.map_id',
      Nat.add_assoc, Nat.add_comm 1]

end LineRead

/-- The tokens that are written after `last`: none that equals the one before it. -/
def fresh (last : Option MapToken) : List MapToken → List MapToken
  | [] => []
  | t :: rest => if last = some t then fresh last rest else t :: fresh (some t) rest

theorem Totals.line_after {p : Totals} {t : MapToken} (ahead : p.line ≤ t.line) :
    (p.after t).line = t.line :=
  Nat.max_eq_right ahead

theorem decodeLines_encodeFrom {q : Reader} {p : Totals} {cur : List Char} {done ts : List MapToken}
    {last : Option MapToken} (read : LineRead q cur done p) (begun : cur = [] ↔ last = none)
    (current : ∀ a, last = some a → a.line = p.line) (ahead : ∀ t ∈ ts, p.line ≤ t.line)
    (sorted : ts.Pairwise (·.line ≤ ·.line)) :
    decodeLines q (splitAt ';' (cur ++ encodeFrom p last ts)) = some (done ++ fresh last ts) := by
  -- The reader is at `q`, where the line starts, and the writer at `p`; `cur` lies between them.
  induction ts generalizing q p cur done last with
  | nil =>
    rw [encodeFrom, List.append_nil, read.decodeLines_end, fresh, List.append_nil]
  | cons t ts ih =>
    obtain ⟨behind, sorted⟩ := List.pairwise_cons.mp sorted
    have reached := Totals.line_after (ahead t List.mem_cons_self)
    -- Once `t` is written, the rest is read by the induction hypothesis.
    have written {q : Reader} {cur : List Char} {done : List MapToken}
        (read : LineRead q cur done (p.after t)) (begun : cur ≠ []) :
        decodeLines q (splitAt ';' (cur ++ encodeFrom (p.after t) (some t) ts)) =
          some (done ++ fresh (some t) ts) := by
      refine ih read (iff_of_false begun (Option.some_ne_none t)) ?_ ?_ sorted
      · intro a same
        rw [← Option.some.inj same, reached]
      · rw [reached]
        exact behind
    rw [encodeFrom]
    by_cases later : p.line < t.line
    · have other : last ≠ some t := fun same => Nat.ne_of_gt later (current t same)
      obtain ⟨n, gap⟩ : ∃ n, t.line - p.line = n + 1 := ⟨t.line - p.line - 1, by omega⟩
      have line : p.line + (n + 1) = t.line := by omega
      have start : LineRead ({ p with line := p.line + (n + 1), column := 0 } : Totals).reader
          (segment { p with column := 0 } t) [t] (p.after t) := by
        have same : ({ p with line := p.line + (n + 1), column := 0 } : Totals).after t =
            p.after t := by
          simp only [Totals.after, Totals.mk.injEq, and_self, and_true]
          omega
        exact same ▸ LineRead.first line
      rw [if_pos later, gap, fresh, if_neg other, List.append_assoc, read.decodeLines_breaks,
        written start (segment_ne_nil _ _)]
      rfl
    · have line : p.line = t.line := Nat.le_antisymm (ahead t List.mem_cons_self) (by omega)
      rw [if_neg later, fresh]
      by_cases repeated : last = some t
      · rw [if_pos repeated, if_pos repeated]
        exact ih read begun current (fun u member => ahead u (List.mem_cons_of_mem _ member)) sorted
      · rw [if_neg repeated, if_neg repeated]
        cases last with
        | none =>
          obtain rfl := begun.mpr rfl
          obtain ⟨rfl, rfl⟩ := Prod.mk.inj (Option.some.inj read.read)
          exact written (LineRead.first line) (segment_ne_nil _ _)
        | some a =>
          have filled : cur ≠ [] := fun empty => Option.some_ne_none a (begun.mp empty)
          have more := written (read.next filled line) (by simp)
          simpa using more

theorem destutter'_eq_cons_fresh (a : MapToken) (ts : List MapToken) :
    ts.destutter' (· ≠ ·) a = a :: fresh (some a) ts := by
  induction ts generalizing a with
  | nil => rfl
  | cons t ts ih =>
    by_cases same : a = t
    · rw [List.destutter'_cons_neg ts (by simpa using same), ih, fresh, if_pos (by rw [same])]
    · rw [List.destutter'_cons_pos ts same, ih, fresh, if_neg (by simpa using same)]

theorem fresh_none (ts : List MapToken) : fresh none ts = ts.destutter (· ≠ ·) := by
  cases ts with
  | nil => rfl
  | cons t ts => exact (destutter'_eq_cons_fresh t ts).symm

/-- Decoding gives back tokens whose lines do not go back, each run of equal ones collapsed. -/
theorem decode_encode_destutter {ts : List MapToken} (sorted : ts.Pairwise (·.line ≤ ·.line)) :
    decode (encode ts) = some (ts.destutter (· ≠ ·)) := by
  have whole := decodeLines_encodeFrom (LineRead.empty {}) (iff_of_true rfl rfl)
    (fun a none => nomatch none) (fun t _ => Nat.zero_le t.line) sorted
  rw [decode, encode, String.toList_ofList, ← fresh_none]
  exact whole

/-! ### Counting segments -/

/-- The segments of a mappings text, line by line. -/
def segments (text : String) : List (List Char) :=
  (splitAt ';' text.toList).flatMap fun line => if line.isEmpty then [] else splitAt ',' line

theorem length_of_decodeSegments {q r : Reader} {parts : List (List Char)} {ts : List MapToken}
    (read : decodeSegments q parts = some (ts, r)) : ts.length = parts.length := by
  induction parts generalizing q ts with
  | nil =>
    obtain ⟨rfl, -⟩ := Prod.mk.inj (Option.some.inj read)
    rfl
  | cons part parts ih =>
    simp only [decodeSegments, Option.bind_eq_bind, Option.bind_eq_some_iff, Option.pure_def,
      Option.some.injEq] at read
    obtain ⟨⟨t, q'⟩, -, ⟨us, r⟩, others, equal⟩ := read
    obtain ⟨rfl, rfl⟩ := Prod.mk.inj equal
    rw [List.length_cons, List.length_cons, ih others]

/-- Each segment that is read gives one token. -/
theorem length_segments_of_decode {text : String} {ts : List MapToken}
    (read : decode text = some ts) : (segments text).length = ts.length := by
  unfold decode at read
  unfold segments
  generalize splitAt ';' text.toList = lines at read ⊢
  generalize ({} : Reader) = r at read
  induction lines generalizing r ts with
  | nil =>
    obtain rfl := Option.some.inj read
    rfl
  | cons line lines ih =>
    simp only [decodeLines, Option.bind_eq_bind, Option.bind_eq_some_iff, Option.pure_def,
      Option.some.injEq] at read
    obtain ⟨⟨us, q⟩, first, vs, others, rfl⟩ := read
    rw [List.flatMap_cons, List.length_append, List.length_append, ih _ others,
      length_of_decodeSegments first]

end Mappings

end CssPrinter
