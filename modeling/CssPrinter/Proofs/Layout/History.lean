import CssPrinter.Proofs.Print.Places
import Mathlib.Algebra.Ring.Nat
import Mathlib.Data.List.Infix

/-!
# A writer and its history

A writer keeps its level, its line, its column and a text, and no operation looks at the text.
`Tracks` says what they are in terms of the operations carried out so far. One operation keeps it
(`Tracks.apply`), so it holds after any run (`tracks_run`).
-/

namespace CssPrinter

/-! ### Histories -/

namespace Op

def endsLine : Op → Bool
  | .writeln _ _ => true
  | .newline => true
  | _ => false

def addedLines : Op → Nat
  | .addLines count => count
  | _ => 0

end Op

/-- How many blocks are open behind operations. -/
def openBlocks (ops : List Op) : Nat := ops.count .indent - ops.count .dedent

/-- No block is left that was not entered before. -/
def Nested (ops : List Op) : Prop :=
  ∀ before, before <+: ops → before.count .dedent ≤ before.count .indent

instance (ops : List Op) : Decidable (Nested ops) :=
  decidable_of_iff (∀ before ∈ ops.inits, before.count .dedent ≤ before.count .indent)
    (by simp only [List.mem_inits, Nested])

theorem Nested.of_concat {ops : List Op} {op : Op} (nested : Nested (ops ++ [op])) : Nested ops :=
  fun before start => nested before (start.trans (List.prefix_append ops [op]))

/-- Operations behind others, each with the number of blocks that are open when it comes. -/
def placedAfter (before : List Op) : List Op → List (Nat × Op)
  | [] => []
  | op :: ops => (openBlocks before, op) :: placedAfter (before ++ [op]) ops

def placed (ops : List Op) : List (Nat × Op) := placedAfter [] ops

theorem placedAfter_append (before ops more : List Op) :
    placedAfter before (ops ++ more) =
      placedAfter before ops ++ placedAfter (before ++ ops) more := by
  induction ops generalizing before with
  | nil => rw [List.nil_append, List.append_nil]; rfl
  | cons op ops ih =>
    rw [List.cons_append, placedAfter, placedAfter, ih, List.append_cons before op ops]
    rfl

theorem placed_concat (ops : List Op) (op : Op) :
    placed (ops ++ [op]) = placed ops ++ [(openBlocks ops, op)] :=
  placedAfter_append [] ops [op]

namespace Style

variable (style : Style)

def breaks (op : Op) : Bool := !style.compress && op.endsLine

/-- What an operation writes where a number of blocks is open. -/
def written : Nat × Op → String
  | (depth, .write text lead) => style.leadText depth lead ++ text
  | (depth, .writeln text lead) =>
    style.leadText depth lead ++ text ++ if style.compress then "" else "\n"
  | (_, .newline) => if style.compress then "" else "\n"
  | (_, .trailer text) => text
  | _ => ""

/-- The width that an operation adds to its line: that of a text and of what stands in front of
it. -/
def width : Nat × Op → Nat
  | (depth, .write text lead) => utf16Width (style.leadText depth lead) + utf16Width text
  | (depth, .writeln text lead) => utf16Width (style.leadText depth lead) + utf16Width text
  | _ => 0

/-- The width of what was written since the last line break. -/
def lineWidth (ops : List Op) : Nat :=
  (((placed ops).rtakeWhile fun x => !style.breaks x.2).map style.width).sum

def lineBreaks (ops : List Op) : Nat := if style.compress then 0 else ops.countP Op.endsLine

variable {style}

theorem lineBreaks_concat (ops : List Op) (op : Op) :
    style.lineBreaks (ops ++ [op]) =
      style.lineBreaks ops + if style.breaks op then 1 else 0 := by
  unfold lineBreaks breaks
  cases style.compress <;> simp [List.countP_cons]

theorem lineWidth_concat (ops : List Op) (op : Op) :
    style.lineWidth (ops ++ [op]) =
      if style.breaks op then 0
      else style.lineWidth ops + style.width (openBlocks ops, op) := by
  unfold lineWidth
  rw [placed_concat, List.rtakeWhile_concat]
  cases style.breaks op <;> simp

end Style

/-! ### One operation -/

namespace Writer

theorem newline_frame (w : Writer) :
    w.newline.compress = w.compress ∧ w.newline.unit = w.unit ∧ w.newline.level = w.level := by
  unfold newline
  split <;> exact ⟨rfl, rfl, rfl⟩

theorem apply_frame (w : Writer) (op : Op) :
    (w.apply op).compress = w.compress ∧ (w.apply op).unit = w.unit := by
  cases op with
  | writeln text lead =>
    obtain ⟨compress, unit, -⟩ := (w.write text lead).newline_frame
    exact ⟨compress, unit⟩
  | newline =>
    obtain ⟨compress, unit, -⟩ := w.newline_frame
    exact ⟨compress, unit⟩
  | _ => exact ⟨rfl, rfl⟩

theorem level_apply (w : Writer) (op : Op) :
    (w.apply op).level =
      match op with
      | .indent => w.level + 1
      | .dedent => max 1 (w.level - 1)
      | _ => w.level := by
  cases op with
  | writeln text lead => exact (w.write text lead).newline_frame.2.2
  | newline => exact w.newline_frame.2.2
  | _ => rfl

namespace Fits

variable {w : Writer} {style : Style} {d : Nat}

theorem line_apply (fits : w.Fits style d) (op : Op) :
    (w.apply op).line = w.line + op.addedLines + if style.breaks op then 1 else 0 := by
  unfold Style.breaks
  cases op with
  | writeln text lead | newline =>
    cases kept : style.compress <;>
      simp [apply, Writer.write, Writer.newline, Op.addedLines, Op.endsLine, fits.compress, kept]
  | _ => simp [apply, Writer.write, Op.addedLines, Op.endsLine]

theorem column_apply (fits : w.Fits style d) (op : Op) :
    (w.apply op).column = if style.breaks op then 1 else w.column + style.width (d, op) := by
  unfold Style.breaks
  cases op with
  | writeln text lead | newline =>
    cases kept : style.compress <;>
      simp [apply, Writer.write, Writer.newline, Style.width, Op.endsLine, fits.compress, kept,
        fits.leadText, Nat.add_assoc]
  | _ => simp [apply, Writer.write, Style.width, Op.endsLine, fits.leadText, Nat.add_assoc]

theorem text_apply (fits : w.Fits style d) (op : Op) :
    (w.apply op).text = w.text ++ style.written (d, op) := by
  cases op with
  | writeln text lead | newline =>
    cases kept : style.compress <;>
      simp [apply, Writer.write, Writer.newline, Style.written, fits.compress, kept,
        fits.leadText, String.append_assoc]
  | _ => simp [apply, Writer.write, Style.written, fits.leadText, String.append_assoc]

theorem apply {ops : List Op} {op : Op} (fits : w.Fits style (openBlocks ops))
    (nested : Nested (ops ++ [op])) : (w.apply op).Fits style (openBlocks (ops ++ [op])) := by
  obtain ⟨compress, unit⟩ := w.apply_frame op
  refine ⟨compress.trans fits.compress, unit.trans fits.unit, ?_⟩
  have before : ops.count .dedent ≤ ops.count .indent := nested ops (List.prefix_append ops [op])
  have behind := nested (ops ++ [op]) (List.prefix_refl _)
  have level : w.level = ops.count .indent - ops.count .dedent + 1 := fits.level
  rw [level_apply, level, openBlocks]
  -- A block that is left was entered before, so `max` never holds the level at 1.
  rw [List.count_append, List.count_append] at behind ⊢
  cases op with
  | indent | dedent =>
    simp only [List.count_singleton, reduceCtorEq, beq_iff_eq, if_true, if_false] at behind ⊢
    omega
  | _ => simp

end Fits

end Writer

/-! ### Runs -/

/-- The state of a writer that has carried out operations. -/
structure Tracks (style : Style) (ops : List Op) (w : Writer) : Prop where
  fits : w.Fits style (openBlocks ops)
  line : w.line = 1 + (ops.map Op.addedLines).sum + style.lineBreaks ops
  column : w.column = 1 + style.lineWidth ops
  text : w.text = String.join ((placed ops).map style.written)

theorem tracks_new (style : Style) : Tracks style [] (Writer.new style.unit style.compress) where
  fits := Writer.fits_new style
  line := by simp [Style.lineBreaks, Writer.new]
  column := rfl
  text := rfl

theorem Tracks.apply {style : Style} {ops : List Op} {op : Op} {w : Writer}
    (tracks : Tracks style ops w) (nested : Nested (ops ++ [op])) :
    Tracks style (ops ++ [op]) (w.apply op) where
  fits := tracks.fits.apply nested
  line := by
    rw [tracks.fits.line_apply, tracks.line, Style.lineBreaks_concat, List.map_append,
      List.sum_append, List.map_singleton, List.sum_singleton]
    omega
  column := by
    rw [tracks.fits.column_apply, tracks.column, Style.lineWidth_concat]
    cases style.breaks op with
    | true => rfl
    | false => exact Nat.add_assoc _ _ _
  text := by
    rw [tracks.fits.text_apply, tracks.text, placed_concat, List.map_append, String.join_append,
      List.map_singleton, String.join_cons, String.join_nil, String.append_empty]

theorem Writer.run_concat (w : Writer) (ops : List Op) (op : Op) :
    w.run (ops ++ [op]) = (w.run ops).apply op :=
  List.foldl_append

theorem tracks_run (style : Style) {ops : List Op} (nested : Nested ops) :
    Tracks style ops ((Writer.new style.unit style.compress).run ops) := by
  -- From the end, because the column depends on the latest operations only.
  induction ops using List.reverseRecOn with
  | nil => exact tracks_new style
  | append_singleton ops op ih =>
    rw [Writer.run_concat]
    exact (ih nested.of_concat).apply nested

/-! ### The cursor at the end of the text -/

/-- Nothing with a line feed is put in front of a text. -/
def Lead.Plain : Lead → Prop
  | .literal text => '\n' ∉ text.toList
  | _ => True

/-- The operation writes no line feed but line breaks, and moves the cursor only by what it
writes. -/
def Op.Plain : Op → Prop
  | .write text lead => '\n' ∉ text.toList ∧ lead.Plain
  | .writeln text lead => '\n' ∉ text.toList ∧ lead.Plain
  | .trailer _ => False
  | .addLines _ => False
  | _ => True

theorem flat_leadText {style : Style} (flat : '\n' ∉ style.unit.toList) {lead : Lead}
    (plain : lead.Plain) (d : Nat) : (Fragment.lead (style.leadText d lead)).Flat := by
  cases lead with
  | level => exact flat_indentation flat d
  | literal text =>
    show '\n' ∉ (style.leadText d (.literal text)).toList
    unfold Style.leadText
    split
    · simp
    · exact plain
  | nothing =>
    show '\n' ∉ (style.leadText d .nothing).toList
    unfold Style.leadText
    split <;> simp

theorem Writer.Fits.exists_behind {w : Writer} {style : Style} {d : Nat} (fits : w.Fits style d)
    (flat : '\n' ∉ style.unit.toList) {op : Op} (plain : op.Plain) :
    ∃ fs e, AllFlat fs ∧ w.apply op = w.behind fs e := by
  cases op with
  | write text lead =>
    exact ⟨_, d, by simp [flat_leadText flat plain.2 d, plain.1], fits.write text lead⟩
  | writeln text lead =>
    exact ⟨_, d, by simp [flat_leadText flat plain.2 d, plain.1], fits.writeln text lead⟩
  | newline => exact ⟨_, d, allFlat_lineBreak, fits.newline⟩
  | trailer text => exact plain.elim
  | addLines count => exact plain.elim
  | indent => exact ⟨[], w.level, allFlat_nil, by simp [Writer.apply, Writer.behind, rendered, cursor]⟩
  | dedent =>
    refine ⟨[], max 1 (w.level - 1) - 1, allFlat_nil, ?_⟩
    have level : max 1 (w.level - 1) - 1 + 1 = max 1 (w.level - 1) := by omega
    simp [Writer.apply, Writer.behind, rendered, cursor, level]

theorem Writer.cursor_behind {w : Writer} (exact : w.cursor = Place.ofText w.text)
    {fs : List Fragment} (flat : AllFlat fs) (d : Nat) :
    (w.behind fs d).cursor = Place.ofText (w.behind fs d).text := by
  show w.cursor.afterAll fs = Place.ofText (w.text ++ rendered fs)
  rw [exact, Place.ofText_afterAll _ _ flat]

theorem cursor_run (style : Style) {ops : List Op} (nested : Nested ops)
    (flat : '\n' ∉ style.unit.toList) (plain : ∀ op ∈ ops, op.Plain) :
    ((Writer.new style.unit style.compress).run ops).cursor =
      Place.ofText ((Writer.new style.unit style.compress).run ops).text := by
  induction ops using List.reverseRecOn with
  | nil => rfl
  | append_singleton ops op ih =>
    rw [List.forall_mem_append] at plain
    have tracks := tracks_run style nested.of_concat
    obtain ⟨fs, e, flats, applied⟩ :=
      tracks.fits.exists_behind flat (plain.2 op (List.mem_singleton_self op))
    rw [Writer.run_concat, applied]
    exact Writer.cursor_behind (ih nested.of_concat plain.1) flats e

/-- The counters and the text of a writer after any operations that leave no block they did not
enter. If only line breaks write line feeds and nothing else moves the cursor, it is the end of the
text. -/
theorem Writer.run_bookkeeping (style : Style) (ops : List Op) (nested : Nested ops) :
    let w := (Writer.new style.unit style.compress).run ops
    w.level = 1 + ops.count .indent - ops.count .dedent ∧
      w.line = 1 + (ops.map Op.addedLines).sum +
        (if style.compress then 0 else ops.countP Op.endsLine) ∧
      w.column = 1 + (((placed ops).rtakeWhile fun x => !style.breaks x.2).map style.width).sum ∧
      w.text = String.join ((placed ops).map style.written) ∧
      (∃ lead, utf16Width lead = w.pendingIndent ∧ ∀ text,
        (w.apply (.write text .level)).text = w.text ++ lead ++ text ∧
        (w.apply (.writeln text .level)).text =
          w.text ++ lead ++ text ++ if style.compress then "" else "\n") ∧
      ('\n' ∉ style.unit.toList → (∀ op ∈ ops, op.Plain) → w.cursor = Place.ofText w.text) := by
  intro w
  have tracks : Tracks style ops w := tracks_run style nested
  have closed : ops.count .dedent ≤ ops.count .indent := nested ops (List.prefix_refl ops)
  refine ⟨?_, tracks.line, tracks.column, tracks.text, ?_, cursor_run style nested⟩
  · rw [tracks.fits.level, openBlocks]
    omega
  · refine ⟨_, tracks.fits.pendingIndent.symm, fun text => ⟨?_, ?_⟩⟩
    · rw [tracks.fits.text_apply, Style.written, String.append_assoc]
    · rw [tracks.fits.text_apply, Style.written]
      simp only [String.append_assoc]

/-- A block with a text outside the basic plane. -/
def blockOps : List Op :=
  [.writeln "a \x7b" .level, .indent, .write "b:" .level, .write "😀" (.literal " "), .newline,
    .dedent, .write "\x7d" .level]

theorem Writer.run_bookkeeping_blockOps :
    let w := (Writer.new "\t" false).run blockOps
    Nested blockOps ∧ w.level = 1 ∧ w.line = 3 ∧ w.column = 2 ∧ w.cursor = Place.ofText w.text := by
  have nested : Nested blockOps := by decide
  obtain ⟨level, line, column, -, -, cursor⟩ := Writer.run_bookkeeping ⟨false, "\t"⟩ blockOps nested
  refine ⟨nested, level, line, column.trans ?_, cursor (by decide) ?_⟩
  · decide
  · simp [blockOps, Op.Plain, Lead.Plain]

end CssPrinter
