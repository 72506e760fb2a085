import CssPrinter.Proofs.Print.Fragment

/-!
# Scripts write fragments

`Writes` relates steps to the fragments they write and to the depth they lead to. Every script of a
tree is so related to the tree's fragments (`writes_nodes`), and a printer that runs related steps
writes these fragments and records their marks (`Writes.run`). Hence `Document.print_eq`, which
describes printing without a cursor, a level or a script.
-/

namespace CssPrinter

/-- Steps taken at a depth, the fragments they write, and the depth after them. A comment and the
start of a rule are two steps. -/
inductive Writes (style : Style) : Nat → List Step → List Fragment → Nat → Prop
  | nil (d : Nat) : Writes style d [] [] d
  | append {a b c : Nat} {s t : List Step} {fs gs : List Fragment} (first : Writes style a s fs b)
      (second : Writes style b t gs c) : Writes style a (s ++ t) (fs ++ gs) c
  | write (d : Nat) (text : String) (lead : Lead) :
      Writes style d [Script.write text lead] [.lead (style.leadText d lead), .text text] d
  | plain (d : Nat) (text : String) : Writes style d [Script.write text .nothing] [.text text] d
  | newline (d : Nat) : Writes style d [Script.newline] style.lineBreak d
  | writeln (d : Nat) (text : String) (lead : Lead) :
      Writes style d [Script.writeln text lead]
        (.lead (style.leadText d lead) :: .text text :: style.lineBreak) d
  | comment (d : Nat) (text : String) (kept : style.compress = false) :
      Writes style d
        [Script.writeln ("/*" ++ text ++ "*/") .level, .layout (.addLines (lineFeeds text))]
        [style.indentation d, .comment text] d
  | rule (d : Nat) {r : Rule} {s : String} {more : List String} (head : r.selectors = s :: more) :
      Writes style d [.rule r, Script.write s .level]
        [style.indentation d, .mark r, .text s] d
  | bareRule (d : Nat) {r : Rule} (bare : r.selectors = []) :
      Writes style d [.rule r] [.mark r] d
  | indent (d : Nat) : Writes style d [.layout .indent] [] (d + 1)
  | dedent (d : Nat) : Writes style (d + 1) [.layout .dedent] [] d

/-! ### Scripts of trees -/

section Scripts

variable {style : Style}

theorem writes_openBlock (d : Nat) : Writes style d Script.openBlock style.openBlock (d + 1) := by
  have opened : Writes style d _ _ _ :=
    (Writes.writeln d "\x7b" (.literal " ")).append (.indent d)
  rw [List.append_nil] at opened
  exact opened

theorem writes_closeBlock (d : Nat) :
    Writes style (d + 1) Script.closeBlock (style.closeBlock d) d :=
  (Writes.dedent d).append (.writeln d "\x7d" .level)

theorem writes_separated {α : Type} {d : Nat} {steps : α → List Step} {fs : α → List Fragment}
    (xs : List α) (each : ∀ x ∈ xs, Writes style d (steps x) (fs x) d) :
    Writes style d (Script.separated (xs.map steps)) (style.separated (xs.map fs)) d := by
  induction xs with
  | nil => exact .nil d
  | cons x xs ih =>
    have first := each x List.mem_cons_self
    have others := ih fun y member => each y (List.mem_cons_of_mem _ member)
    cases xs with
    | nil => exact first
    | cons y ys => exact first.append ((Writes.newline d).append others)

theorem writes_comment (d : Nat) (text : String) :
    Writes style d (Script.comment style.compress text) (style.comment d text) d := by
  unfold Script.comment Style.comment
  cases kept : style.compress with
  | true => exact .nil d
  | false => exact .comment d text kept

theorem writes_property (d : Nat) (p : Property) (isLast : Bool) :
    Writes style d (Script.property p isLast) (style.property d p isLast) d := by
  have written : Writes style d _ _ _ :=
    (Writes.write d (p.name ++ ":") .level).append (.write d p.value (.literal " "))
  refine (written.append ?_).append (.newline d)
  cases isLast with
  | true => exact .nil d
  | false => exact .plain d ";"

theorem writes_declarations (d : Nat) (ds : List Declaration) :
    Writes style d (Script.declarations style.compress ds) (style.declarations d ds) d := by
  induction ds with
  | nil => exact .nil d
  | cons x ds ih =>
    cases x with
    | comment text => exact (writes_comment d text).append ih
    | property p => exact (writes_property d p ds.isEmpty).append ih

theorem writes_block (d : Nat) (ds : List Declaration) :
    Writes style d (Script.openBlock ++ Script.declarations style.compress ds ++ Script.closeBlock)
      (style.block d ds) d :=
  ((writes_openBlock d).append (writes_declarations (d + 1) ds)).append (writes_closeBlock d)

theorem writes_keyframe (d : Nat) (k : Keyframe) :
    Writes style d (Script.keyframe style.compress k) (style.keyframe d k) d :=
  (Writes.write d (String.intercalate ", " k.values) .level).append (writes_block d k.declarations)

theorem writes_keyframes (d : Nat) (k : Keyframes) :
    Writes style d (Script.keyframes style.compress k) (style.keyframes d k) d := by
  have blocks : Writes style (d + 1) _ _ _ :=
    writes_separated k.blocks fun b _ => writes_keyframe (d + 1) b
  exact (((Writes.write d _ .level).append (writes_openBlock d)).append blocks).append
    (writes_closeBlock d)

theorem writes_moreSelectors (d : Nat) (s : String) (more : List String) :
    ∃ steps, Script.selectors (s :: more) = Script.write s .level :: steps ∧
      Writes style d steps (style.moreSelectors d more) d := by
  induction more generalizing s with
  | nil => exact ⟨[], rfl, .nil d⟩
  | cons t more ih =>
    obtain ⟨steps, equal, written⟩ := ih t
    refine ⟨Script.writeln "," .level :: Script.write t .level :: steps, ?_, ?_⟩
    · rw [Script.selectors, equal]
      · rfl
      · exact List.cons_ne_nil _ _
    · exact (Writes.writeln d "," .level).append ((Writes.write d t .level).append written)

theorem writes_rule (d : Nat) (r : Rule) :
    Writes style d (Script.rule style.compress r) (style.rule d r) d := by
  have block : Writes style d _ _ _ := writes_block d r.declarations
  unfold Script.rule Style.rule Style.selectors
  cases head : r.selectors with
  | nil => exact (Writes.bareRule d head).append block
  | cons s more =>
    obtain ⟨steps, equal, written⟩ : ∃ steps, _ ∧ Writes style d steps _ d :=
      writes_moreSelectors d s more
    rw [equal]
    have start := (Writes.rule d head).append (written.append block)
    simpa using start

mutual

theorem writes_node (d : Nat) :
    (n : Node) → Writes style d (Script.node style.compress n) (style.node d n) d
  | .comment text => by
    rw [Script.node, Style.node]
    exact writes_comment d text
  | .charset text => by
    rw [Script.node, Style.node]
    exact .writeln d _ .level
  | .keyframes k => by
    rw [Script.node, Style.node]
    exact writes_keyframes d k
  | .media query ns => by
    rw [Script.node, Style.node]
    exact (((Writes.write d _ .level).append (writes_openBlock d)).append
      (writes_nodes (d + 1) ns)).append (writes_closeBlock d)
  | .imports text => by
    rw [Script.node, Style.node]
    exact .write d _ .level
  | .rule r => by
    rw [Script.node, Style.node]
    exact writes_rule d r

theorem writes_nodes (d : Nat) :
    (ns : List Node) → Writes style d (Script.separated (Script.scripts style.compress ns))
      (style.separated (style.nodeList d ns)) d
  | [] => .nil d
  | [n] => by
    have only := writes_node d n
    simpa [Script.scripts, Style.nodeList, Script.separated, Style.separated] using only
  | n :: m :: rest => by
    have first := writes_node d n
    have others := writes_nodes d (m :: rest)
    rw [Script.scripts, Style.nodeList]
    rw [Script.scripts, Style.nodeList] at others ⊢
    exact first.append ((Writes.newline d).append others)

end

end Scripts

/-! ### Running -/

/-- A writer lays out text in a style, at a depth. -/
structure Writer.Fits (w : Writer) (style : Style) (depth : Nat) : Prop where
  compress : w.compress = style.compress
  unit : w.unit = if style.compress then "" else style.unit
  level : w.level = depth + 1

namespace Writer

/-- The writer behind fragments that lead to a depth. -/
def behind (w : Writer) (fs : List Fragment) (depth : Nat) : Writer :=
  { w with
    text := w.text ++ rendered fs
    line := (w.cursor.afterAll fs).line
    column := (w.cursor.afterAll fs).column
    level := depth + 1 }

theorem behind_behind (w : Writer) (fs gs : List Fragment) (d e : Nat) :
    (w.behind fs d).behind gs e = w.behind (fs ++ gs) e := by
  simp [behind, cursor, String.append_assoc]

namespace Fits

variable {w : Writer} {style : Style} {d : Nat}

theorem behind (fits : w.Fits style d) (fs : List Fragment) (e : Nat) :
    (w.behind fs e).Fits style e :=
  ⟨fits.compress, fits.unit, rfl⟩

theorem leadText (fits : w.Fits style d) (lead : Lead) :
    w.leadText lead = style.leadText d lead := by
  unfold Writer.leadText Style.leadText
  rw [fits.compress, fits.unit, fits.level]
  cases style.compress <;> cases lead <;> rfl

theorem pendingIndent (fits : w.Fits style d) :
    w.pendingIndent = utf16Width (style.leadText d .level) := by
  unfold Writer.pendingIndent Style.leadText
  rw [fits.unit, fits.level]
  cases style.compress with
  | true => simp
  | false => exact (utf16Width_repeated style.unit d).symm

theorem behind_nil (fits : w.Fits style d) : w.behind [] d = w := by
  simp [Writer.behind, rendered, cursor, ← fits.level]

theorem write (fits : w.Fits style d) (text : String) (lead : Lead) :
    w.write text lead = w.behind [.lead (style.leadText d lead), .text text] d := by
  simp [Writer.write, Writer.behind, rendered, Fragment.written, Place.after, Place.offsetColumn,
    cursor, fits.leadText, ← fits.level, String.append_assoc]

theorem newline (fits : w.Fits style d) : w.newline = w.behind style.lineBreak d := by
  cases kept : style.compress with
  | true => simp [Writer.newline, Style.lineBreak, fits.compress, kept, fits.behind_nil]
  | false =>
    simp [Writer.newline, Style.lineBreak, fits.compress, kept, Writer.behind, rendered,
      Fragment.written, Place.after, cursor, ← fits.level]

theorem plain (fits : w.Fits style d) (text : String) :
    w.write text .nothing = w.behind [.text text] d := by
  have nothing : style.leadText d .nothing = "" := by
    unfold Style.leadText
    cases style.compress <;> rfl
  rw [fits.write, nothing]
  simp [Writer.behind, rendered, Fragment.written, Place.after, Place.offsetColumn, cursor]

theorem writeln (fits : w.Fits style d) (text : String) (lead : Lead) :
    (w.write text lead).newline =
      w.behind (.lead (style.leadText d lead) :: .text text :: style.lineBreak) d := by
  rw [fits.write, (fits.behind _ d).newline, behind_behind]
  rfl

/-- The line feeds of a comment are counted after the line break that ends it. -/
theorem comment (fits : w.Fits style d) (text : String) (kept : style.compress = false) :
    ((w.apply (.writeln ("/*" ++ text ++ "*/") .level)).apply (.addLines (lineFeeds text))) =
      w.behind [style.indentation d, .comment text] d := by
  simp only [apply, fits.writeln, Style.lineBreak, kept]
  simp [Writer.behind, rendered, Fragment.written, Place.after, Place.offsetColumn, cursor,
    Style.indentation, String.append_assoc]
  omega

end Fits

theorem fits_new (style : Style) : (Writer.new style.unit style.compress).Fits style 0 :=
  ⟨rfl, rfl, rfl⟩

end Writer

namespace Printer

/-- What a rule that starts at a place is mapped to. -/
def mappingAt (options : Options) (place : Place) (p : Position) : Mapping where
  generated := place
  origin := ⟨p.start.line.toNat, p.start.column.toNat⟩
  source := options.sourceOf p
  name := p.start.name

/-- Records a rule that starts at a place, if a map is wanted and the rule has a position. -/
def startAt (options : Options) (map : Option SourceMap) (x : Place × Rule) :
    Except PrintError (Option SourceMap) :=
  if x.2.selectors.isEmpty then .error .emptySelectors
  else
    match map, x.2.position with
    | some map, some position =>
      ((map.record (mappingAt options x.1 position)).mapError .invalidPosition).map some
    | map, _ => .ok map

theorem startRule_eq (options : Options) (p : Printer) (r : Rule) :
    p.startRule options r =
      (startAt options p.map (p.writer.cursor.offsetColumn p.writer.pendingIndent, r)).map
        fun map => { p with map } := by
  obtain ⟨writer, map⟩ := p
  unfold startRule startAt
  by_cases empty : r.selectors.isEmpty = true
  · rw [if_pos empty, if_pos empty]
    rfl
  · rw [if_neg empty, if_neg empty]
    cases map with
    | none => rfl
    | some map =>
      cases r.position with
      | none => rfl
      | some position =>
        have same : mapping options writer position =
            mappingAt options (writer.cursor.offsetColumn writer.pendingIndent) position := rfl
        simp only [same]
        cases map.record _ <;> rfl

theorem startRule_eq_ok_iff {options : Options} {p q : Printer} {r : Rule} :
    p.startRule options r = .ok q ↔
      ∃ map, startAt options p.map (p.writer.cursor.offsetColumn p.writer.pendingIndent, r) =
        .ok map ∧ q = { p with map } := by
  rw [startRule_eq]
  cases startAt options p.map (p.writer.cursor.offsetColumn p.writer.pendingIndent, r) with
  | error e => simp [Except.map]
  | ok map => simp [Except.map, eq_comm]

theorem run_append (options : Options) (p : Printer) (s t : List Step) :
    p.run options (s ++ t) = p.run options s >>= fun q => q.run options t :=
  List.foldlM_append

end Printer

theorem marks_lineBreak (style : Style) (p : Place) : marks p style.lineBreak = [] := by
  unfold Style.lineBreak
  cases style.compress <;> rfl

/-- Related steps write the fragments and record their marks. The first mark that cannot be recorded
ends the whole. -/
theorem Writes.run {style : Style} {d e : Nat} {steps : List Step} {fs : List Fragment}
    (h : Writes style d steps fs e) (options : Options) {p : Printer}
    (fits : p.writer.Fits style d) :
    p.run options steps =
      (marks p.writer.cursor fs).foldlM (Printer.startAt options) p.map >>= fun map =>
        .ok ⟨p.writer.behind fs e, map⟩ := by
  induction h generalizing p with
  | nil d => rw [fits.behind_nil]; rfl
  | append first second ih₁ ih₂ =>
    rw [Printer.run_append, ih₁ fits, marks_append, List.foldlM_append, bind_assoc, bind_assoc]
    refine congrArg _ (funext fun map => ?_)
    rw [← Writer.behind_behind]
    exact ih₂ (p := ⟨_, map⟩) (fits.behind _ _)
  | write d text lead => rw [← fits.write]; rfl
  | plain d text => rw [← fits.plain]; rfl
  | newline d => rw [marks_lineBreak, ← fits.newline]; rfl
  | writeln d text lead =>
    rw [← fits.writeln]
    simp only [marks, marks_lineBreak]
    rfl
  | comment d text kept => rw [← fits.comment text kept]; rfl
  | rule d head =>
    rename_i r s more
    -- The rule is recorded before its indentation is written, at the column behind it.
    change (p.startRule options r >>= fun q => .ok { q with writer := q.writer.write s .level }) = _
    rw [Printer.startRule_eq, fits.pendingIndent]
    simp only [Style.indentation, marks, Place.after, List.foldlM_cons, List.foldlM_nil, bind_pure]
    cases Printer.startAt options p.map _ with
    | error e => rfl
    | ok map =>
      change Except.ok (⟨p.writer.write s .level, map⟩ : Printer) = Except.ok _
      rw [fits.write]
      simp [Writer.behind, rendered, Fragment.written, Place.after]
  | bareRule d bare =>
    rename_i r
    change (p.startRule options r >>= fun q => .ok q) = _
    rw [Printer.startRule_eq]
    simp only [marks, List.foldlM_cons, Printer.startAt, bare]
    rfl
  | indent d =>
    change Except.ok (⟨p.writer.apply .indent, p.map⟩ : Printer) = Except.ok ⟨_, p.map⟩
    simp [Writer.apply, Writer.behind, rendered, Writer.cursor, fits.level]
  | dedent d =>
    change Except.ok (⟨p.writer.apply .dedent, p.map⟩ : Printer) = Except.ok ⟨_, p.map⟩
    simp [Writer.apply, Writer.behind, rendered, Writer.cursor, fits.level]

/-- Printing writes the fragments of a tree and records their marks in order. -/
theorem Document.print_eq (d : Document) (options : Options) :
    d.print options =
      (marks Place.start (d.fragments options)).foldlM (Printer.startAt options)
        (Printer.new options).map >>= fun map =>
        .ok { css := rendered (d.fragments options) ++ options.trailer, map } := by
  have ran := (writes_nodes 0 d.nodes).run options (Writer.fits_new options.style)
    (p := Printer.new options)
  unfold Document.print
  rw [show (Printer.new options).run options (Script.nodes options.compress d.nodes) = _ from ran,
    bind_assoc]
  refine congrArg _ (funext fun map => ?_)
  have text : ((Printer.new options).writer.behind (d.fragments options) 0).text =
      rendered (d.fragments options) := String.empty_append
  rw [← text]
  rfl

end CssPrinter
