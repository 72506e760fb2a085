import CssPrinter.Proofs.Print.Failure

/-!
# Printing siblings

What a node prints depends on its depth and on nothing printed before it. So a list of nodes prints
as its parts do, with a line break between them, and the places of the second part are moved by one
distance (`marks_moved`): down where lines are broken, to the right where they are not.
-/

namespace CssPrinter

/-! ### Moving fragments -/

/-- A fragment that stays on its line. -/
def Fragment.Inline : Fragment → Prop
  | .comment _ => False
  | .lineBreak => False
  | _ => True

/-- In compressed layout everything stands on one line. -/
theorem Writes.inline {style : Style} {d e : Nat} {steps : List Step} {fs : List Fragment}
    (h : Writes style d steps fs e) (compress : style.compress = true) : ∀ f ∈ fs, f.Inline := by
  have noBreak : style.lineBreak = [] := if_pos compress
  induction h with
  | nil d | indent d | dedent d => exact fun f member => absurd member List.not_mem_nil
  | append _ _ first second => exact List.forall_mem_append.mpr ⟨first, second⟩
  | newline d => simp [noBreak]
  | writeln d text lead => simp [noBreak, Fragment.Inline]
  | comment d text kept => rw [compress] at kept; cases kept
  | write d text lead | plain d text | rule d head | bareRule d bare =>
    simp [Fragment.Inline, Style.indentation]

namespace Place

/-- A place further down and further to the right. -/
def moved (down right : Nat) (p : Place) : Place := ⟨p.line + down, p.column + right⟩

theorem afterAll_of_inline {fs : List Fragment} (inline : ∀ f ∈ fs, f.Inline) (p : Place) :
    p.afterAll fs = p.moved 0 (utf16Width (rendered fs)) := by
  induction fs generalizing p with
  | nil => simp [moved, rendered]
  | cons f fs ih =>
    obtain ⟨first, others⟩ := List.forall_mem_cons.mp inline
    rw [afterAll_cons, ih others, rendered, utf16Width_append]
    cases f with
    | comment s | lineBreak => exact first.elim
    | lead s | text s | mark r =>
      simp [moved, after, offsetColumn, Fragment.written, Nat.add_assoc]

/-- A move to the right is lost at a line break. -/
theorem after_moved {down right : Nat} {f : Fragment} (kept : right = 0 ∨ f.Inline) (p : Place) :
    (p.moved down right).after f = (p.after f).moved down right := by
  cases f with
  | comment s | lineBreak =>
    obtain rfl := kept.resolve_right id
    simp [moved, after]
    omega
  | lead s | text s | mark r => simp [moved, after, offsetColumn, Nat.add_right_comm]

end Place

theorem marks_moved {down right : Nat} {fs : List Fragment}
    (kept : right = 0 ∨ ∀ f ∈ fs, f.Inline) (p : Place) :
    marks (p.moved down right) fs = (marks p fs).map fun x => (x.1.moved down right, x.2) := by
  induction fs generalizing p with
  | nil => rfl
  | cons f fs ih =>
    have first : right = 0 ∨ f.Inline :=
      kept.imp_right fun inline => (List.forall_mem_cons.mp inline).1
    have others := ih (kept.imp_right fun inline => (List.forall_mem_cons.mp inline).2)
    have step : (p.moved down right).after f = _ := Place.after_moved first p
    cases f with
    | mark r => simp [marks, others]
    | lead s | text s | comment s | lineBreak => simp [marks, step, others]

/-! ### Two lists of siblings -/

theorem Style.separated_append (style : Style) {fss gss : List (List Fragment)} (first : fss ≠ [])
    (second : gss ≠ []) :
    style.separated (fss ++ gss) =
      style.separated fss ++ (style.lineBreak ++ style.separated gss) := by
  induction fss with
  | nil => exact absurd rfl first
  | cons fs fss ih =>
    cases fss with
    | nil =>
      obtain ⟨gs, gss, rfl⟩ := List.exists_cons_of_ne_nil second
      rfl
    | cons next fss =>
      have later := ih (List.cons_ne_nil _ _)
      rw [List.cons_append] at later
      rw [List.cons_append, List.cons_append, separated_cons_cons, later, separated_cons_cons]
      simp only [List.append_assoc]

theorem fragments_append (options : Options) {xs ys : List Node} (hx : xs ≠ []) (hy : ys ≠ []) :
    (Document.mk (xs ++ ys)).fragments options =
      (Document.mk xs).fragments options ++
        (options.style.lineBreak ++ (Document.mk ys).fragments options) := by
  unfold Document.fragments Style.nodes
  rw [Style.nodeList_eq_map, Style.nodeList_eq_map, Style.nodeList_eq_map, List.map_append]
  exact options.style.separated_append (by simpa using hx) (by simpa using hy)

theorem rules_append (xs ys : List Node) :
    (Document.mk (xs ++ ys)).rules = (Document.mk xs).rules ++ (Document.mk ys).rules := by
  have all : Node.allIn (xs ++ ys) = Node.allIn xs ++ Node.allIn ys := by
    induction xs with
    | nil => simp [Node.allIn]
    | cons n xs ih => simp [Node.allIn, ih]
  unfold Document.rules Document.allNodes
  rw [all, List.filterMap_append]

/-- How far siblings behind `d` are moved: to the line behind it or, on one line, by its width. -/
def Document.advance (d : Document) (options : Options) : Nat × Nat :=
  if options.compress then (0, utf16Width (rendered (d.fragments options)))
  else ((Place.start.afterAll (d.fragments options)).line, 0)

theorem marks_fragments_append (options : Options) {xs ys : List Node} (hx : xs ≠ [])
    (hy : ys ≠ []) :
    marks Place.start ((Document.mk (xs ++ ys)).fragments options) =
      marks Place.start ((Document.mk xs).fragments options) ++
        (marks Place.start ((Document.mk ys).fragments options)).map fun x =>
          (x.1.moved ((Document.mk xs).advance options).1 ((Document.mk xs).advance options).2,
            x.2) := by
  have inline (d : Document) (compress : options.compress = true) :
      ∀ f ∈ d.fragments options, f.Inline := by
    have written : Writes options.style 0 _ (d.fragments options) 0 := writes_nodes 0 d.nodes
    exact written.inline compress
  rw [fragments_append options hx hy, marks_append, marks_append, marks_lineBreak, List.nil_append]
  refine congrArg _ ?_
  unfold Document.advance
  cases compress : options.compress with
  | true =>
    have noBreak : options.style.lineBreak = [] := if_pos compress
    rw [noBreak, Place.afterAll_nil, Place.afterAll_of_inline (inline _ compress)]
    exact marks_moved (Or.inr (inline _ compress)) Place.start
  | false =>
    have broken : options.style.lineBreak = [.lineBreak] :=
      if_neg (by simp [Options.style, compress])
    have moved (p : Place) : p.afterAll [.lineBreak] = Place.start.moved p.line 0 := by
      simp [Place.after, Place.moved, Place.start, Nat.add_comm]
    rw [broken, moved]
    exact marks_moved (Or.inl rfl) Place.start

/-! ### Tokens of siblings -/

def MapEntry.moved (down right : Nat) (e : MapEntry) : MapEntry :=
  { e with line := e.line + down, column := e.column + right }

theorem entries_moved (options : Options) (down right : Nat) {xs : List (Place × Rule)}
    (places : ∀ x ∈ xs, x.1.Valid) :
    (mappingsOf options (xs.map fun x => (x.1.moved down right, x.2))).map Mapping.entry =
      ((mappingsOf options xs).map Mapping.entry).map (·.moved down right) := by
  induction xs with
  | nil => rfl
  | cons x xs ih =>
    obtain ⟨⟨line, column⟩, places⟩ := List.forall_mem_cons.mp places
    have others := ih places
    cases position : x.2.position with
    | none => simpa [mappingsOf, position] using others
    | some p =>
      have first : (Printer.mappingAt options (x.1.moved down right) p).entry =
          (Printer.mappingAt options x.1 p).entry.moved down right := by
        simp only [Mapping.entry, Printer.mappingAt, MapEntry.moved, Place.moved, MapEntry.mk.injEq,
          and_true]
        omega
      simpa [mappingsOf, position, first] using others

theorem entries_append (options : Options) {xs ys : List Node} (hx : xs ≠ []) (hy : ys ≠ []) :
    ((Document.mk (xs ++ ys)).mappings options).map Mapping.entry =
      ((Document.mk xs).mappings options).map Mapping.entry ++
        (((Document.mk ys).mappings options).map Mapping.entry).map
          (·.moved ((Document.mk xs).advance options).1 ((Document.mk xs).advance options).2) := by
  unfold Document.mappings
  rw [marks_fragments_append options hx hy, mappingsOf_append, List.map_append, entries_moved]
  exact valid_marks (show Place.start.Valid by decide) _

theorem Document.shownTokens_of_print {d : Document} {options : Options} {printed : Printed}
    (wanted : options.wantsMap = true) (h : d.print options = .ok printed) :
    ∃ map, printed.map = some map ∧
      map.shownTokens = ((d.mappings options).map Mapping.entry).map fun e =>
        { e with source := (SourceMap.new options.file options.rootUrl).resolve e.source } := by
  obtain ⟨-, -, -, mapped⟩ := (Document.print_eq_ok_iff wanted).mp h
  have empty : (SourceMap.new options.file options.rootUrl).entries = some [] := rfl
  have said := SourceMap.entries_foldl_added (d.mappings options) empty
  refine ⟨_, mapped, ?_⟩
  rw [SourceMap.shownTokens_of_entries said, List.nil_append]
  unfold SourceMap.resolve
  rw [(SourceMap.header_foldl_added _ _).2]

theorem Document.run_of_print {d : Document} {options : Options} {printed : Printed}
    (h : d.print options = .ok printed) :
    (Printer.new options).run options (Script.nodes options.compress d.nodes) =
      .ok ⟨(Printer.new options).writer.behind (d.fragments options) 0, printed.map⟩ := by
  have written : Writes options.style 0 (Script.nodes options.compress d.nodes)
      (d.fragments options) 0 := writes_nodes 0 d.nodes
  have ran := written.run options (p := Printer.new options) (Writer.fits_new options.style)
  rw [show (Printer.new options).writer.cursor = Place.start from rfl,
    (Document.print_eq_ok h).1] at ran
  exact ran

/-- Sibling nodes print one after another, with a line break between them unless the text is
compressed, and all of them can be printed if both parts can. The tokens of the second part are
moved, by the line that the writer is on behind the first part or by the width of its text. -/
theorem Document.print_append (options : Options) (xs ys : List Node) (hx : xs ≠ []) (hy : ys ≠ [])
    (plain : nonEmpty options.mapUrl = none) :
    ((∃ printed, (Document.mk (xs ++ ys)).print options = .ok printed) ↔
      (∃ a, (Document.mk xs).print options = .ok a) ∧
        ∃ b, (Document.mk ys).print options = .ok b) ∧
    ∀ a b printed, (Document.mk xs).print options = .ok a → (Document.mk ys).print options = .ok b →
      (Document.mk (xs ++ ys)).print options = .ok printed →
      printed.css = (if options.compress then a.css ++ b.css else a.css ++ "\n" ++ b.css) ∧
      (options.wantsMap = true → ∃ p m n map,
        (Printer.new options).run options (Script.nodes options.compress xs) = .ok p ∧
        a.map = some m ∧ b.map = some n ∧ printed.map = some map ∧
        map.shownTokens = m.shownTokens ++ n.shownTokens.map fun t =>
          if options.compress then { t with column := t.column + utf16Width a.css }
          else { t with line := t.line + p.writer.line }) := by
  have trailer : options.trailer = "" := by
    unfold Options.trailer
    rw [plain]
  constructor
  · simp only [Document.exists_print_iff, rules_append, List.forall_mem_append]
  intro a b printed ha hb h
  have cssA := (Document.print_eq_ok ha).2
  have cssB := (Document.print_eq_ok hb).2
  have css := (Document.print_eq_ok h).2
  rw [trailer, String.append_empty] at cssA cssB css
  constructor
  · rw [css, cssA, cssB, fragments_append options hx hy, rendered_append, rendered_append]
    cases compress : options.compress with
    | true => simp [Style.lineBreak, Options.style, compress, rendered]
    | false =>
      simp [Style.lineBreak, Options.style, compress, rendered, Fragment.written,
        String.append_assoc]
  · intro wanted
    obtain ⟨m, mapA, tokensA⟩ := Document.shownTokens_of_print wanted ha
    obtain ⟨n, mapB, tokensB⟩ := Document.shownTokens_of_print wanted hb
    obtain ⟨map, mapped, tokens⟩ := Document.shownTokens_of_print wanted h
    refine ⟨_, m, n, map, Document.run_of_print ha, mapA, mapB, mapped, ?_⟩
    rw [tokens, tokensA, tokensB, entries_append options hx hy, List.map_append, cssA]
    refine congrArg _ ?_
    generalize ((Document.mk ys).mappings options).map Mapping.entry = es
    rw [List.map_map, List.map_map]
    refine List.map_congr_left fun e _ => ?_
    have start : (Printer.new options).writer.cursor = Place.start := rfl
    cases compress : options.compress <;>
      simp [Document.advance, compress, MapEntry.moved, Writer.behind, start]

end CssPrinter
