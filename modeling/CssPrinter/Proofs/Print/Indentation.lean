import CssPrinter.Proofs.Print.Independence
import CssPrinter.Proofs.Print.Origins

/-!
# Indentation

In pretty layout every sibling starts a line, so the first selector of a rule stands behind one
indentation unit for each block around it (`markedAt_node`). Nothing else in a map depends on the
unit: two printers that differ in it stay on the same line and record the same but for the columns
(`Printer.Aligned.run`).
-/

namespace CssPrinter

/-- What a level is indented by. -/
inductive Options.IndentsBy (o : Options) : String → Prop
  | given {unit : String} (given : o.indent = some unit) (filled : unit ≠ "") : IndentsBy o unit
  | spaces (absent : ∀ unit, o.indent = some unit → unit = "") : IndentsBy o "  "

theorem Options.unit_of_indentsBy {o : Options} {unit : String} (indents : o.IndentsBy unit) :
    o.unit = unit := by
  unfold Options.unit
  cases indents with
  | given given filled =>
    rw [nonEmpty_eq_some_iff.mpr ⟨given, filled⟩]
    rfl
  | spaces absent =>
    cases own : nonEmpty o.indent with
    | none => rfl
    | some unit =>
      obtain ⟨given, filled⟩ := nonEmpty_eq_some_iff.mp own
      exact absurd (absent unit given) filled

/-! ### Rules and the blocks around them -/

namespace Node

mutual

/-- The rules of a node that has `depth` media blocks around it, each with the number of those
around the rule. -/
def nestedRules (depth : Nat) : Node → List (Nat × Rule)
  | .media _ ns => nestedRulesIn (depth + 1) ns
  | .rule r => [(depth, r)]
  | _ => []

def nestedRulesIn (depth : Nat) : List Node → List (Nat × Rule)
  | [] => []
  | n :: rest => nestedRules depth n ++ nestedRulesIn depth rest

end

mutual

theorem map_snd_nestedRules (depth : Nat) :
    (n : Node) → (n.nestedRules depth).map Prod.snd = n.all.filterMap rule?
  | .comment _ | .charset _ | .keyframes _ | .imports _ | .rule _ => by
    simp [nestedRules, all, List.filterMap_cons, rule?]
  | .media query ns => by
    have inside := map_snd_nestedRulesIn (depth + 1) ns
    simp [nestedRules, all, List.filterMap_cons, rule?, inside]

theorem map_snd_nestedRulesIn (depth : Nat) :
    (ns : List Node) → (nestedRulesIn depth ns).map Prod.snd = (allIn ns).filterMap rule?
  | [] => by simp [nestedRulesIn, allIn]
  | n :: ns => by
    have first := map_snd_nestedRules depth n
    have others := map_snd_nestedRulesIn depth ns
    simp [nestedRulesIn, allIn, first, others]

end

end Node

namespace Document

def nestedRules (d : Document) : List (Nat × Rule) := Node.nestedRulesIn 0 d.nodes

/-- The positions of rules in document order, each with the number of media blocks around it. -/
def nestedPositions (d : Document) : List (Nat × Position) :=
  d.nestedRules.filterMap fun x => x.2.position.map fun p => (x.1, p)

theorem map_snd_nestedRules (d : Document) : d.nestedRules.map Prod.snd = d.rules :=
  Node.map_snd_nestedRulesIn 0 d.nodes

theorem map_snd_nestedPositions (d : Document) : d.nestedPositions.map Prod.snd = d.positions := by
  rw [Document.positions, ← d.map_snd_nestedRules, List.filterMap_map, nestedPositions,
    List.map_filterMap]
  simp [Function.comp_def]

end Document

/-! ### Columns -/

/-- Written from the start of a line, the fragments have the marks `xs`, each behind as many times
`width` as its number says. -/
def MarkedAt (width : Nat) (fs : List Fragment) (xs : List (Nat × Rule)) : Prop :=
  ∀ line, (marks ⟨line, 1⟩ fs).map (fun x => (x.1.column, x.2)) =
    xs.map fun x => (1 + x.1 * width, x.2)

namespace MarkedAt

variable {width : Nat} {fs gs : List Fragment} {xs ys : List (Nat × Rule)}

theorem of_unmarked (unmarked : markedRules fs = []) : MarkedAt width fs [] := by
  intro line
  rw [marks_of_unmarked unmarked]
  rfl

theorem append_unmarked (first : MarkedAt width fs xs) (unmarked : markedRules gs = []) :
    MarkedAt width (fs ++ gs) xs := by
  intro line
  rw [marks_append, marks_of_unmarked unmarked, List.append_nil]
  exact first line

-- Whatever stands in the line before it, a line break leads to column 1.
theorem append_line (first : MarkedAt width fs xs) (second : MarkedAt width gs ys) :
    MarkedAt width (fs ++ .lineBreak :: gs) (xs ++ ys) := by
  intro line
  rw [marks_append, List.map_append, List.map_append, first line]
  exact congrArg _ (second _)

end MarkedAt

section Pretty

variable {style : Style} (kept : style.compress = false)

include kept

theorem lineBreak_of_not_compress : style.lineBreak = [.lineBreak] := by
  simp [Style.lineBreak, kept]

theorem markedAt_rule (d : Nat) {r : Rule} (filled : r.selectors ≠ []) :
    MarkedAt (utf16Width style.unit) (style.rule d r) [(d, r)] := by
  obtain ⟨s, more, head⟩ := List.exists_cons_of_ne_nil filled
  have width : utf16Width (style.leadText d .level) = d * utf16Width style.unit := by
    rw [Style.leadText, kept]
    exact utf16Width_repeated style.unit d
  intro line
  have behind : markedRules (style.moreSelectors d more ++ style.block d r.declarations) = [] := by
    simp
  unfold Style.rule Style.selectors
  rw [head]
  simp only [List.cons_append, Style.indentation, marks, Place.after, width]
  rw [marks_of_unmarked behind]
  rfl

end Pretty

mutual

theorem markedAt_node {style : Style} (kept : style.compress = false) (d : Nat) :
    (n : Node) → (∀ x ∈ n.nestedRules d, x.2.selectors ≠ []) →
      MarkedAt (utf16Width style.unit) (style.node d n) (n.nestedRules d)
  | .comment _, _ | .charset _, _ | .imports _, _ => by
    rw [Node.nestedRules]
    · exact .of_unmarked (by simp [Style.node])
    all_goals simp
  | .keyframes k, _ => by
    rw [Node.nestedRules]
    · exact .of_unmarked (by simp [Style.node, markedRules_keyframes])
    all_goals simp
  | .media query ns, filled => by
    rw [Node.nestedRules] at filled ⊢
    have inside := markedAt_nodes kept (d + 1) ns filled
    have header : MarkedAt (utf16Width style.unit)
        [style.indentation d, .text ("@media " ++ query), style.space, .text "\x7b"] [] :=
      .of_unmarked rfl
    have opened := header.append_line inside
    rw [Style.node, Style.openBlock, lineBreak_of_not_compress kept]
    exact opened.append_unmarked (by simp)
  | .rule r, filled => by
    rw [Node.nestedRules] at filled ⊢
    rw [Style.node]
    exact markedAt_rule kept d (filled (d, r) List.mem_cons_self)

theorem markedAt_nodes {style : Style} (kept : style.compress = false) (d : Nat) :
    (ns : List Node) → (∀ x ∈ Node.nestedRulesIn d ns, x.2.selectors ≠ []) →
      MarkedAt (utf16Width style.unit) (style.separated (style.nodeList d ns))
        (Node.nestedRulesIn d ns)
  | [], _ => .of_unmarked (by simp [Style.nodeList, Style.separated])
  | [n], filled => by
    rw [Node.nestedRulesIn, Node.nestedRulesIn, List.append_nil] at filled ⊢
    rw [Style.nodeList, Style.nodeList]
    exact markedAt_node kept d n filled
  | n :: m :: rest, filled => by
    rw [Node.nestedRulesIn] at filled ⊢
    obtain ⟨own, others⟩ := List.forall_mem_append.mp filled
    have first := markedAt_node kept d n own
    have second := markedAt_nodes kept d (m :: rest) others
    rw [Style.nodeList]
    rw [Style.nodeList] at second ⊢
    rw [Style.separated_cons_cons, lineBreak_of_not_compress kept]
    exact first.append_line second

end

theorem columns_mappingsOf (options : Options) (xs : List (Place × Rule)) :
    (mappingsOf options xs).map (fun x => (x.entry.column, x.entry.origin)) =
      (xs.map fun x => (x.1.column, x.2)).filterMap fun x =>
        x.2.position.map fun p => (x.1 - 1, p.origin options.original) := by
  induction xs with
  | nil => rfl
  | cons x xs ih =>
    cases position : x.2.position with
    | none => simpa [mappingsOf, position] using ih
    | some p =>
      have column : (Printer.mappingAt options x.1 p).entry.column = x.1.column - 1 := rfl
      simpa [mappingsOf, position, origin_mappingAt, column] using ih

/-- Entries stand behind one indentation unit for each block around their rule. -/
theorem Document.columns_of_print {d : Document} {options : Options} {printed : Printed}
    (kept : options.compress = false) (wanted : options.wantsMap = true)
    (h : d.print options = .ok printed) :
    ∃ map entries, printed.map = some map ∧ map.entries = some entries ∧
      entries.map (fun e => (e.column, e.origin)) = d.nestedPositions.map fun x =>
        (x.1 * utf16Width options.unit, x.2.origin options.original) := by
  obtain ⟨map, mapped, said⟩ := Document.entries_of_print wanted h
  refine ⟨map, _, mapped, said, ?_⟩
  have filled : ∀ x ∈ d.nestedRules, x.2.selectors ≠ [] := by
    intro x member
    refine d.selectors_of_print h x.2 ?_
    rw [← d.map_snd_nestedRules]
    exact List.mem_map_of_mem member
  have columns : (marks Place.start (d.fragments options)).map (fun x => (x.1.column, x.2)) =
      d.nestedRules.map fun x => (1 + x.1 * utf16Width options.unit, x.2) :=
    markedAt_nodes kept 0 d.nodes filled 1
  rw [List.map_map, Document.nestedPositions, List.map_filterMap]
  refine (columns_mappingsOf options _).trans ?_
  rw [columns, List.filterMap_map]
  simp [Function.comp_def]

/-! ### Maps that differ in columns -/

def MapToken.withoutColumn (t : MapToken) : MapToken := { t with column := 0 }

/-- The map with every token moved to the start of its line. -/
def SourceMap.withoutColumns (m : SourceMap) : SourceMap :=
  { m with tokens := m.tokens.map MapToken.withoutColumn }

def Mapping.atLineStart (x : Mapping) : Mapping :=
  { x with generated := ⟨x.generated.line, 1⟩ }

theorem SourceMap.withoutColumns_added (m : SourceMap) (x : Mapping) :
    (m.added x).withoutColumns = m.withoutColumns.added x.atLineStart := by
  unfold added withoutColumns add Mapping.atLineStart
  cases x.name.filter (· ≠ "") <;> simp [MapToken.withoutColumn]

theorem SourceMap.withoutColumns_foldl_added (m : SourceMap) (xs : List Mapping) :
    (xs.foldl added m).withoutColumns =
      (xs.map Mapping.atLineStart).foldl added m.withoutColumns := by
  induction xs generalizing m with
  | nil => rfl
  | cons x xs ih => rw [List.foldl_cons, ih, withoutColumns_added, List.map_cons, List.foldl_cons]

/-! ### Two units -/

/-- Two writers stand on the same line and break lines alike. -/
structure Writer.SameLine (v w : Writer) : Prop where
  compress : v.compress = w.compress
  line : v.line = w.line

theorem Writer.SameLine.newline {v w : Writer} (same : v.SameLine w) :
    v.newline.SameLine w.newline := by
  unfold Writer.newline
  rw [same.compress]
  split
  · exact same
  · exact ⟨rfl, congrArg (· + 1) same.line⟩

theorem Writer.SameLine.apply {v w : Writer} (same : v.SameLine w) (op : Op) :
    (v.apply op).SameLine (w.apply op) := by
  cases op with
  | write _ _ | trailer _ | indent | dedent => exact ⟨same.compress, same.line⟩
  | writeln text lead =>
    have written : (v.write text lead).SameLine (w.write text lead) := ⟨same.compress, same.line⟩
    exact written.newline
  | newline => exact same.newline
  | addLines count => exact ⟨same.compress, congrArg (· + count) same.line⟩

namespace Printer

/-- `q` is on the line that `p` is on, and has recorded the same but for the columns. -/
structure Aligned (q p : Printer) : Prop where
  writer : q.writer.SameLine p.writer
  valid : q.writer.cursor.Valid
  maps : ∃ m n, q.map = some m ∧ p.map = some n ∧ m.withoutColumns = n.withoutColumns

theorem startAt_aligned {options : Options} {m n : SourceMap} {a b : Place} {r : Rule}
    {map : Option SourceMap} (line : a.line = b.line) (valid : a.Valid)
    (same : m.withoutColumns = n.withoutColumns)
    (h : startAt options (some n) (b, r) = .ok map) :
    ∃ m' n', startAt options (some m) (a, r) = .ok (some m') ∧ map = some n' ∧
      m'.withoutColumns = n'.withoutColumns := by
  obtain ⟨filled, recorded, rfl⟩ := startAt_eq_ok_iff.mp h
  refine ⟨_, _, startAt_eq_ok_iff.mpr ⟨filled, ?_, rfl⟩, rfl, ?_⟩
  · intro y member
    obtain ⟨x, marked, position, positioned, rfl⟩ := mem_mappingsOf_iff.mp member
    obtain rfl := List.mem_singleton.mp marked
    have before : (mappingAt options b position).Valid :=
      recorded _ (mem_mappingsOf_iff.mpr ⟨_, List.mem_singleton_self _, position, positioned, rfl⟩)
    exact ⟨valid, before.2⟩
  · have starts : (mappingsOf options [(a, r)]).map Mapping.atLineStart =
        (mappingsOf options [(b, r)]).map Mapping.atLineStart := by
      cases position : r.position with
      | none => simp [mappingsOf, position]
      | some p => simp [mappingsOf, position, Mapping.atLineStart, mappingAt, line]
    rw [SourceMap.withoutColumns_foldl_added, SourceMap.withoutColumns_foldl_added, starts, same]

namespace Aligned

variable {options : Options} {p q p' : Printer}

theorem step {s : Step} (aligned : q.Aligned p) (indent : Option String)
    (h : p.step options s = .ok p') :
    ∃ q', q.step { options with indent } s = .ok q' ∧ q'.Aligned p' := by
  obtain ⟨same, valid, m, n, hq, hp, maps⟩ := aligned
  cases s with
  | layout op =>
    obtain rfl := Except.ok.inj h
    exact ⟨_, rfl, same.apply op, Writer.valid_apply valid op, m, n, hq, hp, maps⟩
  | rule r =>
    obtain ⟨map, first, rfl⟩ := startRule_eq_ok_iff.mp h
    rw [hp] at first
    have placed : (q.writer.cursor.offsetColumn q.writer.pendingIndent).Valid :=
      ⟨valid.1, fun zero => valid.2 (Nat.eq_zero_of_add_eq_zero_right zero)⟩
    obtain ⟨m', n', second, rfl, maps'⟩ := startAt_aligned same.line placed maps first
    rw [← hq] at second
    exact ⟨_, startRule_eq_ok_iff.mpr ⟨_, second, rfl⟩, same, valid, m', n', rfl, rfl, maps'⟩

theorem run {steps : List Step} (aligned : q.Aligned p) (indent : Option String)
    (h : p.run options steps = .ok p') :
    ∃ q', q.run { options with indent } steps = .ok q' ∧ q'.Aligned p' :=
  exists_run (R := Aligned) (fun _ _ _ _ aligned h => step aligned indent h) aligned h

end Aligned

theorem new_aligned {options : Options} (wanted : options.wantsMap = true)
    (indent : Option String) :
    (Printer.new { options with indent }).Aligned (Printer.new options) where
  writer := ⟨rfl, rfl⟩
  valid := ⟨Nat.one_ne_zero, Nat.one_ne_zero⟩
  maps := ⟨_, _, if_pos wanted, if_pos wanted, rfl⟩

end Printer

theorem Document.print_aligned {d : Document} {options : Options} {printed : Printed}
    (wanted : options.wantsMap = true) (h : d.print options = .ok printed)
    (indent : Option String) :
    ∃ reprinted m n, d.print { options with indent } = .ok reprinted ∧ reprinted.map = some m ∧
      printed.map = some n ∧ m.withoutColumns = n.withoutColumns := by
  unfold Document.print at h ⊢
  cases ran : (Printer.new options).run options (Script.nodes options.compress d.nodes) with
  | error e => rw [ran] at h; cases h
  | ok p =>
    rw [ran] at h
    obtain rfl := Except.ok.inj h
    obtain ⟨q, ran', -, -, m, n, hq, hp, same⟩ :=
      (Printer.new_aligned wanted indent).run indent ran
    rw [ran']
    exact ⟨_, m, n, rfl, hq, hp, same⟩

-- A compressed writer never keeps its unit, and the steps do not look at the option.
theorem Document.print_indent_of_compress (d : Document) {options : Options}
    (compress : options.compress = true) (indent : Option String) :
    d.print { options with indent } = d.print options := by
  have start : Printer.new { options with indent } = Printer.new options := by
    simp [Printer.new, Writer.new, compress, Options.wantsMap]
  unfold Document.print
  rw [start]
  rfl

/-- In pretty layout the entry of a rule stands behind one indentation unit for each media block
around the rule, and another unit changes nothing in the map but these columns. In compressed layout
the unit changes nothing at all. -/
theorem Document.print_indentation (d : Document) (options : Options) (unit : String)
    (indents : options.IndentsBy unit) :
    d.nestedPositions.map Prod.snd = d.positions ∧
    (options.compress = false → options.wantsMap = true →
      ∀ printed, d.print options = .ok printed →
        ∃ map entries, printed.map = some map ∧ map.entries = some entries ∧
          entries.map (fun e => (e.column, e.origin)) = d.nestedPositions.map (fun x =>
            (x.1 * utf16Width unit, x.2.origin options.original)) ∧
          ∀ indent, ∃ reprinted map', d.print { options with indent } = .ok reprinted ∧
            reprinted.map = some map' ∧ map'.withoutColumns = map.withoutColumns) ∧
    (options.compress = true → ∀ indent, d.print { options with indent } = d.print options) := by
  refine ⟨d.map_snd_nestedPositions, ?_, fun compress => d.print_indent_of_compress compress⟩
  intro kept wanted printed h
  obtain ⟨map, entries, mapped, said, columns⟩ := Document.columns_of_print kept wanted h
  rw [Options.unit_of_indentsBy indents] at columns
  refine ⟨map, entries, mapped, said, columns, fun indent => ?_⟩
  obtain ⟨reprinted, m, n, again, remapped, mapped', same⟩ := Document.print_aligned wanted h indent
  obtain rfl := Option.some.inj (mapped'.symm.trans mapped)
  exact ⟨reprinted, m, again, remapped, same⟩

end CssPrinter
