import CssPrinter.Proofs.Print.Trace
import CssPrinter.Proofs.SourceMap.Entries

/-!
# What a printed map records

The marks of a tree are its rules in document order (`markedRules_fragments`), and printing records
a mapping for each mark whose rule has a position. A tree can be printed with a map exactly if every
rule has selectors and no position has a zero in it: where a rule is written is never the obstacle
(`Document.print_eq_ok_iff`).
-/

namespace CssPrinter

/-! ### Marks and rules -/

section Marks

variable (style : Style)

@[simp] theorem markedRules_append (fs gs : List Fragment) :
    markedRules (fs ++ gs) = markedRules fs ++ markedRules gs :=
  List.filterMap_append

@[simp] theorem markedRules_nil : markedRules [] = [] := rfl

@[simp] theorem markedRules_text (s : String) (fs : List Fragment) :
    markedRules (.text s :: fs) = markedRules fs := rfl

@[simp] theorem markedRules_comment (s : String) (fs : List Fragment) :
    markedRules (.comment s :: fs) = markedRules fs := rfl

@[simp] theorem markedRules_mark (r : Rule) (fs : List Fragment) :
    markedRules (.mark r :: fs) = r :: markedRules fs := rfl

@[simp] theorem markedRules_indentation (d : Nat) (fs : List Fragment) :
    markedRules (style.indentation d :: fs) = markedRules fs := rfl

@[simp] theorem markedRules_space (fs : List Fragment) :
    markedRules (style.space :: fs) = markedRules fs := rfl

@[simp] theorem markedRules_lineBreak : markedRules style.lineBreak = [] := by
  unfold Style.lineBreak
  cases style.compress <;> rfl

@[simp] theorem markedRules_openBlock : markedRules style.openBlock = [] := by
  simp [Style.openBlock]

@[simp] theorem markedRules_closeBlock (d : Nat) : markedRules (style.closeBlock d) = [] := by
  simp [Style.closeBlock]

@[simp] theorem markedRules_styleComment (d : Nat) (text : String) :
    markedRules (style.comment d text) = [] := by
  unfold Style.comment
  cases style.compress <;> simp

@[simp] theorem markedRules_declarations (d : Nat) (ds : List Declaration) :
    markedRules (style.declarations d ds) = [] := by
  induction ds with
  | nil => rfl
  | cons x ds ih =>
    cases x with
    | comment text => simp [Style.declarations, ih]
    | property p => cases h : ds.isEmpty <;> simp [Style.declarations, Style.property, ih, h]

@[simp] theorem markedRules_block (d : Nat) (ds : List Declaration) :
    markedRules (style.block d ds) = [] := by
  simp [Style.block]

theorem markedRules_separated (fss : List (List Fragment)) :
    markedRules (style.separated fss) = fss.flatMap markedRules := by
  fun_induction style.separated fss with
  | case1 => rfl
  | case2 fs => simp
  | case3 fs rest h ih => simp [ih]

@[simp] theorem markedRules_moreSelectors (d : Nat) (more : List String) :
    markedRules (style.moreSelectors d more) = [] := by
  induction more with
  | nil => rfl
  | cons s more ih => simp [Style.moreSelectors, ih]

theorem markedRules_rule (d : Nat) (r : Rule) : markedRules (style.rule d r) = [r] := by
  unfold Style.rule Style.selectors
  cases r.selectors <;> simp

theorem markedRules_keyframes (d : Nat) (k : Keyframes) :
    markedRules (style.keyframes d k) = [] := by
  simp [Style.keyframes, markedRules_separated, Style.keyframe]

mutual

theorem markedRules_node (d : Nat) :
    (n : Node) → markedRules (style.node d n) = n.all.filterMap Node.rule?
  | .comment text => by simp [Style.node, Node.all, Node.rule?]
  | .charset text => by simp [Style.node, Node.all, Node.rule?]
  | .keyframes k => by simp [Style.node, Node.all, Node.rule?, markedRules_keyframes]
  | .media query ns => by
    have inside := flatMap_markedRules_nodeList (d + 1) ns
    simp [Style.node, Node.all, List.filterMap_cons, Node.rule?, markedRules_separated, inside]
  | .imports text => by simp [Style.node, Node.all, Node.rule?]
  | .rule r => by simp [Style.node, Node.all, Node.rule?, markedRules_rule]

theorem flatMap_markedRules_nodeList (d : Nat) :
    (ns : List Node) →
      (style.nodeList d ns).flatMap markedRules = (Node.allIn ns).filterMap Node.rule?
  | [] => by simp [Style.nodeList, Node.allIn]
  | n :: ns => by
    have first := markedRules_node d n
    have others := flatMap_markedRules_nodeList d ns
    simp [Style.nodeList, Node.allIn, first, others]

end

theorem markedRules_fragments (d : Document) (options : Options) :
    markedRules (d.fragments options) = d.rules := by
  rw [Document.fragments, Style.nodes, markedRules_separated, flatMap_markedRules_nodeList]
  rfl

end Marks

theorem marks_of_unmarked {fs : List Fragment} (unmarked : markedRules fs = []) (p : Place) :
    marks p fs = [] := by
  have rules := map_snd_marks p fs
  rw [unmarked] at rules
  exact List.map_eq_nil_iff.mp rules

/-! ### From marks to mappings -/

/-- The mappings of marked rules that have a position. -/
def mappingsOf (options : Options) (xs : List (Place × Rule)) : List Mapping :=
  xs.filterMap fun x => x.2.position.map (Printer.mappingAt options x.1)

theorem mem_mappingsOf_iff {options : Options} {xs : List (Place × Rule)} {y : Mapping} :
    y ∈ mappingsOf options xs ↔
      ∃ x ∈ xs, ∃ p, x.2.position = some p ∧ Printer.mappingAt options x.1 p = y := by
  simp [mappingsOf, List.mem_filterMap, Option.map_eq_some_iff]

theorem mappingsOf_append (options : Options) (xs ys : List (Place × Rule)) :
    mappingsOf options (xs ++ ys) = mappingsOf options xs ++ mappingsOf options ys :=
  List.filterMap_append

theorem length_mappingsOf (options : Options) (xs : List (Place × Rule)) :
    (mappingsOf options xs).length =
      ((xs.map Prod.snd).filter (·.position.isSome)).length := by
  induction xs with
  | nil => rfl
  | cons x xs ih =>
    cases position : x.2.position with
    | none => simpa [mappingsOf, position] using ih
    | some p => simpa [mappingsOf, position] using ih

theorem selectors_of_startAt {options : Options} {map next : Option SourceMap} {x : Place × Rule}
    (h : Printer.startAt options map x = .ok next) : x.2.selectors ≠ [] := by
  intro empty
  unfold Printer.startAt at h
  rw [empty] at h
  cases h

/-- A rule with selectors and a position is refused only if it cannot be recorded. -/
theorem startAt_of_position {options : Options} {m : SourceMap} {x : Place × Rule} {p : Position}
    (filled : x.2.selectors.isEmpty = false) (position : x.2.position = some p) :
    Printer.startAt options (some m) x =
      match m.record (Printer.mappingAt options x.1 p) with
      | .ok map => .ok (some map)
      | .error e => .error (.invalidPosition e) := by
  unfold Printer.startAt
  rw [filled, position]
  dsimp only
  cases m.record (Printer.mappingAt options x.1 p) <;> rfl

theorem startAt_eq_ok_iff {options : Options} {m : SourceMap} {x : Place × Rule}
    {map : Option SourceMap} :
    Printer.startAt options (some m) x = .ok map ↔
      x.2.selectors ≠ [] ∧ (∀ y ∈ mappingsOf options [x], y.Valid) ∧
        map = some ((mappingsOf options [x]).foldl SourceMap.added m) := by
  by_cases empty : x.2.selectors = []
  · exact ⟨fun h => absurd empty (selectors_of_startAt h), fun h => absurd empty h.1⟩
  cases position : x.2.position with
  | none =>
    unfold Printer.startAt
    rw [if_neg (by simpa using empty), position]
    simp [mappingsOf, position, empty, eq_comm]
  | some p =>
    rw [startAt_of_position (by simpa using empty) position]
    by_cases valid : (Printer.mappingAt options x.1 p).Valid
    · rw [SourceMap.record_of_valid m valid]
      simp [mappingsOf, position, empty, valid, eq_comm]
    · rw [SourceMap.record_of_not_valid m valid]
      simp [mappingsOf, position, valid]

theorem selectors_of_foldlM {options : Options} {xs : List (Place × Rule)}
    {map last : Option SourceMap} (h : xs.foldlM (Printer.startAt options) map = .ok last) :
    ∀ x ∈ xs, x.2.selectors ≠ [] := by
  induction xs generalizing map with
  | nil => exact fun _ member => absurd member List.not_mem_nil
  | cons x xs ih =>
    rw [List.foldlM_cons] at h
    cases started : Printer.startAt options map x with
    | error e => rw [started] at h; cases h
    | ok next =>
      rw [started] at h
      intro y member
      rcases List.mem_cons.mp member with rfl | member
      · exact selectors_of_startAt started
      · exact ih h y member

theorem foldlM_startAt_eq_ok_iff {options : Options} {m : SourceMap} {xs : List (Place × Rule)}
    {map : Option SourceMap} :
    xs.foldlM (Printer.startAt options) (some m) = .ok map ↔
      (∀ x ∈ xs, x.2.selectors ≠ []) ∧ (∀ y ∈ mappingsOf options xs, y.Valid) ∧
        map = some ((mappingsOf options xs).foldl SourceMap.added m) := by
  induction xs generalizing m with
  | nil => simp [mappingsOf, pure, Except.pure, eq_comm]
  | cons x xs ih =>
    have split : mappingsOf options (x :: xs) = mappingsOf options [x] ++ mappingsOf options xs :=
      mappingsOf_append options [x] xs
    rw [List.foldlM_cons, split, List.foldl_append, List.forall_mem_append, List.forall_mem_cons]
    constructor
    · intro h
      cases started : Printer.startAt options (some m) x with
      | error e => rw [started] at h; cases h
      | ok next =>
        obtain ⟨filled, valid, rfl⟩ := startAt_eq_ok_iff.mp started
        rw [started] at h
        obtain ⟨restFilled, restValid, rest⟩ := ih.mp h
        exact ⟨⟨filled, restFilled⟩, ⟨valid, restValid⟩, rest⟩
    · rintro ⟨⟨filled, restFilled⟩, ⟨valid, restValid⟩, rest⟩
      rw [startAt_eq_ok_iff.mpr ⟨filled, valid, rfl⟩]
      exact ih.mpr ⟨restFilled, restValid, rest⟩

/-! ### Which documents can be printed -/

def Document.positions (d : Document) : List Position := d.rules.filterMap Rule.position

/-- A position whose start has a counterpart counted from zero. -/
def Position.Valid (p : Position) : Prop := 1 ≤ p.start.line ∧ 1 ≤ p.start.column

instance (p : Position) : Decidable p.Valid := inferInstanceAs (Decidable (_ ∧ _))

theorem Place.Valid.after {p : Place} (valid : p.Valid) (f : Fragment) : (p.after f).Valid := by
  obtain ⟨line, column⟩ := valid
  cases f <;> simp [Place.after, Place.offsetColumn, Place.Valid] <;> omega

theorem valid_marks {p : Place} (valid : p.Valid) (fs : List Fragment) :
    ∀ x ∈ marks p fs, x.1.Valid := by
  induction fs generalizing p with
  | nil => exact fun _ member => absurd member List.not_mem_nil
  | cons f fs ih =>
    cases f with
    | mark r => exact List.forall_mem_cons.mpr ⟨valid, ih valid⟩
    | lead _ | text _ | comment _ | lineBreak => exact ih (valid.after _)

/-- Only positions can be invalid, not the places that rules are written at. -/
theorem valid_mappingsOf_iff {options : Options} {xs : List (Place × Rule)}
    (places : ∀ x ∈ xs, x.1.Valid) :
    (∀ y ∈ mappingsOf options xs, y.Valid) ↔
      ∀ p ∈ (xs.map Prod.snd).filterMap Rule.position, p.Valid := by
  have origin (p : Position) :
      (Place.mk p.start.line.toNat p.start.column.toNat).Valid ↔ p.Valid := by
    rw [Position.Valid, UInt32.le_iff_toNat_le, UInt32.le_iff_toNat_le, Place.Valid,
      ← Nat.one_le_iff_ne_zero, ← Nat.one_le_iff_ne_zero]
    rfl
  constructor
  · intro valid p member
    obtain ⟨r, marked, position⟩ := List.mem_filterMap.mp member
    obtain ⟨x, present, rfl⟩ := List.mem_map.mp marked
    have mapped : Printer.mappingAt options x.1 p ∈ mappingsOf options xs :=
      mem_mappingsOf_iff.mpr ⟨x, present, p, position, rfl⟩
    exact (origin p).mp (valid _ mapped).2
  · intro valid y member
    obtain ⟨x, present, p, position, rfl⟩ := mem_mappingsOf_iff.mp member
    refine ⟨places x present, (origin p).mpr (valid p ?_)⟩
    exact List.mem_filterMap.mpr ⟨x.2, List.mem_map_of_mem present, position⟩

theorem map_snd_marks_fragments (d : Document) (options : Options) (p : Place) :
    (marks p (d.fragments options)).map Prod.snd = d.rules := by
  rw [map_snd_marks, markedRules_fragments]

/-- The mappings of a document's rules where they are printed. -/
def Document.mappings (d : Document) (options : Options) : List Mapping :=
  mappingsOf options (marks Place.start (d.fragments options))

theorem Document.valid_mappings (d : Document) (options : Options) :
    ∀ x ∈ d.mappings options, x.generated.Valid := by
  intro x member
  obtain ⟨y, marked, p, -, rfl⟩ := mem_mappingsOf_iff.mp member
  exact valid_marks (show Place.start.Valid by decide) _ y marked

/-- If a tree could be printed, all its marks could be recorded. -/
theorem Document.print_eq_ok {d : Document} {options : Options} {printed : Printed}
    (h : d.print options = .ok printed) :
    (marks Place.start (d.fragments options)).foldlM (Printer.startAt options)
        (Printer.new options).map = .ok printed.map ∧
      printed.css = rendered (d.fragments options) ++ options.trailer := by
  rw [Document.print_eq] at h
  cases ran : (marks Place.start (d.fragments options)).foldlM (Printer.startAt options)
      (Printer.new options).map with
  | error e => rw [ran] at h; cases h
  | ok map =>
    rw [ran] at h
    obtain rfl := Except.ok.inj h
    exact ⟨rfl, rfl⟩

theorem Document.selectors_of_print {d : Document} {options : Options} {printed : Printed}
    (h : d.print options = .ok printed) : ∀ r ∈ d.rules, r.selectors ≠ [] := by
  intro r member
  rw [← map_snd_marks_fragments d options Place.start] at member
  obtain ⟨x, marked, rfl⟩ := List.mem_map.mp member
  exact selectors_of_foldlM (Document.print_eq_ok h).1 x marked

/-- Printing with a map succeeds exactly if all rules have selectors and all their positions are
valid, and the map holds their mappings in document order. -/
theorem Document.print_eq_ok_iff {d : Document} {options : Options}
    (wanted : options.wantsMap = true) {printed : Printed} :
    d.print options = .ok printed ↔
      (∀ r ∈ d.rules, r.selectors ≠ []) ∧ (∀ p ∈ d.positions, p.Valid) ∧
        printed.css = rendered (d.fragments options) ++ options.trailer ∧
        printed.map = some ((d.mappings options).foldl SourceMap.added
          (SourceMap.new options.file options.rootUrl)) := by
  have start : (Printer.new options).map = some (SourceMap.new options.file options.rootUrl) :=
    if_pos wanted
  have places := valid_marks (show Place.start.Valid by decide) (d.fragments options)
  have positions : (∀ x ∈ d.mappings options, x.Valid) ↔ _ := valid_mappingsOf_iff places
  rw [map_snd_marks_fragments] at positions
  constructor
  · intro h
    obtain ⟨ran, css⟩ := Document.print_eq_ok h
    rw [start] at ran
    obtain ⟨-, valid, map⟩ := foldlM_startAt_eq_ok_iff.mp ran
    exact ⟨d.selectors_of_print h, positions.mp valid, css, map⟩
  · rintro ⟨filled, valid, css, map⟩
    have marked : ∀ x ∈ marks Place.start (d.fragments options), x.2.selectors ≠ [] := by
      intro x member
      refine filled x.2 ?_
      rw [← map_snd_marks_fragments d options Place.start]
      exact List.mem_map_of_mem member
    rw [Document.print_eq, start, foldlM_startAt_eq_ok_iff.mpr ⟨marked, positions.mpr valid, map⟩,
      ← css]
    rfl

theorem Document.entries_of_print {d : Document} {options : Options} {printed : Printed}
    (wanted : options.wantsMap = true) (h : d.print options = .ok printed) :
    ∃ map, printed.map = some map ∧
      map.entries = some ((d.mappings options).map Mapping.entry) := by
  obtain ⟨-, -, -, mapped⟩ := (Document.print_eq_ok_iff wanted).mp h
  have empty : (SourceMap.new options.file options.rootUrl).entries = some [] := rfl
  exact ⟨_, mapped, SourceMap.entries_foldl_added _ empty⟩

end CssPrinter
