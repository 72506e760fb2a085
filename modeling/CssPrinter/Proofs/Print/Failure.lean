import CssPrinter.Proofs.Print.Recording

/-!
# When printing fails

Printing checks each rule in document order: it must have a selector, and where a map is recorded
its position must have a counterpart counted from zero. The first rule that does not pass decides
the error (`Document.print_eq_match`). Nothing else can fail, since the cursor never leaves the
valid places (`Printer.valid_run`).
-/

namespace CssPrinter

/-! ### What is checked of a rule -/

/-- All that printing looks at before it writes a rule. -/
structure RuleCheck where
  bare : Bool
  start : Option Place
deriving DecidableEq

def Rule.check (r : Rule) : RuleCheck where
  bare := r.selectors.isEmpty
  start := r.position.map fun p => ⟨p.start.line.toNat, p.start.column.toNat⟩

/-- Missing selectors are reported first. A position counts only if a map is recorded. -/
def RuleCheck.fault? (recording : Bool) (c : RuleCheck) : Option PrintError :=
  if c.bare then some .emptySelectors
  else if recording then
    (c.start.filter (¬·.Valid)).map fun place => .invalidPosition ⟨place⟩
  else none

/-- At a valid place a rule is refused for what its check finds, and for nothing else. -/
theorem Printer.startAt_eq {options : Options} {map : Option SourceMap} {x : Place × Rule}
    (place : x.1.Valid) :
    Printer.startAt options map x =
      match x.2.check.fault? map.isSome with
      | some e => .error e
      | none => .ok (map.map ((mappingsOf options [x]).foldl SourceMap.added)) := by
  unfold RuleCheck.fault? Rule.check
  cases bare : x.2.selectors.isEmpty with
  | true => simp [Printer.startAt, bare]
  | false =>
    cases map with
    | none => simp [Printer.startAt, bare]
    | some map =>
      cases position : x.2.position with
      | none => simp [Printer.startAt, bare, mappingsOf, position]
      | some p =>
        rw [startAt_of_position bare position]
        by_cases start : (Printer.mappingAt options x.1 p).origin.Valid
        · have valid : (Printer.mappingAt options x.1 p).Valid := ⟨place, start⟩
          have kept : Place.Valid ⟨p.start.line.toNat, p.start.column.toNat⟩ := start
          rw [SourceMap.record_of_valid map valid]
          simp [mappingsOf, position, kept, Option.filter]
        · have invalid : ¬(Printer.mappingAt options x.1 p).Valid := fun valid => start valid.2
          have blamed : (Printer.mappingAt options x.1 p).generated.Valid := place
          have refused : ¬Place.Valid ⟨p.start.line.toNat, p.start.column.toNat⟩ := start
          rw [SourceMap.record_of_not_valid map invalid, if_pos blamed]
          simp [refused, Option.filter]
          rfl

theorem Printer.foldlM_startAt_eq {options : Options} {map : Option SourceMap}
    {xs : List (Place × Rule)} (places : ∀ x ∈ xs, x.1.Valid) :
    xs.foldlM (Printer.startAt options) map =
      match (xs.map (·.2.check)).findSome? (RuleCheck.fault? map.isSome) with
      | some e => .error e
      | none => .ok (map.map ((mappingsOf options xs).foldl SourceMap.added)) := by
  induction xs generalizing map with
  | nil => simp [mappingsOf, pure, Except.pure]
  | cons x xs ih =>
    obtain ⟨place, places⟩ := List.forall_mem_cons.mp places
    have split : mappingsOf options (x :: xs) = mappingsOf options [x] ++ mappingsOf options xs :=
      mappingsOf_append options [x] xs
    rw [List.foldlM_cons, Printer.startAt_eq place, List.map_cons, List.findSome?_cons, split]
    cases fault : x.2.check.fault? map.isSome with
    | some e => rfl
    | none =>
      have later : xs.foldlM (Printer.startAt options)
          (map.map ((mappingsOf options [x]).foldl SourceMap.added)) = _ := ih places
      rw [Option.isSome_map, Option.map_map] at later
      simpa [bind, Except.bind, List.foldl_append, Function.comp_def] using later

theorem isSome_map_new (options : Options) :
    (Printer.new options).map.isSome = options.wantsMap := by
  unfold Printer.new
  cases wanted : options.wantsMap <;> simp

/-- Printing in one equation: either the first fault that a rule shows, or the fragments of the
document and the map of its rules. -/
theorem Document.print_eq_match (d : Document) (options : Options) :
    d.print options =
      match (d.rules.map Rule.check).findSome? (RuleCheck.fault? options.wantsMap) with
      | some e => .error e
      | none => .ok {
          css := rendered (d.fragments options) ++ options.trailer
          map := (Printer.new options).map.map
            ((d.mappings options).foldl SourceMap.added) } := by
  have places := valid_marks (show Place.start.Valid by decide) (d.fragments options)
  have checks : (marks Place.start (d.fragments options)).map (·.2.check) =
      d.rules.map Rule.check := by
    rw [← map_snd_marks_fragments d options Place.start, List.map_map]
    rfl
  rw [Document.print_eq, Printer.foldlM_startAt_eq places, checks, isSome_map_new]
  cases (d.rules.map Rule.check).findSome? (RuleCheck.fault? options.wantsMap) <;> rfl

theorem Document.print_eq_error_iff {d : Document} {options : Options} {e : PrintError} :
    d.print options = .error e ↔
      (d.rules.map Rule.check).findSome? (RuleCheck.fault? options.wantsMap) = some e := by
  rw [Document.print_eq_match]
  cases (d.rules.map Rule.check).findSome? (RuleCheck.fault? options.wantsMap) <;> simp

/-! ### The cursor -/

theorem Writer.valid_apply {w : Writer} (valid : w.cursor.Valid) (op : Op) :
    (w.apply op).cursor.Valid := by
  obtain ⟨line, column⟩ := valid
  have line : w.line ≠ 0 := line
  have column : w.column ≠ 0 := column
  have newline : ∀ w : Writer, w.line ≠ 0 → w.column ≠ 0 → w.newline.cursor.Valid := by
    intro w line column
    unfold Writer.newline
    split
    · exact ⟨line, column⟩
    · exact ⟨Nat.succ_ne_zero _, Nat.one_ne_zero⟩
  cases op with
  | write text lead => exact ⟨line, by simp [Writer.apply, Writer.write, Writer.cursor]; omega⟩
  | writeln text lead => exact newline _ line (by simp [Writer.write]; omega)
  | newline => exact newline w line column
  | trailer _ | indent | dedent => exact ⟨line, column⟩
  | addLines count => exact ⟨by simp [Writer.apply, Writer.cursor]; omega, column⟩

/-- Only layout moves the cursor. -/
theorem Printer.valid_step {options : Options} {p q : Printer} (valid : p.writer.cursor.Valid)
    {s : Step} (h : p.step options s = .ok q) : q.writer.cursor.Valid := by
  cases s with
  | layout op =>
    obtain rfl := Except.ok.inj h
    exact Writer.valid_apply valid op
  | rule r =>
    have started : p.startRule options r = .ok q := h
    rw [Printer.startRule_eq] at started
    cases ran : Printer.startAt options p.map _ with
    | error e => rw [ran] at started; cases started
    | ok map =>
      rw [ran] at started
      obtain rfl := Except.ok.inj started
      exact valid

theorem Printer.valid_run {options : Options} {p q : Printer} (valid : p.writer.cursor.Valid)
    {steps : List Step} (h : p.run options steps = .ok q) : q.writer.cursor.Valid := by
  induction steps generalizing p with
  | nil =>
    obtain rfl := Except.ok.inj h
    exact valid
  | cons s steps ih =>
    unfold Printer.run at h
    rw [List.foldlM_cons] at h
    cases taken : p.step options s with
    | error e => rw [taken] at h; cases h
    | ok next =>
      rw [taken] at h
      exact ih (Printer.valid_step valid taken) h

/-! ### Faulty rules -/

/-- A rule that cannot be printed where a map is recorded, or where none is. -/
def Rule.Faulty (recording : Bool) (r : Rule) : Prop :=
  r.selectors = [] ∨
    recording = true ∧ ∃ p, r.position = some p ∧ (p.start.line = 0 ∨ p.start.column = 0)

/-- The error that a faulty rule leads to. -/
def Rule.Reports (r : Rule) (e : PrintError) : Prop :=
  (r.selectors = [] ∧ e = .emptySelectors) ∨
    r.selectors ≠ [] ∧ ∃ p, r.position = some p ∧
      e = .invalidPosition ⟨⟨p.start.line.toNat, p.start.column.toNat⟩⟩

theorem Location.not_valid_iff (l : Location) :
    ¬Place.Valid ⟨l.line.toNat, l.column.toNat⟩ ↔ l.line = 0 ∨ l.column = 0 := by
  have zero (n : UInt32) : n.toNat = 0 ↔ n = 0 := UInt32.toNat_inj (b := 0)
  rw [Place.Valid, not_and_or, not_not, not_not, zero, zero]

theorem Rule.fault?_check_eq_some_iff {r : Rule} {recording : Bool} {e : PrintError} :
    r.check.fault? recording = some e ↔ r.Faulty recording ∧ r.Reports e := by
  unfold RuleCheck.fault? Rule.check Rule.Faulty Rule.Reports
  by_cases bare : r.selectors = []
  · simp [bare, @eq_comm _ e]
  cases recording with
  | false => simp [bare]
  | true =>
    cases r.position with
    | none => simp [bare]
    | some p =>
      have zero := p.start.not_valid_iff
      by_cases valid : Place.Valid ⟨p.start.line.toNat, p.start.column.toNat⟩
      · have start := mt zero.mpr (not_not.mpr valid)
        simp [bare, valid, start, Option.filter]
      · have start := zero.mp valid
        simp [bare, valid, start, Option.filter, @eq_comm _ e]

theorem Rule.fault?_check_eq_none_iff {r : Rule} {recording : Bool} :
    r.check.fault? recording = none ↔ ¬r.Faulty recording := by
  constructor
  · intro sound faulty
    have reported : ∃ e, r.Reports e := by
      by_cases bare : r.selectors = []
      · exact ⟨_, Or.inl ⟨bare, rfl⟩⟩
      · obtain ⟨-, p, position, -⟩ := faulty.resolve_left bare
        exact ⟨_, Or.inr ⟨bare, p, position, rfl⟩⟩
    obtain ⟨e, reports⟩ := reported
    rw [Rule.fault?_check_eq_some_iff.mpr ⟨faulty, reports⟩] at sound
    cases sound
  · intro sound
    refine Option.eq_none_iff_forall_ne_some.mpr fun e fault => ?_
    exact sound (Rule.fault?_check_eq_some_iff.mp fault).1

/-- A document can be printed exactly if none of its rules is faulty. -/
theorem Document.exists_print_iff {d : Document} {options : Options} :
    (∃ printed, d.print options = .ok printed) ↔ ∀ r ∈ d.rules, ¬r.Faulty options.wantsMap := by
  have sound : (d.rules.map Rule.check).findSome? (RuleCheck.fault? options.wantsMap) = none ↔
      ∀ r ∈ d.rules, ¬r.Faulty options.wantsMap := by
    simp only [List.findSome?_map, List.findSome?_eq_none_iff, Function.comp_apply,
      Rule.fault?_check_eq_none_iff]
  rw [Document.print_eq_match, ← sound]
  cases (d.rules.map Rule.check).findSome? (RuleCheck.fault? options.wantsMap) <;> simp

/-- Printing fails exactly if a rule is faulty, with what the first faulty rule reports. It never
fails for the place that a rule is written at, and it looks at nothing but the checks. -/
theorem Document.print_failure (d : Document) (options : Options) :
    ((∃ e, d.print options = .error e) ↔ ∃ r ∈ d.rules, r.Faulty options.wantsMap) ∧
      (∀ e, d.print options = .error e ↔
        ∃ before r after, d.rules = before ++ r :: after ∧
          (∀ q ∈ before, ¬q.Faulty options.wantsMap) ∧ r.Faulty options.wantsMap ∧ r.Reports e) ∧
      (∀ steps p position, (Printer.new options).run options steps = .ok p →
        (Printer.mapping options p.writer position).generated.Valid) ∧
      ∀ other : Document, other.rules.map Rule.check = d.rules.map Rule.check →
        ∀ e, other.print options = .error e ↔ d.print options = .error e := by
  refine ⟨?_, ?_, ?_, ?_⟩
  · have printed : _ ↔ ∀ r ∈ d.rules, ¬r.Faulty options.wantsMap := Document.exists_print_iff
    cases ran : d.print options with
    | error e =>
      rw [ran] at printed
      have faulty := mt printed.mpr (by simp)
      simpa using faulty
    | ok result =>
      have sound := printed.mp ⟨result, ran⟩
      simpa using sound
  · intro e
    rw [Document.print_eq_error_iff, List.findSome?_map, List.findSome?_eq_some_iff]
    simp only [Function.comp_apply, Rule.fault?_check_eq_some_iff, Rule.fault?_check_eq_none_iff]
    constructor
    · rintro ⟨before, r, after, rules, ⟨faulty, reports⟩, sound⟩
      exact ⟨before, r, after, rules, sound, faulty, reports⟩
    · rintro ⟨before, r, after, rules, sound, faulty, reports⟩
      exact ⟨before, r, after, rules, ⟨faulty, reports⟩, sound⟩
  · intro steps p position ran
    have start : (Printer.new options).writer.cursor.Valid := ⟨Nat.one_ne_zero, Nat.one_ne_zero⟩
    obtain ⟨line, column⟩ := Printer.valid_run start ran
    exact ⟨line, fun zero => column (Nat.eq_zero_of_add_eq_zero_right zero)⟩
  · intro other same e
    rw [Document.print_eq_error_iff, Document.print_eq_error_iff, same]

end CssPrinter
