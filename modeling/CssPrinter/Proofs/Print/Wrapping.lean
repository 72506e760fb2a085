import CssPrinter.Print.Printer32
import CssPrinter.Proofs.Print.Failure

/-!
# Counting in machine words

A count in words of 32 bits is the remainder of the count without a bound. So a writer in machine
words stands where `Writer` stands, with line and column taken as remainders
(`Writer.apply_wrapped`), and a tree is printed with every rule recorded at the remainder of its
place (`Document.print32_eq`). As long as the places that are recorded are small enough, the two ways
of printing are the same (`Document.Countable.print32_eq_print`).
-/

namespace CssPrinter

/-! ### Words and counts -/

namespace Place

/-- A place as it is counted in words. -/
def wrapped (p : Place) : Place := ⟨p.line % UInt32.size, p.column % UInt32.size⟩

/-- A place whose line and column are words. -/
def Small (p : Place) : Prop := p.line < UInt32.size ∧ p.column < UInt32.size

instance (p : Place) : Decidable p.Small := inferInstanceAs (Decidable (_ ∧ _))

theorem wrapped_of_small {p : Place} (small : p.Small) : p.wrapped = p := by
  unfold wrapped
  rw [Nat.mod_eq_of_lt small.1, Nat.mod_eq_of_lt small.2]

end Place

namespace Writer

/-- The writer in machine words at the same point. -/
def wrapped (w : Writer) : Writer32 where
  compress := w.compress
  unit := w.unit
  text := w.text
  line := UInt32.ofNat w.line
  column := UInt32.ofNat w.column
  level := UInt32.ofNat w.level

section

variable {w : Writer} (first : 1 ≤ w.level)

include first

theorem pendingIndent_wrapped : w.wrapped.pendingIndent = UInt32.ofNat w.pendingIndent := by
  unfold pendingIndent Writer32.pendingIndent
  rw [UInt32.ofNat_mul, UInt32.ofNat_sub first]
  rfl

theorem place_wrapped :
    (⟨w.wrapped.line.toNat, (w.wrapped.column + w.wrapped.pendingIndent).toNat⟩ : Place) =
      (w.cursor.offsetColumn w.pendingIndent).wrapped := by
  rw [pendingIndent_wrapped first]
  show Place.mk (UInt32.ofNat w.line).toNat
    (UInt32.ofNat w.column + UInt32.ofNat w.pendingIndent).toNat = _
  rw [← UInt32.ofNat_add, UInt32.toNat_ofNat', UInt32.toNat_ofNat']
  rfl

variable (small : w.level < UInt32.size)

include small

theorem leadOf_wrapped (lead : Lead) :
    w.wrapped.leadOf lead = (w.leadText lead, UInt32.ofNat (utf16Width (w.leadText lead))) := by
  have level : (UInt32.ofNat w.level).toNat = w.level := UInt32.toNat_ofNat_of_lt' small
  have pending := pendingIndent_wrapped first
  unfold Writer32.leadOf leadText
  rw [show w.wrapped.compress = w.compress from rfl]
  cases w.compress with
  | true => simp
  | false =>
    cases lead with
    | level =>
      rw [pending, pendingIndent, ← utf16Width_repeated]
      show (repeated w.unit ((UInt32.ofNat w.level).toNat - 1), _) = _
      rw [level]
      rfl
    | literal text => rfl
    | nothing => simp

theorem write_wrapped (text : String) (lead : Lead) :
    w.wrapped.write text lead = (w.write text lead).wrapped := by
  unfold Writer32.write
  rw [leadOf_wrapped first small]
  unfold write wrapped Writer32.width
  simp only [UInt32.ofNat_add]

omit first small in
theorem newline_wrapped (w : Writer) : w.wrapped.newline = w.newline.wrapped := by
  unfold newline Writer32.newline
  rw [show w.wrapped.compress = w.compress from rfl]
  split
  · rfl
  · simp only [wrapped, UInt32.ofNat_add]
    rfl

/-- One step in machine words is the step without a bound, with its counts as words. -/
theorem apply_wrapped (op : Op) : w.wrapped.apply op = (w.apply op).wrapped := by
  cases op with
  | write text lead => exact write_wrapped first small text lead
  | writeln text lead =>
    show (w.wrapped.write text lead).newline = (w.write text lead).newline.wrapped
    rw [write_wrapped first small, newline_wrapped]
  | newline => exact newline_wrapped w
  | trailer text => rfl
  | addLines count =>
    simp only [apply, Writer32.apply, wrapped, UInt32.ofNat_add]
  | indent =>
    simp only [apply, Writer32.apply, wrapped, UInt32.ofNat_add]
    rfl
  | dedent =>
    have level : (UInt32.ofNat w.level).toNat = w.level := UInt32.toNat_ofNat_of_lt' small
    have lowest : UInt32.ofNat w.level ≤ 1 ↔ w.level ≤ 1 := by
      rw [UInt32.le_iff_toNat_le, level]
      rfl
    simp only [apply, Writer32.apply, wrapped, lowest]
    by_cases top : w.level ≤ 1
    · rw [if_pos top, show max 1 (w.level - 1) = 1 by omega]
      rfl
    · rw [if_neg top, show max 1 (w.level - 1) = w.level - 1 by omega, UInt32.ofNat_sub first]
      rfl

end

end Writer

theorem Printer32.startRule_eq {options : Options} {w : Writer} (first : 1 ≤ w.level)
    (map : Option SourceMap) (r : Rule) :
    (Printer32.mk w.wrapped map).startRule options r =
      (Printer.startAt options map ((w.cursor.offsetColumn w.pendingIndent).wrapped, r)).map
        fun map => ⟨w.wrapped, map⟩ := by
  have same (position : Position) : mapping options w.wrapped position =
      Printer.mappingAt options (w.cursor.offsetColumn w.pendingIndent).wrapped position := by
    unfold mapping
    rw [Writer.place_wrapped first]
    rfl
  unfold startRule Printer.startAt
  by_cases empty : r.selectors.isEmpty = true
  · rw [if_pos empty, if_pos empty]
    rfl
  · rw [if_neg empty, if_neg empty]
    cases map with
    | none => rfl
    | some map =>
      cases r.position with
      | none => rfl
      | some position =>
        simp only [same]
        cases map.record _ <;> rfl

/-! ### Scripts -/

/-- The level behind a step. -/
def Step.levelFrom (level : Nat) : Step → Nat
  | .layout .indent => level + 1
  | .layout .dedent => max 1 (level - 1)
  | _ => level

/-- The levels that steps are taken at. -/
def levels (level : Nat) : List Step → List Nat
  | [] => []
  | s :: rest => level :: levels (s.levelFrom level) rest

theorem levels_append (level : Nat) (s t : List Step) :
    levels level (s ++ t) = levels level s ++ levels (s.foldl Step.levelFrom level) t := by
  induction s generalizing level with
  | nil => rfl
  | cons x s ih => rw [List.cons_append, levels, levels, ih, List.cons_append, List.foldl_cons]

theorem Writes.level {style : Style} {d e : Nat} {steps : List Step} {fs : List Fragment}
    (h : Writes style d steps fs e) : steps.foldl Step.levelFrom (d + 1) = e + 1 := by
  induction h with
  | append _ _ first second => rw [List.foldl_append, first, second]
  | nil | write | plain | newline | writeln | comment | rule | bareRule | indent | dedent => rfl

/-- A mark as it is recorded in words. -/
def wrappedMark (x : Place × Rule) : Place × Rule := (x.1.wrapped, x.2)

/-- Related steps write the fragments and record the remainders of their marks. -/
theorem Writes.run32 {style : Style} {d e : Nat} {steps : List Step} {fs : List Fragment}
    (h : Writes style d steps fs e) (options : Options) {w : Writer} (map : Option SourceMap)
    (fits : w.Fits style d) (small : ∀ level ∈ levels (d + 1) steps, level < UInt32.size) :
    (Printer32.mk w.wrapped map).run options steps =
      ((marks w.cursor fs).map wrappedMark).foldlM (Printer.startAt options) map >>= fun map =>
        .ok ⟨(w.behind fs e).wrapped, map⟩ := by
  have apply {w : Writer} {d : Nat} {s : Step} {rest : List Step} (fits : w.Fits style d)
      (small : ∀ level ∈ levels (d + 1) (s :: rest), level < UInt32.size) (op : Op) :
      w.wrapped.apply op = (w.apply op).wrapped := by
    have first : 1 ≤ w.level := by rw [fits.level]; omega
    exact Writer.apply_wrapped first (fits.level ▸ small _ List.mem_cons_self) op
  induction h generalizing w map with
  | nil d => rw [fits.behind_nil]; rfl
  | @append a b c s t fs gs first second ih₁ ih₂ =>
    rw [levels_append, first.level, List.forall_mem_append] at small
    show List.foldlM _ _ _ = _
    rw [List.foldlM_append, marks_append, List.map_append, List.foldlM_append]
    have earlier := ih₁ map fits small.1
    unfold Printer32.run at earlier
    rw [earlier, bind_assoc, bind_assoc]
    refine congrArg _ (funext fun map => ?_)
    have place : (w.behind fs b).cursor = w.cursor.afterAll fs := rfl
    have later := ih₂ map (fits.behind fs b) small.2
    rw [Writer.behind_behind, place] at later
    exact later
  | write d text lead =>
    have done := apply fits small (.write text lead)
    rw [← fits.write]
    exact congrArg (fun v => Except.ok (Printer32.mk v map)) done
  | plain d text =>
    have done := apply fits small (.write text .nothing)
    rw [← fits.plain]
    exact congrArg (fun v => Except.ok (Printer32.mk v map)) done
  | newline d =>
    have done := apply fits small .newline
    rw [marks_lineBreak, ← fits.newline]
    exact congrArg (fun v => Except.ok (Printer32.mk v map)) done
  | writeln d text lead =>
    have done := apply fits small (.writeln text lead)
    rw [← fits.writeln]
    simp only [marks, marks_lineBreak]
    exact congrArg (fun v => Except.ok (Printer32.mk v map)) done
  | comment d text kept =>
    have written := apply fits small (.writeln ("/*" ++ text ++ "*/") .level)
    have counted := apply (fits.behind (.lead (style.leadText d .level) :: .text
      ("/*" ++ text ++ "*/") :: style.lineBreak) d) small (.addLines (lineFeeds text))
    rw [← fits.writeln] at counted
    rw [← fits.comment text kept]
    exact congrArg (fun v => Except.ok (Printer32.mk v map))
      ((congrArg (Writer32.apply · (.addLines (lineFeeds text))) written).trans counted)
  | rule d head =>
    rename_i r s more
    have done := apply fits small (.write s .level)
    have first : 1 ≤ w.level := by rw [fits.level]; omega
    change ((Printer32.mk w.wrapped map).startRule options r >>= fun q =>
      .ok { q with writer := q.writer.apply (.write s .level) }) = _
    rw [Printer32.startRule_eq first, fits.pendingIndent]
    simp only [Style.indentation, marks, Place.after, List.map_cons, List.map_nil, wrappedMark,
      List.foldlM_cons, List.foldlM_nil, bind_pure]
    cases Printer.startAt options map _ with
    | error e => rfl
    | ok map =>
      change Except.ok (Printer32.mk (w.wrapped.apply (.write s .level)) map) = Except.ok _
      rw [done]
      show Except.ok (Printer32.mk (w.write s .level).wrapped map) = _
      rw [fits.write]
      simp [Writer.behind, rendered, Fragment.written, Place.after]
  | bareRule d bare =>
    rename_i r
    have first : 1 ≤ w.level := by rw [fits.level]; omega
    change ((Printer32.mk w.wrapped map).startRule options r >>= fun q => .ok q) = _
    rw [Printer32.startRule_eq first]
    simp only [marks, List.map_cons, wrappedMark, List.foldlM_cons, Printer.startAt, bare]
    rfl
  | indent d =>
    have done := apply fits small .indent
    have behind : w.apply .indent = w.behind [] (d + 1) := by
      simp [Writer.apply, Writer.behind, rendered, Writer.cursor, fits.level]
    rw [behind] at done
    exact congrArg (fun v => Except.ok (Printer32.mk v map)) done
  | dedent d =>
    have done := apply fits small .dedent
    have behind : w.apply .dedent = w.behind [] d := by
      simp [Writer.apply, Writer.behind, rendered, Writer.cursor, fits.level]
    rw [behind] at done
    exact congrArg (fun v => Except.ok (Printer32.mk v map)) done

/-! ### Documents -/

/-- The level of every step is a word. -/
def Document.LevelsSmall (d : Document) (options : Options) : Prop :=
  ∀ level ∈ levels 1 (Script.nodes options.compress d.nodes), level < UInt32.size

instance (d : Document) (options : Options) : Decidable (d.LevelsSmall options) :=
  inferInstanceAs (Decidable (∀ level ∈ _, _))

theorem Document.run32_eq {d : Document} {options : Options} (small : d.LevelsSmall options) :
    (Printer32.new options).run options (Script.nodes options.compress d.nodes) =
      ((marks Place.start (d.fragments options)).map wrappedMark).foldlM (Printer.startAt options)
        (Printer.new options).map >>= fun map =>
        .ok ⟨((Printer.new options).writer.behind (d.fragments options) 0).wrapped, map⟩ := by
  have written : Writes options.style 0 (Script.nodes options.compress d.nodes)
      (d.fragments options) 0 := writes_nodes 0 d.nodes
  exact written.run32 options (Printer.new options).map (Writer.fits_new options.style) small

/-- Printing in machine words writes the fragments of a tree too, but it records the remainders of
their marks. -/
theorem Document.print32_eq {d : Document} {options : Options} (small : d.LevelsSmall options) :
    d.print32 options =
      ((marks Place.start (d.fragments options)).map wrappedMark).foldlM (Printer.startAt options)
        (Printer.new options).map >>= fun map =>
        .ok { css := rendered (d.fragments options) ++ options.trailer, map } := by
  unfold Document.print32
  rw [Document.run32_eq small, bind_assoc]
  refine congrArg _ (funext fun map => ?_)
  have text : ((Printer.new options).writer.behind (d.fragments options) 0).text =
      rendered (d.fragments options) := String.empty_append
  rw [← text]
  rfl

theorem Document.run32_of_print32 {d : Document} {options : Options} {printed : Printed}
    (small : d.LevelsSmall options) (h : d.print32 options = .ok printed) :
    (Printer32.new options).run options (Script.nodes options.compress d.nodes) =
      .ok ⟨((Printer.new options).writer.behind (d.fragments options) 0).wrapped, printed.map⟩ := by
  rw [Document.print32_eq small] at h
  rw [Document.run32_eq small]
  cases recorded : ((marks Place.start (d.fragments options)).map wrappedMark).foldlM
      (Printer.startAt options) (Printer.new options).map with
  | error e => rw [recorded] at h; cases h
  | ok map =>
    rw [recorded] at h
    obtain rfl := Except.ok.inj h
    rfl

/-- Printing a tree counts nothing that is no word: no level, and no place that it records. What
lies behind the first faulty rule is not printed. -/
structure Document.Countable (d : Document) (options : Options) : Prop where
  levels : d.LevelsSmall options
  places : options.wantsMap = true → ∀ before x after,
    marks Place.start (d.fragments options) = before ++ x :: after →
    (∀ y ∈ before, ¬y.2.Faulty true) → x.2.position.isSome → x.1.Small

/-- Where a place is not recorded, its remainder makes no difference. -/
theorem Printer.startAt_wrappedMark {options : Options} {map : Option SourceMap} {x : Place × Rule}
    (small : map.isSome → x.2.position.isSome → x.1.Small) :
    startAt options map (wrappedMark x) = startAt options map x := by
  unfold startAt wrappedMark
  cases map with
  | none => rfl
  | some map =>
    cases position : x.2.position with
    | none => rfl
    | some p =>
      rw [Place.wrapped_of_small (small rfl (by rw [position]; rfl))]

/-- Of the places that come up before the first failure, those that are recorded are small. Then the
remainders are recorded with the same outcome. -/
theorem Printer.foldlM_wrappedMark {options : Options} {map : Option SourceMap}
    {xs : List (Place × Rule)} (valid : ∀ x ∈ xs, x.1.Valid)
    (small : map.isSome → ∀ before x after, xs = before ++ x :: after →
      (∀ y ∈ before, ¬y.2.Faulty true) → x.2.position.isSome → x.1.Small) :
    (xs.map wrappedMark).foldlM (startAt options) map = xs.foldlM (startAt options) map := by
  induction xs generalizing map with
  | nil => rfl
  | cons x xs ih =>
    obtain ⟨first, others⟩ := List.forall_mem_cons.mp valid
    have here : map.isSome → x.2.position.isSome → x.1.Small :=
      fun recording => small recording [] x xs rfl (by simp)
    rw [List.map_cons, List.foldlM_cons, List.foldlM_cons, startAt_wrappedMark here,
      startAt_eq first]
    cases fault : x.2.check.fault? map.isSome with
    | some e => rfl
    | none =>
      refine ih others fun recording before y after split sound => ?_
      rw [Option.isSome_map] at recording
      have passed : ¬x.2.Faulty true := by
        rw [recording] at fault
        exact Rule.fault?_check_eq_none_iff.mp fault
      refine small recording (x :: before) y after (by rw [split]; rfl) ?_
      exact List.forall_mem_cons.mpr ⟨passed, sound⟩

/-- As long as nothing is counted that is no word, printing in machine words is printing. -/
theorem Document.Countable.print32_eq_print {d : Document} {options : Options}
    (countable : d.Countable options) : d.print32 options = d.print options := by
  have valid := valid_marks (show Place.start.Valid by decide) (d.fragments options)
  have same : ((marks Place.start (d.fragments options)).map wrappedMark).foldlM
      (Printer.startAt options) (Printer.new options).map = _ :=
    Printer.foldlM_wrappedMark valid fun recording =>
      countable.places (isSome_map_new options ▸ recording)
  rw [Document.print32_eq countable.levels, Document.print_eq, same]

theorem Document.countable_of_small {d : Document} {options : Options}
    (levels : d.LevelsSmall options)
    (places : ∀ x ∈ marks Place.start (d.fragments options), x.1.Small) : d.Countable options where
  levels := levels
  places _ before x after split _ _ := places x (by rw [split]; simp)

end CssPrinter
