import CssPrinter.Proofs.Print.Failure

/-!
# A map does not change the text

Two printers take the same steps, each with options of its own. If they write alike and the second
records only if the first does, then every step that the first can take leads the second to where it
still writes alike (`Printer.Follows.run`). So options that do not concern the layout leave the text
alone, and asking for less never makes printing fail.
-/

namespace CssPrinter

/-! ### What the options ask for -/

/-- The options ask for a map, by themselves or by the place it will be found at. -/
def Options.AsksForMap (o : Options) : Prop :=
  o.map = true ∨ ∃ url, o.mapUrl = some url ∧ url ≠ ""

/-- What stands behind the printed tree. -/
inductive Options.TrailedBy (o : Options) : String → Prop
  | link {url : String} (given : o.mapUrl = some url) (filled : url ≠ "") :
      TrailedBy o ("\n/*# sourceMappingURL=" ++ url ++ " */")
  | nothing (absent : ∀ url, o.mapUrl = some url → url = "") : TrailedBy o ""

theorem nonEmpty_eq_some_iff {text : Option String} {s : String} :
    nonEmpty text = some s ↔ text = some s ∧ s ≠ "" := by
  simp [nonEmpty, Option.filter_eq_some_iff]

theorem Options.wantsMap_iff (o : Options) : o.wantsMap = true ↔ o.AsksForMap := by
  simp [Options.wantsMap, Options.AsksForMap, Option.isSome_iff_exists, nonEmpty_eq_some_iff]

theorem Options.trailedBy_trailer (o : Options) : o.TrailedBy o.trailer := by
  unfold Options.trailer
  cases given : nonEmpty o.mapUrl with
  | some url =>
    obtain ⟨given, filled⟩ := nonEmpty_eq_some_iff.mp given
    exact .link given filled
  | none =>
    refine .nothing fun url present => ?_
    by_contra filled
    rw [nonEmpty_eq_some_iff.mpr ⟨present, filled⟩] at given
    cases given

/-! ### Two runs -/

namespace Printer

/-- What every step keeps between two printers, a run keeps. The second takes each step that the
first can take. -/
theorem exists_run {o₁ o₂ : Options} {R : Printer → Printer → Prop}
    (step : ∀ p q p' s, R q p → p.step o₁ s = .ok p' → ∃ q', q.step o₂ s = .ok q' ∧ R q' p')
    {p q p' : Printer} {steps : List Step} (related : R q p) (h : p.run o₁ steps = .ok p') :
    ∃ q', q.run o₂ steps = .ok q' ∧ R q' p' := by
  induction steps generalizing p q with
  | nil =>
    obtain rfl := Except.ok.inj h
    exact ⟨q, rfl, related⟩
  | cons s steps ih =>
    unfold Printer.run at h ⊢
    rw [List.foldlM_cons] at h
    cases taken : p.step o₁ s with
    | error e => rw [taken] at h; cases h
    | ok next =>
      rw [taken] at h
      obtain ⟨next', taken', related'⟩ := step p q next s related taken
      rw [List.foldlM_cons, taken']
      exact ih related' h

/-- `q` has written what `p` has, and records only if `p` does. -/
structure Follows (q p : Printer) : Prop where
  writer : q.writer = p.writer
  recording : q.map.isSome → p.map.isSome

/-- Whether a rule can be recorded depends on its place and its position, not on the options. -/
theorem startAt_follows {o₁ : Options} (o₂ : Options) {map₁ map₂ next₁ : Option SourceMap}
    {x : Place × Rule} (recording : map₂.isSome → map₁.isSome) (h : startAt o₁ map₁ x = .ok next₁) :
    ∃ next₂, startAt o₂ map₂ x = .ok next₂ ∧ (next₂.isSome → next₁.isSome) := by
  have filled : x.2.selectors.isEmpty = false := by simpa using selectors_of_startAt h
  cases map₂ with
  | none => exact ⟨none, by simp [startAt, filled], fun some => by cases some⟩
  | some m₂ =>
    obtain ⟨m₁, rfl⟩ := Option.isSome_iff_exists.mp (recording rfl)
    obtain ⟨-, valid, rfl⟩ := startAt_eq_ok_iff.mp h
    refine ⟨_, startAt_eq_ok_iff.mpr ⟨by simpa using filled, ?_, rfl⟩, fun _ => rfl⟩
    intro y member
    obtain ⟨z, marked, position, positioned, rfl⟩ := mem_mappingsOf_iff.mp member
    have recorded : (mappingAt o₁ z.1 position).Valid :=
      valid _ (mem_mappingsOf_iff.mpr ⟨z, marked, position, positioned, rfl⟩)
    exact recorded

namespace Follows

variable {o₁ : Options} {p q p' : Printer}

theorem step {s : Step} (follows : q.Follows p) (o₂ : Options) (h : p.step o₁ s = .ok p') :
    ∃ q', q.step o₂ s = .ok q' ∧ q'.Follows p' := by
  cases s with
  | layout op =>
    obtain rfl := Except.ok.inj h
    exact ⟨_, rfl, by rw [follows.writer], follows.recording⟩
  | rule r =>
    obtain ⟨next, first, rfl⟩ := startRule_eq_ok_iff.mp h
    obtain ⟨next', second, recording⟩ := startAt_follows o₂ follows.recording first
    rw [← follows.writer] at second
    exact ⟨_, startRule_eq_ok_iff.mpr ⟨next', second, rfl⟩, follows.writer, recording⟩

theorem run {steps : List Step} (follows : q.Follows p) (o₂ : Options)
    (h : p.run o₁ steps = .ok p') :
    ∃ q', q.run o₂ steps = .ok q' ∧ q'.Follows p' :=
  exists_run (R := Follows) (fun _ _ _ _ follows h => step follows o₂ h) follows h

end Follows

theorem new_follows {o₁ o₂ : Options} (compress : o₁.compress = o₂.compress)
    (unit : o₁.compress = false → o₁.unit = o₂.unit)
    (recording : o₂.wantsMap = true → o₁.wantsMap = true) :
    (Printer.new o₂).Follows (Printer.new o₁) where
  writer := by
    unfold Printer.new Writer.new
    rw [← compress]
    -- In compressed layout the indentation unit is never looked at.
    cases kept : o₁.compress with
    | true => rfl
    | false => rw [unit kept]
  recording := by rwa [isSome_map_new, isSome_map_new]

end Printer

/-! ### Printing twice -/

theorem Document.print_follows {d : Document} {o₁ o₂ : Options} {p₁ : Printed}
    (compress : o₁.compress = o₂.compress) (unit : o₁.compress = false → o₁.unit = o₂.unit)
    (recording : o₂.wantsMap = true → o₁.wantsMap = true) (h : d.print o₁ = .ok p₁) :
    ∃ p₂ body, d.print o₂ = .ok p₂ ∧
      p₁.css = body ++ o₁.trailer ∧ p₂.css = body ++ o₂.trailer := by
  unfold Document.print at h ⊢
  rw [← compress]
  cases ran : (Printer.new o₁).run o₁ (Script.nodes o₁.compress d.nodes) with
  | error e => rw [ran] at h; cases h
  | ok p =>
    rw [ran] at h
    obtain rfl := Except.ok.inj h
    obtain ⟨q, ran', follows⟩ := (Printer.new_follows compress unit recording).run o₂ ran
    rw [ran']
    exact ⟨_, p.writer.text, rfl, rfl, by rw [← follows.writer]⟩

theorem Document.isSome_map_of_print {d : Document} {options : Options} {printed : Printed}
    (h : d.print options = .ok printed) : printed.map.isSome = options.wantsMap := by
  rw [Document.print_eq_match] at h
  split at h
  · cases h
  · obtain rfl := Except.ok.inj h
    rw [Option.isSome_map, isSome_map_new]

/-- Options that agree on the layout print the same text, each with its own line behind it. A tree
that can be printed with a map can be printed without one. There is a map exactly if it was asked
for. -/
theorem Document.print_css_independent (d : Document) (o₁ o₂ : Options)
    (compress : o₁.compress = o₂.compress) (unit : o₁.compress = false → o₁.unit = o₂.unit) :
    (∀ p₁ p₂, d.print o₁ = .ok p₁ → d.print o₂ = .ok p₂ →
      ∃ body line₁ line₂, o₁.TrailedBy line₁ ∧ o₂.TrailedBy line₂ ∧
        p₁.css = body ++ line₁ ∧ p₂.css = body ++ line₂) ∧
    (o₁.AsksForMap → ¬o₂.AsksForMap →
      ∀ p₁, d.print o₁ = .ok p₁ → ∃ p₂, d.print o₂ = .ok p₂) ∧
    ∀ p₁, d.print o₁ = .ok p₁ →
      (p₁.map.isSome ↔ o₁.AsksForMap) ∧ (p₁.mapText.isSome ↔ o₁.AsksForMap) := by
  refine ⟨?_, ?_, ?_⟩
  · intro p₁ p₂ first second
    -- Either of the two may be the one that records; the other follows it.
    by_cases recording : o₂.wantsMap = true → o₁.wantsMap = true
    · obtain ⟨q, body, printed, css₁, css₂⟩ :=
        Document.print_follows compress unit recording first
      obtain rfl := Except.ok.inj (second.symm.trans printed)
      exact ⟨body, _, _, o₁.trailedBy_trailer, o₂.trailedBy_trailer, css₁, css₂⟩
    · have recording : o₁.wantsMap = true → o₂.wantsMap = true :=
        fun wanted => absurd (fun _ => wanted) recording
      obtain ⟨q, body, printed, css₂, css₁⟩ :=
        Document.print_follows compress.symm (fun kept => (unit (compress.trans kept)).symm)
          recording second
      obtain rfl := Except.ok.inj (first.symm.trans printed)
      exact ⟨body, _, _, o₁.trailedBy_trailer, o₂.trailedBy_trailer, css₁, css₂⟩
  · intro asks _ p₁ first
    obtain ⟨p₂, -, printed, -⟩ :=
      Document.print_follows compress unit (fun _ => o₁.wantsMap_iff.mpr asks) first
    exact ⟨p₂, printed⟩
  · intro p₁ first
    have present := Document.isSome_map_of_print first
    have asked := o₁.wantsMap_iff
    rw [← present] at asked
    refine ⟨asked, ?_⟩
    rw [Printed.mapText, Option.isSome_map]
    exact asked

/-- A rule in a block, with a position, and a comment. -/
def linkedSheet : Document where
  nodes := [.comment "x",
    .media "print" [.rule { selectors := ["a"], position := some (.ofStart 2 3) }]]

theorem print_css_independent_linkedSheet :
    ∃ p₁ p₂ body,
      linkedSheet.print { mapUrl := some "a.map", original := some "a.scss" } = .ok p₁ ∧
      linkedSheet.print { indent := some "  " } = .ok p₂ ∧
      p₁.css = body ++ "\n/*# sourceMappingURL=a.map */" ∧ p₂.css = body ∧
      p₁.map.isSome ∧ ¬p₂.map.isSome := by
  obtain ⟨same, without, present⟩ := Document.print_css_independent linkedSheet
    { mapUrl := some "a.map", original := some "a.scss" } { indent := some "  " } rfl
    (fun _ => by decide)
  obtain ⟨-, -, present'⟩ := Document.print_css_independent linkedSheet
    { indent := some "  " } { mapUrl := some "a.map", original := some "a.scss" } rfl
    (fun _ => by decide)
  have asks : Options.AsksForMap { mapUrl := some "a.map", original := some "a.scss" } :=
    Or.inr ⟨"a.map", rfl, by decide⟩
  have silent : ¬Options.AsksForMap { indent := some "  " } := by
    rintro (set | ⟨url, given, -⟩)
    · cases set
    · cases given
  have first : linkedSheet.print { mapUrl := some "a.map", original := some "a.scss" } =
      .ok ⟨_, _⟩ := (Document.print_eq_ok_iff rfl).mpr ⟨by decide, by decide, rfl, rfl⟩
  obtain ⟨p₂, second⟩ := without asks silent _ first
  obtain ⟨body, line₁, line₂, trailed₁, trailed₂, css₁, css₂⟩ := same _ _ first second
  refine ⟨_, p₂, body, first, second, ?_, ?_, (present _ first).1.mpr asks,
    fun some => silent ((present' _ second).1.mp some)⟩
  · cases trailed₁ with
    | link given filled =>
      obtain rfl := Option.some.inj given
      exact css₁
    | nothing absent => exact absurd (absent "a.map" rfl) (by decide)
  · cases trailed₂ with
    | link given filled => cases given
    | nothing absent => rw [css₂, String.append_empty]

end CssPrinter
