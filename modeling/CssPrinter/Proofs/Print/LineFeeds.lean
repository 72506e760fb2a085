import CssPrinter.Proofs.Print.Places

/-!
# Line feeds that are not counted

The line of a cursor counts the line breaks of the layout and the line feeds in comments. Line feeds
in any other text, and in an indentation unit, are written without being counted. So the line that a
map gives for a rule falls short of the true one by exactly the line feeds of this kind before the
rule (`Document.print_line_shortfall`).
-/

namespace CssPrinter

/-! ### Counted and missed -/

/-- The line feeds of a fragment that the cursor does not count. -/
def Fragment.missed : Fragment → Nat
  | .lead s => lineFeeds s
  | .text s => lineFeeds s
  | _ => 0

def missedFeeds : List Fragment → Nat
  | [] => 0
  | f :: fs => f.missed + missedFeeds fs

theorem Fragment.lineFeeds_written (f : Fragment) : lineFeeds f.written = f.feeds + f.missed := by
  have opening : lineFeeds "/*" = 0 := by decide
  have closing : lineFeeds "*/\n" = 1 := by decide
  cases f with
  | lead s | text s => simp [written, feeds, missed]
  | comment s => simp [written, feeds, missed, opening, closing]
  | lineBreak => decide
  | mark r => simp [written, feeds, missed]

theorem lineFeeds_rendered (fs : List Fragment) :
    lineFeeds (rendered fs) = countedFeeds fs + missedFeeds fs := by
  induction fs with
  | nil => simp [rendered, countedFeeds, missedFeeds]
  | cons f fs ih =>
    rw [rendered, lineFeeds_append, f.lineFeeds_written, ih, countedFeeds, missedFeeds]
    omega

theorem Fragment.missed_eq_zero_iff (f : Fragment) : f.missed = 0 ↔ f.Flat := by
  cases f with
  | lead s | text s => exact List.count_eq_zero
  | comment s | lineBreak | mark r => exact ⟨fun _ => trivial, fun _ => rfl⟩

theorem missedFeeds_eq_zero_iff (fs : List Fragment) : missedFeeds fs = 0 ↔ AllFlat fs := by
  induction fs with
  | nil => simp [missedFeeds]
  | cons f fs ih =>
    rw [missedFeeds, Nat.add_eq_zero_iff, f.missed_eq_zero_iff, ih, allFlat_cons]

/-! ### The line of a rule -/

theorem Document.token_of_split {d : Document} {options : Options} {printed : Printed} {k : Nat}
    {r : Rule} {before after : List Fragment} (wanted : options.wantsMap = true)
    (h : d.print options = .ok printed)
    (split : d.fragments options = before ++ .mark r :: after)
    (positioned : r.position.isSome = true)
    (index : ((markedRules before).filter (·.position.isSome)).length = k) :
    ∃ map token s more tail, printed.map = some map ∧ map.tokens[k]? = some token ∧
      r.selectors = s :: more ∧ after = .text s :: tail ∧
      RuleStart options d k r before after ∧ token.line = countedFeeds before := by
  obtain ⟨ran, -⟩ := Document.print_eq_ok h
  obtain ⟨map, mapped, said⟩ := Document.entries_of_print wanted h
  obtain ⟨position, positioned⟩ := Option.isSome_iff_exists.mp positioned
  have among : r ∈ d.rules := by
    rw [← markedRules_fragments d options, split]
    simp
  obtain ⟨s, more, tail, head, follows, start⟩ :=
    ruleStart_of_split ran (d.selectors_of_print h r among) split index
  obtain ⟨token, found, resolved⟩ :=
    SourceMap.exists_token said (entry_of_split split positioned index)
  obtain ⟨-, -, line, -, -, -⟩ := SourceMap.entryOf_eq_some_iff.mp resolved
  refine ⟨map, token, s, more, tail, mapped, found, head, follows, start, ?_⟩
  have counted : (Place.start.afterAll before).line = 1 + countedFeeds before :=
    Place.line_afterAll Place.start before
  rw [line]
  show (Place.start.afterAll before).line - 1 = _
  omega

/-- The line that a map gives for a rule, and the line feeds that were missed before it, make up the
true line. So the map is right exactly if no text before the rule but comments, and no indentation,
has a line feed. -/
theorem Document.print_line_shortfall (d : Document) (options : Options) (printed : Printed)
    (wanted : options.wantsMap = true) (h : d.print options = .ok printed) :
    ∀ k r, d.positionedRules[k]? = some r →
      ∃ map s more token before after,
        printed.map = some map ∧ map.tokens[k]? = some token ∧ r.selectors = s :: more ∧
        RuleStart options d k r before (.text s :: after) ∧
        printed.css = rendered before ++ s ++ (rendered after ++ options.trailer) ∧
        token.line + missedFeeds before = lineFeeds (rendered before) ∧
        (token.line = lineFeeds (rendered before) ↔ AllFlat before) := by
  intro k r present
  obtain ⟨-, placed⟩ := List.mem_filter.mp (List.mem_of_getElem? present)
  rw [Document.positionedRules, ← markedRules_fragments d options] at present
  obtain ⟨before, after, split, index⟩ := exists_split_of_getElem? present
  obtain ⟨map, token, s, more, tail, mapped, found, head, rfl, start, line⟩ :=
    Document.token_of_split wanted h split placed index
  have sum := lineFeeds_rendered before
  refine ⟨map, s, more, token, before, tail, mapped, found, head, start, ?_, ?_, ?_⟩
  · rw [(Document.print_eq_ok h).2, split]
    simp [rendered, Fragment.written, String.append_assoc]
  · omega
  · rw [← missedFeeds_eq_zero_iff]
    omega

/-- A block whose query has two lines, with a rule in it. -/
def wrappedSheet : Document where
  nodes := [.media "print,\nscreen"
    [.rule { selectors := ["a"], position := some (.ofStart 2 3) }]]

/-- The map puts the rule on the first line: all line feeds before it were missed. -/
theorem print_line_shortfall_wrappedSheet :
    ∃ printed map token before after,
      wrappedSheet.print { map := true, compress := true } = .ok printed ∧
      printed.map = some map ∧ map.tokens[0]? = some token ∧
      printed.css = rendered before ++ "a" ++ after ∧ token.line = 0 ∧
      missedFeeds before = lineFeeds (rendered before) := by
  have h : wrappedSheet.print { map := true, compress := true } = .ok ⟨_, _⟩ :=
    (Document.print_eq_ok_iff rfl).mpr ⟨by decide, by decide, rfl, rfl⟩
  obtain ⟨map, s, more, token, before, after, mapped, found, selectors, -, css, sum, -⟩ :=
    Document.print_line_shortfall wrappedSheet _ _ rfl h 0 _ rfl
  obtain ⟨rfl, -⟩ := List.cons.inj selectors
  have first : token.line = 0 := by
    obtain rfl := Option.some.inj mapped
    obtain rfl := Option.some.inj found
    rfl
  exact ⟨_, map, token, before, _, h, mapped, found, css, first, by omega⟩

/-- A rule whose value has two lines, and a rule with a position behind it. -/
def multilineSheet : Document where
  nodes := [
    .rule { selectors := ["a"], declarations := [.property { name := "p", value := "x\ny" }] },
    .rule { selectors := ["b"], position := some (.ofStart 1 1) }]

/-- Five line feeds stand before the second rule, and the map gives it line four. -/
theorem print_multilineSheet_line_ne :
    ∃ printed map token before after,
      multilineSheet.print { map := true } = .ok printed ∧
      printed.map = some map ∧ map.tokens[0]? = some token ∧
      RuleStart { map := true } multilineSheet 0
        { selectors := ["b"], position := some (.ofStart 1 1) } before (.text "b" :: after) ∧
      rendered before = "a \x7b\n  p: x\ny\n\x7d\n\n" ∧
      token.line = 4 ∧ lineFeeds (rendered before) = 5 := by
  have h : multilineSheet.print { map := true } = .ok ⟨_, _⟩ :=
    (Document.print_eq_ok_iff rfl).mpr ⟨by decide, by decide, rfl, rfl⟩
  have split : multilineSheet.fragments { map := true } =
      (multilineSheet.fragments { map := true }).take 16 ++
        .mark { selectors := ["b"], position := some (.ofStart 1 1) } ::
          (multilineSheet.fragments { map := true }).drop 17 := rfl
  obtain ⟨map, token, s, more, tail, mapped, found, selectors, follows, start, line⟩ :=
    Document.token_of_split rfl h split rfl rfl
  obtain ⟨rfl, -⟩ := List.cons.inj selectors
  rw [follows] at start
  refine ⟨_, map, token, _, tail, h, mapped, found, start, by decide, ?_, by decide⟩
  rw [line]
  decide

end CssPrinter
