import CssPrinter.Proofs.Print.Indentation
import CssPrinter.Proofs.Print.Siblings
import CssPrinter.Proofs.Print.Whitespace
import CssPrinter.Proofs.Print.Wrapping

/-!
# Laws of printing in machine words

The laws of failing, of siblings, of compressing and of indentation hold as long as nothing is
counted that is no word (`Document.Countable`). Each of them ends there: behind a text that fills a
line up to the last word a rule seems to start at column zero, and a large unit leads back to column
one.
-/

namespace CssPrinter

/-! ### Texts of a given width -/

theorem utf16Width_replicate (n : Nat) :
    utf16Width (String.ofList (List.replicate n 'x')) = n := by
  rw [utf16Width, String.toList_ofList]
  induction n with
  | zero => rfl
  | succ n ih =>
    rw [List.replicate_succ, unitCount, ih, Nat.add_comm]
    rfl

/-- With what stands around it in an import, this text fills all columns that are words. -/
noncomputable def longText : String := String.ofList (List.replicate 4294967286 'x')

/-- Twice as wide as this unit is one more than the last word. -/
noncomputable def wideUnit : String := String.ofList (List.replicate 2147483648 'x')

def plainRule : Rule where
  selectors := ["a"]
  position := some (.ofStart 1 1)

theorem plainRule_sound (recording : Bool) : ¬plainRule.Faulty recording := by
  rintro (bare | ⟨-, p, position, zero⟩)
  · cases bare
  · obtain rfl := Option.some.inj position
    revert zero
    decide

/-- An import, and a rule behind it. -/
def importFirst (text : String) : Document where
  nodes := [.imports text] ++ [.rule plainRule]

theorem sound_importFirst (text : String) (recording : Bool) :
    ∀ r ∈ (importFirst text).rules, ¬r.Faulty recording := by
  have rules : (importFirst text).rules = [plainRule] := rfl
  rw [rules]
  simpa using plainRule_sound recording

def withMap : Options where
  map := true

def compressedMap : Options := { withMap with compress := true }

theorem levelsSmall_importFirst (text : String) (options : Options) :
    (importFirst text).LevelsSmall options := by
  have same : levels 1 (Script.nodes options.compress (importFirst text).nodes) =
      [1, 1, 1, 1, 1, 1, 2, 1] := rfl
  unfold Document.LevelsSmall
  rw [same]
  decide

theorem marks_importFirst (text : String) :
    marks Place.start ((importFirst text).fragments compressedMap) =
      [(⟨1, utf16Width text + 10⟩, plainRule)] := by
  have place : marks Place.start ((importFirst text).fragments compressedMap) =
      [(⟨1, 1 + utf16Width "" + utf16Width ("@import " ++ text ++ ";") + utf16Width ""⟩,
        plainRule)] := rfl
  have front : utf16Width "@import " = 8 := by decide
  have back : utf16Width ";" = 1 := by decide
  rw [place, utf16Width_append, utf16Width_append, utf16Width_empty, front, back]
  congr 3
  omega

/-- Behind the long text a rule seems to start at column zero. -/
theorem print32_importFirst {text : String} (long : utf16Width text = 4294967286) :
    (importFirst text).print32 compressedMap = .error (.invalidPosition ⟨⟨1, 0⟩⟩) := by
  rw [Document.print32_eq (levelsSmall_importFirst text compressedMap), marks_importFirst, long]
  rfl

/-! ### Failing -/

/-- As long as all counts are words, printing fails exactly if a rule is faulty, with what the first
faulty rule reports. So it never fails for the place that a rule is written at, and it looks at
nothing but the checks. -/
theorem Document.print32_failure (d : Document) (options : Options)
    (countable : d.Countable options) :
    ((∃ e, d.print32 options = .error e) ↔ ∃ r ∈ d.rules, r.Faulty options.wantsMap) ∧
      (∀ e, d.print32 options = .error e ↔
        ∃ before r after, d.rules = before ++ r :: after ∧
          (∀ q ∈ before, ¬q.Faulty options.wantsMap) ∧ r.Faulty options.wantsMap ∧ r.Reports e) ∧
      ∀ other : Document, other.Countable options →
        other.rules.map Rule.check = d.rules.map Rule.check →
        ∀ e, other.print32 options = .error e ↔ d.print32 options = .error e := by
  obtain ⟨fails, reports, -, checks⟩ := d.print_failure options
  rw [countable.print32_eq_print]
  refine ⟨fails, reports, fun other countable' same e => ?_⟩
  rw [countable'.print32_eq_print]
  exact checks other same e

/-- Two faulty rules behind a sound one. -/
def faultySheet : Document where
  nodes := [.rule plainRule,
    .media "print" [.rule { selectors := ["b"], position := some (.ofStart 0 7) },
      .rule { selectors := [] }]]

theorem print32_failure_faultySheet :
    faultySheet.print32 withMap = .error (.invalidPosition ⟨⟨0, 7⟩⟩) ∧
      faultySheet.print32 {} = .error .emptySelectors := by
  have countable (options : Options) (given : options = withMap ∨ options = {}) :
      faultySheet.Countable options := by
    rcases given with rfl | rfl <;>
      exact Document.countable_of_small (by decide) (by decide +kernel)
  have rules : faultySheet.rules = [plainRule,
    { selectors := ["b"], position := some (.ofStart 0 7) }, { selectors := [] }] := rfl
  constructor
  · obtain ⟨-, reports, -⟩ := faultySheet.print32_failure withMap (countable _ (Or.inl rfl))
    refine (reports _).mpr ⟨[plainRule], _, _, rules, ?_, ?_, ?_⟩
    · simpa using plainRule_sound _
    · exact Or.inr ⟨rfl, _, rfl, Or.inl rfl⟩
    · exact Or.inr ⟨by simp, _, rfl, rfl⟩
  · obtain ⟨-, reports, -⟩ := faultySheet.print32_failure {} (countable _ (Or.inr rfl))
    refine (reports _).mpr ⟨[plainRule, _], _, [], rules, ?_, Or.inl rfl, Or.inl ⟨rfl, rfl⟩⟩
    intro q member
    simp only [List.mem_cons, List.not_mem_nil, or_false] at member
    rcases member with rfl | rfl
    · exact plainRule_sound _
    · rintro (bare | ⟨recording, -⟩)
      · cases bare
      · cases recording

/-- No rule is faulty, and printing fails all the same, for the place that a rule is written at. -/
theorem print32_importFirst_fails :
    (∀ r ∈ (importFirst longText).rules, ¬r.Faulty true) ∧
      (importFirst longText).print32 compressedMap = .error (.invalidPosition ⟨⟨1, 0⟩⟩) :=
  ⟨sound_importFirst longText true, print32_importFirst (utf16Width_replicate 4294967286)⟩

/-! ### Siblings -/

theorem Script.separated_append {s t : List (List Step)} (first : s ≠ []) (second : t ≠ []) :
    separated (s ++ t) = separated s ++ newline :: separated t := by
  induction s with
  | nil => exact absurd rfl first
  | cons x s ih =>
    cases s with
    | nil =>
      obtain ⟨y, t, rfl⟩ := List.exists_cons_of_ne_nil second
      rfl
    | cons y s =>
      have later := ih (List.cons_ne_nil _ _)
      show x ++ newline :: separated (y :: s ++ t) = x ++ newline :: separated (y :: s) ++ _
      rw [later, List.append_assoc, List.cons_append]

theorem Script.nodes_append (compress : Bool) {xs ys : List Node} (hx : xs ≠ []) (hy : ys ≠ []) :
    nodes compress (xs ++ ys) = nodes compress xs ++ newline :: nodes compress ys := by
  have map (ns : List Node) : scripts compress ns = ns.map (node compress) := by
    induction ns with
    | nil => rfl
    | cons n ns ih => rw [scripts, ih, List.map_cons]
  unfold nodes
  rw [map, map, map, List.map_append]
  exact separated_append (by simpa using hx) (by simpa using hy)

namespace Document.Countable

variable {options : Options} {xs ys : List Node} (hx : xs ≠ []) (hy : ys ≠ [])
  (countable : (Document.mk (xs ++ ys)).Countable options)

include hx hy countable

theorem levels_parts :
    (Document.mk xs).LevelsSmall options ∧ (Document.mk ys).LevelsSmall options := by
  have written : Writes options.style 0 (Script.nodes options.compress xs) _ 0 := writes_nodes 0 xs
  have small := countable.levels
  unfold LevelsSmall at small
  rw [Script.nodes_append _ hx hy, levels_append, written.level, List.forall_mem_append] at small
  exact ⟨small.1, (List.forall_mem_cons.mp small.2).2⟩

theorem first : (Document.mk xs).Countable options where
  levels := (countable.levels_parts hx hy).1
  places wanted before x after split sound := by
    have behind := marks_fragments_append options hx hy
    rw [split, List.append_assoc, List.cons_append] at behind
    exact countable.places wanted before x _ behind sound

/-- Behind siblings that are sound the others stand at larger places than alone. -/
theorem second_moved (wanted : options.wantsMap = true)
    (passed : ∀ r ∈ (Document.mk xs).rules, ¬r.Faulty true) {before after : List (Place × Rule)}
    {x : Place × Rule}
    (split : marks Place.start ((Document.mk ys).fragments options) = before ++ x :: after)
    (sound : ∀ y ∈ before, ¬y.2.Faulty true) (positioned : x.2.position.isSome) :
    (x.1.moved ((Document.mk xs).advance options).1
      ((Document.mk xs).advance options).2).Small := by
  have behind := marks_fragments_append options hx hy
  rw [split, List.map_append, List.map_cons, ← List.append_assoc] at behind
  refine countable.places wanted _ _ _ behind ?_ positioned
  refine List.forall_mem_append.mpr ⟨fun y member => ?_, fun y member => ?_⟩
  · refine passed y.2 ?_
    rw [← map_snd_marks_fragments _ options Place.start]
    exact List.mem_map_of_mem member
  · obtain ⟨z, among, rfl⟩ := List.mem_map.mp member
    exact sound z among

theorem second (passed : options.wantsMap = true → ∀ r ∈ (Document.mk xs).rules, ¬r.Faulty true) :
    (Document.mk ys).Countable options where
  levels := (countable.levels_parts hx hy).2
  places wanted before x after split sound positioned := by
    obtain ⟨line, column⟩ :=
      countable.second_moved hx hy wanted (passed wanted) split sound positioned
    exact ⟨Nat.lt_of_le_of_lt (Nat.le_add_right _ _) line,
      Nat.lt_of_le_of_lt (Nat.le_add_right _ _) column⟩

/-- If there are tokens behind the siblings, their line is still counted. -/
theorem line_small {n : SourceMap} {b : Printed} {t : MapEntry} (kept : options.compress = false)
    (wanted : options.wantsMap = true) (passed : ∀ r ∈ (Document.mk xs).rules, ¬r.Faulty true)
    (h : (Document.mk ys).print options = .ok b) (mapped : b.map = some n)
    (token : t ∈ n.shownTokens) :
    (Place.start.afterAll ((Document.mk xs).fragments options)).line < UInt32.size := by
  obtain ⟨map, mapB, tokens⟩ := Document.shownTokens_of_print wanted h
  obtain rfl := Option.some.inj (mapped.symm.trans mapB)
  rw [tokens, List.map_map] at token
  obtain ⟨m, recorded, -⟩ := List.mem_map.mp token
  obtain ⟨x, marked, p, position, -⟩ := mem_mappingsOf_iff.mp recorded
  obtain ⟨before, after, split⟩ := List.append_of_mem marked
  have sound : ∀ y ∈ before, ¬y.2.Faulty true := by
    intro y member
    have rules := Document.exists_print_iff.mp ⟨b, h⟩
    rw [wanted, ← map_snd_marks_fragments _ options Place.start, split] at rules
    exact rules y.2 (List.mem_map_of_mem (List.mem_append_left _ member))
  have small := countable.second_moved hx hy wanted passed split sound (by rw [position]; rfl)
  have line : ((Document.mk xs).advance options).1 =
      (Place.start.afterAll ((Document.mk xs).fragments options)).line := by
    unfold Document.advance
    rw [if_neg (by rw [kept]; exact Bool.false_ne_true)]
  rw [← line]
  exact Nat.lt_of_le_of_lt (Nat.le_add_left _ _) small.1

end Document.Countable

/-- As long as all counts are words, sibling nodes print one after another, with a line break
between them unless the text is compressed, and all of them can be printed if both parts can. The
tokens of the second part are moved, by the line that the writer is on behind the first part or by
the width of its text. -/
theorem Document.print32_append (options : Options) (xs ys : List Node) (hx : xs ≠ [])
    (hy : ys ≠ []) (plain : nonEmpty options.mapUrl = none)
    (countable : (Document.mk (xs ++ ys)).Countable options) :
    ((∃ printed, (Document.mk (xs ++ ys)).print32 options = .ok printed) ↔
      (∃ a, (Document.mk xs).print32 options = .ok a) ∧
        ∃ b, (Document.mk ys).print32 options = .ok b) ∧
    ∀ a b printed, (Document.mk xs).print32 options = .ok a →
      (Document.mk ys).print32 options = .ok b →
      (Document.mk (xs ++ ys)).print32 options = .ok printed →
      printed.css = (if options.compress then a.css ++ b.css else a.css ++ "\n" ++ b.css) ∧
      (options.wantsMap = true → ∃ p m n map,
        (Printer32.new options).run options (Script.nodes options.compress xs) = .ok p ∧
        a.map = some m ∧ b.map = some n ∧ printed.map = some map ∧
        map.shownTokens = m.shownTokens ++ n.shownTokens.map fun t =>
          if options.compress then { t with column := t.column + utf16Width a.css }
          else { t with line := t.line + p.writer.line.toNat }) := by
  have first := countable.first hx hy
  -- Behind siblings that cannot be printed, the places of the others may be anything.
  have second {a : Printed} (ha : (Document.mk xs).print options = .ok a) :
      (Document.mk ys).Countable options :=
    countable.second hx hy fun wanted => wanted ▸ Document.exists_print_iff.mp ⟨a, ha⟩
  obtain ⟨succeeds, parts⟩ := Document.print_append options xs ys hx hy plain
  rw [countable.print32_eq_print, first.print32_eq_print]
  constructor
  · rw [succeeds]
    refine and_congr_right fun ⟨a, ha⟩ => ?_
    rw [(second ha).print32_eq_print]
  intro a b printed ha hb h
  rw [(second ha).print32_eq_print] at hb
  obtain ⟨css, tokens⟩ := parts a b printed ha hb h
  refine ⟨css, fun wanted => ?_⟩
  obtain ⟨p, m, n, map, ran, mapA, mapB, mapped, moved⟩ := tokens wanted
  have ran32 := Document.run32_of_print32 first.levels (first.print32_eq_print.trans ha)
  refine ⟨_, m, n, map, ran32, mapA, mapB, mapped, ?_⟩
  rw [moved]
  refine congrArg _ (List.map_congr_left fun t token => ?_)
  cases kept : options.compress with
  | true => rfl
  | false =>
    have passed : ∀ r ∈ (Document.mk xs).rules, ¬r.Faulty true :=
      wanted ▸ Document.exists_print_iff.mp ⟨a, ha⟩
    have small := countable.line_small hx hy kept wanted passed hb mapB token
    obtain rfl := Except.ok.inj (ran.symm.trans (Document.run_of_print ha))
    exact congrArg (fun line => { t with line := t.line + line })
      (UInt32.toNat_ofNat_of_lt' small).symm

/-- A rule, and an import, which ends no line. -/
def importingNodes : List Node :=
  [.rule { selectors := ["a"], position := some (.ofStart 3 4) }, .imports "'b.css'"]

/-- A rule in a block, behind a comment of two lines. -/
def nestingNodes : List Node :=
  [.comment "c\nd",
    .media "print" [.rule { selectors := ["e"], position := some (.ofStart 5 6) }]]

def rootedMap : Options where
  map := true
  rootUrl := some "r/"

theorem print32_append_nodes :
    ∃ a b printed p m n map,
      (Document.mk importingNodes).print32 rootedMap = .ok a ∧
      (Document.mk nestingNodes).print32 rootedMap = .ok b ∧
      (Document.mk (importingNodes ++ nestingNodes)).print32 rootedMap = .ok printed ∧
      (Printer32.new rootedMap).run rootedMap (Script.nodes false importingNodes) = .ok p ∧
      printed.css = a.css ++ "\n" ++ b.css ∧
      a.map = some m ∧ b.map = some n ∧ printed.map = some map ∧
      map.shownTokens = m.shownTokens ++ n.shownTokens.map fun t =>
        { t with line := t.line + p.writer.line.toNat } := by
  have countable (ns : List Node)
      (given : ns ∈ [importingNodes, nestingNodes, importingNodes ++ nestingNodes]) :
      (Document.mk ns).Countable rootedMap := by
    simp only [List.mem_cons, List.not_mem_nil, or_false] at given
    rcases given with rfl | rfl | rfl <;>
      exact Document.countable_of_small (by decide) (by decide +kernel)
  have ha : (Document.mk importingNodes).print32 rootedMap = .ok ⟨_, _⟩ :=
    (countable _ (by simp)).print32_eq_print.trans
      ((Document.print_eq_ok_iff rfl).mpr ⟨by decide, by decide, rfl, rfl⟩)
  have hb : (Document.mk nestingNodes).print32 rootedMap = .ok ⟨_, _⟩ :=
    (countable _ (by simp)).print32_eq_print.trans
      ((Document.print_eq_ok_iff rfl).mpr ⟨by decide, by decide, rfl, rfl⟩)
  obtain ⟨succeeds, parts⟩ := Document.print32_append rootedMap importingNodes nestingNodes
    (by decide) (by decide) rfl (countable _ (by simp))
  obtain ⟨printed, h⟩ := succeeds.mpr ⟨⟨_, ha⟩, _, hb⟩
  obtain ⟨css, tokens⟩ := parts _ _ printed ha hb h
  obtain ⟨p, m, n, map, ran, mapA, mapB, mapped, moved⟩ := tokens rfl
  exact ⟨_, _, printed, p, m, n, map, ha, hb, h, ran, css, mapA, mapB, mapped, moved⟩

theorem print32_import (text : String) :
    ∃ printed, (Document.mk [.imports text]).print32 compressedMap = .ok printed := ⟨_, rfl⟩

theorem print32_plainRule :
    ∃ printed, (Document.mk [.rule plainRule]).print32 compressedMap = .ok printed := by
  have countable : (Document.mk [.rule plainRule]).Countable compressedMap :=
    Document.countable_of_small (by decide) (by decide +kernel)
  rw [countable.print32_eq_print, Document.exists_print_iff]
  have rules : (Document.mk [.rule plainRule]).rules = [plainRule] := rfl
  rw [rules]
  simpa using plainRule_sound _

/-- Two parts that can be printed, and their siblings cannot. -/
theorem print32_siblings_fail :
    (∃ a, (Document.mk [.imports longText]).print32 compressedMap = .ok a) ∧
      (∃ b, (Document.mk [.rule plainRule]).print32 compressedMap = .ok b) ∧
      ¬∃ printed,
        (Document.mk ([.imports longText] ++ [.rule plainRule])).print32 compressedMap =
          .ok printed := by
  refine ⟨print32_import longText, print32_plainRule, fun ⟨printed, h⟩ => ?_⟩
  have failed := print32_importFirst (utf16Width_replicate 4294967286)
  cases h.symm.trans failed

/-! ### Compressing -/

/-- As long as all counts are words, a document without comments is printed with and without
compression, or fails with the same error in both cases. The two texts differ in whitespace only, if
indentation is whitespace. -/
theorem Document.print32_compress_ink (d : Document) (options : Options) (free : d.CommentFree)
    (blank : ∀ c ∈ options.unit.toList, c = ' ' ∨ c = '\t' ∨ c = '\r' ∨ c = '\n')
    (countable : ∀ compress, d.Countable { options with compress }) :
    (∃ e, d.print32 { options with compress := false } = .error e ∧
      d.print32 { options with compress := true } = .error e) ∨
    ∃ pretty compressed, d.print32 { options with compress := false } = .ok pretty ∧
      d.print32 { options with compress := true } = .ok compressed ∧
      ink pretty.css.toList = ink compressed.css.toList := by
  rw [(countable false).print32_eq_print, (countable true).print32_eq_print]
  exact d.print_compress_ink options free blank

/-- Every kind of node but comments, with blanks inside texts and selectors in a block. -/
def spacedSheet : Document where
  nodes := [
    .charset "\"utf-8\"", .imports "url( a.css )",
    .keyframes ⟨"k", some "-o-", [⟨["from", "50%"], [.property ⟨"top", "0  auto", none⟩]⟩]⟩,
    .media "print and\n(x: 1)" [
      .imports "'b'",
      .rule ⟨["a  b", "c"], [.property ⟨"p", "1", none⟩, .property ⟨"q", "2", none⟩],
        some (.ofStart 2 3)⟩]]

theorem print32_compress_ink_spacedSheet :
    ∃ pretty compressed,
      spacedSheet.print32 { indent := some "\t\r\n", map := true } = .ok pretty ∧
      spacedSheet.print32 { indent := some "\t\r\n", map := true, compress := true } =
        .ok compressed ∧
      ink pretty.css.toList = ink compressed.css.toList := by
  have countable (compress : Bool) :
      spacedSheet.Countable { indent := some "\t\r\n", map := true, compress } := by
    cases compress <;> exact Document.countable_of_small (by decide) (by decide +kernel)
  have printed : spacedSheet.print32 { indent := some "\t\r\n", map := true } = .ok ⟨_, _⟩ :=
    (countable false).print32_eq_print.trans
      ((Document.print_eq_ok_iff rfl).mpr ⟨by decide, by decide, rfl, rfl⟩)
  have blank : ∀ c ∈ "\t\r\n".toList, c = ' ' ∨ c = '\t' ∨ c = '\r' ∨ c = '\n' := by simp
  rcases Document.print32_compress_ink spacedSheet { indent := some "\t\r\n", map := true }
    (by decide) blank countable with ⟨e, failed, -⟩ | ⟨pretty, compressed, first, second, same⟩
  · have clash := printed.symm.trans failed
    cases clash
  · exact ⟨pretty, compressed, first, second, same⟩

theorem commentFree_importFirst (text : String) : (importFirst text).CommentFree := by
  have nodes : (importFirst text).allNodes = [.imports text, .rule plainRule] := rfl
  unfold Document.CommentFree
  rw [nodes]
  simp [Node.CommentFree, Node.isComment, Node.ownBlocks, plainRule]

theorem print32_importFirst_pretty (text : String) :
    ∃ printed, (importFirst text).print32 withMap = .ok printed := by
  have marked : marks Place.start ((importFirst text).fragments withMap) =
      [(⟨2, 1⟩, plainRule)] := rfl
  have countable : (importFirst text).Countable withMap := by
    refine Document.countable_of_small (levelsSmall_importFirst text withMap) ?_
    rw [marked]
    decide
  rw [countable.print32_eq_print, Document.exists_print_iff]
  exact sound_importFirst text _

/-- A line break leads back to column one, so only the compressed text fails. -/
theorem print32_importFirst_compressed_fails :
    (importFirst longText).CommentFree ∧ withMap.unit = "  " ∧
      (∃ pretty, (importFirst longText).print32 { withMap with compress := false } = .ok pretty) ∧
      ∃ e, (importFirst longText).print32 { withMap with compress := true } = .error e :=
  ⟨commentFree_importFirst longText, rfl, print32_importFirst_pretty longText, _,
    print32_importFirst (utf16Width_replicate 4294967286)⟩

/-! ### Indentation -/

theorem Document.print32_indent_of_compress (d : Document) {options : Options}
    (compress : options.compress = true) (indent : Option String) :
    d.print32 { options with indent } = d.print32 options := by
  have start : Printer32.new { options with indent } = Printer32.new options := by
    simp [Printer32.new, Writer32.new, compress, Options.wantsMap]
  unfold Document.print32
  rw [start]
  rfl

/-- As long as all counts are words, in pretty layout the entry of a rule stands behind one
indentation unit for each media block around the rule, and another unit changes nothing in the map
but these columns. In compressed layout the unit changes nothing at all. -/
theorem Document.print32_indentation (d : Document) (options : Options) (unit : String)
    (indents : options.IndentsBy unit) :
    d.nestedPositions.map Prod.snd = d.positions ∧
    (options.compress = false → options.wantsMap = true → d.Countable options →
      ∀ printed, d.print32 options = .ok printed →
        ∃ map entries, printed.map = some map ∧ map.entries = some entries ∧
          entries.map (fun e => (e.column, e.origin)) = d.nestedPositions.map (fun x =>
            (x.1 * utf16Width unit, x.2.origin options.original)) ∧
          ∀ indent, d.Countable { options with indent } →
            ∃ reprinted map', d.print32 { options with indent } = .ok reprinted ∧
              reprinted.map = some map' ∧ map'.withoutColumns = map.withoutColumns) ∧
    (options.compress = true →
      ∀ indent, d.print32 { options with indent } = d.print32 options) := by
  obtain ⟨positions, pretty, -⟩ := d.print_indentation options unit indents
  refine ⟨positions, ?_, fun compress => d.print32_indent_of_compress compress⟩
  intro kept wanted countable printed h
  rw [countable.print32_eq_print] at h
  obtain ⟨map, entries, mapped, said, columns, others⟩ := pretty kept wanted printed h
  refine ⟨map, entries, mapped, said, columns, fun indent countable' => ?_⟩
  rw [countable'.print32_eq_print]
  exact others indent

/-- Rules first in a block, behind an import, behind a comment and behind a block. -/
def stackedSheet : Document where
  nodes := [
    .imports "a",
    .rule { selectors := ["a", "b"], position := some (.ofStart 1 1) },
    .media "print" [
      .media "screen" [.rule { selectors := ["c"], position := some (.ofStart 2 5) }],
      .comment "x\ny",
      .rule { selectors := ["d"], position := some (.ofStart 4 3) },
      .rule { selectors := ["e"] }]]

theorem print32_indentation_stackedSheet :
    (∃ printed map entries reprinted map',
      stackedSheet.print32 { indent := some "\t😀", map := true } = .ok printed ∧
      printed.map = some map ∧ map.entries = some entries ∧
      entries.map (·.column) = [0, 6, 3] ∧
      stackedSheet.print32 { map := true } = .ok reprinted ∧
      reprinted.map = some map' ∧ map'.withoutColumns = map.withoutColumns) ∧
    stackedSheet.print32 { compress := true, indent := some "\t😀", map := true } =
      stackedSheet.print32 { compress := true, map := true } := by
  have countable (indent : Option String) (given : indent = some "\t😀" ∨ indent = none) :
      stackedSheet.Countable { indent, map := true } := by
    rcases given with rfl | rfl <;>
      exact Document.countable_of_small (by decide) (by decide +kernel)
  have h : stackedSheet.print32 { indent := some "\t😀", map := true } = .ok ⟨_, _⟩ :=
    (countable _ (Or.inl rfl)).print32_eq_print.trans
      ((Document.print_eq_ok_iff rfl).mpr ⟨by decide, by decide, rfl, rfl⟩)
  obtain ⟨-, pretty, -⟩ := Document.print32_indentation stackedSheet
    { indent := some "\t😀", map := true } "\t😀" (.given rfl (by decide))
  obtain ⟨-, -, compressed⟩ := Document.print32_indentation stackedSheet
    { compress := true, map := true } "  " (.spaces fun _ given => nomatch given)
  obtain ⟨map, entries, mapped, said, columns, others⟩ :=
    pretty rfl rfl (countable _ (Or.inl rfl)) _ h
  obtain ⟨reprinted, map', again, remapped, same⟩ := others none (countable _ (Or.inr rfl))
  refine ⟨⟨_, map, entries, reprinted, map', h, mapped, said, ?_, again, remapped, same⟩,
    compressed rfl _⟩
  have firsts := congrArg (List.map Prod.fst) columns
  rw [List.map_map, List.map_map] at firsts
  exact firsts.trans (by decide)

/-- A rule in two blocks. -/
def nestedRule : Document where
  nodes := [.media "q" [.media "q" [.rule plainRule]]]

def indentedBy (unit : String) : Options := { withMap with indent := some unit }

theorem indentsBy_indentedBy {unit : String} (wide : utf16Width unit ≠ 0) :
    (indentedBy unit).IndentsBy unit :=
  .given rfl fun empty => wide (by rw [empty, utf16Width_empty])

/-- The place behind two units is recorded as if no unit stood before it. -/
theorem print32_nestedRule {unit : String} (wide : utf16Width unit = 2147483648) :
    ∃ printed map entries, nestedRule.print32 (indentedBy unit) = .ok printed ∧
      printed.map = some map ∧ map.entries = some entries ∧ entries.map (·.column) = [0] := by
  have own : (indentedBy unit).style = ⟨false, unit⟩ := by
    have indents : (indentedBy unit).IndentsBy unit := indentsBy_indentedBy (by rw [wide]; decide)
    unfold Options.style
    rw [Options.unit_of_indentsBy indents]
    rfl
  have levels : nestedRule.LevelsSmall (indentedBy unit) := by
    have same : levels 1 (Script.nodes (indentedBy unit).compress nestedRule.nodes) =
      levels 1 (Script.nodes false nestedRule.nodes) := rfl
    unfold Document.LevelsSmall
    rw [same]
    decide
  have marked : marks Place.start (nestedRule.fragments (indentedBy unit)) =
      [(⟨3, 1 + 2 * utf16Width unit⟩, plainRule)] := by
    unfold Document.fragments
    rw [own, ← utf16Width_repeated]
    rfl
  rw [Document.print32_eq levels, marked, wide]
  exact ⟨_, _, _, rfl, rfl, rfl, rfl⟩

/-- Two units of this width are the whole range of words, and the column is zero behind them. -/
theorem print32_nestedRule_column_ne :
    ∃ printed map entries, (indentedBy wideUnit).IndentsBy wideUnit ∧
      nestedRule.nestedPositions.map Prod.fst = [2] ∧
      nestedRule.print32 (indentedBy wideUnit) = .ok printed ∧
      printed.map = some map ∧ map.entries = some entries ∧
      entries.map (·.column) = [0] ∧ 2 * utf16Width wideUnit = 4294967296 := by
  have wide : utf16Width wideUnit = 2147483648 := utf16Width_replicate 2147483648
  obtain ⟨printed, map, entries, h, mapped, said, columns⟩ := print32_nestedRule wide
  refine ⟨printed, map, entries, indentsBy_indentedBy (by rw [wide]; decide), rfl, h, mapped, said,
    columns, ?_⟩
  rw [wide]

end CssPrinter
