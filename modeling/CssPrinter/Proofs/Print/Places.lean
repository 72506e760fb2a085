import CssPrinter.Proofs.Print.Recording
import Mathlib.Data.List.DropRight

/-!
# Where rules start

The cursor of a writer is moved by operations and never looks at the text. Here it is compared with
the text: its line counts the line breaks of the layout and the line feeds in comments, and where no
other text has line feeds it is the true end of what is written (`Place.afterAll_start`).
`Document.print_places` says so of every rule that a map records.
-/

namespace CssPrinter

/-! ### The end of a text -/

/-- The width of what stands behind the last line feed. -/
def lastLineWidth (s : String) : Nat :=
  unitCount (s.toList.rtakeWhile (· ≠ '\n'))

/-- The place at the end of a text. -/
def Place.ofText (s : String) : Place := ⟨1 + lineFeeds s, 1 + lastLineWidth s⟩

theorem lastLineWidth_append_of_not_mem (s t : String) (flat : '\n' ∉ t.toList) :
    lastLineWidth (s ++ t) = lastLineWidth s + utf16Width t := by
  have kept : ∀ c ∈ t.toList.reverse, decide (c ≠ '\n') = true := by
    intro c member
    refine decide_eq_true fun same => flat ?_
    rw [← same]
    exact List.mem_reverse.mp member
  unfold lastLineWidth
  rw [String.toList_append, List.rtakeWhile, List.reverse_append,
    List.takeWhile_append_of_pos kept, List.reverse_append, List.reverse_reverse,
    unitCount_append]
  rfl

theorem lastLineWidth_append_feed (s : String) : lastLineWidth (s ++ "\n") = 0 := by
  have last : (s ++ "\n").toList = s.toList ++ ['\n'] := by simp
  rw [lastLineWidth, last, List.rtakeWhile_concat_neg _ _ _ (by decide)]
  rfl

theorem lineFeeds_eq_zero {s : String} (flat : '\n' ∉ s.toList) : lineFeeds s = 0 :=
  List.count_eq_zero.mpr flat

/-! ### The cursor and the text -/

/-- A fragment whose line feeds are counted. -/
def Fragment.Flat : Fragment → Prop
  | .lead s => '\n' ∉ s.toList
  | .text s => '\n' ∉ s.toList
  | _ => True

theorem Place.ofText_after (s : String) (f : Fragment) (flat : f.Flat) :
    (Place.ofText s).after f = Place.ofText (s ++ f.written) := by
  cases f with
  | lead t | text t =>
    simp only [Place.ofText, Place.after, Place.offsetColumn, Fragment.written, lineFeeds_append,
      lineFeeds_eq_zero flat, lastLineWidth_append_of_not_mem s t flat, Nat.add_zero,
      Nat.add_assoc]
  | comment t =>
    have last : s ++ ("/*" ++ t ++ "*/\n") = s ++ ("/*" ++ t ++ "*/") ++ "\n" := by
      simp only [String.append_assoc]
      rfl
    have opening : lineFeeds "/*" = 0 := by decide
    have closing : lineFeeds "*/" = 0 := by decide
    have feed : lineFeeds "\n" = 1 := by decide
    simp only [Place.ofText, Place.after, Fragment.written, last, lastLineWidth_append_feed,
      lineFeeds_append, opening, closing, feed, Place.mk.injEq]
    exact ⟨by omega, trivial⟩
  | lineBreak =>
    have feed : lineFeeds "\n" = 1 := by decide
    simp only [Place.ofText, Place.after, Fragment.written, lastLineWidth_append_feed,
      lineFeeds_append, feed]
    rfl
  | mark r => simp [Place.after, Fragment.written]

/-- Behind flat fragments the cursor is the end of the text. -/
theorem Place.ofText_afterAll (s : String) (fs : List Fragment) (flat : ∀ f ∈ fs, f.Flat) :
    (Place.ofText s).afterAll fs = Place.ofText (s ++ rendered fs) := by
  induction fs generalizing s with
  | nil => simp [rendered]
  | cons f fs ih =>
    rw [Place.afterAll_cons, Place.ofText_after s f (flat f List.mem_cons_self),
      ih _ fun g member => flat g (List.mem_cons_of_mem _ member), rendered, String.append_assoc]

theorem Place.afterAll_start {fs : List Fragment} (flat : ∀ f ∈ fs, f.Flat) :
    Place.start.afterAll fs = Place.ofText (rendered fs) := by
  rw [← String.empty_append (s := rendered fs), ← Place.ofText_afterAll "" fs flat]
  rfl

/-- The line feeds that are line breaks of the layout or lie inside a comment. -/
def countedFeeds : List Fragment → Nat
  | [] => 0
  | f :: fs => f.feeds + countedFeeds fs

theorem Place.line_afterAll (p : Place) (fs : List Fragment) :
    (p.afterAll fs).line = p.line + countedFeeds fs := by
  induction fs generalizing p with
  | nil => rfl
  | cons f fs ih =>
    have step : (p.after f).line = p.line + f.feeds := by
      cases f <;> simp [Place.after, Place.offsetColumn, Fragment.feeds, Nat.add_assoc]
    rw [Place.afterAll_cons, ih, step, countedFeeds, Nat.add_assoc]

/-! ### Texts of a tree -/

def Declaration.texts : Declaration → List String
  | .property p => [p.name, p.value]
  | .comment _ => []

def Keyframe.texts (k : Keyframe) : List String :=
  k.values ++ k.declarations.flatMap Declaration.texts

def Keyframes.texts (k : Keyframes) : List String :=
  k.name :: k.vendor.toList ++ k.blocks.flatMap Keyframe.texts

def Rule.texts (r : Rule) : List String :=
  r.selectors ++ r.declarations.flatMap Declaration.texts

namespace Node

mutual

/-- All texts of a node but its comments. -/
def texts : Node → List String
  | .comment _ => []
  | .charset text => [text]
  | .keyframes k => k.texts
  | .media query ns => query :: textsIn ns
  | .imports text => [text]
  | .rule r => r.texts

def textsIn : List Node → List String
  | [] => []
  | n :: rest => texts n ++ textsIn rest

end

end Node

def Document.texts (d : Document) : List String := Node.textsIn d.nodes

/-- No text has a line feed. -/
def FlatTexts (texts : List String) : Prop := ∀ s ∈ texts, '\n' ∉ s.toList

instance (texts : List String) : Decidable (FlatTexts texts) :=
  inferInstanceAs (Decidable (∀ s ∈ texts, '\n' ∉ s.toList))

theorem flatTexts_append {s t : List String} :
    FlatTexts (s ++ t) ↔ FlatTexts s ∧ FlatTexts t :=
  List.forall_mem_append

theorem flatTexts_flatMap {α : Type} {f : α → List String} {xs : List α} :
    FlatTexts (xs.flatMap f) ↔ ∀ x ∈ xs, FlatTexts (f x) := by
  simp only [FlatTexts, List.mem_flatMap]
  constructor
  · intro flat x member s text
    exact flat s ⟨x, member, text⟩
  · rintro flat s ⟨x, member, text⟩
    exact flat x member s text

/-! ### Fragments of a tree without line feeds -/

def AllFlat (fs : List Fragment) : Prop := ∀ f ∈ fs, f.Flat

@[simp] theorem allFlat_nil : AllFlat [] := by simp [AllFlat]

@[simp] theorem allFlat_cons {f : Fragment} {fs : List Fragment} :
    AllFlat (f :: fs) ↔ f.Flat ∧ AllFlat fs :=
  List.forall_mem_cons

@[simp] theorem allFlat_append {fs gs : List Fragment} :
    AllFlat (fs ++ gs) ↔ AllFlat fs ∧ AllFlat gs :=
  List.forall_mem_append

@[simp] theorem flat_text {s : String} : (Fragment.text s).Flat ↔ '\n' ∉ s.toList := Iff.rfl

@[simp] theorem flat_mark {r : Rule} : (Fragment.mark r).Flat := trivial

@[simp] theorem flat_comment {s : String} : (Fragment.comment s).Flat := trivial

section Flat

variable {style : Style}

@[simp] theorem flat_space : style.space.Flat := by
  show '\n' ∉ (style.leadText 0 (.literal " ")).toList
  unfold Style.leadText
  split <;> simp

@[simp] theorem allFlat_lineBreak : AllFlat style.lineBreak := by
  unfold Style.lineBreak
  split <;> simp [Fragment.Flat]

@[simp] theorem allFlat_openBlock : AllFlat style.openBlock := by
  simp [Style.openBlock]

theorem allFlat_separated {fss : List (List Fragment)} (each : ∀ fs ∈ fss, AllFlat fs) :
    AllFlat (style.separated fss) := by
  fun_induction style.separated fss with
  | case1 => simp
  | case2 fs => exact each fs List.mem_cons_self
  | case3 fs rest _ ih =>
    simp only [allFlat_append, allFlat_lineBreak, true_and]
    exact ⟨each fs List.mem_cons_self, ih fun gs member => each gs (List.mem_cons_of_mem _ member)⟩

variable (flat : '\n' ∉ style.unit.toList)

include flat

theorem flat_indentation (d : Nat) : (style.indentation d).Flat := by
  show '\n' ∉ (style.leadText d .level).toList
  unfold Style.leadText
  split
  · simp
  · exact fun member => flat (mem_of_mem_repeated member)

theorem allFlat_closeBlock (d : Nat) : AllFlat (style.closeBlock d) := by
  simp [Style.closeBlock, flat_indentation flat]

theorem allFlat_comment (d : Nat) (text : String) : AllFlat (style.comment d text) := by
  unfold Style.comment
  split <;> simp [flat_indentation flat]

theorem allFlat_declarations (d : Nat) {ds : List Declaration}
    (texts : FlatTexts (ds.flatMap Declaration.texts)) : AllFlat (style.declarations d ds) := by
  induction ds with
  | nil => simp [Style.declarations]
  | cons x ds ih =>
    rw [List.flatMap_cons, flatTexts_append] at texts
    cases x with
    | comment text =>
      rw [Style.declarations, allFlat_append]
      exact ⟨allFlat_comment flat d text, ih texts.2⟩
    | property p =>
      have name : '\n' ∉ p.name.toList := texts.1 p.name (by simp [Declaration.texts])
      have value : '\n' ∉ p.value.toList := texts.1 p.value (by simp [Declaration.texts])
      rw [Style.declarations, allFlat_append]
      refine ⟨?_, ih texts.2⟩
      cases last : ds.isEmpty <;> simp [Style.property, flat_indentation flat, name, value]

theorem allFlat_block (d : Nat) {ds : List Declaration}
    (texts : FlatTexts (ds.flatMap Declaration.texts)) : AllFlat (style.block d ds) := by
  simp [Style.block, allFlat_declarations flat (d + 1) texts, allFlat_closeBlock flat d]

theorem allFlat_keyframes (d : Nat) {k : Keyframes} (texts : FlatTexts k.texts) :
    AllFlat (style.keyframes d k) := by
  rw [Keyframes.texts, flatTexts_append, flatTexts_flatMap] at texts
  obtain ⟨head, blocks⟩ := texts
  have name : '\n' ∉ k.name.toList := head k.name List.mem_cons_self
  have vendor : '\n' ∉ (k.vendor.getD "").toList := by
    cases given : k.vendor with
    | none => simp
    | some v => exact head v (by simp [given])
  have inside : AllFlat (style.separated (k.blocks.map (style.keyframe (d + 1)))) := by
    refine allFlat_separated fun fs member => ?_
    obtain ⟨b, present, rfl⟩ := List.mem_map.mp member
    have texts := flatTexts_append.mp (blocks b present)
    have values := not_mem_intercalate texts.1 (by decide) (by decide)
    rw [Style.keyframe, allFlat_cons, allFlat_cons]
    exact ⟨flat_indentation flat (d + 1), values, allFlat_block flat (d + 1) texts.2⟩
  simp [Style.keyframes, flat_indentation flat, name, vendor, inside, allFlat_closeBlock flat d]

theorem allFlat_rule (d : Nat) {r : Rule} (texts : FlatTexts r.texts) :
    AllFlat (style.rule d r) := by
  obtain ⟨selectors, declarations⟩ := flatTexts_append.mp texts
  have more : ∀ more : List String, FlatTexts more → AllFlat (style.moreSelectors d more) := by
    intro more texts
    induction more with
    | nil => simp [Style.moreSelectors]
    | cons s more ih =>
      obtain ⟨first, others⟩ := List.forall_mem_cons.mp texts
      simp [Style.moreSelectors, flat_indentation flat, first, ih others]
  rw [Style.rule, allFlat_append]
  refine ⟨?_, allFlat_block flat d declarations⟩
  unfold Style.selectors
  cases given : r.selectors with
  | nil => simp
  | cons s rest =>
    rw [given] at selectors
    obtain ⟨first, others⟩ := List.forall_mem_cons.mp selectors
    simp [flat_indentation flat, first, more rest others]

end Flat

mutual

theorem allFlat_node {style : Style} (flat : '\n' ∉ style.unit.toList) (d : Nat) :
    (n : Node) → FlatTexts n.texts → AllFlat (style.node d n)
  | .comment text, _ => by
    rw [Style.node]
    exact allFlat_comment flat d text
  | .charset text, texts => by
    have line : '\n' ∉ text.toList := texts text (by simp [Node.texts])
    simp [Style.node, flat_indentation flat, line]
  | .keyframes k, texts => by
    rw [Style.node]
    rw [Node.texts] at texts
    exact allFlat_keyframes flat d texts
  | .media query ns, texts => by
    rw [Node.texts] at texts
    obtain ⟨line, inside⟩ := List.forall_mem_cons.mp texts
    have children : AllFlat (style.separated _) :=
      allFlat_separated (allFlat_nodeList flat (d + 1) ns inside)
    simp [Style.node, flat_indentation flat, line, children, allFlat_closeBlock flat d]
  | .imports text, texts => by
    have line : '\n' ∉ text.toList := texts text (by simp [Node.texts])
    simp [Style.node, flat_indentation flat, line]
  | .rule r, texts => by
    rw [Style.node]
    rw [Node.texts] at texts
    exact allFlat_rule flat d texts

theorem allFlat_nodeList {style : Style} (flat : '\n' ∉ style.unit.toList) (d : Nat) :
    (ns : List Node) → FlatTexts (Node.textsIn ns) → ∀ fs ∈ style.nodeList d ns, AllFlat fs
  | [], _ => by simp [Style.nodeList]
  | n :: ns, texts => by
    rw [Node.textsIn, flatTexts_append] at texts
    rw [Style.nodeList]
    exact List.forall_mem_cons.mpr
      ⟨allFlat_node flat d n texts.1, allFlat_nodeList flat d ns texts.2⟩

end

theorem allFlat_fragments {d : Document} {options : Options}
    (unit : '\n' ∉ options.unit.toList) (texts : FlatTexts d.texts) :
    AllFlat (d.fragments options) :=
  allFlat_separated (allFlat_nodeList unit 0 d.nodes texts)

/-! ### Where a rule starts -/

theorem ne_of_unmarked {fs before after : List Fragment} {r : Rule} (unmarked : markedRules fs = []) :
    fs ≠ before ++ .mark r :: after := by
  rintro rfl
  simp at unmarked

/-- Behind the mark of a rule stands its first selector, and before it the indentation. What stands
before that was written by the steps before the rule. -/
theorem Writes.at_mark {style : Style} {d e : Nat} {steps : List Step}
    {fs before after : List Fragment} {r : Rule} (h : Writes style d steps fs e)
    (filled : r.selectors ≠ []) (split : fs = before ++ .mark r :: after) :
    ∃ s more tail first later written depth,
      r.selectors = s :: more ∧ after = .text s :: tail ∧ steps = first ++ .rule r :: later ∧
        Writes style d first written depth ∧ before = written ++ [style.indentation depth] := by
  induction h generalizing before after with
  | append one two ih₁ ih₂ =>
    rename_i t fs gs
    rcases List.append_eq_append_iff.mp split with ⟨middle, rfl, rest⟩ | ⟨middle, whole, rest⟩
    · obtain ⟨s, more, tail, first, later, written, depth, head, follows, rfl, inner, rfl⟩ :=
        ih₂ rest
      exact ⟨s, more, tail, _, later, _, depth, head, follows, (List.append_assoc ..).symm,
        one.append inner, (List.append_assoc ..).symm⟩
    · cases middle with
      | nil =>
        -- A mark never comes first: its own indentation does.
        have start : gs = [] ++ .mark r :: after := rest.symm
        obtain ⟨_, _, _, _, _, _, _, _, _, _, _, empty⟩ := ih₂ start
        exact absurd empty (by simp)
      | cons f middle =>
        obtain ⟨rfl, rfl⟩ := List.cons.inj rest
        obtain ⟨s, more, tail, first, later, written, depth, head, rfl, rfl, inner, equal⟩ :=
          ih₁ whole
        exact ⟨s, more, tail ++ gs, first, later ++ t, written, depth, head, rfl,
          by simp, inner, equal⟩
  | rule d head =>
    rename_i q s more
    match before with
    | [] => cases split
    | [f] =>
      simp only [List.cons_append, List.nil_append, List.cons.injEq, Fragment.mark.injEq] at split
      obtain ⟨rfl, rfl, rfl⟩ := split
      exact ⟨s, more, [], [], _, [], d, head, rfl, rfl, .nil d, rfl⟩
    | [_, _] | _ :: _ :: _ :: _ => simp at split
  | bareRule d bare =>
    match before with
    | [] =>
      obtain ⟨same, -⟩ := List.cons.inj split
      obtain rfl := Fragment.mark.inj same
      exact absurd bare filled
    | _ :: _ => simp at split
  | newline d => exact absurd split (ne_of_unmarked (markedRules_lineBreak style))
  | writeln d text lead =>
    exact absurd split (ne_of_unmarked (markedRules_lineBreak style))
  | _ => exact absurd split (ne_of_unmarked rfl)

def Document.positionedRules (d : Document) : List Rule := d.rules.filter (·.position.isSome)

theorem exists_split_of_getElem? {fs : List Fragment} {k : Nat} {r : Rule}
    (h : ((markedRules fs).filter (·.position.isSome))[k]? = some r) :
    ∃ before after, fs = before ++ .mark r :: after ∧
      ((markedRules before).filter (·.position.isSome)).length = k := by
  induction fs generalizing k with
  | nil => simp at h
  | cons f fs ih =>
    cases f with
    | mark q =>
      cases positioned : q.position.isSome with
      | false =>
        simp only [markedRules_mark, List.filter_cons, positioned] at h
        obtain ⟨before, after, rfl, count⟩ := ih h
        exact ⟨.mark q :: before, after, rfl, by simp [positioned, count]⟩
      | true =>
        simp only [markedRules_mark, List.filter_cons, positioned] at h
        cases k with
        | zero =>
          obtain rfl := Option.some.inj h
          exact ⟨[], fs, rfl, rfl⟩
        | succ k =>
          obtain ⟨before, after, rfl, count⟩ := ih h
          exact ⟨.mark q :: before, after, rfl, by simp [positioned, count]⟩
    | _ =>
      obtain ⟨before, after, rfl, count⟩ := ih h
      exact ⟨_ :: before, after, rfl, count⟩

/-- The `k`-th positioned rule is `r`, and `before` is written when its first selector comes: what
the steps before the rule have written, and the indentation. -/
structure RuleStart (options : Options) (d : Document) (k : Nat) (r : Rule)
    (before after : List Fragment) : Prop where
  fragments : d.fragments options = before ++ .mark r :: after
  index : ((markedRules before).filter (·.position.isSome)).length = k
  reached : ∃ first later p,
    Script.nodes options.compress d.nodes = first ++ .rule r :: later ∧
      (Printer.new options).run options first = .ok p ∧
      rendered before = p.writer.text ++ p.writer.leadText .level

theorem ruleStart_of_split {d : Document} {options : Options} {map : Option SourceMap} {k : Nat}
    {r : Rule} {before after : List Fragment}
    (ran : (marks Place.start (d.fragments options)).foldlM (Printer.startAt options)
      (Printer.new options).map = .ok map)
    (filled : r.selectors ≠ []) (split : d.fragments options = before ++ .mark r :: after)
    (index : ((markedRules before).filter (·.position.isSome)).length = k) :
    ∃ s more tail, r.selectors = s :: more ∧ after = .text s :: tail ∧
      RuleStart options d k r before after := by
  obtain ⟨s, more, tail, first, later, written, depth, head, follows, steps, inner, rfl⟩ :=
    (writes_nodes 0 d.nodes).at_mark filled split
  refine ⟨s, more, tail, head, follows, split, index, first, later, ?_⟩
  have fits : (Printer.new options).writer.Fits options.style 0 := Writer.fits_new options.style
  have unmarked : marks Place.start (written ++ [options.style.indentation depth]) =
      marks Place.start written := by
    rw [marks_append]
    exact List.append_nil _
  rw [split, marks_append, unmarked, List.foldlM_append] at ran
  cases begun : (marks Place.start written).foldlM (Printer.startAt options)
      (Printer.new options).map with
  | error e => rw [begun] at ran; cases ran
  | ok map' =>
    have reached : (Printer.new options).run options first = _ := inner.run options fits
    rw [show (Printer.new options).writer.cursor = Place.start from rfl, begun] at reached
    refine ⟨_, steps, reached, ?_⟩
    rw [(fits.behind written depth).leadText]
    simp [Writer.behind, Printer.new, Writer.new, rendered, Style.indentation, Fragment.written]

theorem entry_of_split {d : Document} {options : Options} {k : Nat} {r : Rule}
    {before after : List Fragment} {position : Position}
    (split : d.fragments options = before ++ .mark r :: after)
    (positioned : r.position = some position)
    (index : ((markedRules before).filter (·.position.isSome)).length = k) :
    ((d.mappings options).map Mapping.entry)[k]? =
      some (Printer.mappingAt options (Place.start.afterAll before) position).entry := by
  have count : (mappingsOf options (marks Place.start before)).length = k := by
    rw [length_mappingsOf, map_snd_marks, index]
  have next : mappingsOf options (marks (Place.start.afterAll before) (.mark r :: after)) =
      Printer.mappingAt options (Place.start.afterAll before) position ::
        mappingsOf options (marks (Place.start.afterAll before) after) := by
    simp [marks, mappingsOf, positioned]
  rw [Document.mappings, split, marks_append, mappingsOf_append, next, List.map_append,
    List.getElem?_append_right]
  · simp [count]
  · simp [count]

theorem allFlat_of_split {d : Document} {options : Options} {before after : List Fragment}
    (split : d.fragments options = before ++ after) (texts : FlatTexts d.texts)
    (unit : '\n' ∉ options.unit.toList) : AllFlat before := by
  have whole := allFlat_fragments unit texts
  rw [split, allFlat_append] at whole
  exact whole.1

/-- Every rule that a map records starts where the map says. The line counts the line breaks of the
layout and the line feeds in comments before the first selector. If no other text has line feeds,
line and column are those of the text. -/
theorem Document.print_places (d : Document) (options : Options) (printed : Printed)
    (wanted : options.wantsMap = true) (h : d.print options = .ok printed) :
    ∃ map, printed.map = some map ∧ map.tokens.size = d.positionedRules.length ∧
      ∀ k r, d.positionedRules[k]? = some r →
        ∃ s more token before after,
          r.selectors = s :: more ∧ map.tokens[k]? = some token ∧
          RuleStart options d k r before (.text s :: after) ∧
          printed.css = rendered before ++ s ++ (rendered after ++ options.trailer) ∧
          token.line = countedFeeds before ∧
          (FlatTexts d.texts → '\n' ∉ options.unit.toList →
            token.line = lineFeeds (rendered before) ∧
            token.column = lastLineWidth (rendered before)) := by
  obtain ⟨ran, css⟩ := Document.print_eq_ok h
  obtain ⟨map, mapped, said⟩ := Document.entries_of_print wanted h
  refine ⟨map, mapped, ?_, ?_⟩
  · have length := (SourceMap.entries_eq_some_iff.mp said).length_eq
    rw [List.length_map, Document.mappings, length_mappingsOf, map_snd_marks_fragments] at length
    exact length
  intro k r present
  obtain ⟨among, placed⟩ := List.mem_filter.mp (List.mem_of_getElem? present)
  obtain ⟨position, positioned⟩ := Option.isSome_iff_exists.mp placed
  rw [Document.positionedRules, ← markedRules_fragments d options] at present
  obtain ⟨before, after, split, index⟩ := exists_split_of_getElem? present
  obtain ⟨s, more, tail, head, rfl, start⟩ :=
    ruleStart_of_split ran (d.selectors_of_print h r among) split index
  obtain ⟨token, found, resolved⟩ :=
    SourceMap.exists_token said (entry_of_split split positioned index)
  obtain ⟨-, -, line, column, -, -⟩ := SourceMap.entryOf_eq_some_iff.mp resolved
  refine ⟨s, more, token, before, tail, head, found, start, ?_, ?_, ?_⟩
  · rw [css, split]
    simp [rendered, Fragment.written, String.append_assoc]
  · have counted : (Place.start.afterAll before).line = 1 + countedFeeds before :=
      Place.line_afterAll Place.start before
    rw [line]
    show (Place.start.afterAll before).line - 1 = _
    omega
  · intro texts unit
    have place := Place.afterAll_start (allFlat_of_split split texts unit)
    rw [line, column]
    simp only [Mapping.entry, Printer.mappingAt, place, Place.ofText]
    exact ⟨by omega, by omega⟩

/-- A rule in a block, behind a comment of two lines. -/
def nestedSheet : Document where
  nodes := [.comment "one\ntwo",
    .media "print" [.rule { selectors := ["a", "b"], position := some (.ofStart 2 3) }]]

theorem print_places_nestedSheet :
    ∃ printed map token before after,
      nestedSheet.print { map := true, indent := some "\t" } = .ok printed ∧
      printed.map = some map ∧ map.tokens[0]? = some token ∧
      printed.css = rendered before ++ "a" ++ after ∧
      token.line = lineFeeds (rendered before) ∧
      token.column = lastLineWidth (rendered before) := by
  have h : nestedSheet.print { map := true, indent := some "\t" } = .ok ⟨_, _⟩ :=
    (Document.print_eq_ok_iff rfl).mpr ⟨by decide, by decide, rfl, rfl⟩
  obtain ⟨map, mapped, -, rules⟩ := Document.print_places nestedSheet _ _ rfl h
  obtain ⟨s, more, token, before, after, selectors, found, -, css, -, exactly⟩ :=
    rules 0 _ rfl
  obtain ⟨rfl, -⟩ := List.cons.inj selectors
  obtain ⟨line, column⟩ := exactly (by decide) (by decide)
  exact ⟨_, map, token, before, _, h, mapped, found, css, line, column⟩

end CssPrinter
