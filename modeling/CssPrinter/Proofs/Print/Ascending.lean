import CssPrinter.Proofs.Print.Places
import CssPrinter.Proofs.SourceMap.Reading
import Mathlib.Data.Prod.Lex

/-!
# Rules start one after another

Nothing that is printed moves the cursor back, and at least the bracket that opens its block stands
behind the start of a rule. So no two rules start at the same place, whatever their texts are
(`Ascending`), and the tokens of a printed map are strictly ordered. Writing the map then loses
none of them (`Document.print_ascending`).
-/

namespace CssPrinter

/-! ### Moving on -/

namespace Place

/-- Places by line, then by column. -/
def key (p : Place) : Nat ×ₗ Nat := toLex (p.line, p.column)

theorem key_le_after (p : Place) (f : Fragment) : p.key ≤ (p.after f).key := by
  unfold key
  rw [Prod.Lex.toLex_le_toLex']
  cases f with
  | lead s | text s => exact ⟨Nat.le_refl _, fun _ => Nat.le_add_right _ _⟩
  | comment s =>
    have later : p.line < p.line + lineFeeds s + 1 := by omega
    exact ⟨later.le, fun same => absurd same later.ne⟩
  | lineBreak =>
    have later : p.line < p.line + 1 := by omega
    exact ⟨later.le, fun same => absurd same later.ne⟩
  | mark r => exact ⟨Nat.le_refl _, fun _ => Nat.le_refl _⟩

theorem key_le_afterAll (p : Place) (fs : List Fragment) : p.key ≤ (p.afterAll fs).key := by
  induction fs generalizing p with
  | nil => exact le_refl _
  | cons f fs ih => exact (p.key_le_after f).trans (ih (p.after f))

theorem key_lt_afterAll {fs : List Fragment} {s : String} (member : .text s ∈ fs)
    (wide : 0 < utf16Width s) (p : Place) : p.key < (p.afterAll fs).key := by
  obtain ⟨before, after, rfl⟩ := List.append_of_mem member
  rw [afterAll_append, afterAll_cons]
  have step (q : Place) : q.key < (q.after (.text s)).key := by
    refine Prod.Lex.toLex_lt_toLex.mpr (Or.inr ⟨rfl, ?_⟩)
    exact Nat.lt_add_of_pos_right wide
  exact ((p.key_le_afterAll before).trans_lt (step _)).trans_le (key_le_afterAll _ after)

theorem key_le_of_mem_marks {p : Place} {fs : List Fragment} {x : Place × Rule}
    (member : x ∈ marks p fs) : p.key ≤ x.1.key := by
  induction fs generalizing p with
  | nil => exact absurd member List.not_mem_nil
  | cons f fs ih =>
    cases f with
    | mark r =>
      rcases List.mem_cons.mp member with rfl | member
      · exact le_refl _
      · exact ih member
    | lead _ | text _ | comment _ | lineBreak => exact (p.key_le_after _).trans (ih member)

end Place

/-! ### Fragments in order -/

/-- Wherever the fragments are written, their marks stand one after another, and the cursor has
moved on behind the last. -/
structure Ascending (fs : List Fragment) : Prop where
  sorted : ∀ p, (marks p fs).Pairwise fun x y => x.1.key < y.1.key
  passed : ∀ p, ∀ x ∈ marks p fs, x.1.key < (p.afterAll fs).key

namespace Ascending

theorem of_unmarked {fs : List Fragment} (unmarked : markedRules fs = []) : Ascending fs where
  sorted p := by
    rw [marks_of_unmarked unmarked]
    exact List.Pairwise.nil
  passed p x member := by
    rw [marks_of_unmarked unmarked] at member
    exact absurd member List.not_mem_nil

theorem append {fs gs : List Fragment} (first : Ascending fs) (second : Ascending gs) :
    Ascending (fs ++ gs) where
  sorted p := by
    rw [marks_append, List.pairwise_append]
    refine ⟨first.sorted p, second.sorted _, ?_⟩
    intro x before y after
    exact (first.passed p x before).trans_le (Place.key_le_of_mem_marks after)
  passed p x member := by
    rw [marks_append, List.mem_append] at member
    rw [Place.afterAll_append]
    rcases member with member | member
    · exact (first.passed p x member).trans_le (Place.key_le_afterAll _ gs)
    · exact second.passed _ x member

/-- One mark, with something written behind it. -/
theorem mark (r : Rule) {fs : List Fragment} {s : String} (unmarked : markedRules fs = [])
    (behind : .text s ∈ fs) (wide : 0 < utf16Width s) : Ascending (.mark r :: fs) := by
  have only (p : Place) : marks p (.mark r :: fs) = [(p, r)] := by
    rw [marks, marks_of_unmarked unmarked]
  refine ⟨fun p => ?_, fun p x member => ?_⟩
  · rw [only]
    exact List.pairwise_singleton _ _
  · rw [only, List.mem_singleton] at member
    subst member
    exact Place.key_lt_afterAll (List.mem_cons_of_mem _ behind) wide p

end Ascending

section Ascending

variable (style : Style)

theorem ascending_separated {fss : List (List Fragment)} (each : ∀ fs ∈ fss, Ascending fs) :
    Ascending (style.separated fss) := by
  fun_induction style.separated fss with
  | case1 => exact .of_unmarked rfl
  | case2 fs => exact each fs List.mem_cons_self
  | case3 fs rest _ ih =>
    obtain ⟨first, others⟩ := List.forall_mem_cons.mp each
    exact first.append ((Ascending.of_unmarked (by simp)).append (ih others))

/-- The bracket that opens the block stands behind the mark, even if all selectors are empty. -/
theorem ascending_rule (d : Nat) (r : Rule) : Ascending (style.rule d r) := by
  have bracket : Fragment.text "\x7b" ∈ style.block d r.declarations := by
    simp [Style.block, Style.openBlock]
  unfold Style.rule Style.selectors
  cases r.selectors with
  | nil => exact Ascending.mark r (by simp) bracket (by decide)
  | cons s more =>
    have indented : Ascending [style.indentation d] := .of_unmarked rfl
    have behind : Fragment.text "\x7b" ∈ .text s :: style.moreSelectors d more ++
        style.block d r.declarations := List.mem_append_right _ bracket
    exact indented.append (Ascending.mark r (by simp) behind (by decide))

mutual

theorem ascending_node (d : Nat) : (n : Node) → Ascending (style.node d n)
  | .comment text => .of_unmarked (by simp [Style.node])
  | .charset text => .of_unmarked (by simp [Style.node])
  | .keyframes k => .of_unmarked (by simp [Style.node, markedRules_keyframes])
  | .media query ns => by
    have header : Ascending [style.indentation d, .text ("@media " ++ query)] := .of_unmarked rfl
    have opened : Ascending style.openBlock := .of_unmarked (by simp)
    have closed : Ascending (style.closeBlock d) := .of_unmarked (by simp)
    have inside : Ascending (style.separated _) :=
      ascending_separated style (ascending_nodeList (d + 1) ns)
    rw [Style.node]
    exact header.append ((opened.append inside).append closed)
  | .imports text => .of_unmarked (by simp [Style.node])
  | .rule r => by
    rw [Style.node]
    exact ascending_rule style d r

theorem ascending_nodeList (d : Nat) :
    (ns : List Node) → ∀ fs ∈ style.nodeList d ns, Ascending fs
  | [] => by simp [Style.nodeList]
  | n :: ns => by
    rw [Style.nodeList]
    exact List.forall_mem_cons.mpr ⟨ascending_node d n, ascending_nodeList d ns⟩

end

theorem ascending_fragments (d : Document) (options : Options) :
    Ascending (d.fragments options) :=
  ascending_separated _ (ascending_nodeList _ 0 d.nodes)

end Ascending

/-! ### Tokens in order -/

theorem pairwise_mappings (d : Document) (options : Options) :
    (d.mappings options).Pairwise fun x y => x.generated.key < y.generated.key := by
  have sorted := (ascending_fragments d options).sorted Place.start
  refine List.pairwise_filterMap.mpr (sorted.imp ?_)
  intro x y before a first b second
  obtain ⟨p, -, rfl⟩ := Option.map_eq_some_iff.mp first
  obtain ⟨q, -, rfl⟩ := Option.map_eq_some_iff.mp second
  exact before

/-- Counting from zero keeps the order of valid places. -/
theorem Place.key_lt_iff {p q : Place} (hp : p.Valid) (hq : q.Valid) :
    p.key < q.key ↔ toLex (p.line - 1, p.column - 1) < toLex (q.line - 1, q.column - 1) := by
  unfold Place.Valid at hp hq
  simp only [key, Prod.Lex.toLex_lt_toLex]
  omega

theorem pairwise_entries (d : Document) (options : Options) :
    ((d.mappings options).map Mapping.entry).Pairwise fun e f =>
      toLex (e.line, e.column) < toLex (f.line, f.column) := by
  rw [List.pairwise_map]
  refine (pairwise_mappings d options).imp_of_mem ?_
  intro x y first second before
  exact (Place.key_lt_iff (d.valid_mappings options x first)
    (d.valid_mappings options y second)).mp before

/-- The tokens of a printed map are strictly ordered by where they stand in the printed text. So
lines do not go back, no token repeats the one before it, and the text of the map has a segment for
each positioned rule and is read back as the map. -/
theorem Document.print_ascending (d : Document) (options : Options) (printed : Printed)
    (wanted : options.wantsMap = true) (h : d.print options = .ok printed) :
    ∃ map text members mappings,
      printed.map = some map ∧ printed.mapText = some text ∧
      (map.tokens.toList.Pairwise fun t u =>
        toLex (t.line, t.column) < toLex (u.line, u.column)) ∧
      map.tokens.toList.Pairwise (·.line ≤ ·.line) ∧
      map.tokens.toList.IsChain (· ≠ ·) ∧
      Json.Value.parse text = .ok (.object members) ∧
      members.lookup "mappings" = some (.string mappings) ∧
      (Mappings.segments mappings).length = d.positionedRules.length ∧
      SourceMap.ofText text = some map := by
  obtain ⟨map, mapped, said⟩ := Document.entries_of_print wanted h
  have related := SourceMap.entries_eq_some_iff.mp said
  have ascending : map.tokens.toList.Pairwise fun t u =>
      toLex (t.line, t.column) < toLex (u.line, u.column) := by
    have places := (List.pairwise_map (f := fun e : MapEntry => (e.line, e.column))).mpr
      (pairwise_entries d options)
    rw [← SourceMap.map_place_of_forall₂ related] at places
    exact List.pairwise_map.mp places
  have lines : map.tokens.toList.Pairwise (·.line ≤ ·.line) :=
    ascending.imp fun before => (Prod.Lex.toLex_lt_toLex'.mp before).1
  have fresh : map.tokens.toList.IsChain (· ≠ ·) := by
    refine (ascending.imp ?_).isChain
    rintro t u before rfl
    exact lt_irrefl _ before
  have kept : map.tokens.toList.destutter (· ≠ ·) = map.tokens.toList :=
    List.destutter_of_isChain _ _ fresh
  obtain ⟨members, parsed, found⟩ := map.exists_mappings
  refine ⟨map, map.text, members, _, mapped, ?_, ascending, lines, fresh, parsed, found, ?_, ?_⟩
  · rw [Printed.mapText, mapped]
    rfl
  · have count := related.length_eq
    rw [List.length_map, Document.mappings, length_mappingsOf, map_snd_marks_fragments] at count
    rw [Mappings.length_segments_of_decode (Mappings.decode_encode_destutter lines),
      kept, count]
    rfl
  · rw [SourceMap.ofText_text lines, kept]

/-- Rules that print nothing but their brackets, and a text with a line feed. -/
def crowdedSheet : Document where
  nodes := [
    .rule { selectors := [""], position := some (.ofStart 7 1) },
    .imports "a\nb",
    .media "" [.rule { selectors := ["", ""], position := some (.ofStart 7 1) }, .comment "c"],
    .rule { selectors := [""], position := some (.ofStart 7 1) }]

theorem print_ascending_crowdedSheet :
    ∃ printed map members mappings,
      crowdedSheet.print { compress := true, map := true } = .ok printed ∧
      printed.map = some map ∧
      (map.tokens.toList.Pairwise fun t u =>
        toLex (t.line, t.column) < toLex (u.line, u.column)) ∧
      Json.Value.parse map.text = .ok (.object members) ∧
      members.lookup "mappings" = some (.string mappings) ∧
      (Mappings.segments mappings).length = 3 := by
  have h : crowdedSheet.print { compress := true, map := true } = .ok ⟨_, _⟩ :=
    (Document.print_eq_ok_iff rfl).mpr ⟨by decide, by decide, rfl, rfl⟩
  obtain ⟨map, text, members, mappings, mapped, written, ascending, -, -, parsed, found, count,
    -⟩ := Document.print_ascending crowdedSheet _ _ rfl h
  rw [Printed.mapText, mapped] at written
  obtain rfl := Option.some.inj written
  exact ⟨_, map, members, mappings, h, mapped, ascending, parsed, found, count⟩

end CssPrinter
