import CssPrinter.Proofs.Print.Inversion
import CssPrinter.Proofs.Print.Recording

/-!
# Printed text is unambiguous

Clean documents that print to the same text have the same bare documents
(`Document.print_injective`). A node shows its kind at its first characters, so that only nodes of
the same kind have to be compared.
-/

namespace CssPrinter

section Nodes

variable {style : Style}

/-! ### Animations -/

theorem charsOf_keyframe (d : Nat) (b : Keyframe) :
    charsOf (style.keyframe d b) =
      style.margin d ++ ((String.intercalate ", " b.values).toList ++
        charsOf (style.block d b.declarations)) := by
  rw [Style.keyframe, Style.charsOf_indentation, charsOf_text]

theorem Keyframe.Clean.not_mem_values {b : Keyframe} (clean : b.Clean) {c : Char}
    (stop : c ∈ reserved) : c ∉ (String.intercalate ", " b.values).toList := by
  refine not_mem_intercalate (fun v member inside => ?_) ?_ ?_
  · exact (clean.2.1 v member).not_mem (List.mem_cons_of_mem _ stop) inside
  · rintro rfl
    revert stop
    decide
  · rintro rfl
    revert stop
    decide

theorem keyframe_inj (blank : style.Blank) {d : Nat} {a b : Keyframe} {k l : List Char}
    (left : a.Clean) (right : b.Clean)
    (h : charsOf (style.keyframe d a) ++ k = charsOf (style.keyframe d b) ++ l) :
    a.bare style.compress = b.bare style.compress ∧ k = l := by
  obtain ⟨values, ds⟩ := a
  obtain ⟨values', es⟩ := b
  simp only [charsOf_keyframe, charsOf_block, List.append_assoc, List.cons_append,
    List.append_cancel_left_eq] at h
  obtain ⟨texts, body⟩ := header_inj (left.not_mem_values (by decide))
    (right.not_mem_values (by decide)) h
  obtain ⟨declarations, behind⟩ := block_inj blank left.2.2 right.2.2 body
  obtain ⟨v, vs, rfl⟩ := List.exists_cons_of_ne_nil left.1
  obtain ⟨w, ws, rfl⟩ := List.exists_cons_of_ne_nil right.1
  have same := values_inj (fun x member => (left.2.1 x member).not_mem List.mem_cons_self)
    (fun x member => (right.2.1 x member).not_mem List.mem_cons_self) (congrArg _ texts)
  exact ⟨by simp [Keyframe.bare, same, declarations], behind⟩

theorem not_closing_keyframe (blank : style.Blank) (d : Nat) {b : Keyframe} (clean : b.Clean)
    (k : List Char) : ¬Closing (charsOf (style.keyframe d b) ++ k) := by
  simp only [charsOf_keyframe, charsOf_block, List.append_assoc, List.cons_append]
  rw [← List.append_assoc, ← List.append_assoc]
  refine not_closing ?_ (by decide) (by decide) (by decide)
  have inMargin := blank.brace_not_mem_margin d
  have inGap : '\x7d' ∉ style.gap := fun member => by simpa using style.blank_gap _ member
  have inValues := clean.not_mem_values (c := '\x7d') (by decide)
  simp only [List.mem_append, not_or]
  exact ⟨⟨inMargin, inValues⟩, inGap⟩

/-- The word after the at sign of an animation. -/
def Keyframes.word (a : Keyframes) : List Char := (a.vendor.getD "").toList ++ "keyframes".toList

theorem Keyframes.Clean.space_not_mem_word {a : Keyframes} (clean : a.Clean) : ' ' ∉ a.word := by
  intro member
  rcases List.mem_append.mp member with member | member
  · cases vendor : a.vendor with
    | none => simp [vendor] at member
    | some v =>
      rw [vendor, Option.getD_some] at member
      exact (clean.2.1 v vendor).2.not_mem List.mem_cons_self member
  · revert member
    decide

theorem charsOf_keyframes (d : Nat) (a : Keyframes) :
    charsOf (style.keyframes d a) =
      style.margin d ++ '@' :: (a.word ++ ' ' :: (a.name.toList ++ (style.gap ++ '\x7b' ::
        (style.breakChars ++ (charsOf (style.separated (a.blocks.map (style.keyframe (d + 1)))) ++
          (style.margin d ++ '\x7d' :: style.breakChars)))))) := by
  simp [Style.keyframes, Keyframes.word]

theorem vendor_inj {a b : Keyframes} (left : a.Clean) (right : b.Clean) (h : a.word = b.word) :
    a.vendor = b.vendor := by
  have texts : a.vendor.getD "" = b.vendor.getD "" :=
    String.toList_inj.mp (List.append_cancel_right h)
  cases ha : a.vendor with
  | none =>
    cases hb : b.vendor with
    | none => rfl
    | some w => exact absurd (by simpa [ha, hb] using texts.symm) (right.2.1 w hb).1
  | some v =>
    cases hb : b.vendor with
    | none => exact absurd (by simpa [ha, hb] using texts) (left.2.1 v ha).1
    | some w => simpa [ha, hb] using texts

theorem keyframes_inj (blank : style.Blank) {d : Nat} {a b : Keyframes} {k l : List Char}
    (left : a.Clean) (right : b.Clean)
    (h : charsOf (style.keyframes d a) ++ k = charsOf (style.keyframes d b) ++ l) :
    a.bare style.compress = b.bare style.compress ∧ k = l := by
  simp only [charsOf_keyframes, List.append_assoc, List.cons_append,
    List.append_cancel_left_eq, List.cons.injEq, true_and] at h
  obtain ⟨words, h⟩ := cut_at_inj left.space_not_mem_word right.space_not_mem_word h
  obtain ⟨names, body⟩ :=
    header_inj (left.1.not_mem (by decide)) (right.1.not_mem (by decide)) h
  obtain ⟨blocks, behind⟩ := group_inj blank
    (fun x member y member' k l => keyframe_inj blank (left.2.2 x member) (right.2.2 y member'))
    (fun x member => not_closing_keyframe blank _ (left.2.2 x member))
    (fun y member => not_closing_keyframe blank _ (right.2.2 y member)) body
  exact ⟨by simp [Keyframes.bare, names, vendor_inj left right words, blocks], behind⟩

/-! ### Rules -/

theorem charsOf_rule (d : Nat) {r : Rule} {s : String} {ss : List String}
    (selectors : r.selectors = s :: ss) :
    charsOf (style.rule d r) =
      style.margin d ++ (s.toList ++ (charsOf (style.moreSelectors d ss) ++
        charsOf (style.block d r.declarations))) := by
  simp [Style.rule, Style.selectors, selectors]

theorem rule_inj (blank : style.Blank) {d : Nat} {r t : Rule} {k l : List Char}
    (left : r.Clean) (right : t.Clean) (someLeft : r.selectors ≠ []) (someRight : t.selectors ≠ [])
    (h : charsOf (style.rule d r) ++ k = charsOf (style.rule d t) ++ l) :
    r.bare style.compress = t.bare style.compress ∧ k = l := by
  obtain ⟨s, ss, selectors⟩ := List.exists_cons_of_ne_nil someLeft
  obtain ⟨s', ss', selectors'⟩ := List.exists_cons_of_ne_nil someRight
  simp only [charsOf_rule d selectors, charsOf_rule d selectors', charsOf_block, List.append_assoc,
    List.cons_append, List.append_cancel_left_eq] at h
  obtain ⟨same, body⟩ := selectors_inj blank
    (fun x member => (left.1 x (selectors ▸ member)).1)
    (fun x member => (right.1 x (selectors' ▸ member)).1) h
  obtain ⟨declarations, behind⟩ := block_inj blank left.2 right.2 body
  exact ⟨by simp [Rule.bare, selectors, selectors', same, declarations], behind⟩

/-- A selector is followed by a comma or by the block, with blanks in front of either. -/
theorem selector_end (blank : style.Blank) (d : Nat) (ss : List String) (ds : List Declaration) :
    ∃ pad a rest, (∀ c ∈ pad, c = ' ' ∨ c = '\t') ∧ a ∈ [',', '\x7b'] ∧
      charsOf (style.moreSelectors d ss) ++ charsOf (style.block d ds) = pad ++ a :: rest := by
  rw [charsOf_block]
  cases ss with
  | nil => exact ⟨style.gap, '\x7b', _, style.blank_gap, by decide, rfl⟩
  | cons s ss =>
    rw [charsOf_moreSelectors_cons, List.append_assoc, List.cons_append]
    exact ⟨style.margin d, ',', _, blank.margin d, by decide, rfl⟩

/-! ### Nodes -/

def kindOfWord (word : List Char) : Kind :=
  if word = "charset".toList then .charset
  else if word = "media".toList then .media
  else if word = "import".toList then .imports
  else .keyframes

/-- What a text behind its indentation starts with. -/
def kindAhead : List Char → Kind
  | '/' :: _ => .comment
  | '@' :: rest => kindOfWord (rest.takeWhile (· ≠ ' '))
  | _ => .rule

theorem kindAhead_at {word : List Char} (space : ' ' ∉ word) (k : List Char) :
    kindAhead ('@' :: (word ++ ' ' :: k)) = kindOfWord word := by
  have whole : (word ++ ' ' :: k).takeWhile (· ≠ ' ') = word := by
    rw [List.takeWhile_append_of_pos]
    · simp
    · intro c member
      have other : c ≠ ' ' := fun equal => space (equal ▸ member)
      simpa using other
  rw [kindAhead, whole]

theorem kindAhead_rule {k : List Char} (sign : k.head? ≠ some '@') (slash : k.head? ≠ some '/') :
    kindAhead k = .rule := by
  unfold kindAhead
  split
  · exact absurd rfl slash
  · exact absurd rfl sign
  · rfl

theorem kindOfWord_keyframes (a : Keyframes) : kindOfWord a.word = .keyframes := by
  have other {word : List Char} (unlike : ¬"keyframes".toList <:+ word) : a.word ≠ word :=
    fun equal => unlike (equal ▸ List.suffix_append _ _)
  rw [kindOfWord, if_neg (other (by decide)), if_neg (other (by decide)),
    if_neg (other (by decide))]

/-- A clean node that is printed and whose rules have selectors. -/
structure Node.Legible (compress : Bool) (n : Node) : Prop where
  clean : n.Clean
  selected : ∀ r, Node.rule r ∈ n.all → r.selectors ≠ []
  printed : n.isPrinted compress = true

theorem Node.all_subset_allIn {n : Node} {ns : List Node} (member : n ∈ ns) :
    n.all ⊆ Node.allIn ns := by
  induction ns with
  | nil => cases member
  | cons m ns ih =>
    rw [Node.allIn]
    rcases List.mem_cons.mp member with rfl | member
    · exact List.subset_append_left _ _
    · exact List.Subset.trans (ih member) (List.subset_append_right _ _)

theorem legible_filter (compress : Bool) {ns : List Node} (clean : Node.CleanAll ns)
    (selected : ∀ r, Node.rule r ∈ Node.allIn ns → r.selectors ≠ []) :
    ∀ n ∈ ns.filter (·.isPrinted compress), n.Legible compress := by
  intro n member
  obtain ⟨inside, printed⟩ := List.mem_filter.mp member
  exact ⟨(Node.cleanAll_iff ns).mp clean n inside,
    fun r among => selected r (Node.all_subset_allIn inside among), printed⟩

theorem charsOf_nodeList (d : Nat) (ns : List Node) :
    charsOf (style.separated (style.nodeList d ns)) =
      charsOf (style.separated ((ns.filter (·.isPrinted style.compress)).map (style.node d))) := by
  rw [Style.nodeList_eq_map]
  refine charsOf_separated_filter (fun n unprinted => ?_) ns
  cases n with
  | comment text =>
    have compress : style.compress = true := by simpa [Node.isPrinted] using unprinted
    exact ⟨compress, by simp [Style.node, Style.comment, compress]⟩
  | _ => cases unprinted

theorem charsOf_media (d : Nat) (query : String) (ns : List Node) :
    charsOf (style.node d (.media query ns)) =
      style.margin d ++ '@' :: ("media".toList ++ ' ' :: (query.toList ++ (style.gap ++ '\x7b' ::
        (style.breakChars ++ (charsOf (style.separated (style.nodeList (d + 1) ns)) ++
          (style.margin d ++ '\x7d' :: style.breakChars)))))) := by
  simp [Style.node]

theorem charsOf_charset (d : Nat) (text : String) :
    charsOf (style.node d (.charset text)) =
      style.margin d ++ '@' :: ("charset".toList ++ ' ' :: (text.toList ++
        ';' :: style.breakChars)) := by
  simp [Style.node]

theorem charsOf_imports (d : Nat) (text : String) :
    charsOf (style.node d (.imports text)) =
      style.margin d ++ '@' :: ("import".toList ++ ' ' :: (text.toList ++ [';'])) := by
  simp [Style.node]

theorem rule_head (blank : style.Blank) (d : Nat) {r : Rule} (clean : r.Clean)
    (selected : r.selectors ≠ []) :
    ∃ body, charsOf (style.rule d r) = style.margin d ++ body ∧
      ∀ k, kindAhead (body ++ k) = .rule ∧ ¬Closing (style.margin d ++ (body ++ k)) := by
  obtain ⟨s, ss, selectors⟩ := List.exists_cons_of_ne_nil selected
  obtain ⟨avoids, notSign, notSlash⟩ := clean.1 s (by simp [selectors])
  obtain ⟨pad, a, rest, blanks, stop, ended⟩ := selector_end blank d ss r.declarations
  refine ⟨_, by rw [charsOf_rule d selectors, ended], fun k => ?_⟩
  have apart {c : Char} (other : c ∉ [',', '\x7b', ' ', '\t']) : c ∉ pad ++ [a] := by
    intro member
    rcases List.mem_append.mp member with member | member
    · rcases blanks c member with rfl | rfl <;> exact other (by decide)
    · rw [List.mem_singleton.mp member] at other
      exact other (List.mem_append_left [' ', '\t'] stop)
  have next {c : Char} (other : c ∉ [',', '\x7b', ' ', '\t']) :
      (pad ++ a :: (rest ++ k)).head? ≠ some c := by
    intro head
    have first : (pad ++ [a]).head? = some c := by
      cases pad <;> simpa using head
    exact apart other (List.mem_of_head? first)
  simp only [List.append_assoc, List.cons_append]
  constructor
  · exact kindAhead_rule (head?_append_ne notSign (next (by decide)))
      (head?_append_ne notSlash (next (by decide)))
  · rw [← List.append_assoc, ← List.append_assoc]
    have brace := apart (c := '\x7d') (by decide)
    have inMargin := blank.brace_not_mem_margin d
    have inText : '\x7d' ∉ s.toList := avoids.not_mem (by decide)
    rw [List.mem_append, not_or] at brace
    refine not_closing ?_ ?_ ?_ ?_
    · simp only [List.mem_append, not_or]
      exact ⟨⟨inMargin, inText⟩, brace.1⟩
    all_goals
      rintro rfl
      revert stop
      decide

/-- The text of a node shows its kind and does not look like the end of a block. -/
theorem node_head (blank : style.Blank) (d : Nat) {n : Node} (legible : n.Legible style.compress) :
    ∃ body, charsOf (style.node d n) = style.margin d ++ body ∧
      ∀ k, kindAhead (body ++ k) = n.kind ∧ ¬Closing (style.margin d ++ (body ++ k)) := by
  have inMargin := blank.brace_not_mem_margin d
  have sign {word : List Char} (space : ' ' ∉ word) {kind : Kind} (known : kindOfWord word = kind)
      (rest k : List Char) : kindAhead ('@' :: (word ++ ' ' :: rest) ++ k) = kind ∧
        ¬Closing (style.margin d ++ ('@' :: (word ++ ' ' :: rest) ++ k)) := by
    rw [List.cons_append, List.append_assoc, List.cons_append]
    exact ⟨(kindAhead_at space _).trans known,
      not_closing inMargin (by decide) (by decide) (by decide)⟩
  cases n with
  | comment text =>
    have kept : style.compress = false := by
      simpa [Node.isPrinted] using legible.printed
    exact ⟨_, by rw [Style.node, charsOf_styleComment kept],
      fun k => ⟨rfl, not_closing (a := '/') inMargin (by decide) (by decide) (by decide)⟩⟩
  | charset text => exact ⟨_, charsOf_charset d text, sign (by decide) rfl _⟩
  | keyframes a =>
    have clean : a.Clean := legible.clean
    exact ⟨_, by rw [Style.node, charsOf_keyframes],
      sign clean.space_not_mem_word (kindOfWord_keyframes a) _⟩
  | media query ns => exact ⟨_, charsOf_media d query ns, sign (by decide) rfl _⟩
  | imports text => exact ⟨_, charsOf_imports d text, sign (by decide) rfl _⟩
  | rule r =>
    have clean : r.Clean := legible.clean
    rw [Style.node]
    exact rule_head blank d clean (legible.selected r (by simp [Node.all]))

/-- The text of a node tells the node, and where it ends. -/
def Node.Inverts (style : Style) (n : Node) : Prop :=
  ∀ (d : Nat) (m : Node) (k l : List Char), n.Legible style.compress → m.Legible style.compress →
    charsOf (style.node d n) ++ k = charsOf (style.node d m) ++ l →
    n.bare style.compress = m.bare style.compress ∧ k = l

theorem kind_eq_of_text (blank : style.Blank) {d : Nat} {n m : Node} {k l : List Char}
    (left : n.Legible style.compress) (right : m.Legible style.compress)
    (h : charsOf (style.node d n) ++ k = charsOf (style.node d m) ++ l) : n.kind = m.kind := by
  obtain ⟨body, text, head⟩ := node_head blank d left
  obtain ⟨body', text', head'⟩ := node_head blank d right
  rw [text, text', List.append_assoc, List.append_assoc, List.append_cancel_left_eq] at h
  rw [← (head k).1, ← (head' l).1, h]

theorem not_closing_node (blank : style.Blank) (d : Nat) {n : Node}
    (legible : n.Legible style.compress) (k : List Char) :
    ¬Closing (charsOf (style.node d n) ++ k) := by
  obtain ⟨body, text, head⟩ := node_head blank d legible
  rw [text, List.append_assoc]
  exact (head k).2

theorem statement_inj {s t : String} {k l : List Char} (left : Avoids s reserved)
    (right : Avoids t reserved) (h : s.toList ++ ';' :: k = t.toList ++ ';' :: l) :
    s = t ∧ k = l := by
  obtain ⟨texts, behind⟩ := cut_at_inj (left.not_mem (by decide)) (right.not_mem (by decide)) h
  exact ⟨String.toList_inj.mp texts, behind⟩

theorem media_inj (blank : style.Blank) {query : String} {ns : List Node}
    (each : ∀ n ∈ ns, n.Inverts style) : (Node.media query ns).Inverts style := by
  intro d m k l left right h
  have same := kind_eq_of_text blank left right h
  cases m with
  | media query' ms =>
    obtain ⟨cleanQuery, cleanAll⟩ : Avoids query reserved ∧ Node.CleanAll ns := left.clean
    obtain ⟨cleanQuery', cleanAll'⟩ : Avoids query' reserved ∧ Node.CleanAll ms := right.clean
    have inside := legible_filter style.compress cleanAll fun r among =>
      left.selected r (by simp [Node.all, among])
    have inside' := legible_filter style.compress cleanAll' fun r among =>
      right.selected r (by simp [Node.all, among])
    simp only [charsOf_media, charsOf_nodeList, List.append_assoc, List.cons_append,
      List.append_cancel_left_eq, List.cons.injEq, true_and] at h
    obtain ⟨queries, body⟩ :=
      header_inj (cleanQuery.not_mem (by decide)) (cleanQuery'.not_mem (by decide)) h
    obtain ⟨nodes, behind⟩ := group_inj blank
      (fun x member y member' k l => each x (List.mem_filter.mp member).1 (d + 1) y k l
        (inside x member) (inside' y member'))
      (fun x member => not_closing_node blank _ (inside x member))
      (fun y member => not_closing_node blank _ (inside' y member)) body
    refine ⟨?_, behind⟩
    rw [Node.bare, Node.bare, Node.bareAll_eq, Node.bareAll_eq, queries, nodes]
  | _ => cases same

-- Once the kinds agree, the other constructors are out and the two texts have the same form.
mutual

theorem inverts_node (blank : style.Blank) : (n : Node) → n.Inverts style
  | .comment text => by
    intro d m k l left right h
    have same := kind_eq_of_text blank left right h
    cases m with
    | comment text' =>
      have kept : style.compress = false := by simpa [Node.isPrinted] using left.printed
      have unclosed : Unclosed text := left.clean
      have unclosed' : Unclosed text' := right.clean
      simp only [Style.node, charsOf_styleComment kept, List.append_assoc, List.cons_append,
        List.append_cancel_left_eq, List.cons.injEq, true_and, List.nil_append] at h
      obtain ⟨texts, behind⟩ := comment_inj unclosed unclosed' h
      rw [String.toList_inj.mp texts]
      exact ⟨rfl, (List.cons.inj behind).2⟩
    | _ => cases same
  | .charset text => by
    intro d m k l left right h
    have same := kind_eq_of_text blank left right h
    cases m with
    | charset text' =>
      have avoids : Avoids text reserved := left.clean
      have avoids' : Avoids text' reserved := right.clean
      simp only [charsOf_charset, List.append_assoc, List.cons_append,
        List.append_cancel_left_eq, List.cons.injEq, true_and] at h
      obtain ⟨texts, behind⟩ := statement_inj avoids avoids' h
      rw [texts]
      exact ⟨rfl, List.append_cancel_left behind⟩
    | _ => cases same
  | .imports text => by
    intro d m k l left right h
    have same := kind_eq_of_text blank left right h
    cases m with
    | imports text' =>
      have avoids : Avoids text reserved := left.clean
      have avoids' : Avoids text' reserved := right.clean
      simp only [charsOf_imports, List.append_assoc, List.cons_append, List.nil_append,
        List.append_cancel_left_eq, List.cons.injEq, true_and] at h
      obtain ⟨texts, behind⟩ := statement_inj avoids avoids' h
      rw [texts]
      exact ⟨rfl, behind⟩
    | _ => cases same
  | .keyframes a => by
    intro d m k l left right h
    have same := kind_eq_of_text blank left right h
    cases m with
    | keyframes b =>
      have clean : a.Clean := left.clean
      have clean' : b.Clean := right.clean
      rw [Style.node, Style.node] at h
      obtain ⟨equal, behind⟩ := keyframes_inj blank clean clean' h
      exact ⟨by rw [Node.bare, Node.bare, equal], behind⟩
    | _ => cases same
  | .rule r => by
    intro d m k l left right h
    have same := kind_eq_of_text blank left right h
    cases m with
    | rule t =>
      have clean : r.Clean := left.clean
      have clean' : t.Clean := right.clean
      rw [Style.node, Style.node] at h
      obtain ⟨equal, behind⟩ := rule_inj blank clean clean'
        (left.selected r (by simp [Node.all])) (right.selected t (by simp [Node.all])) h
      exact ⟨by rw [Node.bare, Node.bare, equal], behind⟩
    | _ => cases same
  | .media query ns => media_inj blank (inverts_nodes blank ns)

theorem inverts_nodes (blank : style.Blank) : (ns : List Node) → ∀ n ∈ ns, n.Inverts style
  | [] => fun _ member => absurd member List.not_mem_nil
  | n :: ns => List.forall_mem_cons.mpr ⟨inverts_node blank n, inverts_nodes blank ns⟩

end

end Nodes

/-- Clean documents that are printed to the same text differ in positions only and, if the layout is
compressed, in comments. -/
theorem Document.print_injective (options : Options)
    (blank : ∀ c ∈ options.unit.toList, c = ' ' ∨ c = '\t') (d e : Document) (left : d.Clean)
    (right : e.Clean) (p q : Printed) (hd : d.print options = .ok p)
    (he : e.print options = .ok q) (same : p.css = q.css) :
    d.bare options.compress = e.bare options.compress := by
  have spaced : options.style.Blank := blank
  have rules (d : Document) {p : Printed} (h : d.print options = .ok p) (r : Rule)
      (among : Node.rule r ∈ Node.allIn d.nodes) : r.selectors ≠ [] :=
    d.selectors_of_print h r (List.mem_filterMap.mpr ⟨.rule r, among, rfl⟩)
  have inside := legible_filter options.compress left (rules d hd)
  have inside' := legible_filter options.compress right (rules e he)
  rw [(Document.print_eq_ok hd).2, (Document.print_eq_ok he).2] at same
  have texts : charsOf (options.style.nodes 0 d.nodes) ++ [] =
      charsOf (options.style.nodes 0 e.nodes) ++ [] := by
    have chars := congrArg String.toList same
    rw [String.toList_append, String.toList_append] at chars
    rw [List.append_nil, List.append_nil]
    exact List.append_cancel_right chars
  rw [Style.nodes, Style.nodes, charsOf_nodeList, charsOf_nodeList] at texts
  obtain ⟨nodes, -⟩ := siblings_inj
    (fun x member y member' k l =>
      inverts_node spaced x 0 y k l (inside x member) (inside' y member'))
    (fun x member => not_closing_node spaced 0 (inside x member))
    (fun y member => not_closing_node spaced 0 (inside' y member)) closing_nil closing_nil texts
  rw [Document.bare, Document.bare, Node.bareAll_eq, Node.bareAll_eq]
  exact congrArg Document.mk nodes

/-- A document without comments and positions. -/
def plainSheet : Document where
  nodes := [.imports "'a.css'", .keyframes ⟨"fade", some "-webkit-", [⟨["from", "50%"], []⟩]⟩,
    .media "print" [.rule ⟨["a", "b"], [.property ⟨"color", "red", none⟩], none⟩]]

def notedSheet : Document where
  nodes := [.comment "header", .imports "'a.css'",
    .keyframes ⟨"fade", some "-webkit-", [⟨["from", "50%"], []⟩]⟩,
    .media "print" [.comment "*",
      .rule ⟨["a", "b"], [.comment "x", .property ⟨"color", "red", some (.ofStart 3 5)⟩],
        some (.ofStart 2 1)⟩]]

theorem clean_plainSheet : plainSheet.Clean := by
  simp [Document.Clean, plainSheet, Node.CleanAll, Node.Clean, Keyframes.Clean, Keyframe.Clean,
    Rule.Clean, Declaration.Clean, Avoids, Unsigned, reserved]

theorem clean_notedSheet : notedSheet.Clean := by
  simp [Document.Clean, notedSheet, Node.CleanAll, Node.Clean, Keyframes.Clean, Keyframe.Clean,
    Rule.Clean, Declaration.Clean, Avoids, Unsigned, Unclosed, reserved]
  decide

theorem print_injective_compressed :
    ∃ p q, plainSheet.print { compress := true, map := true } = .ok p ∧
      notedSheet.print { compress := true, map := true } = .ok q ∧ p.css = q.css ∧
      plainSheet.bare true = notedSheet.bare true := by
  have plain : plainSheet.print { compress := true, map := true } = .ok ⟨_, _⟩ :=
    (Document.print_eq_ok_iff rfl).mpr ⟨by decide, by decide, rfl, rfl⟩
  have noted : notedSheet.print { compress := true, map := true } = .ok ⟨_, _⟩ :=
    (Document.print_eq_ok_iff rfl).mpr ⟨by decide, by decide, rfl, rfl⟩
  have same : rendered (plainSheet.fragments { compress := true, map := true }) =
      rendered (notedSheet.fragments { compress := true, map := true }) := by rfl
  have blank : ∀ c ∈ (Options.unit { compress := true, map := true }).toList,
      c = ' ' ∨ c = '\t' := by
    simp [Options.unit, nonEmpty]
  exact ⟨_, _, plain, noted, congrArg (· ++ _) same,
    Document.print_injective _ blank plainSheet notedSheet clean_plainSheet clean_notedSheet _ _
      plain noted (congrArg (· ++ _) same)⟩

end CssPrinter
