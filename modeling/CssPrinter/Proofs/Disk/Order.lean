import CssPrinter.Disk.Path
import Mathlib.Data.List.Lex
import Mathlib.Data.String.Basic

/-!
# The order of paths

Sorted paths ascend strictly, and a path is among them if it is the first of those equal to it
(`mem_sorted_iff`). These two facts determine the list, so a path that equals none of the others is
put in between them and moves none (`sorted_insert`), and paths that equal the same ones are sorted
alike (`map_components_sorted`).
-/

namespace CssPrinter

/-! ### Components -/

namespace Component

def rank : Component → Nat
  | .root => 0
  | .here => 1
  | .up => 2
  | .name _ => 3

/-- The root comes first, then this directory, the parent and names. Names are in the order of their
texts. -/
def Before : Component → Component → Prop
  | .name m, .name n => m < n
  | c, d => c.rank < d.rank

theorem before_name_iff {m n : String} : (name m).Before (.name n) ↔ m < n := Iff.rfl

theorem key_lt_iff (c d : Component) : c.key < d.key ↔ c.Before d := by
  rw [String.lt_iff_toList_lt]
  cases c <;> cases d
  case name.name m n =>
    rw [before_name_iff, String.lt_iff_toList_lt]
    simp [key]
  all_goals simp [key, Before, rank, List.cons_lt_cons_iff, -not_lt]

theorem key_injective : Function.Injective key := by
  intro c d same
  have chars := congrArg String.toList same
  cases c <;> cases d <;> simp [key, String.toList_inj] at chars ⊢
  exact chars

end Component

namespace Path

/-- Paths are ordered by their first components that differ, and a path comes before those that go
on from it. -/
def Before (p q : Path) : Prop := p.components.Lex Component.Before q.components

theorem key_lt_iff {p q : Path} : p.key < q.key ↔ p.Before q := by
  unfold Before key
  generalize p.components = cs
  generalize q.components = ds
  show List.Lex (· < ·) _ _ ↔ _
  induction cs generalizing ds with
  | nil => cases ds <;> simp
  | cons c cs ih =>
    cases ds with
    | nil => simp
    | cons d ds =>
      rw [List.map_cons, List.map_cons, List.cons_lex_cons_iff, List.cons_lex_cons_iff,
        Component.key_lt_iff, Component.key_injective.eq_iff, ih]

theorem key_eq_iff {p q : Path} : p.key = q.key ↔ p.components = q.components :=
  Component.key_injective.list_map.eq_iff

/-! ### Sorting -/

def precedes (p q : Path) : Bool := !q.key.lex p.key

theorem precedes_iff {p q : Path} : precedes p q = true ↔ p.key ≤ q.key := by
  unfold precedes
  rw [Bool.not_eq_true', ← Bool.not_eq_true, ← not_lt]
  exact not_congr List.lex_eq_true_iff_lt

theorem precedes_trans (p q r : Path) (first : precedes p q = true) (second : precedes q r = true) :
    precedes p r = true :=
  precedes_iff.mpr ((precedes_iff.mp first).trans (precedes_iff.mp second))

theorem precedes_total (p q : Path) : (precedes p q || precedes q p) = true := by
  rw [Bool.or_eq_true, precedes_iff, precedes_iff]
  exact le_total _ _

theorem ascending_mergeSort (paths : List Path) :
    (paths.mergeSort precedes).Pairwise (·.key ≤ ·.key) :=
  (List.pairwise_mergeSort precedes_trans precedes_total paths).imp precedes_iff.mp

/-- The paths that equal those with a key. -/
def equals (k : List String) (paths : List Path) : List Path := paths.filter (·.key = k)

theorem mem_equals {k : List String} {paths : List Path} {p : Path} :
    p ∈ equals k paths ↔ p ∈ paths ∧ p.key = k := by
  simp [equals]

/-- Sorting leaves equal paths in the order they were in. -/
theorem equals_mergeSort (k : List String) (paths : List Path) :
    equals k (paths.mergeSort precedes) = equals k paths := by
  have alike : (equals k paths).Pairwise fun p q => precedes p q = true := by
    refine List.pairwise_of_forall_mem_list fun p first q second => ?_
    rw [precedes_iff, (mem_equals.mp first).2, (mem_equals.mp second).2]
  have within : (equals k paths).Sublist (paths.mergeSort precedes) :=
    List.sublist_mergeSort precedes_trans precedes_total alike List.filter_sublist
  have kept : (equals k paths).Sublist (equals k (paths.mergeSort precedes)) := by
    have filtered := within.filter fun p : Path => decide (p.key = k)
    rwa [equals, List.filter_filter, funext fun p : Path => Bool.and_self _] at filtered
  have permuted := (List.mergeSort_perm paths precedes).filter fun p : Path => decide (p.key = k)
  exact (kept.eq_of_length permuted.length_eq.symm).symm

/-! ### Dropping repetitions -/

theorem ascending_distinctAfter {p : Path} {paths : List Path}
    (sorted : (p :: paths).Pairwise (·.key ≤ ·.key)) :
    (p :: distinctAfter p paths).Pairwise (·.key < ·.key) := by
  fun_induction distinctAfter p paths with
  | case1 p => exact List.pairwise_singleton _ p
  | case2 p r rest same ih =>
    exact ih (sorted.sublist ((List.sublist_cons_self r rest).cons_cons p))
  | case3 p r rest other ih =>
    obtain ⟨first, later⟩ := List.pairwise_cons.mp sorted
    have ascending := ih later
    have less : p.key < r.key := lt_of_le_of_ne (first r List.mem_cons_self) (Ne.symm other)
    refine List.pairwise_cons.mpr ⟨fun q member => ?_, ascending⟩
    rcases List.mem_cons.mp member with rfl | member
    · exact less
    · exact less.trans ((List.pairwise_cons.mp ascending).1 q member)

theorem head?_equals_cons {r q : Path} {paths : List Path} :
    (equals q.key (r :: paths)).head? = some q ↔
      q = r ∨ q.key ≠ r.key ∧ (equals q.key paths).head? = some q := by
  unfold equals
  by_cases same : r.key = q.key
  · rw [List.filter_cons_of_pos (by simpa using same), List.head?_cons, Option.some.injEq]
    constructor
    · rintro rfl
      exact Or.inl rfl
    · rintro (rfl | ⟨other, -⟩)
      · rfl
      · exact absurd same.symm other
  · rw [List.filter_cons_of_neg (by simpa using same)]
    constructor
    · intro found
      exact Or.inr ⟨Ne.symm same, found⟩
    · rintro (rfl | ⟨-, found⟩)
      · exact absurd rfl same
      · exact found

/-- Behind `p`, the paths kept are the first of their kind that do not equal `p`. -/
theorem mem_distinctAfter_iff {p q : Path} {paths : List Path}
    (sorted : (p :: paths).Pairwise (·.key ≤ ·.key)) :
    q ∈ distinctAfter p paths ↔ q.key ≠ p.key ∧ (equals q.key paths).head? = some q := by
  fun_induction distinctAfter p paths with
  | case1 p => simp [equals]
  | case2 p r rest same ih =>
    rw [ih (sorted.sublist ((List.sublist_cons_self r rest).cons_cons p)), head?_equals_cons, same]
    constructor
    · rintro ⟨other, found⟩
      exact ⟨other, Or.inr ⟨other, found⟩⟩
    · rintro ⟨other, rfl | ⟨-, found⟩⟩
      · exact absurd same other
      · exact ⟨other, found⟩
  | case3 p r rest other ih =>
    obtain ⟨first, later⟩ := List.pairwise_cons.mp sorted
    rw [List.mem_cons, ih later, head?_equals_cons]
    refine ⟨fun kept => ⟨?_, kept⟩, And.right⟩
    -- What is kept does not come before `r`, and `p` does.
    have less : p.key < r.key := lt_of_le_of_ne (first r List.mem_cons_self) (Ne.symm other)
    rcases kept with rfl | ⟨-, found⟩
    · exact other
    · have member := (mem_equals.mp (List.mem_of_head? found)).1
      exact (less.trans_le ((List.pairwise_cons.mp later).1 q member)).ne'

theorem distinctAfter_of_ascending {p : Path} {paths : List Path}
    (ascending : (p :: paths).Pairwise (·.key < ·.key)) : distinctAfter p paths = paths := by
  induction paths generalizing p with
  | nil => rfl
  | cons r rest ih =>
    obtain ⟨first, later⟩ := List.pairwise_cons.mp ascending
    rw [distinctAfter, if_neg (first r List.mem_cons_self).ne', ih later]

/-! ### Sorted paths -/

theorem ascending_sorted (paths : List Path) : (sorted paths).Pairwise (·.key < ·.key) := by
  have ascending := ascending_mergeSort paths
  change (distinct (paths.mergeSort precedes)).Pairwise _
  cases ordered : paths.mergeSort precedes with
  | nil => exact List.Pairwise.nil
  | cons p rest =>
    rw [ordered] at ascending
    exact ascending_distinctAfter ascending

/-- Of equal paths the first is kept. -/
theorem mem_sorted_iff {paths : List Path} {q : Path} :
    q ∈ sorted paths ↔ (equals q.key paths).head? = some q := by
  have ascending := ascending_mergeSort paths
  rw [← equals_mergeSort]
  change q ∈ distinct (paths.mergeSort precedes) ↔ _
  cases ordered : paths.mergeSort precedes with
  | nil => simp [distinct, equals]
  | cons p rest =>
    rw [ordered] at ascending
    rw [distinct, List.mem_cons, mem_distinctAfter_iff ascending, head?_equals_cons]

theorem mem_of_mem_sorted {paths : List Path} {p : Path} (member : p ∈ sorted paths) :
    p ∈ paths :=
  (mem_equals.mp (List.mem_of_head? (mem_sorted_iff.mp member))).1

theorem sorted_of_ascending {paths : List Path} (ascending : paths.Pairwise (·.key < ·.key)) :
    sorted paths = paths := by
  have ordered : paths.mergeSort precedes = paths :=
    List.mergeSort_of_pairwise (ascending.imp fun less => precedes_iff.mpr less.le)
  change distinct (paths.mergeSort precedes) = paths
  rw [ordered]
  cases paths with
  | nil => rfl
  | cons p rest => rw [distinct, distinctAfter_of_ascending ascending]

theorem exists_mem_sorted {paths : List Path} {p : Path} (member : p ∈ paths) :
    ∃ q ∈ sorted paths, q.key = p.key := by
  have present : p ∈ equals p.key paths := mem_equals.mpr ⟨member, rfl⟩
  obtain ⟨q, found⟩ : ∃ q, (equals p.key paths).head? = some q := by
    cases equal : equals p.key paths with
    | nil => rw [equal] at present; cases present
    | cons q rest => exact ⟨q, rfl⟩
  have same := (mem_equals.mp (List.mem_of_head? found)).2
  exact ⟨q, mem_sorted_iff.mpr (by rw [same]; exact found), same⟩

theorem nodup_of_ascending {paths : List Path} (ascending : paths.Pairwise (·.key < ·.key)) :
    paths.Nodup :=
  ascending.imp fun less equal => less.ne (congrArg key equal)

theorem eq_of_ascending {ps qs : List Path} (first : ps.Pairwise (·.key < ·.key))
    (second : qs.Pairwise (·.key < ·.key)) (same : ∀ p, p ∈ ps ↔ p ∈ qs) : ps = qs := by
  have permuted : ps.Perm qs :=
    (List.perm_ext_iff_of_nodup (nodup_of_ascending first) (nodup_of_ascending second)).mpr same
  exact permuted.eq_of_pairwise (fun p q _ _ less more => absurd (less.trans more) (lt_irrefl _))
    first second

theorem mem_sorted_insert {xs ys : List Path} {p q : Path}
    (fresh : ∀ q ∈ xs ++ ys, q.key ≠ p.key) :
    q ∈ sorted (xs ++ p :: ys) ↔ q = p ∨ q ∈ sorted (xs ++ ys) := by
  rw [mem_sorted_iff, mem_sorted_iff]
  by_cases same : p.key = q.key
  · -- Among the others there is none to compete with `p`.
    have none : equals q.key (xs ++ ys) = [] := by
      refine List.filter_eq_nil_iff.mpr fun r member => ?_
      simpa [← same] using fresh r member
    have only : equals q.key (xs ++ p :: ys) = [p] := by
      unfold equals at none ⊢
      rw [List.filter_append, List.append_eq_nil_iff] at none
      rw [List.filter_append, List.filter_cons_of_pos (by simpa using same), none.1, none.2]
      rfl
    rw [none, only]
    simp [eq_comm]
  · have skipped : equals q.key (xs ++ p :: ys) = equals q.key (xs ++ ys) := by
      unfold equals
      rw [List.filter_append, List.filter_cons_of_neg (by simpa using same), List.filter_append]
    rw [skipped]
    refine ⟨Or.inr, fun either => either.resolve_left ?_⟩
    rintro rfl
    exact same rfl

theorem sorted_insert {xs ys : List Path} {p : Path} (fresh : ∀ q ∈ xs ++ ys, q.key ≠ p.key) :
    ∃ before after, sorted (xs ++ ys) = before ++ after ∧
      sorted (xs ++ p :: ys) = before ++ p :: after := by
  let lower := (sorted (xs ++ ys)).filter fun q => decide (q.key < p.key)
  let upper := (sorted (xs ++ ys)).filter fun q => !decide (q.key < p.key)
  have ascending := ascending_sorted (xs ++ ys)
  have lowerSorted : lower.Pairwise (·.key < ·.key) := ascending.filter _
  have upperSorted : upper.Pairwise (·.key < ·.key) := ascending.filter _
  have below : ∀ q ∈ lower, q.key < p.key :=
    fun q member => by simpa using List.of_mem_filter member
  have above : ∀ q ∈ upper, p.key < q.key := by
    intro q member
    obtain ⟨present, behind⟩ := List.mem_filter.mp member
    have other := fresh q (mem_of_mem_sorted present)
    exact lt_of_le_of_ne (by simpa using behind) (Ne.symm other)
  have whole : ∀ q, q ∈ sorted (xs ++ ys) ↔ q ∈ lower ∨ q ∈ upper := by
    intro q
    rw [List.mem_filter, List.mem_filter]
    by_cases before : q.key < p.key <;> simp [before]
  refine ⟨lower, upper, ?_, ?_⟩
  · refine eq_of_ascending ascending
      (List.pairwise_append.mpr ⟨lowerSorted, upperSorted, ?_⟩) fun q => ?_
    · exact fun q first r second => (below q first).trans (above r second)
    · rw [whole, List.mem_append]
  · refine eq_of_ascending (ascending_sorted _) (List.pairwise_append.mpr
      ⟨lowerSorted, List.pairwise_cons.mpr ⟨above, upperSorted⟩, ?_⟩) fun q => ?_
    · intro q first r second
      rcases List.mem_cons.mp second with rfl | second
      · exact below q first
      · exact (below q first).trans (above r second)
    · rw [mem_sorted_insert fresh, whole, List.mem_append, List.mem_cons]
      exact or_left_comm

/-- Sorted paths have the same components if each of the paths equals one of the others. -/
theorem map_components_sorted {xs ys : List Path}
    (first : ∀ p ∈ xs, ∃ q ∈ ys, q.components = p.components)
    (second : ∀ q ∈ ys, ∃ p ∈ xs, p.components = q.components) :
    (sorted xs).map components = (sorted ys).map components := by
  have keys (paths : List Path) :
      (sorted paths).map key = ((sorted paths).map components).map (List.map Component.key) := by
    rw [List.map_map]
    rfl
  have within {xs ys : List Path} (each : ∀ p ∈ xs, ∃ q ∈ ys, q.components = p.components) :
      ∀ k ∈ (sorted xs).map key, k ∈ (sorted ys).map key := by
    intro k member
    obtain ⟨p, kept, rfl⟩ := List.mem_map.mp member
    obtain ⟨q, given, same⟩ := each p (mem_of_mem_sorted kept)
    obtain ⟨r, kept', same'⟩ := exists_mem_sorted given
    exact List.mem_map.mpr ⟨r, kept', same'.trans (key_eq_iff.mpr same)⟩
  have ascending (paths : List Path) : ((sorted paths).map key).Pairwise (· < ·) :=
    List.pairwise_map.mpr (ascending_sorted paths)
  have unique (paths : List Path) : ((sorted paths).map key).Nodup :=
    (ascending paths).imp fun less => less.ne
  have permuted : ((sorted xs).map key).Perm ((sorted ys).map key) :=
    (List.perm_ext_iff_of_nodup (unique xs) (unique ys)).mpr
      fun k => ⟨within first k, within second k⟩
  have same := permuted.eq_of_pairwise
    (fun k l _ _ less more => absurd (less.trans more) (lt_irrefl _)) (ascending xs) (ascending ys)
  rw [keys, keys] at same
  exact Component.key_injective.list_map.list_map same

end Path

end CssPrinter
