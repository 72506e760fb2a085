import CssPrinter.Proofs.Json.Records
import Mathlib.Data.List.Forall2
import Mathlib.Data.List.Pairwise

/-!
# Fields in any order

A record is read from its members one by one. If its fields can be stored in any order
(`Record.Free`), the order of the members does not matter, nor do members that are no fields
(`Record.ofBody_of_shuffles`, `Record.ofOutline_of_shuffles`).
-/

namespace CssPrinter.Json

namespace Record

variable {π α : Type} {r : Record π α}

/-! ### Members that were read -/

theorem stores_cons_iff {a b : α} {m : String × π} {ms : List (String × π)} :
    r.Stores a (m :: ms) b ↔ ∃ c, r.store a m = .ok c ∧ r.Stores c ms b := by
  unfold Stores
  rw [List.foldlM_cons]
  cases r.store a m <;> simp [bind, Except.bind]

theorem store_of_some {f : Field π α} {m : String × π} (found : r.field? m.1 = some f) (a : α) :
    r.store a m = f.put m.2 a := by
  rw [store, found]

theorem store_of_none {m : String × π} (unknown : r.field? m.1 = none) (a : α) :
    r.store a m = .ok a := by
  rw [store, unknown]

/-- What can be read was stored one by one, with no field twice. -/
theorem stores_of_fill {other : String → π → Except ReadError Unit} {ms : List (String × π)}
    {seen seen' : List String} {a b : α} (filled : r.fill other ms seen a = .ok (seen', b)) :
    r.Stores a ms b ∧ (r.known (ms.map Prod.fst)).Nodup ∧
      (∀ key ∈ r.known (ms.map Prod.fst), key ∉ seen) ∧
      seen' = (r.known (ms.map Prod.fst)).reverse ++ seen := by
  induction ms generalizing seen a with
  | nil =>
    obtain ⟨rfl, rfl⟩ := Prod.mk.inj (Except.ok.inj filled)
    exact ⟨.nil _, List.nodup_nil, fun _ member => (List.not_mem_nil member).elim, rfl⟩
  | cons m ms ih =>
    obtain ⟨key, p⟩ := m
    rw [fill] at filled
    cases found : r.field? key with
    | none =>
      have same : r.known (key :: ms.map Prod.fst) = r.known (ms.map Prod.fst) := by
        simp [known, found]
      rw [found] at filled
      cases passed : other key p with
      | error e => simp only [passed] at filled; cases filled
      | ok _ =>
        simp only [passed] at filled
        obtain ⟨stores, others⟩ := ih filled
        rw [List.map_cons, same]
        exact ⟨stores_cons_iff.mpr ⟨a, store_of_none found a, stores⟩, others⟩
    | some f =>
      have first : r.known (key :: ms.map Prod.fst) = key :: r.known (ms.map Prod.fst) := by
        simp [known, found]
      rw [found] at filled
      dsimp only at filled
      split at filled
      · cases filled
      rename_i fresh
      cases stored : f.put p a with
      | error e => rw [stored] at filled; cases filled
      | ok c =>
        rw [stored] at filled
        obtain ⟨stores, distinct, apart, rfl⟩ := ih filled
        rw [List.map_cons, first]
        refine ⟨stores_cons_iff.mpr ⟨c, (store_of_some found a).trans stored, stores⟩, ?_, ?_, ?_⟩
        · exact List.nodup_cons.mpr ⟨fun member => apart key member List.mem_cons_self, distinct⟩
        · exact List.forall_mem_cons.mpr
            ⟨fresh, fun k member again => apart k member (List.mem_cons_of_mem _ again)⟩
        · rw [List.reverse_cons, List.append_assoc]
          rfl

theorem of_complete {seen : List String} {a b : α} (whole : r.complete seen a = .ok b) :
    (∀ f ∈ r.fields, f.need = .required → f.key ∈ seen) ∧ b = a := by
  unfold complete at whole
  split at whole
  · cases whole
  · rename_i missing
    refine ⟨fun f member required => ?_, (Except.ok.inj whole).symm⟩
    simpa [required] using List.find?_eq_none.mp missing f member

theorem admits_of_fill {other : String → π → Except ReadError Unit} {ms : List (String × π)}
    {seen : List String} {a b : α} (filled : r.fill other ms [] r.blank = .ok (seen, b))
    (whole : r.complete seen b = .ok a) :
    r.Admits (ms.map Prod.fst) ∧ r.Stores r.blank ms a := by
  obtain ⟨stores, distinct, -, rfl⟩ := stores_of_fill filled
  obtain ⟨required, rfl⟩ := of_complete whole
  refine ⟨⟨distinct, fun f member need => ?_⟩, stores⟩
  simpa using required f member need

theorem admits_of_ofBody {ms : List (String × π)} {a : α} (read : r.ofBody (.members ms) = .ok a) :
    r.Admits (ms.map Prod.fst) ∧ r.Stores r.blank ms a := by
  rw [ofBody] at read
  cases filled : r.fill (fun _ _ => .ok ()) ms [] r.blank with
  | error e => rw [filled] at read; cases read
  | ok result =>
    rw [filled] at read
    exact admits_of_fill filled read

theorem admits_of_ofOutline {r : Record Outline α}
    {other : String → Outline → Except ReadError Unit} {ms : List (String × Value)} {a : α}
    (read : r.ofOutline other (Value.object ms).outline = .ok a) :
    r.Admits ((outlined ms).map Prod.fst) ∧ r.Stores r.blank (outlined ms) a := by
  rw [Value.outline, ofOutline, namedMembers_outlines] at read
  cases filled : r.fill other (outlined ms) [] r.blank with
  | error e => simp only [filled] at read; cases read
  | ok result =>
    simp only [filled] at read
    exact admits_of_fill filled read

/-! ### Another order -/

/-- Two fields can be stored in either order. -/
def Swaps (f g : Field π α) : Prop :=
  ∀ p q a c, (∃ b, f.put p a = .ok b ∧ g.put q b = .ok c) ↔
    ∃ b, g.put q a = .ok b ∧ f.put p b = .ok c

instance : Std.Symm (Swaps (π := π) (α := α)) :=
  ⟨fun _ _ swaps p q a c => (swaps q p a c).symm⟩

/-- Fields that are stored in different places can be stored in either order. -/
theorem swaps_of_set {β γ : Type} {f g : Field π α} {x : π → Except ReadError β}
    {y : π → Except ReadError γ} {set : β → α → α} {set' : γ → α → α}
    (first : ∀ p a, f.put p a = x p >>= fun b => pure (set b a))
    (second : ∀ p a, g.put p a = y p >>= fun c => pure (set' c a))
    (apart : ∀ b c a, set' c (set b a) = set b (set' c a)) : Swaps f g := by
  intro p q a c
  simp only [first, second]
  cases x p <;> cases y q <;> simp [bind, Except.bind, pure, Except.pure, apart]

/-- All fields can be stored in any order. -/
def Free (r : Record π α) : Prop := r.fields.Pairwise Swaps

theorem mem_fields_of_field? {key : String} {f : Field π α} (found : r.field? key = some f) :
    f ∈ r.fields ∧ f.key = key :=
  ⟨List.mem_of_find?_eq_some found, by simpa using List.find?_some found⟩

theorem known_perm {keys keys' : List String} (order : keys.Perm keys') :
    (r.known keys).Perm (r.known keys') :=
  order.filter _

theorem Admits.perm {keys keys' : List String} (admits : r.Admits keys)
    (order : (r.known keys).Perm (r.known keys')) : r.Admits keys' :=
  ⟨order.nodup_iff.mp admits.1, fun f member need => order.subset (admits.2 f member need)⟩

theorem Stores.perm (free : r.Free) {ms ns : List (String × π)} (order : ms.Perm ns) {a b : α}
    (distinct : (r.known (ms.map Prod.fst)).Nodup) (stores : r.Stores a ms b) :
    r.Stores a ns b := by
  induction order generalizing a with
  | nil => exact stores
  | cons m order ih =>
    obtain ⟨c, first, others⟩ := stores_cons_iff.mp stores
    refine stores_cons_iff.mpr ⟨c, first, ih ?_ others⟩
    exact distinct.sublist ((List.sublist_cons_self _ _).filter _)
  | swap m n ms =>
    obtain ⟨c, first, rest⟩ := stores_cons_iff.mp stores
    obtain ⟨d, second, others⟩ := stores_cons_iff.mp rest
    suffices swapped : ∃ c', r.store a m = .ok c' ∧ r.store c' n = .ok d by
      obtain ⟨c', first', second'⟩ := swapped
      exact stores_cons_iff.mpr ⟨c', first', stores_cons_iff.mpr ⟨d, second', others⟩⟩
    cases foundN : r.field? n.1 with
    | none =>
      rw [store_of_none foundN] at first
      obtain rfl := Except.ok.inj first
      exact ⟨d, second, store_of_none foundN d⟩
    | some f =>
      cases foundM : r.field? m.1 with
      | none =>
        rw [store_of_none foundM] at second
        obtain rfl := Except.ok.inj second
        exact ⟨a, store_of_none foundM a, first⟩
      | some g =>
        obtain ⟨memberF, keyF⟩ := mem_fields_of_field? foundN
        obtain ⟨memberG, keyG⟩ := mem_fields_of_field? foundM
        -- Both are fields, so they are different ones and can be swapped.
        have apart : f ≠ g := by
          rintro rfl
          have heads : r.known (n.1 :: m.1 :: ms.map Prod.fst) =
              n.1 :: m.1 :: r.known (ms.map Prod.fst) := by
            simp [known, foundN, foundM]
          rw [List.map_cons, List.map_cons, heads, ← keyF, ← keyG] at distinct
          exact (List.nodup_cons.mp distinct).1 List.mem_cons_self
        have swaps : Swaps f g := free.forall memberF memberG apart
        rw [store_of_some foundN] at first
        rw [store_of_some foundM] at second
        obtain ⟨c', first', second'⟩ := (swaps _ _ _ _).mp ⟨c, first, second⟩
        exact ⟨c', (store_of_some foundM a).trans first', (store_of_some foundN c').trans second'⟩
  | trans order _ ih ih' =>
    exact ih' ((known_perm (order.map Prod.fst)).nodup_iff.mp distinct) (ih distinct stores)

theorem stores_of_unknown {ms : List (String × π)} (unknown : ∀ m ∈ ms, r.field? m.1 = none)
    (a : α) : r.Stores a ms a := by
  induction ms with
  | nil => exact .nil a
  | cons m ms ih =>
    obtain ⟨first, others⟩ := List.forall_mem_cons.mp unknown
    exact stores_cons_iff.mpr ⟨a, store_of_none first a, ih others⟩

theorem known_of_unknown {ms : List (String × π)} (unknown : ∀ m ∈ ms, r.field? m.1 = none) :
    r.known (ms.map Prod.fst) = [] := by
  refine List.filter_eq_nil_iff.mpr fun key member => ?_
  obtain ⟨m, present, rfl⟩ := List.mem_map.mp member
  simp [unknown m present]

/-- Whatever can be stored from the first member can be stored from the second one. -/
def Follows (r : Record π α) (m n : String × π) : Prop :=
  m.1 = n.1 ∧ ∀ a b, r.store a m = .ok b → r.store a n = .ok b

theorem Stores.follows {ms ns : List (String × π)} (same : List.Forall₂ r.Follows ms ns) {a b : α}
    (stores : r.Stores a ms b) : r.Stores a ns b := by
  induction same generalizing a with
  | nil => exact stores
  | cons first _ ih =>
    obtain ⟨c, stored, others⟩ := stores_cons_iff.mp stores
    exact stores_cons_iff.mpr ⟨c, first.2 a c stored, ih others⟩

theorem map_fst_of_follows {ms ns : List (String × π)} (same : List.Forall₂ r.Follows ms ns) :
    ms.map Prod.fst = ns.map Prod.fst := by
  induction same with
  | nil => rfl
  | cons first _ ih => rw [List.map_cons, List.map_cons, first.1, ih]

/-- The members of `ns` are those that follow `ms`, in any order, and others that are no fields. -/
def Shuffles (r : Record π α) (ms ns : List (String × π)) : Prop :=
  ∃ present extra, List.Forall₂ r.Follows ms present ∧ ns.Perm (present ++ extra) ∧
    ∀ m ∈ extra, r.field? m.1 = none

namespace Shuffles

variable {ms ns : List (String × π)}

theorem known_perm (h : r.Shuffles ms ns) :
    (r.known (ms.map Prod.fst)).Perm (r.known (ns.map Prod.fst)) := by
  obtain ⟨present, extra, same, order, unknown⟩ := h
  have keys := Record.known_perm (r := r) (order.map Prod.fst)
  have none := known_of_unknown unknown
  rw [known] at none
  rw [List.map_append, known, known, List.filter_append, none, List.append_nil,
    ← map_fst_of_follows same] at keys
  exact keys.symm

theorem stores (h : r.Shuffles ms ns) (free : r.Free)
    (distinct : (r.known (ms.map Prod.fst)).Nodup) {a b : α} (stores : r.Stores a ms b) :
    r.Stores a ns b := by
  have shuffled := h.known_perm.nodup_iff.mp distinct
  obtain ⟨present, extra, same, order, unknown⟩ := h
  refine Stores.perm free order.symm ?_ ((stores.follows same).append (stores_of_unknown unknown b))
  exact (Record.known_perm (order.map Prod.fst)).nodup_iff.mp shuffled

end Shuffles

theorem ofBody_of_shuffles (free : r.Free) {ms ns : List (String × π)} (shuffles : r.Shuffles ms ns)
    {a : α} (read : r.ofBody (.members ms) = .ok a) : r.ofBody (.members ns) = .ok a := by
  obtain ⟨admits, stores⟩ := admits_of_ofBody read
  exact ofBody_members (admits.perm shuffles.known_perm) (shuffles.stores free admits.1 stores)

theorem ofOutline_of_shuffles {r : Record Outline α}
    {other : String → Outline → Except ReadError Unit} (free : r.Free)
    {ms ns : List (String × Value)} (shuffles : r.Shuffles (outlined ms) (outlined ns))
    (passed : ∀ m ∈ outlined ns, r.field? m.1 = none → other m.1 m.2 = .ok ()) {a : α}
    (read : r.ofOutline other (Value.object ms).outline = .ok a) :
    r.ofOutline other (Value.object ns).outline = .ok a := by
  obtain ⟨admits, stores⟩ := admits_of_ofOutline read
  exact ofOutline_object passed (admits.perm shuffles.known_perm)
    (shuffles.stores free admits.1 stores)

end Record

end CssPrinter.Json
