import CssPrinter.Json.Record
import CssPrinter.Proofs.Json.RoundTrip

/-!
# Reading records

An object is read as a record if its keys are admitted and its members are stored one by one
(`Record.ofBody_members`, `Record.ofOutline_object`). The tag of an object may stand anywhere among
its members (`TaggedAs`). The object is read as its kind and its other members, from a value as from
the outline of one (`Tags.bodyOfValue_tagged`, `Tags.bodyOfOutline_tagged`).
-/

namespace CssPrinter.Json

/-! ### Records -/

namespace Record

section Keys

variable {π α : Type} (r : Record π α)

/-- The keys that are fields. -/
def known (keys : List String) : List String :=
  keys.filter fun key => (r.field? key).isSome

/-- Keys of an object that can be read: no field is given twice, and no required one is missing. -/
def Admits (keys : List String) : Prop :=
  (r.known keys).Nodup ∧ ∀ f ∈ r.fields, f.need = .required → f.key ∈ r.known keys

instance (keys : List String) : Decidable (r.Admits keys) :=
  inferInstanceAs (Decidable (_ ∧ ∀ f ∈ r.fields, f.need = .required → f.key ∈ r.known keys))

end Keys

section Stores

variable {π α : Type} {r : Record π α}

/-- Stores one member. One that is no field changes nothing. -/
def store (r : Record π α) (a : α) (m : String × π) : Except ReadError α :=
  match r.field? m.1 with
  | some f => f.put m.2 a
  | none => .ok a

/-- Storing the members one by one leads from `a` to `b`. -/
def Stores (r : Record π α) (a : α) (ms : List (String × π)) (b : α) : Prop :=
  ms.foldlM r.store a = .ok b

theorem Stores.nil (a : α) : r.Stores a [] a := rfl

theorem Stores.append {a b c : α} {ms ns : List (String × π)} (first : r.Stores a ms b)
    (second : r.Stores b ns c) : r.Stores a (ms ++ ns) c := by
  unfold Stores at *
  rw [List.foldlM_append, first]
  exact second

theorem stores_field {key : String} {f : Field π α} {p : π} {a b : α}
    (found : r.field? key = some f) (put : f.put p a = .ok b) : r.Stores a [(key, p)] b := by
  unfold Stores
  rw [List.foldlM_cons, store, found]
  simp only [put]
  rfl

/-- Members are stored one by one if none of them is refused or repeated. -/
theorem fill_eq {other : String → π → Except ReadError Unit} {ms : List (String × π)}
    {seen : List String} {a : α}
    (passed : ∀ m ∈ ms, r.field? m.1 = none → other m.1 m.2 = .ok ())
    (fresh : ∀ key ∈ r.known (ms.map Prod.fst), key ∉ seen)
    (distinct : (r.known (ms.map Prod.fst)).Nodup) :
    r.fill other ms seen a =
      (ms.foldlM r.store a).map fun b => ((r.known (ms.map Prod.fst)).reverse ++ seen, b) := by
  induction ms generalizing seen a with
  | nil => rfl
  | cons m ms ih =>
    obtain ⟨key, p⟩ := m
    obtain ⟨pass, passed⟩ := List.forall_mem_cons.mp passed
    rw [List.foldlM_cons, fill, store]
    rw [List.map_cons] at fresh distinct ⊢
    cases found : r.field? key with
    | none =>
      have same : r.known (key :: ms.map Prod.fst) = r.known (ms.map Prod.fst) := by
        simp [known, found]
      rw [same] at fresh distinct ⊢
      simp only [pass found]
      exact ih passed fresh distinct
    | some f =>
      have first : r.known (key :: ms.map Prod.fst) = key :: r.known (ms.map Prod.fst) := by
        simp [known, found]
      rw [first] at fresh distinct ⊢
      obtain ⟨new, distinct⟩ := List.nodup_cons.mp distinct
      have later : ∀ k ∈ r.known (ms.map Prod.fst), k ∉ key :: seen := by
        intro k member again
        rcases List.mem_cons.mp again with rfl | again
        · exact new member
        · exact fresh k (List.mem_cons_of_mem _ member) again
      simp only [if_neg (fresh key List.mem_cons_self)]
      cases stored : f.put p a with
      | error e => rfl
      | ok b =>
        rw [List.reverse_cons, List.append_assoc]
        exact ih passed later distinct

theorem fill_of_stores {other : String → π → Except ReadError Unit} {ms : List (String × π)} {a : α}
    (passed : ∀ m ∈ ms, r.field? m.1 = none → other m.1 m.2 = .ok ())
    (admits : r.Admits (ms.map Prod.fst)) (stores : r.Stores r.blank ms a) :
    ∃ seen, r.fill other ms [] r.blank = .ok (seen, a) ∧ r.complete seen a = .ok a := by
  refine ⟨(r.known (ms.map Prod.fst)).reverse, ?_, ?_⟩
  · rw [fill_eq passed (fun _ _ => List.not_mem_nil) admits.1, List.append_nil,
      show ms.foldlM r.store r.blank = .ok a from stores]
    rfl
  · have none : r.fields.find? (fun f => f.need = .required ∧
        f.key ∉ (r.known (ms.map Prod.fst)).reverse) = none := by
      rw [List.find?_eq_none]
      intro f member missing
      obtain ⟨required, absent⟩ := of_decide_eq_true missing
      exact absent (List.mem_reverse.mpr (admits.2 f member required))
    rw [complete, none]

theorem ofBody_members {ms : List (String × π)} {a : α} (admits : r.Admits (ms.map Prod.fst))
    (stores : r.Stores r.blank ms a) : r.ofBody (.members ms) = .ok a := by
  let ignore : String → π → Except ReadError Unit := fun _ _ => .ok ()
  have passed : ∀ m ∈ ms, r.field? m.1 = none → ignore m.1 m.2 = .ok () := fun _ _ _ => rfl
  obtain ⟨seen, filled, complete⟩ := fill_of_stores passed admits stores
  rw [ofBody, filled]
  exact complete

end Stores

end Record

/-- Members with the outlines of their values. -/
def outlined (ms : List (String × Value)) : List (String × Outline) :=
  ms.map fun m => (m.1, m.2.outline)

theorem namedMembers_outlines (ms : List (String × Value)) :
    namedMembers (.ok ()) (memberOutlines ms) = (outlined ms, .ok ()) := by
  induction ms with
  | nil => rfl
  | cons m ms ih =>
    rw [memberOutlines, namedMembers, ih]
    rfl

theorem Record.ofOutline_object {α : Type} {r : Record Outline α}
    {other : String → Outline → Except ReadError Unit} {ms : List (String × Value)} {a : α}
    (passed : ∀ m ∈ outlined ms, r.field? m.1 = none → other m.1 m.2 = .ok ())
    (admits : r.Admits ((outlined ms).map Prod.fst)) (stores : r.Stores r.blank (outlined ms) a) :
    r.ofOutline other (Value.object ms).outline = .ok a := by
  obtain ⟨seen, filled, complete⟩ := fill_of_stores passed admits stores
  rw [Value.outline, ofOutline, namedMembers_outlines]
  simp only [filled]
  exact complete

/-! ### Tags -/

theorem orFault_ok {α : Type} (a : α) : orFault (.ok a) = .ok a := rfl

def tagMembers (ms : List (String × Value)) : List (String × Value) := ms.filter (·.1 = tagKey)

/-- The members but for the tag. -/
def untagged (ms : List (String × Value)) : List (String × Value) := ms.filter (·.1 ≠ tagKey)

/-- The members have one tag, wherever it stands. -/
def TaggedAs (name : String) (ms : List (String × Value)) : Prop :=
  tagMembers ms = [(tagKey, .string name)]

section Members

variable {key : String} {v : Value} {ms : List (String × Value)}

theorem tagMembers_tag (tag : key = tagKey) :
    tagMembers ((key, v) :: ms) = (key, v) :: tagMembers ms :=
  List.filter_cons_of_pos (decide_eq_true tag)

theorem tagMembers_other (other : key ≠ tagKey) : tagMembers ((key, v) :: ms) = tagMembers ms :=
  List.filter_cons_of_neg (by simpa using other)

theorem untagged_tag (tag : key = tagKey) : untagged ((key, v) :: ms) = untagged ms :=
  List.filter_cons_of_neg (by simpa using tag)

theorem untagged_other (other : key ≠ tagKey) :
    untagged ((key, v) :: ms) = (key, v) :: untagged ms :=
  List.filter_cons_of_pos (decide_eq_true other)

theorem tagMembers_append (ms ns : List (String × Value)) :
    tagMembers (ms ++ ns) = tagMembers ms ++ tagMembers ns :=
  List.filter_append ms ns

theorem untagged_append (ms ns : List (String × Value)) :
    untagged (ms ++ ns) = untagged ms ++ untagged ns :=
  List.filter_append ms ns

theorem untagged_eq_self (bare : tagKey ∉ ms.map Prod.fst) : untagged ms = ms := by
  refine List.filter_eq_self.mpr fun m member => decide_eq_true fun tag => bare ?_
  exact tag ▸ List.mem_map_of_mem member

theorem tagMembers_eq_nil (bare : tagKey ∉ ms.map Prod.fst) : tagMembers ms = [] := by
  refine List.filter_eq_nil_iff.mpr fun m member tag => bare ?_
  exact of_decide_eq_true tag ▸ List.mem_map_of_mem member

theorem taggedAs_cons {name : String} (bare : tagKey ∉ ms.map Prod.fst) :
    TaggedAs name ((tagKey, .string name) :: ms) := by
  rw [TaggedAs, tagMembers_tag rfl, tagMembers_eq_nil bare]

end Members

namespace Tags

variable {κ : Type} {t : Tags κ} {name : String} {kind : κ} {ms : List (String × Value)}

theorem ofName_eq (known : t.kinds.lookup name = some kind) : t.ofName name = .ok kind := by
  rw [ofName, known]

theorem ofMembers_tagMembers (found : Option κ) (ms : List (String × Value)) :
    t.ofMembers found (tagMembers ms) = t.ofMembers found ms := by
  induction ms generalizing found with
  | nil => rfl
  | cons m ms ih =>
    obtain ⟨key, v⟩ := m
    by_cases tag : key = tagKey
    · rw [tagMembers_tag tag, ofMembers, ofMembers]
      simp only [ih]
    · rw [tagMembers_other tag, ih, ofMembers, if_neg tag]

theorem ofMembers_tagged (tagged : TaggedAs name ms) : t.ofMembers none ms = t.ofName name := by
  rw [← ofMembers_tagMembers, show tagMembers ms = _ from tagged, ofMembers, if_pos rfl]
  cases named : t.ofName name with
  | error e => simp [ofValue, named, bind, Except.bind]
  | ok kind => simp [ofValue, named, bind, Except.bind, ofMembers]

theorem bodyOfValue_tagged (tagged : TaggedAs name ms) :
    t.bodyOfValue (.object ms) = (t.ofName name).map (·, .members (untagged ms)) := by
  rw [bodyOfValue, ofMembers_tagged tagged]
  cases t.ofName name <;> rfl

theorem bodyOfValue_object (known : t.kinds.lookup name = some kind)
    (bare : tagKey ∉ ms.map Prod.fst) :
    t.bodyOfValue (.object ((tagKey, .string name) :: ms)) = .ok (kind, .members ms) := by
  rw [bodyOfValue_tagged (taggedAs_cons bare), ofName_eq known, untagged_tag rfl,
    untagged_eq_self bare]
  rfl

/-- If tags are given by their names and no member is nested too deeply, it does not matter that
the members are read on the way. -/
theorem ofOutlineMembers_eq {levels : Nat} {found : Option κ}
    (named : ∀ m ∈ tagMembers ms, ∃ name, m.2 = .string name)
    (shallow : ∀ m ∈ untagged ms, m.2.depth ≤ levels) :
    t.ofOutlineMembers levels (.ok ()) found (memberOutlines ms) =
      (t.ofMembers found ms).map (·, untagged ms) := by
  induction ms generalizing found with
  | nil => cases found <;> rfl
  | cons m ms ih =>
    obtain ⟨key, v⟩ := m
    rw [memberOutlines, ofOutlineMembers, ofMembers]
    simp only [Lexeme.whole, orFault_ok, bind, Except.bind]
    by_cases tag : key = tagKey
    · rw [tagMembers_tag tag] at named
      obtain ⟨⟨name, rfl⟩, others⟩ := List.forall_mem_cons.mp named
      rw [untagged_tag tag] at shallow ⊢
      simp only [if_pos tag, Value.outline, ofOutline, ofValue, Lexeme.whole, orFault_ok, bind,
        Except.bind]
      split
      · rfl
      · cases t.ofName name with
        | error e => rfl
        | ok kind => exact ih others shallow
    · rw [tagMembers_other tag] at named
      rw [untagged_other tag] at shallow ⊢
      obtain ⟨first, others⟩ := List.forall_mem_cons.mp shallow
      simp only [if_neg tag, outline_value v first, orFault_ok, ih named others]
      cases t.ofMembers found ms <;> rfl

theorem bodyOfOutline_tagged {levels : Nat} (tagged : TaggedAs name ms)
    (shallow : ∀ m ∈ untagged ms, m.2.depth ≤ levels) :
    t.bodyOfOutline levels (Value.object ms).outline =
      (t.ofName name).map (·, .members (untagged ms)) := by
  have named : ∀ m ∈ tagMembers ms, ∃ name, m.2 = .string name := by
    rw [show tagMembers ms = _ from tagged]
    exact List.forall_mem_singleton.mpr ⟨name, rfl⟩
  rw [Value.outline, bodyOfOutline, ofOutlineMembers_eq named shallow, ofMembers_tagged tagged]
  cases t.ofName name <;> rfl

end Tags

end CssPrinter.Json
