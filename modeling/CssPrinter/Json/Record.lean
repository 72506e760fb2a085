import CssPrinter.Json.Shape

/-!
# Records and tagged alternatives

A `Record` is read from an object, in any order of its fields, or from a list of its fields in
order. Fields are stored as they come, so the first bad one in text order is the one reported.
`Tags` are the alternatives of a value that names its own kind in a `type` field or, as a list, in
its first item.
-/

namespace CssPrinter.Json

/-- Whether a field may be left out. -/
inductive Need
  | required
  /-- Of an object it may be left out, of a list not. -/
  | inLists
  | free
deriving DecidableEq

/-- A field and how its value is stored. -/
structure Field (π α : Type) where
  key : String
  need : Need
  put : π → α → Except ReadError α

/-- The fields of an `α`, in the order they have in a list, and the `α` that has none of them. -/
structure Record (π α : Type) where
  name : String
  blank : α
  fields : List (Field π α)

/-- What a record is read from. -/
inductive Body (π : Type)
  | members (ms : List (String × π))
  | items (ps : List π)

def Body.map {π ρ : Type} (f : π → ρ) : Body π → Body ρ
  | .members ms => .members (ms.map fun (key, p) => (key, f p))
  | .items ps => .items (ps.map f)

namespace Record

variable {π α : Type}

def field? (r : Record π α) (key : String) : Option (Field π α) :=
  r.fields.find? (·.key == key)

/-- Stores the members in order. The result has the fields seen, the latest first. Members that are
no fields go to `other`. -/
def fill (r : Record π α) (other : String → π → Except ReadError Unit) :
    List (String × π) → List String → α → Except ReadError (List String × α)
  | [], seen, a => .ok (seen, a)
  | (key, p) :: rest, seen, a =>
    match r.field? key with
    | none => do
      other key p
      fill r other rest seen a
    | some f =>
      if key ∈ seen then .error (.shape (.repeatedField key))
      else do
        let a ← f.put p a
        fill r other rest (key :: seen) a

/-- Refuses a record that lacks a required field. The first one is named. -/
def complete (r : Record π α) (seen : List String) (a : α) : Except ReadError α :=
  match r.fields.find? (fun f => f.need = .required ∧ f.key ∉ seen) with
  | some f => .error (.shape (.missingField f.key))
  | none => .ok a

/-- Stores items in order of the fields and returns those left over. When they run out, `stop` is
asked first whether the list really ends here. -/
def place (stop : Except ReadError Unit) (missing : ReadError) :
    List (Field π α) → List π → α → Except ReadError (List π × α)
  | [], left, a => .ok (left, a)
  | f :: fields, p :: rest, a => do
    let a ← f.put p a
    place stop missing fields rest a
  | f :: fields, [], a => do
    stop
    if f.need = .free then place stop missing fields [] a else .error missing

/-- The list is too short for the record. -/
def tooShort (r : Record π α) (count : Nat) : ReadError :=
  .shape (.wrongSize count (.record r.name r.fields.length))

/-- Reads a record. Members that are no fields are ignored. -/
def ofBody (r : Record π α) : Body π → Except ReadError α
  | .members ms => do
    let (seen, a) ← r.fill (fun _ _ => .ok ()) ms [] r.blank
    r.complete seen a
  | .items ps => do
    let (left, a) ← place (.ok ()) (r.tooShort ps.length) r.fields ps r.blank
    if left.isEmpty then return a
    else .error (.shape (.wrongSize ps.length (.sequence r.fields.length)))

def ofValue (r : Record Value α) : Value → Except ReadError α
  | .object ms => r.ofBody (.members ms)
  | .array vs => r.ofBody (.items vs)
  | v => wrongType v (.record r.name)

end Record

/-! ### Reading while the text is read -/

/-- The members up to the first name that cannot be read. That name then takes the place of the
closing bracket. -/
def namedMembers (close : Except Fault Unit) :
    List (Lexeme String × Outline) → List (String × Outline) × Except Fault Unit
  | [] => ([], close)
  | (name, o) :: rest =>
    match name.content with
    | .ok key => ((key, o) :: (namedMembers close rest).1, (namedMembers close rest).2)
    | .error f => ([], .error f)

/-- Reads a record in text order. A list with more items than fields is malformed. -/
def Record.ofOutline {α : Type} (r : Record Outline α)
    (other : String → Outline → Except ReadError Unit) : Outline → Except ReadError α
  | .object members close => do
    let (ms, close) := namedMembers close members
    let (seen, a) ← r.fill other ms [] r.blank
    orFault close
    r.complete seen a
  | .array items close => do
    let (left, a) ← place (orFault close) (r.tooShort items.length) r.fields items r.blank
    if left.isEmpty then do
      orFault close
      return a
    else .error (.fault .malformed)
  | o => o.wrongType (.record r.name)

/-! ### Tagged alternatives -/

/-- The alternatives of a tagged value, in the order of their numbers. -/
structure Tags (κ : Type) where
  name : String
  kinds : List (String × κ)

/-- The field that holds the tag. -/
def tagKey : String := "type"

def missingTag : ReadError := .shape (.missingField tagKey)

def repeatedTag : ReadError := .shape (.repeatedField tagKey)

namespace Tags

variable {κ : Type}

def ofName (t : Tags κ) (name : String) : Except ReadError κ :=
  match t.kinds.lookup name with
  | some kind => .ok kind
  | none => .error (.shape (.unknownTag name (t.kinds.map Prod.fst)))

/-- In a value, a kind may be given by its number. -/
def ofValue (t : Tags κ) : Value → Except ReadError κ
  | .string name => t.ofName name
  | .number (.natural n) =>
    match t.kinds[n]? with
    | some (_, kind) => .ok kind
    | none => .error (.shape (.outOfRange n (.tagIndex t.kinds.length)))
  | v => wrongType v .tag

/-- In a text, a kind is given by its name. -/
def ofOutline (t : Tags κ) : Outline → Except ReadError κ
  | .text s => do t.ofName (← orFault s.content)
  | o => o.wrongType .tag

/-- The kind that the members name, after `found`. -/
def ofMembers (t : Tags κ) (found : Option κ) : List (String × Value) → Except ReadError κ
  | [] =>
    match found with
    | some kind => .ok kind
    | none => .error missingTag
  | (key, v) :: rest =>
    if key = tagKey then
      if found.isSome then .error repeatedTag
      else do
        let kind ← t.ofValue v
        t.ofMembers (some kind) rest
    else t.ofMembers found rest

/-- The kind and the values of all other members. The values are read on the way. -/
def ofOutlineMembers (t : Tags κ) (levels : Nat) (close : Except Fault Unit) (found : Option κ) :
    List (Lexeme String × Outline) → Except ReadError (κ × List (String × Value))
  | [] => do
    orFault close
    match found with
    | some kind => return (kind, [])
    | none => .error missingTag
  | (name, o) :: rest => do
    let key ← orFault name.content
    if key = tagKey then
      if found.isSome then .error repeatedTag
      else
        let kind ← t.ofOutline o
        t.ofOutlineMembers levels close (some kind) rest
    else
      let v ← orFault (o.value levels)
      let (kind, ms) ← t.ofOutlineMembers levels close found rest
      return (kind, (key, v) :: ms)

/-- Reads a tagged value whole: first all of its text, then what it says. `levels` brackets may be
open inside it. -/
def bodyOfOutline (t : Tags κ) (levels : Nat) : Outline → Except ReadError (κ × Body Value)
  | .object members close => do
    let (kind, ms) ← t.ofOutlineMembers levels close none members
    return (kind, .members ms)
  | .array [] close => do
    orFault close
    .error missingTag
  | .array (o :: rest) close => do
    let kind ← t.ofOutline o
    let vs ← orFault (itemValues levels rest)
    orFault close
    return (kind, .items vs)
  | o => o.wrongType (.tagged t.name)

/-- The kind and the rest of a tagged value. -/
def bodyOfValue (t : Tags κ) : Value → Except ReadError (κ × Body Value)
  | .object ms => do
    let kind ← t.ofMembers none ms
    return (kind, .members (ms.filter (·.1 ≠ tagKey)))
  | .array [] => .error missingTag
  | .array (v :: rest) => do return (← t.ofValue v, .items rest)
  | v => wrongType v (.tagged t.name)

end Tags

end CssPrinter.Json
