import CssPrinter.Json.Token

/-!
# What a JSON text says up to its first fault

An `Outline` is the tree of a text that may break off. Whoever walks it in text order meets each
fault where it stands, so a complaint about the content of an earlier part comes before a fault
further on. `Outline.pass` walks it without looking at the content, `Outline.value` reads it whole.
-/

namespace CssPrinter.Json

/-- The tree of a text, as far as the text has one. -/
inductive Outline
  | scalar (s : Lexeme Scalar)
  | text (s : Lexeme String)
  /-- The items and, after them, the closing bracket or what is wrong in its place. -/
  | array (items : List Outline) (close : Except Fault Unit)
  | object (members : List (Lexeme String × Outline)) (close : Except Fault Unit)
  /-- No value stands where one must. -/
  | absent (f : Fault)

/-! ### From tokens -/

/-- An open bracket and what stands inside it so far, the latest first. An open member has its name
already. -/
inductive Frame
  | items (done : List Outline)
  | members (done : List (Lexeme String × Outline)) (name : Lexeme String)

/-- What has been read, and so what may follow. -/
inductive Progress
  /-- A value must follow. -/
  | value (frames : List Frame)
  /-- A bracket has just been opened. -/
  | firstItem (frames : List Frame)
  | firstName (frames : List Frame)
  /-- An item is complete. -/
  | afterItem (done : List Outline) (frames : List Frame)
  | afterMember (done : List (Lexeme String × Outline)) (frames : List Frame)
  /-- A name must follow. -/
  | nextName (done : List (Lexeme String × Outline)) (frames : List Frame)
  /-- A colon must follow. -/
  | colon (done : List (Lexeme String × Outline)) (name : Lexeme String) (frames : List Frame)
  /-- The value is complete. `more` tells whether something stands behind it. -/
  | complete (o : Outline) (more : Bool)
  /-- The text is broken. -/
  | broken (o : Outline)

namespace Progress

/-- Puts a complete value where it belongs. -/
def put (o : Outline) : List Frame → Progress
  | [] => .complete o false
  | .items done :: frames => .afterItem (o :: done) frames
  | .members done name :: frames => .afterMember ((name, o) :: done) frames

/-- The outline of a text that breaks off after `o`, inside all of `frames`. -/
def enclose (f : Fault) (o : Outline) : List Frame → Outline
  | [] => o
  | .items done :: frames => enclose f (.array (o :: done).reverse (.error f)) frames
  | .members done name :: frames =>
    enclose f (.object ((name, o) :: done).reverse (.error f)) frames

/-- The text breaks off here. -/
def cut (f : Fault) : Progress → Outline
  | .value frames => enclose f (.absent f) frames
  | .firstItem frames => enclose f (.array [] (.error f)) frames
  | .firstName frames => enclose f (.object [] (.error f)) frames
  | .afterItem done frames => enclose f (.array done.reverse (.error f)) frames
  | .afterMember done frames => enclose f (.object done.reverse (.error f)) frames
  | .nextName done frames => enclose f (.object done.reverse (.error f)) frames
  | .colon done name frames =>
    enclose f (.object ((name, .absent f) :: done).reverse (.error f)) frames
  | .complete o _ => o
  | .broken o => o

/-- A value starts with `t`. -/
def start (frames : List Frame) : Token → Progress
  | .scalar s => put (.scalar s) frames
  | .text s => put (.text s) frames
  | .openArray => .firstItem frames
  | .openObject => .firstName frames
  | _ => .broken (cut .malformed (.value frames))

/-- Reads one token. -/
def step (p : Progress) (t : Token) : Progress :=
  match p, t with
  | .value frames, t => start frames t
  | .firstItem frames, .closeArray => put (.array [] (.ok ())) frames
  | .firstItem frames, t => start (.items [] :: frames) t
  | .afterItem done frames, .comma => .value (.items done :: frames)
  | .afterItem done frames, .closeArray => put (.array done.reverse (.ok ())) frames
  | .firstName frames, .closeObject => put (.object [] (.ok ())) frames
  | .firstName frames, .text name => .colon [] name frames
  | .nextName done frames, .text name => .colon done name frames
  | .colon done name frames, .colon => .value (.members done name :: frames)
  | .afterMember done frames, .comma => .nextName done frames
  | .afterMember done frames, .closeObject => put (.object done.reverse (.ok ())) frames
  | .complete o _, _ => .complete o true
  | .broken o, _ => .broken o
  | p, _ => .broken (cut .malformed p)

end Progress

/-- A text as a JSON reader sees it: one value, and possibly more behind it. -/
structure Draft where
  outline : Outline
  /-- Nothing but blanks may stand behind the value. This is looked at last. -/
  finish : Except Fault Unit

/-- The draft that a list of tokens makes. -/
def Draft.ofTokens (ts : List Token) : Draft :=
  match ts.foldl Progress.step (.value []) with
  | .complete o more => ⟨o, if more then .error .malformed else .ok ()⟩
  | p => ⟨p.cut .ended, .ok ()⟩

/-- The draft of a text. -/
def Draft.ofText (text : String) : Draft :=
  ofTokens (tokens text.toList)

/-! ### Walks -/

mutual

/-- Passes over an outline. Nesting, surrogates and the size of numbers do not matter. -/
def Outline.pass : Outline → Except Fault Unit
  | .scalar s => s.passage
  | .text s => s.passage
  | .array items close => do passItems items; close
  | .object members close => do passMembers members; close
  | .absent f => .error f

def passItems : List Outline → Except Fault Unit
  | [] => .ok ()
  | o :: rest => do o.pass; passItems rest

def passMembers : List (Lexeme String × Outline) → Except Fault Unit
  | [] => .ok ()
  | (name, o) :: rest => do name.passage; o.pass; passMembers rest

end

/-- How many brackets may be open at once. -/
def nestingLimit : Nat := 127

def Scalar.value : Scalar → Value
  | .null => .null
  | .bool b => .bool b
  | .number n => .number n

mutual

/-- The value of an outline, if at most `levels` brackets are open at once in it. -/
def Outline.value (levels : Nat) : Outline → Except Fault Value
  | .scalar s => s.content.map Scalar.value
  | .text s => s.content.map .string
  | .array items close =>
    match levels with
    | 0 => .error .malformed
    | levels + 1 => do
      let vs ← itemValues levels items
      close
      return .array vs
  | .object members close =>
    match levels with
    | 0 => .error .malformed
    | levels + 1 => do
      let ms ← memberValues levels members
      close
      return .object ms
  | .absent f => .error f

def itemValues (levels : Nat) : List Outline → Except Fault (List Value)
  | [] => .ok []
  | o :: rest => do
    let v ← o.value levels
    return v :: (← itemValues levels rest)

def memberValues (levels : Nat) :
    List (Lexeme String × Outline) → Except Fault (List (String × Value))
  | [] => .ok []
  | (name, o) :: rest => do
    let key ← name.content
    let v ← o.value levels
    return (key, v) :: (← memberValues levels rest)

end

/-- Reads a text as a value with at most `levels` open brackets. -/
def Value.parseWithin (levels : Nat) (text : String) : Except Fault Value := do
  let draft := Draft.ofText text
  let v ← draft.outline.value levels
  draft.finish
  return v

/-- Reads a text as a value. -/
def Value.parse (text : String) : Except Fault Value :=
  parseWithin nestingLimit text

end CssPrinter.Json
