/-!
# Stylesheet trees

A document is a list of nodes; media blocks hold further nodes. Rules and properties may carry the
position they were parsed at. `Document.allNodes` lists the nodes in document order, a media block
before what it holds.
-/

namespace CssPrinter

/-- A place in a source file. Lines and columns start at 1, which nothing here enforces. -/
structure Location where
  line : UInt32
  column : UInt32
  /-- The file, where the parser records one for each place. -/
  file : Option String := none
  /-- The symbol that the place belongs to. -/
  name : Option String := none
deriving DecidableEq

/-- Where something was parsed. -/
structure Position where
  start : Location
  stop : Option Location := none
  /-- The file that the whole range lies in. -/
  source : Option String := none
deriving DecidableEq

/-- A property with its value. -/
structure Property where
  name : String
  value : String
  position : Option Position := none
deriving DecidableEq

/-- An entry of a declaration block. -/
inductive Declaration
  | property (p : Property)
  | comment (text : String)
deriving DecidableEq

/-- One block of a keyframes rule, such as `from` or `0%, 50%`. -/
structure Keyframe where
  values : List String
  declarations : List Declaration := []
deriving DecidableEq

/-- An animation. The vendor includes its dashes. -/
structure Keyframes where
  name : String
  vendor : Option String := none
  blocks : List Keyframe := []
deriving DecidableEq

/-- A style rule. -/
structure Rule where
  selectors : List String
  declarations : List Declaration := []
  position : Option Position := none
deriving DecidableEq

/-- A node of the tree. Comments exclude their delimiters; an import has everything up to the
semicolon; a charset has its quotes. -/
inductive Node
  | comment (text : String)
  | charset (text : String)
  | keyframes (k : Keyframes)
  | media (query : String) (nodes : List Node)
  | imports (text : String)
  | rule (r : Rule)

/-- A stylesheet. -/
structure Document where
  nodes : List Node := []

/-- What a node is. -/
inductive Kind
  | comment
  | charset
  | keyframes
  | media
  | imports
  | rule
deriving DecidableEq

def Kind.name : Kind → String
  | .comment => "comment"
  | .charset => "charset"
  | .keyframes => "keyframes"
  | .media => "media"
  | .imports => "import"
  | .rule => "rule"

/-! ### Positions -/

/-- A text that is there and not empty. -/
def nonEmpty (text : Option String) : Option String :=
  text.filter (· ≠ "")

namespace Position

/-- The file of a position: that of its start, else that of the range. Empty names do not count. -/
def file (p : Position) : Option String :=
  (nonEmpty p.start.file).or (nonEmpty p.source)

def ofStart (line column : UInt32) : Position :=
  { start := { line, column } }

end Position

def Declaration.position? : Declaration → Option Position
  | .property p => p.position
  | .comment _ => none

/-- The positions of a rule: its own, then those of its properties. -/
def Rule.positions (r : Rule) : List Position :=
  r.position.toList ++ r.declarations.filterMap Declaration.position?

/-! ### Document order -/

namespace Node

def kind : Node → Kind
  | .comment _ => .comment
  | .charset _ => .charset
  | .keyframes _ => .keyframes
  | .media _ _ => .media
  | .imports _ => .imports
  | .rule _ => .rule

def rule? : Node → Option Rule
  | .rule r => some r
  | _ => none

mutual

/-- A node and all nodes in it. -/
def all : Node → List Node
  | .media query nodes => .media query nodes :: allIn nodes
  | n => [n]

def allIn : List Node → List Node
  | [] => []
  | n :: rest => all n ++ allIn rest

end

end Node

namespace Document

/-- All nodes in document order. -/
def allNodes (d : Document) : List Node :=
  Node.allIn d.nodes

/-- All rules in document order, at any depth. -/
def rules (d : Document) : List Rule :=
  d.allNodes.filterMap Node.rule?

end Document

/-! ### Equality -/

namespace Node

mutual

/-- Equality of nodes as a test. -/
def same : Node → Node → Bool
  | .comment a, .comment b => a = b
  | .charset a, .charset b => a = b
  | .keyframes a, .keyframes b => a = b
  | .media a ns, .media b ms => a = b && sameAll ns ms
  | .imports a, .imports b => a = b
  | .rule a, .rule b => a = b
  | _, _ => false

def sameAll : List Node → List Node → Bool
  | [], [] => true
  | n :: ns, m :: ms => same n m && sameAll ns ms
  | _, _ => false

end

mutual

theorem same_iff : (n m : Node) → (same n m = true ↔ n = m)
  | .media a ns, m => by cases m <;> simp [same, sameAll_iff ns]
  | .comment _, m => by cases m <;> simp [same]
  | .charset _, m => by cases m <;> simp [same]
  | .keyframes _, m => by cases m <;> simp [same]
  | .imports _, m => by cases m <;> simp [same]
  | .rule _, m => by cases m <;> simp [same]

theorem sameAll_iff : (ns ms : List Node) → (sameAll ns ms = true ↔ ns = ms)
  | [], ms => by cases ms <;> simp [sameAll]
  | n :: ns, ms => by cases ms <;> simp [sameAll, same_iff n, sameAll_iff ns]

end

instance : DecidableEq Node := fun n m => decidable_of_iff _ (same_iff n m)

end Node

instance : DecidableEq Document := fun d e =>
  decidable_of_iff (d.nodes = e.nodes) (by cases d; cases e; simp)

end CssPrinter
