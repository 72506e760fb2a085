import CssPrinter.Tree.Basic

/-!
# Clean trees

A tree is clean if its texts do not look like the punctuation of a stylesheet. Bare trees are what
printing keeps: they have no positions and, if the layout is compressed, no comments.
-/

namespace CssPrinter

/-- None of the characters is in the text. -/
def Avoids (s : String) (cs : List Char) : Prop := ∀ c ∈ s.toList, c ∉ cs

/-- The characters that end a text. -/
def reserved : List Char := ['\x7b', '\x7d', ';', '\n']

/-- A text that starts neither a comment nor a rule with an at sign. -/
def Unsigned (s : String) : Prop := s.toList.head? ≠ some '@' ∧ s.toList.head? ≠ some '/'

/-- A comment that does not end before its end. -/
def Unclosed (text : String) : Prop := ¬['*', '/'] <:+: text.toList

def Declaration.Clean : Declaration → Prop
  | .property p =>
    Avoids p.name (':' :: reserved) ∧ Unsigned p.name ∧ Avoids p.value reserved
  | .comment text => Unclosed text

def Keyframe.Clean (k : Keyframe) : Prop :=
  k.values ≠ [] ∧ (∀ v ∈ k.values, Avoids v (',' :: reserved)) ∧ ∀ x ∈ k.declarations, x.Clean

def Keyframes.Clean (k : Keyframes) : Prop :=
  Avoids k.name reserved ∧ (∀ v ∈ k.vendor, v ≠ "" ∧ Avoids v (' ' :: reserved)) ∧
    ∀ b ∈ k.blocks, b.Clean

def Rule.Clean (r : Rule) : Prop :=
  (∀ s ∈ r.selectors, Avoids s (',' :: reserved) ∧ Unsigned s) ∧ ∀ x ∈ r.declarations, x.Clean

namespace Node

mutual

def Clean : Node → Prop
  | .comment text => Unclosed text
  | .charset text => Avoids text reserved
  | .keyframes k => k.Clean
  | .media query ns => Avoids query reserved ∧ CleanAll ns
  | .imports text => Avoids text reserved
  | .rule r => r.Clean

def CleanAll : List Node → Prop
  | [] => True
  | n :: rest => Clean n ∧ CleanAll rest

end

theorem cleanAll_iff (ns : List Node) : CleanAll ns ↔ ∀ n ∈ ns, n.Clean := by
  induction ns with
  | nil => simp [CleanAll]
  | cons n ns ih => simp [CleanAll, ih]

end Node

def Document.Clean (d : Document) : Prop := Node.CleanAll d.nodes

/-! ### What printing keeps -/

section Bare

variable (compress : Bool)

/-- Comments are not printed in compressed layout. -/
def Declaration.isPrinted : Declaration → Bool
  | .comment _ => !compress
  | .property _ => true

def Declaration.bare : Declaration → Declaration
  | .comment text => .comment text
  | .property p => .property { p with position := none }

def bareDeclarations (ds : List Declaration) : List Declaration :=
  (ds.filter (·.isPrinted compress)).map Declaration.bare

def Keyframe.bare (k : Keyframe) : Keyframe :=
  { k with declarations := bareDeclarations compress k.declarations }

def Keyframes.bare (k : Keyframes) : Keyframes :=
  { k with blocks := k.blocks.map (·.bare compress) }

def Rule.bare (r : Rule) : Rule :=
  { r with declarations := bareDeclarations compress r.declarations, position := none }

namespace Node

def isPrinted : Node → Bool
  | .comment _ => !compress
  | _ => true

mutual

/-- A node without positions and without comments that are not printed. -/
def bare : Node → Node
  | .keyframes k => .keyframes (k.bare compress)
  | .media query ns => .media query (bareAll ns)
  | .rule r => .rule (r.bare compress)
  | n => n

def bareAll : List Node → List Node
  | [] => []
  | n :: rest => if n.isPrinted compress then bare n :: bareAll rest else bareAll rest

end

theorem bareAll_eq (ns : List Node) :
    bareAll compress ns = (ns.filter (·.isPrinted compress)).map (bare compress) := by
  induction ns with
  | nil => rw [bareAll]; rfl
  | cons n ns ih =>
    rw [bareAll, ih]
    cases printed : n.isPrinted compress <;> simp [printed]

end Node

/-- What printing keeps of a document. -/
def Document.bare (d : Document) : Document := ⟨Node.bareAll compress d.nodes⟩

end Bare

end CssPrinter
