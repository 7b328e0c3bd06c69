/-!
# Syntax nodes

A syntax tree covers a source text: every node has a kind, a span and children in source order.
Named nodes stand for constructs of the grammar, the others for its fixed words and signs. What could
not be fitted into the grammar stands in nodes of the kind `Node.errorKind`.
-/

namespace CodeCorpus.Syntax

/-- A place in a source text: bytes from the start, lines from the start, and bytes from the start of
the line. -/
structure Position where
  byte : Nat
  row : Nat
  column : Nat
  deriving DecidableEq, Repr, Inhabited

/-- The place after one more character. -/
def Position.after (p : Position) (c : Char) : Position :=
  if c = '\n' then ⟨p.byte + 1, p.row + 1, 0⟩
  else ⟨p.byte + c.utf8Size, p.row, p.column + c.utf8Size⟩

/-- A stretch of a source text, without the place it stops at. -/
structure Span where
  start : Position
  stop : Position
  deriving DecidableEq, Repr, Inhabited

/-- A node of a syntax tree. -/
structure Node where
  kind : String
  named : Bool
  /-- The role of the node in its parent, if it has one. -/
  role : Option String
  span : Span
  children : List Node
  deriving Repr, Inhabited

namespace Node

/-- The kind of the nodes that hold what the grammar has no place for. -/
def errorKind : String := "ERROR"

def missingKind : String := "MISSING"

def commentKind : String := "comment"

def isComment (n : Node) : Bool := n.kind == commentKind

mutual

/-- Whether anything in the tree did not fit the grammar. -/
def hasError : Node → Bool
  | ⟨kind, _, _, _, children⟩ =>
    kind == errorKind || kind == missingKind || anyHasError children

def anyHasError : List Node → Bool
  | [] => false
  | n :: ns => n.hasError || anyHasError ns

end

def namedChildren (n : Node) : List Node := n.children.filter Node.named

/-- The first child with a role. -/
def childOf? (n : Node) (role : String) : Option Node :=
  n.children.find? fun c => c.role == some role

end Node

/-- The bytes of a source text between two places given in bytes. -/
def sliceBytes (source : String) (start stop : Nat) : ByteArray := source.toUTF8.extract start stop

end CodeCorpus.Syntax
