import Custody.Text.Enumerated

/-!
# Nodes of a method body

Bodies of methods are trees of statements and expressions of a small class
language.  A node carries the position it stands at; position `0` is no
position.

Two constructors stand for missing nodes.  `absent` is an empty place, such as
a variable without initial value.  `vacant` is a node that was announced and
never filled in: walking over a tree skips both, but only the first may be
evaluated.
-/

namespace Custody.Code

/-- The kind of a node, as a number.  Numbers without a name belong to no node
of the language. -/
structure Kind where
  code : UInt8
  deriving DecidableEq, Inhabited, Repr

namespace Kind

def block : Kind := ⟨1⟩
def literal : Kind := ⟨2⟩
def reference : Kind := ⟨3⟩
def new : Kind := ⟨4⟩
def localVar : Kind := ⟨5⟩
def assign : Kind := ⟨6⟩
def ret : Kind := ⟨7⟩
def call : Kind := ⟨8⟩
def operation : Kind := ⟨9⟩
def unsupported : Kind := ⟨10⟩

/-- The name of a kind. -/
def name (kind : Kind) : String :=
  Text.enumerated "Kind"
    ["Invalid", "Block", "Literal", "Reference", "New", "LocalVar", "Assign", "Return", "Call",
      "Operation", "Unsupported"]
    kind.code

end Kind

/-- A named variable or field.  Without a qualifier the member is a local
variable, or a field of the receiver where there is no such variable.  A
qualifier is a dotted path to the object that has the member. -/
structure Reference where
  pos : Int
  qualifier : String
  member : String
  deriving DecidableEq, Inhabited, Repr

/-- The receiver, as a segment of a qualifier or as a member. -/
def this : String := "this"

/-- A member with the path before it. -/
def dotted (qualifier member : String) : String :=
  if qualifier = "" then member else qualifier ++ "." ++ member

/-- The whole dotted path of a reference. -/
def Reference.path (reference : Reference) : String :=
  dotted reference.qualifier reference.member

/-- A statement or expression. -/
inductive Node where
  /-- No node. -/
  | absent
  /-- A node that was announced and never filled in. -/
  | vacant
  /-- Statements with their own scope. -/
  | block (pos : Int) (stmts : List Node)
  /-- A primitive value; a nil literal denotes no object. -/
  | literal (pos : Int) (value : String) (isNil : Bool)
  /-- A variable or field. -/
  | reference (target : Reference)
  /-- A new object.  Arguments are attached as fields of the given names, or are
  passed to the constructor if there is one. -/
  | new (pos : Int) (type : String) (maker : String) (args : List (String × Node))
  /-- Local variables of one type with their initial values. -/
  | localVar (pos : Int) (type : String) (declarators : List (String × Node))
  /-- Store a value into a variable or field. -/
  | assign (pos : Int) (target : Option Reference) (value : Node)
  /-- Leave the method with the given values. -/
  | ret (pos : Int) (values : List Node)
  /-- Call a method of the object that the qualifier denotes, or of the receiver
  without one. -/
  | call (pos : Int) (qualifier member : String) (args : List Node)
  /-- Compute a primitive value. -/
  | operation (pos : Int) (op : String) (operands : List Node)
  /-- A construct outside the language. -/
  | unsupported (pos : Int) (construct : String)
  /-- A leaf of a kind that nobody knows. -/
  | alien (pos : Int) (kind : Kind)
  deriving Inhabited, Repr

namespace Node

/-- The position of a node, `0` for a missing one. -/
def pos : Node → Int
  | absent | vacant => 0
  | block pos _ | literal pos _ _ | new pos _ _ _ | localVar pos _ _ | assign pos _ _
  | ret pos _ | call pos _ _ _ | operation pos _ _ | unsupported pos _ | alien pos _ => pos
  | reference target => target.pos

/-- The kind of a node. -/
def kind : Node → Kind
  | absent | vacant => ⟨0⟩
  | block .. => .block
  | literal .. => .literal
  | reference .. => .reference
  | new .. => .new
  | localVar .. => .localVar
  | assign .. => .assign
  | ret .. => .ret
  | call .. => .call
  | operation .. => .operation
  | unsupported .. => .unsupported
  | alien _ kind => kind

/-- Is there a node at all? -/
def isPresent : Node → Bool
  | absent | vacant => false
  | _ => true

end Node

end Custody.Code
