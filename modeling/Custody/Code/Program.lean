import Custody.Code.Walk

/-!
# Programs

A program is a list of classes with fields and methods.  Constructors are
methods with a member name of their own, so a method and a constructor of the
same name are different members of a class.
-/

namespace Custody.Code

/-- The member name of a constructor. -/
def constructorMember (name : String) : String := name ++ "()"

/-- Statements between braces. -/
structure Block where
  pos : Int
  stmts : List Node
  deriving Inhabited, Repr

/-- A block as a node. -/
def Block.node (block : Block) : Node := .block block.pos block.stmts

/-- A parameter.  A value parameter is a copy of the caller's object. -/
structure Param where
  pos : Int
  name : String
  type : String
  isValue : Bool
  deriving DecidableEq, Inhabited, Repr

/-- Fields of one type. -/
structure FieldDecl where
  pos : Int
  type : String
  names : List String
  deriving DecidableEq, Inhabited, Repr

/-- A method or constructor.  The result type is empty if nothing is returned.
A value receiver is a copy of the caller's object. -/
structure MethodDecl where
  pos : Int
  name : String
  params : List Param
  result : String
  isConstructor : Bool
  valueReceiver : Bool
  body : Option Block
  deriving Inhabited, Repr

/-- A method of pointers that has statements, but neither parameters nor a result. -/
def MethodDecl.plain (name : String) (stmts : List Node) : MethodDecl where
  pos := 0
  name := name
  params := []
  result := ""
  isConstructor := false
  valueReceiver := false
  body := some ⟨0, stmts⟩

/-- The name that identifies a method among the members of its class. -/
def MethodDecl.member (method : MethodDecl) : String :=
  if method.isConstructor then constructorMember method.name else method.name

/-- The nodes of a body in preorder. -/
def MethodDecl.nodes (method : MethodDecl) : List Node :=
  match method.body with
  | some block => block.node.preorder
  | none => []

/-- A class.  The parent is a name only: fields are not looked up there. -/
structure ClassDecl where
  pos : Int
  name : String
  parent : String
  fields : List FieldDecl
  methods : List MethodDecl
  deriving Inhabited, Repr

/-- The method with a member name, the first if there are several. -/
def ClassDecl.method? (decl : ClassDecl) (member : String) : Option MethodDecl :=
  decl.methods.find? (·.member == member)

/-- A list of classes. -/
structure Program where
  classes : List ClassDecl
  deriving Inhabited, Repr

/-- The class with a name, the first if there are several. -/
def Program.class? (program : Program) (name : String) : Option ClassDecl :=
  program.classes.find? (·.name == name)

end Custody.Code
