import Custody.Code.Path
import Custody.Code.Program
import Custody.Data.Table
import Custody.Text.Quoted
import Custody.UnitId

/-!
# The registry of classes

A registry holds the classes of a program by name, with tables for their fields
and methods, and answers which type a dotted path has.  Types come from
declarations only: nothing is inferred, and the fields of a parent class are not
searched.
-/

namespace Custody

open Code

/-- A method of a registered class, with the declared types of its parameters
and local variables. -/
structure Method where
  owner : String
  decl : MethodDecl
  locals : Table String String
  deriving Inhabited

namespace Method

/-- The declared types of the parameters and of all local variables of a body.
The last declaration of a name counts. -/
def localTypes (decl : MethodDecl) : Table String String :=
  Table.ofList <|
    decl.params.map (fun param => (param.name, param.type)) ++
      decl.nodes.flatMap fun node =>
        match node with
        | .localVar _ type declarators => declarators.map fun (name, _) => (name, type)
        | _ => []

/-- The descriptor of a method declared in a class. -/
def ofDecl (owner : String) (decl : MethodDecl) : Method :=
  ⟨owner, decl, localTypes decl⟩

/-- The member name, which tells a constructor from a method. -/
def member (method : Method) : String := method.decl.member

/-- The unit that a method is. -/
def unit (method : Method) : UnitId := ⟨method.owner, method.member⟩

/-- The name by which a reader knows a unit. -/
def displayName (method : Method) : String :=
  if method.decl.isConstructor then method.decl.name
  else method.owner ++ "." ++ method.decl.name

/-- The parameters in order. -/
def params (method : Method) : List Param := method.decl.params

/-- The declared type of a parameter or local variable. -/
def localType? (method : Method) (name : String) : Option String := method.locals.find? name

/-- The parameter that receives an argument.  Surplus arguments go to the last
parameter. -/
def paramAt? (method : Method) (index : Int) : Option Param :=
  if index < 0 then none
  else if index.toNat < method.params.length then method.params[index.toNat]?
  else method.params.getLast?

/-- A method that does nothing and has no parameters. -/
def bare (owner name : String) : Method :=
  ofDecl owner
    { pos := 0, name, params := [], result := "", isConstructor := false, valueReceiver := false,
      body := none }

end Method

/-- A registered class with its field types and its methods by member name. -/
structure Class where
  decl : ClassDecl
  fields : Table String String
  methods : Table String Method
  deriving Inhabited

namespace Class

/-- The descriptor of a class declaration.  Of several fields with one name the
last counts, of several methods with one member name the first. -/
def ofDecl (decl : ClassDecl) : Class where
  decl := decl
  fields := Table.ofList (decl.fields.flatMap fun field => field.names.map (·, field.type))
  methods := decl.methods.foldl
    (fun methods method =>
      if methods.contains method.member then methods
      else methods.insert method.member (Method.ofDecl decl.name method))
    ∅

/-- The name of a class. -/
def name (owner : Class) : String := owner.decl.name

/-- The method with a member name. -/
def method? (owner : Class) (member : String) : Option Method := owner.methods.find? member

end Class

/-- The classes of a program by name. -/
structure Registry where
  classes : Table String Class
  deriving Inhabited

namespace Registry

/-- What a registry does not know. -/
inductive Error where
  | unknownClass (name : String)
  | unknownField (field owner : String)
  deriving DecidableEq, Repr

/-- The wording of an error. -/
def Error.message : Error → String
  | unknownClass name => "no class " ++ Text.quote name ++ ": unknown class"
  | unknownField field owner =>
      "no field " ++ Text.quote field ++ " in class " ++ owner ++ ": unknown field"

/-- The registry without classes. -/
def empty : Registry := ⟨∅⟩

/-- Add a class.  A name that is taken keeps its class, and the answer is
`false`. -/
def register (registry : Registry) (added : Class) : Bool × Registry :=
  if registry.classes.contains added.name then (false, registry)
  else (true, ⟨registry.classes.insert added.name added⟩)

/-- The registry of a program. -/
def ofProgram (program : Program) : Registry :=
  program.classes.foldl (fun registry decl => (registry.register (Class.ofDecl decl)).2) empty

/-- The class with a name. -/
def lookup (registry : Registry) (name : String) : Except Error Class :=
  match registry.classes.find? name with
  | some found => .ok found
  | none => .error (.unknownClass name)

/-- The method that a unit is. -/
def method? (registry : Registry) (unit : UnitId) : Option Method :=
  (registry.classes.find? unit.owner).bind (·.method? unit.member)

/-- All methods, by class and then by member name. -/
def methods (registry : Registry) : List Method :=
  registry.classes.values.flatMap (·.methods.values)

/-- The declared type of a field of a class. -/
def fieldType (registry : Registry) (owner field : String) : Except Error String :=
  match registry.lookup owner with
  | .ok found =>
      match found.fields.find? field with
      | some type => .ok type
      | none => .error (.unknownField field found.name)
  | .error error => .error error

/-- The type at the end of a chain of fields. -/
def fieldChainType (registry : Registry) : String → List String → Except Error String
  | type, [] => .ok type
  | type, field :: rest =>
      match registry.fieldType type field with
      | .ok next => fieldChainType registry next rest
      | .error error => .error error

/-- The type of the first segment of a path inside a method: the receiver, a
local variable, or a field of the receiver. -/
def firstType (registry : Registry) (method : Method) (name : String) : Except Error String :=
  if name = this then .ok method.owner
  else match method.localType? name with
    | some type => .ok type
    | none => registry.fieldType method.owner name

/-- The type of the object that a qualifier denotes inside a method.  The empty
qualifier denotes the receiver. -/
def qualifierType (registry : Registry) (method : Method) (qualifier : String) :
    Except Error String :=
  if qualifier = "" then .ok method.owner
  else
    let path := Path.parse qualifier
    match registry.firstType method path.first with
    | .ok type => registry.fieldChainType type path.rest
    | .error error => .error error

end Registry

end Custody
