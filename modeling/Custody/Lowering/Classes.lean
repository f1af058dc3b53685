import Custody.Code.Program
import Custody.Data.Table
import Custody.Source.Package

/-!
# Classes of a package

The struct types of a package are its classes, unless they are generic or
another name for a type.  Their methods are units, and so are the functions
whose first result is a class: these are constructors.  Only functions with a
body are units.
-/

namespace Custody.Lowering

open Source

/-- A class of a package: its name and the fields of its struct. -/
structure ClassInfo where
  entity : EntityId
  name : String
  pos : Int
  fields : List StructField
  deriving Inhabited, Repr

/-- A package with its classes and the functions that have a body. -/
structure Context where
  package : Package
  classes : List ClassInfo
  bodies : List EntityId
  deriving Inhabited

/-- The class that a package-level entity declares, if it declares one. -/
def classInfo? (package : Package) (id : EntityId) : Option ClassInfo :=
  match package.entity? id with
  | some ⟨name, pos, .type false false (some fields)⟩ => some ⟨id, name, pos, fields⟩
  | _ => none

/-- The classes of a package in the order of their names. -/
def classInfos (package : Package) : List ClassInfo :=
  (package.scope.filterMap (classInfo? package)).mergeSort fun left right =>
    (compare left.name right.name).isLE

/-- The function that a declaration declares. -/
def function? (package : Package) (id : EntityId) : Option (Entity × Function) :=
  match package.entity? id with
  | some entity =>
      match entity.kind with
      | .function function => some (entity, function)
      | _ => none
  | none => none

/-- All function declarations of a package. -/
def decls (package : Package) : List FuncDecl := package.files.flatMap (·.decls)

/-- The functions that are declared with a body. -/
def functionsWithBody (package : Package) : List EntityId :=
  (decls package).filterMap fun decl =>
    if decl.body.isSome then
      decl.entity.bind fun id => (function? package id).map fun _ => id
    else none

/-- What the lowering of a package rests on. -/
def Context.of (package : Package) : Context where
  package := package
  classes := classInfos package
  bodies := functionsWithBody package

namespace Context

/-- The class of a type, or of what it points to. -/
def classOf? (context : Context) (type : Option Ty) : Option ClassInfo :=
  let named? : Ty → Option ClassInfo
    | .named entity => context.classes.find? (·.entity == entity)
    | _ => none
  match type.map Ty.unalias with
  | some (.pointer element) => named? element.unalias
  | some type => named? type
  | none => none

/-- Is a type a class or a pointer to one? -/
def isClass (context : Context) (type : Option Ty) : Bool := (context.classOf? type).isSome

/-- Is a type, other names apart, a pointer? -/
def isPointer (type : Option Ty) : Bool :=
  match type.map Ty.unalias with
  | some (.pointer _) => true
  | _ => false

/-- Does a variable of the type hold an object of a class, and not a pointer? -/
def byValue (context : Context) (type : Option Ty) : Bool :=
  !isPointer type && context.isClass type

/-- The type parameters after the name of a generic type or function. -/
def typeParamText (isGeneric : Bool) : String := if isGeneric then "[T any]" else ""

/-- The text of the type that an entity declares.  Another name for a type stands
alone. -/
def declaredText (context : Context) (id : EntityId) : String :=
  match context.package.entity? id with
  | some ⟨name, _, .type isAlias isGeneric _⟩ => name ++ typeParamText (isGeneric && !isAlias)
  | some entity => entity.name
  | none => ""

/-- The text of a type. -/
def typeText (context : Context) : Ty → String
  | .named entity => context.declaredText entity
  | .pointer element => "*" ++ context.typeText element
  | .renamed text _ => text
  | .other text => text

/-- The name of a type: that of its class, or its text. -/
def typeName (context : Context) (type : Option Ty) : String :=
  match context.classOf? type with
  | some found => found.name
  | none => (type.map context.typeText).getD "<nil>"

/-- The names of the fields that indices select one after the other, starting
at a class.  Every field but the last must be of a class. -/
def fieldPath? (context : Context) : Option Ty → List Nat → Option (List String)
  | _, [] => some []
  | type, index :: rest =>
      match context.classOf? type with
      | none => none
      | some found =>
          match found.fields[index]? with
          | none => none
          | some field => (context.fieldPath? field.type rest).map (field.name :: ·)

/-- A parameter or result in the text of a function type: its name, if it has
one, and its type. -/
def variableText (context : Context) (id : EntityId) : String :=
  match context.package.entity? id with
  | some ⟨name, _, .var type⟩ =>
      (if name = "" then "" else name ++ " ") ++ (type.map context.typeText).getD "<nil>"
  | _ => "<nil>"

/-- Parameters or results in parentheses. -/
def tupleText (context : Context) (ids : List EntityId) : String :=
  "(" ++ ", ".intercalate (ids.map context.variableText) ++ ")"

/-- The text of the type of a function.  A single result without a name has no
parentheses, and the receiver is no part of the type. -/
def functionText (context : Context) (function : Function) : String :=
  let isUnnamed (id : EntityId) := (context.package.entity? id).all (·.name = "")
  let results := match function.results with
    | [] => ""
    | [result] =>
        " " ++ if isUnnamed result then context.variableText result else context.tupleText [result]
    | results => " " ++ context.tupleText results
  "func" ++ typeParamText function.isGeneric ++ context.tupleText function.params ++ results

/-- The type of an entity. -/
def entityType (context : Context) (entity : EntityId) : Option Ty :=
  match (context.package.entity? entity).map Entity.kind with
  | some (.var type) => type
  | some (.type ..) => some (.named entity)
  | some (.function function) => some (.other (context.functionText function))
  | some .other => some (.other "invalid type")
  | none => none

/-- The type of an expression, as far as it is known. -/
def typeOf (context : Context) (expr : Expr) : Option Ty :=
  match expr.typing? with
  | some typing => typing.type
  | none =>
      match expr with
      | .ident _ name => name.entity?.bind context.entityType
      | _ => none

/-- The class that a function is a unit of, and whether it is a constructor. -/
def unitOf? (context : Context) (id : EntityId) : Option (ClassInfo × Bool) :=
  match function? context.package id with
  | none => none
  | some (_, function) =>
      if function.package ≠ context.package.path || !context.bodies.contains id ||
          function.isGeneric then none
      else match function.receiver, function.results with
        | some receiver, _ => (context.classOf? (context.entityType receiver)).map (·, false)
        | none, result :: _ => (context.classOf? (context.entityType result)).map (·, true)
        | none, [] => none

end Context

/-- The declaration of a class without its methods.  The first embedded class is
its parent; blank fields are left out. -/
def ClassInfo.decl (context : Context) (info : ClassInfo) : Code.ClassDecl where
  pos := info.pos
  name := info.name
  parent := (info.fields.findSome? fun field =>
    if field.name ≠ "_" && field.embedded && context.isClass field.type then
      some (context.typeName field.type)
    else none).getD ""
  fields := (info.fields.filter (·.name ≠ "_")).map fun field =>
    ⟨field.pos, context.typeName field.type, [field.name]⟩
  methods := []

end Custody.Lowering
