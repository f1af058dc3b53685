import Custody.Lowering.Stmt

/-!
# Lowering packages

The classes of a package become the classes of a program, and the functions that
are units become their methods, in the order of their declarations.
-/

namespace Custody.Lowering

open Source

/-- The parameters of a unit. -/
def params (context : Context) (ids : List EntityId) : Action (List Code.Param) :=
  ids.mapM fun id => do
    let entity := (context.package.entity? id).getD default
    let type := context.entityType id
    return ⟨entity.pos, ← Action.declare id entity, context.typeName type, context.byValue type⟩

/-- The named results of a unit are variables of its body. -/
def namedResults (unit : Unit) : Action (List Code.Node) :=
  (unit.results.filter fun id =>
    (unit.context.package.entity? id).any (·.name ≠ "")).mapM fun id => unit.localVar id .absent

/-- The method of a function that is a unit. -/
def method (context : Context) (decl : FuncDecl) (entity : Entity) (function : Function)
    (isConstructor : Bool) (body : Int × List Stmt) : Code.MethodDecl :=
  let unit : Unit := ⟨context, function.receiver, function.results⟩
  let lowered : Action (List Code.Param × List Code.Node) := do
    let params ← params context function.params
    let results ← namedResults unit
    let stmts ← unit.stmts body.2
    return (params, results ++ stmts)
  let ((params, stmts), _) := lowered .start
  { pos := decl.namePos
    name := entity.name
    params
    result := (function.results.head?.map fun id =>
      context.typeName (context.entityType id)).getD ""
    isConstructor
    valueReceiver := (function.receiver.map fun id =>
      context.byValue (context.entityType id)).getD false
    body := some ⟨body.1, stmts⟩ }

/-- The unit of a declaration, with the class it belongs to. -/
def unit? (context : Context) (decl : FuncDecl) : Option (EntityId × Code.MethodDecl) := do
  let body ← decl.body
  let id ← decl.entity
  let (entity, function) ← function? context.package id
  let (owner, isConstructor) ← context.unitOf? id
  return (owner.entity, method context decl entity function isConstructor body)

/-- The program of a package. -/
def program (package : Package) : Code.Program :=
  let context := Context.of package
  let units := (decls package).filterMap (unit? context)
  ⟨context.classes.map fun info =>
    { info.decl context with
      methods := (units.filter (·.1 == info.entity)).map (·.2) }⟩

end Custody.Lowering
