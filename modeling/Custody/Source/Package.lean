/-!
# Type-checked packages

A package is read with its types: the declared entities, the types of
expressions, and what every name and selection refers to are part of it.
Entities are referred to by number.

The language has more expressions and statements than the analysis looks at.
What it does not look at is kept as a kind with a position.
-/

namespace Custody.Source

/-- The number of a declared entity. -/
abbrev EntityId : Type := Nat

/-- A type, as far as the analysis tells types apart. -/
inductive Ty where
  /-- The type that an entity declares. -/
  | named (entity : EntityId)
  | pointer (element : Ty)
  /-- Another name for a type. -/
  | renamed (text : String) (element : Ty)
  /-- Any other type, known by its text alone. -/
  | other (text : String)
  deriving DecidableEq, Inhabited, Repr

/-- The type behind other names for it. -/
def Ty.unalias : Ty → Ty
  | renamed _ element => element.unalias
  | type => type

/-- A field of a struct. -/
structure StructField where
  name : String
  pos : Int
  type : Option Ty
  embedded : Bool
  deriving DecidableEq, Inhabited, Repr

/-- The signature of a function, as far as the analysis needs it. -/
structure Function where
  /-- The package that the function belongs to. -/
  package : String
  fullName : String
  /-- Has the function type parameters? -/
  isGeneric : Bool
  receiver : Option EntityId
  params : List EntityId
  results : List EntityId
  deriving DecidableEq, Inhabited, Repr

/-- What an entity is. -/
inductive EntityKind where
  /-- A type, with the fields of its struct if it is one. -/
  | type (isAlias isGeneric : Bool) (fields : Option (List StructField))
  | var (type : Option Ty)
  | function (function : Function)
  | other
  deriving DecidableEq, Inhabited, Repr

/-- A declared type, variable or function, or anything else that has a name. -/
structure Entity where
  name : String
  pos : Int
  kind : EntityKind
  deriving DecidableEq, Inhabited, Repr

/-- What an expression stands for. -/
inductive Mode where
  | value
  | nil
  | type
  | builtin
  deriving DecidableEq, Inhabited, Repr

/-- What the type checker knows of an expression. -/
structure Typing where
  mode : Mode
  type : Option Ty
  /-- The text of a constant value. -/
  constant : Option String
  deriving DecidableEq, Inhabited, Repr

/-- What a selection selects. -/
inductive SelectionKind where
  | field
  | method
  /-- A method as a function of its receiver. -/
  | methodExpr
  deriving DecidableEq, Inhabited, Repr

/-- A selected field or method.  The indices lead through embedded fields to the
selected one. -/
structure Selection where
  kind : SelectionKind
  receiver : Option Ty
  entity : Option EntityId
  indices : List Nat
  deriving DecidableEq, Inhabited, Repr

/-- The expressions that are not looked into. -/
inductive PlainExpr where
  | index
  /-- An index with several type arguments. -/
  | indexList
  | slice
  | funcLit
  | other
  deriving DecidableEq, Inhabited, Repr

/-- A name in an expression, with the entity it declares or uses. -/
structure Ident where
  pos : Int
  name : String
  defined : Option EntityId
  used : Option EntityId
  deriving DecidableEq, Inhabited, Repr

/-- The entity of a name. -/
def Ident.entity? (ident : Ident) : Option EntityId := ident.defined <|> ident.used

/-- An expression.  Its position and typing come first. -/
inductive Expr where
  | missing
  | ident (typing : Option Typing) (ident : Ident)
  | basicLit (pos : Int) (typing : Option Typing) (value : String)
  | paren (pos : Int) (typing : Option Typing) (inner : Expr)
  | star (pos : Int) (typing : Option Typing) (inner : Expr)
  | typeAssert (pos : Int) (typing : Option Typing) (inner : Expr)
  | unary (pos : Int) (typing : Option Typing) (op : String) (inner : Expr)
  | binary (pos : Int) (typing : Option Typing) (op : String) (left right : Expr)
  | selector (pos : Int) (typing : Option Typing) (base : Expr) (name : String) (namePos : Int)
      (used : Option EntityId) (selection : Option Selection)
  | composite (pos : Int) (typing : Option Typing) (elements : List Expr)
  /-- An element of a composite with a key.  The key is the name of a field in a struct, and
  an expression that is computed in a map. -/
  | keyValue (pos : Int) (typing : Option Typing) (key value : Expr)
  | call (pos : Int) (typing : Option Typing) (function : Expr) (args : List Expr)
  | plain (pos : Int) (typing : Option Typing) (kind : PlainExpr)
  deriving Inhabited, Repr

namespace Expr

/-- The position of an expression. -/
def pos : Expr → Int
  | missing => 0
  | ident _ name => name.pos
  | basicLit pos _ _ | paren pos _ _ | star pos _ _ | typeAssert pos _ _ | unary pos _ _ _
  | binary pos _ _ _ _ | selector pos _ _ _ _ _ _ | composite pos _ _ | keyValue pos _ _ _
  | call pos _ _ _ | plain pos _ _ => pos

/-- What the type checker knows of an expression. -/
def typing? : Expr → Option Typing
  | missing => none
  | ident typing _ | basicLit _ typing _ | paren _ typing _ | star _ typing _
  | typeAssert _ typing _ | unary _ typing _ _ | binary _ typing _ _ _
  | selector _ typing _ _ _ _ _ | composite _ typing _ | keyValue _ typing _ _
  | call _ typing _ _ | plain _ typing _ => typing

/-- The name that an expression is, if it is one. -/
def name? : Expr → Option String
  | ident _ name => some name.name
  | _ => none

/-- The expression inside parentheses. -/
def unparen : Expr → Expr
  | paren _ _ inner => inner.unparen
  | expr => expr

end Expr

/-- Variables declared together. -/
structure ValueSpec where
  names : List Ident
  values : List Expr
  deriving Inhabited, Repr

/-- What stands before the statements of a clause. -/
inductive ClauseHead where
  /-- The expressions of a case. -/
  | cases (exprs : List Expr)
  /-- The variable that a case of a type switch declares. -/
  | implicit (entity : Option EntityId)
  /-- The position of a communication. -/
  | communication (pos : Option Int)
  deriving Inhabited, Repr

mutual

/-- A statement. -/
inductive Stmt where
  /-- No statement, or one that does nothing to objects. -/
  | empty
  | send (pos : Int)
  /-- A statement that is not known. -/
  | bad (pos : Int)
  | block (pos : Int) (stmts : List Stmt)
  | expr (value : Expr)
  /-- Variables declared by a declaration. -/
  | vars (specs : List ValueSpec)
  | assign (op : String) (opPos : Int) (left right : List Expr)
  | incDec (op : String) (opPos : Int) (target : Expr)
  | ret (pos : Int) (values : List Expr)
  | cond (pos : Int) (init : Stmt) (test : Expr) (bodyPos : Int) (body : List Stmt)
      (otherwise : Stmt)
  | loop (pos : Int) (init : Stmt) (test : Option Expr) (post : Stmt) (bodyPos : Int)
      (body : List Stmt)
  | range (pos : Int) (defines : Bool) (key value : Option Expr) (collection : Expr) (bodyPos : Int)
      (body : List Stmt)
  | switch (pos : Int) (init : Stmt) (tag : Option Expr) (clauses : List Clause)
  | typeSwitch (pos : Int) (init : Stmt) (binds : Bool) (subject : Expr) (clauses : List Clause)
  | select (pos : Int) (clauses : List Clause)
  | labeled (stmt : Stmt)

/-- A clause of a switch or select. -/
inductive Clause where
  | mk (pos : Int) (head : ClauseHead) (body : List Stmt)

end

instance : Inhabited Stmt := ⟨.empty⟩

instance : Inhabited Clause := ⟨.mk 0 (.cases []) []⟩

/-- A comment. -/
structure Comment where
  pos : Int
  text : String
  deriving DecidableEq, Inhabited, Repr

/-- The declaration of a function. -/
structure FuncDecl where
  pos : Int
  endPos : Int
  name : String
  namePos : Int
  entity : Option EntityId
  /-- The comment group before the declaration. -/
  doc : Option Nat
  /-- The position of the body and its statements. -/
  body : Option (Int × List Stmt)
  deriving Inhabited

/-- A file. -/
structure File where
  /-- The file has the positions from `base` to `base + size`. -/
  base : Int
  size : Int
  /-- The offsets at which lines start. -/
  lines : List Int
  packagePos : Int
  packageName : String
  packageNamePos : Int
  comments : List (List Comment)
  doc : Option Nat
  /-- Is the file unknown to the set of files? -/
  detached : Bool
  decls : List FuncDecl
  deriving Inhabited

/-- The end of a file: that of its last declaration, or of the package clause. -/
def File.endPos (file : File) : Int :=
  match file.decls.getLast? with
  | some decl => decl.endPos
  | none => file.packageNamePos + file.packageName.utf8ByteSize

/-- A package with its types. -/
structure Package where
  path : String
  entities : Array Entity
  /-- The entities of the package itself. -/
  scope : List EntityId
  files : List File
  deriving Inhabited

/-- An entity of a package. -/
def Package.entity? (package : Package) (entity : EntityId) : Option Entity :=
  package.entities[entity]?

end Custody.Source
