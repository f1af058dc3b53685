import Custody.Data.Document
import Custody.Source.Package

/-!
# Packages as documents

A type-checked package is read from a document.  Types and entities are listed
once and referred to by their place in the list; an expression or statement is
an object with its kind under `n` and its position under `pos`.
-/

namespace Custody.Source

/-- Read a type from the list of types, following no more references to other
types than a bound. -/
def Ty.read (types : Array Document) : Nat → Nat → Option Ty
  | 0, _ => none
  | bound + 1, index =>
      match types[index]? with
      | none => none
      | some document =>
          let element := (Ty.read types bound (document.nat "elem")).getD (.other "")
          match document.text "k" with
          | "named" => some (.named (document.nat "obj"))
          | "ptr" => some (.pointer element)
          | "alias" => some (.renamed (document.text "str") element)
          | _ => some (.other (document.text "str"))

/-- The types of a package by their number. -/
structure TypeTable where
  types : Array Document

/-- The type with a number.  No chain of references is longer than the list. -/
def TypeTable.at (table : TypeTable) (index : Nat) : Option Ty :=
  Ty.read table.types (table.types.size + 1) index

/-- Read a field of a struct. -/
def StructField.ofDocument (table : TypeTable) (document : Document) : StructField :=
  ⟨document.text "name", document.int "pos", table.at (document.nat "type"),
    document.flag "embedded"⟩

/-- Read the signature of a function. -/
def Function.ofDocument (document : Document) : Function where
  package := document.text "pkg"
  fullName := document.text "full"
  isGeneric := document.flag "generic"
  receiver := document.nat? "recv"
  params := document.nats "params"
  results := document.nats "results"

/-- Read an entity. -/
def Entity.ofDocument (table : TypeTable) (document : Document) : Entity where
  name := document.text "name"
  pos := document.int "pos"
  kind :=
    match document.text "kind" with
    | "type" =>
        .type (document.flag "alias") (document.flag "generic")
          (if document.has "struct" then
            some ((document.list "struct").map (.ofDocument table))
          else none)
    | "var" => .var (table.at (document.nat "type"))
    | "func" => .function (.ofDocument document)
    | _ => .other

/-- Read what the type checker knows of an expression. -/
def Typing.ofDocument? (table : TypeTable) (document : Document) : Option Typing :=
  if document.isNull then none
  else
    let constant := document.text? "const"
    match document.text "mode" with
    | "nil" => some ⟨.nil, some (.other "untyped nil"), constant⟩
    | "type" => some ⟨.type, table.at (document.nat "type"), constant⟩
    | "builtin" => some ⟨.builtin, table.at (document.nat "type"), constant⟩
    | _ => some ⟨.value, table.at (document.nat "type"), constant⟩

/-- Read a selection. -/
def Selection.ofDocument? (table : TypeTable) (document : Document) : Option Selection :=
  if document.isNull then none
  else some
    { kind := match document.text "kind" with
        | "field" => .field
        | "method" => .method
        | _ => .methodExpr
      receiver := table.at (document.nat "recv")
      entity := document.nat? "obj"
      indices := document.nats "index" }

/-- Read a name. -/
def Ident.ofDocument (document : Document) : Ident :=
  ⟨document.int "pos", document.text "name", document.nat? "def", document.nat? "use"⟩

/-- Read the key of an element, of which a document tells no more than the name. -/
def Expr.ofKey (pos : Int) (document : Document) : Expr :=
  match document.text? "name" with
  | some name => .ident none ⟨pos, name, none, none⟩
  | none => .missing

/-- Read an expression of a document that is nested no deeper than a bound. -/
def Expr.read (table : TypeTable) : Nat → Document → Expr
  | 0, _ => .missing
  | bound + 1, document =>
      let pos := document.int "pos"
      let typing := Typing.ofDocument? table (document.get "tv")
      let inner := Expr.read table bound (document.get "x")
      let items := (document.list "list").map (Expr.read table bound)
      if document.isNull then .missing
      else match document.text "n" with
        | "Ident" => .ident typing (.ofDocument document)
        | "BasicLit" => .basicLit pos typing (document.text "value")
        | "Paren" => .paren pos typing inner
        | "Star" => .star pos typing inner
        | "TypeAssert" => .typeAssert pos typing inner
        | "Unary" => .unary pos typing (document.text "op") inner
        | "Binary" =>
            .binary pos typing (document.text "op") inner
              (Expr.read table bound (document.get "y"))
        | "Selector" =>
            .selector pos typing inner (document.text "name") (document.int "sel_pos")
              (document.nat? "use") (Selection.ofDocument? table (document.get "selection"))
        | "Composite" => .composite pos typing items
        | "KeyValue" => .keyValue pos typing (.ofKey pos document) inner
        | "Call" => .call pos typing inner items
        | "Index" => .plain pos typing .index
        | "IndexList" => .plain pos typing .indexList
        | "Slice" => .plain pos typing .slice
        | "FuncLit" => .plain pos typing .funcLit
        | _ => .plain pos typing .other

/-- Read an expression. -/
def Expr.ofDocument (table : TypeTable) (document : Document) : Expr :=
  Expr.read table document.depth document

/-- Read an expression, if there is one. -/
def Expr.ofDocument? (table : TypeTable) (document : Document) : Option Expr :=
  if document.isNull then none else some (.ofDocument table document)

/-- Read variables declared together. -/
def ValueSpec.ofDocument (table : TypeTable) (document : Document) : ValueSpec :=
  ⟨(document.list "names").map .ofDocument, (document.list "values").map (.ofDocument table)⟩

/-- Read a statement of a document that is nested no deeper than a bound. -/
def Stmt.read (table : TypeTable) : Nat → Document → Stmt
  | 0, _ => .empty
  | bound + 1, document =>
      let pos := document.int "pos"
      let expr (key : String) : Expr := .ofDocument table (document.get key)
      let expr? (key : String) : Option Expr := Expr.ofDocument? table (document.get key)
      let exprs (key : String) : List Expr := (document.list key).map (.ofDocument table)
      let stmt (key : String) : Stmt := Stmt.read table bound (document.get key)
      let body := document.get "body"
      let bodyPos := body.int "pos"
      let stmts (document : Document) (key : String) : List Stmt :=
        (document.list key).map (Stmt.read table bound)
      let clauses (head : Document → ClauseHead) : List Clause :=
        (document.list "clauses").map fun clause =>
          .mk (clause.int "pos") (head clause) (stmts clause "body")
      if document.isNull then .empty
      else match document.text "n" with
        | "Empty" | "Branch" => .empty
        | "Send" => .send pos
        | "Block" => .block pos (stmts document "list")
        | "Expr" | "Defer" | "Go" => .expr (expr "x")
        | "Decl" =>
            if document.text "op" = "var" then
              .vars ((document.list "specs").map (.ofDocument table))
            else .empty
        | "Assign" =>
            .assign (document.text "op") (document.int "tok_pos") (exprs "list") (exprs "rhs")
        | "IncDec" => .incDec (document.text "op") (document.int "tok_pos") (expr "x")
        | "Return" => .ret pos (exprs "list")
        | "If" => .cond pos (stmt "init") (expr "cond") bodyPos (stmts body "list") (stmt "else")
        | "For" =>
            .loop pos (stmt "init") (expr? "cond") (stmt "post") bodyPos (stmts body "list")
        | "Range" =>
            .range pos (document.text "op" = ":=") (expr? "key") (expr? "val") (expr "x") bodyPos
              (stmts body "list")
        | "Switch" =>
            .switch pos (stmt "init") (expr? "x")
              (clauses fun clause => .cases ((clause.list "list").map (.ofDocument table)))
        | "TypeSwitch" =>
            .typeSwitch pos (stmt "init") (document.flag "bound") (expr "x")
              (clauses fun clause => .implicit (clause.nat? "implicit"))
        | "Select" => .select pos (clauses fun clause => .communication (clause.int? "comm"))
        | "Labeled" => .labeled (stmt "body")
        | _ => .bad pos

/-- Read a statement. -/
def Stmt.ofDocument (table : TypeTable) (document : Document) : Stmt :=
  Stmt.read table document.depth document

/-- Read the declaration of a function. -/
def FuncDecl.ofDocument (table : TypeTable) (document : Document) : FuncDecl where
  pos := document.int "pos"
  endPos := document.int "end"
  name := document.text "name"
  namePos := document.int "name_pos"
  entity := document.nat? "obj"
  doc := document.nat? "doc"
  body :=
    let body := document.get "body"
    if body.isNull then none
    else some (body.int "pos", (body.list "list").map (.ofDocument table))

/-- Read a file. -/
def File.ofDocument (table : TypeTable) (document : Document) : File where
  base := document.int "base"
  size := document.int "size"
  lines := document.ints "lines"
  packagePos := document.int "package"
  packageName := document.text "name"
  packageNamePos := document.int "name_pos"
  comments := (document.list "comments").map fun group =>
    group.asList.map fun comment => ⟨comment.int "pos", comment.text "text"⟩
  doc := document.nat? "doc"
  detached := document.flag "detached"
  decls := (document.list "decls").map (.ofDocument table)

/-- Read a package. -/
def Package.ofDocument (document : Document) : Package :=
  let table : TypeTable := ⟨(document.list "types").toArray⟩
  { path := document.text "path"
    entities := ((document.list "objects").map (Entity.ofDocument table)).toArray
    scope := document.nats "scope"
    files := (document.list "files").map (.ofDocument table) }

end Custody.Source
