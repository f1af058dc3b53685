import Custody.Code.Program
import Custody.Data.Document

/-!
# Programs as documents

A program is exchanged as a document.  A node is an object with its kind under
`k` and its position under `pos`; null is an absent node, and an object that is
marked `typed_nil` a vacant one.
-/

namespace Custody.Code

/-- Read a reference. -/
def Reference.ofDocument (document : Document) : Reference :=
  ⟨document.int "pos", document.text "qualifier", document.text "member"⟩

namespace Node

/-- Read a node of a document that is nested no deeper than a bound. -/
def read : Nat → Document → Node
  | 0, _ => absent
  | bound + 1, document =>
      let pos := document.int "pos"
      let children (key : String) : List Node := (document.list key).map (read bound)
      let named (key child : String) : List (String × Node) :=
        (document.list key).map fun item => (item.text "name", read bound (item.get child))
      if document.isNull then absent
      else if document.flag "typed_nil" then vacant
      else match document.text "k" with
        | "Block" => block pos (children "stmts")
        | "Literal" => literal pos (document.text "value") (document.flag "nil")
        | "Reference" => reference (.ofDocument document)
        | "New" =>
            new pos (document.text "type") (document.text "constructor") (named "args" "value")
        | "LocalVar" => localVar pos (document.text "type") (named "declarators" "init")
        | "Assign" =>
            let target := document.get "target"
            assign pos
              (if target.isNull || target.flag "typed_nil" then none else some (.ofDocument target))
              (read bound (document.get "value"))
        | "Return" => ret pos (children "values")
        | "Call" => call pos (document.text "qualifier") (document.text "member") (children "args")
        | "Operation" => operation pos (document.text "op") (children "operands")
        | "Unsupported" => unsupported pos (document.text "construct")
        | _ => alien pos ⟨document.byte "kind"⟩

/-- Read a node. -/
def ofDocument (document : Document) : Node := read document.depth document

/-- The document of a node with the fields of its kind. -/
def fields (node : Node) (more : List (String × Document)) : Document :=
  .object ([("k", .string node.kind.name), ("pos", .ofInt node.pos)] ++ more)

mutual

/-- The document of a node. -/
def toDocument : Node → Document
  | absent => .null
  | vacant => .null
  | node@(block _ stmts) => node.fields [("stmts", .array (toDocuments stmts))]
  | node@(literal _ value isNil) => node.fields [("value", .string value), ("nil", .bool isNil)]
  | node@(reference target) =>
      node.fields [("qualifier", .string target.qualifier), ("member", .string target.member)]
  | node@(new _ type maker args) =>
      node.fields [("type", .string type), ("constructor", .string maker),
        ("args", .array (namedDocuments "value" args))]
  | node@(localVar _ type declarators) =>
      node.fields [("type", .string type),
        ("declarators", .array (namedDocuments "init" declarators))]
  | node@(assign _ target value) =>
      let place := match target with
        | some target =>
            fields (reference target)
              [("qualifier", .string target.qualifier), ("member", .string target.member)]
        | none => .null
      node.fields [("target", place), ("value", toDocument value)]
  | node@(ret _ values) => node.fields [("values", .array (toDocuments values))]
  | node@(call _ qualifier member args) =>
      node.fields [("qualifier", .string qualifier), ("member", .string member),
        ("args", .array (toDocuments args))]
  | node@(operation _ op operands) =>
      node.fields [("op", .string op), ("operands", .array (toDocuments operands))]
  | node@(unsupported _ construct) => node.fields [("construct", .string construct)]
  | node@(alien _ kind) => node.fields [("kind", .ofNat kind.code.toNat)]
  termination_by structural node => node

/-- The documents of nodes. -/
def toDocuments : List Node → List Document
  | [] => []
  | node :: rest => toDocument node :: toDocuments rest
  termination_by structural nodes => nodes

/-- The documents of nodes with names. -/
def namedDocuments (key : String) : List (String × Node) → List Document
  | [] => []
  | (name, node) :: rest =>
      .object [("name", .string name), (key, toDocument node)] :: namedDocuments key rest
  termination_by structural nodes => nodes

end

end Node

/-- Read a parameter. -/
def Param.ofDocument (document : Document) : Param :=
  ⟨document.int "pos", document.text "name", document.text "type", document.flag "value"⟩

/-- The document of a parameter. -/
def Param.toDocument (param : Param) : Document :=
  .object [("name", .string param.name), ("type", .string param.type),
    ("value", .bool param.isValue), ("pos", .ofInt param.pos)]

/-- Read a method. -/
def MethodDecl.ofDocument (document : Document) : MethodDecl where
  pos := document.int "pos"
  name := document.text "name"
  params := (document.list "params").map .ofDocument
  result := document.text "result"
  isConstructor := document.flag "constructor"
  valueReceiver := document.flag "value_receiver"
  body :=
    match Node.ofDocument (document.get "body") with
    | .block pos stmts => some ⟨pos, stmts⟩
    | _ => none

/-- The document of a method. -/
def MethodDecl.toDocument (method : MethodDecl) : Document :=
  .object [("name", .string method.name), ("params", .array (method.params.map (·.toDocument))),
    ("result", .string method.result), ("constructor", .bool method.isConstructor),
    ("value_receiver", .bool method.valueReceiver), ("pos", .ofInt method.pos),
    ("body", (method.body.map (·.node.toDocument)).getD .null)]

/-- Read a class. -/
def ClassDecl.ofDocument (document : Document) : ClassDecl where
  pos := document.int "pos"
  name := document.text "name"
  parent := document.text "parent"
  fields := (document.list "fields").map fun field =>
    ⟨field.int "pos", field.text "type", field.texts "names"⟩
  methods := (document.list "methods").map .ofDocument

/-- The document of a class. -/
def ClassDecl.toDocument (decl : ClassDecl) : Document :=
  .object [("name", .string decl.name), ("parent", .string decl.parent), ("pos", .ofInt decl.pos),
    ("fields", .array (decl.fields.map fun field =>
      .object [("type", .string field.type), ("names", .ofTexts field.names),
        ("pos", .ofInt field.pos)])),
    ("methods", .array (decl.methods.map (·.toDocument)))]

/-- Read a program. -/
def Program.ofDocument (document : Document) : Program :=
  ⟨(document.list "classes").map .ofDocument⟩

/-- The document of a program. -/
def Program.toDocument (program : Program) : Document :=
  .object [("classes", .array (program.classes.map (·.toDocument)))]

end Custody.Code
