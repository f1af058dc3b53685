import Custody.Code.Program
import Mathlib.Data.List.Basic

/-!
# Positions in a body

A node of a body stands among the variables that have been declared before it in the
blocks around it.  `Node.Inside` leads from a node to the nodes right below it with
what is declared there, and `Node.Throughout` says that something holds at every
position that can be reached in this way.

A body that is lowered has statements on the outside and expressions inside of them:
`Node.IsStatement` and `Node.IsExpression` tell them apart.  Expressions declare
nothing.
-/

namespace Custody.Code

/-- The variables that are declared at a position, with their types. -/
abbrev Environment : Type := List (String × String)

namespace Node

/-- The variables that a node itself declares. -/
def declared : Node → Environment
  | localVar _ type declarators => declarators.map fun (name, _) => (name, type)
  | _ => []

/-- The names of the arguments of a new object. -/
def argumentNames : Node → List String
  | new _ _ _ args => args.map (·.1)
  | _ => []

theorem mem_preorder_of_argumentNames {node : Node} {name : String}
    (member : name ∈ node.argumentNames) : node ∈ node.preorder := by
  cases node with
  | new => exact .head _
  | _ => cases member

/-- The variables that some nodes declare, at any depth. -/
def declarations (nodes : List Node) : Environment := (preorderAll nodes).flatMap declared

/-- One node is right below another.  A statement of a block sees what the statements
before it declare. -/
inductive Inside : Environment → Node → Environment → Node → Prop where
  | stmt {env : Environment} {pos : Int} (past : List Node) (stmt : Node) (rest : List Node) :
      Inside env (.block pos (past ++ stmt :: rest)) (env ++ past.flatMap declared) stmt
  | element {env : Environment} {pos : Int} {type maker : String} {args : List (String × Node)}
      {arg : String × Node} (member : arg ∈ args) :
      Inside env (.new pos type maker args) env arg.2
  | initial {env : Environment} {pos : Int} {type : String} {declarators : List (String × Node)}
      {declarator : String × Node} (member : declarator ∈ declarators) :
      Inside env (.localVar pos type declarators) env declarator.2
  | value {env : Environment} {pos : Int} {target : Option Reference} {value : Node} :
      Inside env (.assign pos target value) env value
  | result {env : Environment} {pos : Int} {values : List Node} {value : Node}
      (member : value ∈ values) : Inside env (.ret pos values) env value
  | argument {env : Environment} {pos : Int} {qualifier name : String} {args : List Node}
      {arg : Node} (member : arg ∈ args) : Inside env (.call pos qualifier name args) env arg
  | operand {env : Environment} {pos : Int} {op : String} {operands : List Node} {operand : Node}
      (member : operand ∈ operands) : Inside env (.operation pos op operands) env operand

theorem Inside.sizeOf_lt {env later : Environment} {node child : Node}
    (inside : Inside env node later child) : sizeOf child < sizeOf node := by
  have named : ∀ {arg : String × Node} {args : List (String × Node)}, arg ∈ args →
      sizeOf arg.2 < sizeOf args := by
    intro arg args member
    have whole := List.sizeOf_lt_of_mem member
    have part : sizeOf arg.2 < sizeOf arg := by
      obtain ⟨name, value⟩ := arg
      simp only [Prod.mk.sizeOf_spec]
      omega
    omega
  cases inside with
  | stmt past _ rest =>
      have member : child ∈ past ++ child :: rest := by simp
      have less := List.sizeOf_lt_of_mem member
      simp only [block.sizeOf_spec]
      omega
  | element member =>
      have less := named member
      simp only [new.sizeOf_spec]
      omega
  | initial member =>
      have less := named member
      simp only [localVar.sizeOf_spec]
      omega
  | value =>
      simp only [assign.sizeOf_spec]
      omega
  | result member =>
      have less := List.sizeOf_lt_of_mem member
      simp only [ret.sizeOf_spec]
      omega
  | argument member =>
      have less := List.sizeOf_lt_of_mem member
      simp only [call.sizeOf_spec]
      omega
  | operand member =>
      have less := List.sizeOf_lt_of_mem member
      simp only [operation.sizeOf_spec]
      omega

/-- Something holds at a position and everywhere below it. -/
inductive Throughout (holds : Environment → Node → Prop) : Environment → Node → Prop where
  | intro {env : Environment} {node : Node} (here : holds env node)
      (below : ∀ later child, Inside env node later child → Throughout holds later child) :
      Throughout holds env node

namespace Throughout

variable {holds : Environment → Node → Prop} {env more : Environment} {node : Node}

theorem here (throughout : Throughout holds env node) : holds env node := by
  cases throughout with
  | intro here _ => exact here

theorem under (throughout : Throughout holds env node) {later : Environment} {child : Node}
    (inside : Inside env node later child) : Throughout holds later child := by
  cases throughout with
  | intro _ below => exact below later child inside

/-- What each position hands on to those right below it holds everywhere. -/
theorem of_inside (hands : ∀ {env node later child}, holds env node →
    Inside env node later child → holds later child) (start : holds env node) :
    Throughout holds env node := by
  induction size : sizeOf node using Nat.strongRecOn generalizing env node with
  | ind bound ih =>
      refine .intro start fun later child inside => ?_
      exact ih _ (size ▸ inside.sizeOf_lt) (hands start inside) rfl

/-- Below a node with more variables declared stands what is below it with fewer. -/
theorem Inside.fewer {later : Environment} {child : Node} (inside : Inside more node later child)
    (within : env ⊆ more) : ∃ fewer, fewer ⊆ later ∧ Inside env node fewer child := by
  cases inside with
  | stmt past _ rest =>
      refine ⟨env ++ past.flatMap declared, ?_, .stmt past child rest⟩
      intro entry member
      exact List.mem_append.2 ((List.mem_append.1 member).imp_left fun listed => within listed)
  | element member => exact ⟨env, within, .element member⟩
  | initial member => exact ⟨env, within, .initial member⟩
  | value => exact ⟨env, within, .value⟩
  | result member => exact ⟨env, within, .result member⟩
  | argument member => exact ⟨env, within, .argument member⟩
  | operand member => exact ⟨env, within, .operand member⟩

/-- More variables do no harm to what only asks for some. -/
theorem mono (grows : ∀ {env more : Environment} {node : Node}, env ⊆ more → holds env node →
    holds more node) (throughout : Throughout holds env node) (within : env ⊆ more) :
    Throughout holds more node := by
  induction throughout generalizing more with
  | intro here _ ih =>
      refine .intro (grows within here) ?_
      intro later child inside
      obtain ⟨fewer, subset, below⟩ := Inside.fewer inside within
      exact ih fewer child below subset

end Throughout

/-- Expressions have no statements below them. -/
inductive IsExpression : Node → Prop where
  | absent : IsExpression .absent
  | literal (pos : Int) (value : String) (isNil : Bool) : IsExpression (.literal pos value isNil)
  | reference (target : Reference) : IsExpression (.reference target)
  | new {pos : Int} {type maker : String} {args : List (String × Node)}
      (each : ∀ arg ∈ args, IsExpression arg.2) : IsExpression (.new pos type maker args)
  | call {pos : Int} {qualifier member : String} {args : List Node}
      (each : ∀ arg ∈ args, IsExpression arg) : IsExpression (.call pos qualifier member args)
  | operation {pos : Int} {op : String} {operands : List Node}
      (each : ∀ operand ∈ operands, IsExpression operand) :
      IsExpression (.operation pos op operands)
  | unsupported (pos : Int) (construct : String) : IsExpression (.unsupported pos construct)

/-- Statements of a body that is lowered. -/
inductive IsStatement : Node → Prop where
  | expression {node : Node} (expression : node.IsExpression) : IsStatement node
  | block {pos : Int} {stmts : List Node} (each : ∀ stmt ∈ stmts, IsStatement stmt) :
      IsStatement (.block pos stmts)
  | localVar {pos : Int} {type name : String} {init : Node} (computes : init.IsExpression) :
      IsStatement (.localVar pos type [(name, init)])
  | assign {pos : Int} {target : Reference} {value : Node} (computes : value.IsExpression) :
      IsStatement (.assign pos (some target) value)
  | ret {pos : Int} {values : List Node} (each : ∀ value ∈ values, value.IsExpression) :
      IsStatement (.ret pos values)

/-- Statements of blocks.  A declaration may be of several variables, and nodes of unknown kinds
are passed over. -/
inductive IsCommand : Node → Prop where
  | expression {node : Node} (expression : node.IsExpression) : IsCommand node
  | block {pos : Int} {stmts : List Node} (each : ∀ stmt ∈ stmts, IsCommand stmt) :
      IsCommand (.block pos stmts)
  | localVar {pos : Int} {type : String} {declarators : List (String × Node)}
      (each : ∀ declarator ∈ declarators, declarator.2.IsExpression) :
      IsCommand (.localVar pos type declarators)
  | assign {pos : Int} {target : Reference} {value : Node} (computes : value.IsExpression) :
      IsCommand (.assign pos (some target) value)
  | ret {pos : Int} {values : List Node} (each : ∀ value ∈ values, value.IsExpression) :
      IsCommand (.ret pos values)
  | alien (pos : Int) (kind : Kind) : IsCommand (.alien pos kind)

theorem IsStatement.isCommand {node : Node} (statement : node.IsStatement) : node.IsCommand := by
  induction statement with
  | expression expression => exact .expression expression
  | block _ ih => exact .block ih
  | localVar computes =>
      refine .localVar fun declarator member => ?_
      cases List.mem_singleton.1 member
      exact computes
  | assign computes => exact .assign computes
  | ret each => exact .ret each

theorem preorderAll_append (nodes others : List Node) :
    preorderAll (nodes ++ others) = preorderAll nodes ++ preorderAll others := by
  induction nodes with
  | nil => rfl
  | cons node rest ih => simp [preorderAll, ih]

theorem preorderNamed_append (nodes others : List (String × Node)) :
    preorderNamed (nodes ++ others) = preorderNamed nodes ++ preorderNamed others := by
  induction nodes with
  | nil => rfl
  | cons node rest ih =>
      obtain ⟨name, node⟩ := node
      simp [preorderNamed, ih]

theorem declarations_append (nodes others : List Node) :
    declarations (nodes ++ others) = declarations nodes ++ declarations others := by
  simp [declarations, preorderAll_append]

/-- What nodes declare one by one is what they declare together. -/
theorem declarations_eq_nil {nodes : List Node} (each : ∀ node ∈ nodes, declarations [node] = []) :
    declarations nodes = [] := by
  induction nodes with
  | nil => rfl
  | cons node rest ih =>
      have split := declarations_append [node] rest
      rw [List.singleton_append, each node (.head _),
        ih fun other member => each other (.tail _ member)] at split
      exact split

theorem preorderNamed_eq (args : List (String × Node)) :
    preorderNamed args = preorderAll (args.map (·.2)) := by
  induction args with
  | nil => rfl
  | cons arg rest ih =>
      obtain ⟨name, node⟩ := arg
      simp [preorderNamed, preorderAll, ih]

theorem declarations_block (pos : Int) (stmts : List Node) :
    declarations [.block pos stmts] = declarations stmts := by
  simp [declarations, preorderAll, preorder, declared]

/-- Expressions declare nothing. -/
theorem IsExpression.declarations {node : Node} (expression : node.IsExpression) :
    declarations [node] = [] := by
  induction expression with
  | absent => rfl
  | literal pos value isNil => rfl
  | reference target => rfl
  | unsupported pos construct => rfl
  | @new pos type maker args _ ih =>
      have inner : Node.declarations (args.map (·.2)) = [] := by
        apply declarations_eq_nil
        intro node member
        obtain ⟨arg, listed, rfl⟩ := List.mem_map.1 member
        exact ih arg listed
      simpa [Node.declarations, preorderAll, preorder, preorderNamed_eq, declared] using inner
  | @call pos qualifier member args _ ih =>
      have inner := declarations_eq_nil ih
      simpa [Node.declarations, preorderAll, preorder, declared] using inner
  | @operation pos op operands _ ih =>
      have inner := declarations_eq_nil ih
      simpa [Node.declarations, preorderAll, preorder, declared] using inner

end Node

/-- What is asked of the names that nodes mention, where some variables are declared. -/
structure Demands where
  /-- Of a variable or field that is read or assigned. -/
  reads : Environment → Reference → Prop
  /-- Of the qualifier and the name of a method that is called. -/
  calls : Environment → String → String → Prop
  /-- Of the type and the constructor of a new object, and of the names of the fields
  that its arguments are attached as. -/
  makes : String → String → List String → Prop

namespace Demands

/-- A node is as it should be. -/
def Meets (demands : Demands) (env : Environment) : Node → Prop
  | .reference target | .assign _ (some target) _ => demands.reads env target
  | .call _ qualifier member _ => demands.calls env qualifier member
  | .new _ type maker args => demands.makes type maker (args.map (·.1))
  | _ => True

/-- More variables do no harm. -/
structure Grows (demands : Demands) : Prop where
  reads : ∀ {env more : Environment} {target : Reference}, env ⊆ more →
    demands.reads env target → demands.reads more target
  calls : ∀ {env more : Environment} {qualifier member : String}, env ⊆ more →
    demands.calls env qualifier member → demands.calls more qualifier member

theorem Grows.meets {demands : Demands} (grows : demands.Grows) {env more : Environment}
    {node : Node} (within : env ⊆ more) (meets : demands.Meets env node) :
    demands.Meets more node := by
  unfold Meets at meets ⊢
  split
  · exact grows.reads within meets
  · exact grows.reads within meets
  · exact grows.calls within meets
  · exact meets
  · trivial

end Demands

/-- The parameters of a method and the variables that its body declares. -/
def MethodDecl.variables (method : MethodDecl) : Environment :=
  method.params.map (fun param => (param.name, param.type)) ++ method.nodes.flatMap Node.declared

end Custody.Code
