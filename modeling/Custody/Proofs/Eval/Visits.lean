import Custody.Eval.Unit
import Custody.Proofs.Code.Paths
import Custody.Proofs.Eval.Advancing

/-!
# Sites of an evaluation

The evaluation of a body comes to one node after the other, each in a scope and a
frame of its own: `Site.Enters` leads from a node to those right below it, past
everything that is evaluated before them.

A name that is declared before a node, in a block around it, is bound when the
evaluation comes to that node (`Site.Fit`).
-/

namespace Custody.Eval

open Code

variable {context : Context}

/-- A node that is about to be evaluated. -/
structure Site where
  scope : ScopeId
  node : Node
  frame : Frame

namespace Site

/-- The evaluation of a node comes to another right below it. -/
inductive Enters (context : Context) : Site → Site → Prop where
  | stmt {scope child : ScopeId} {pos : Int} {past rest : List Node} {stmt : Node}
      {frame reached : Frame}
      (before : (do
        let child ← Step.onMemory (Memory.openChild scope)
        Step.block context child past
        return child : Step ScopeId) frame = .ok child reached) :
      Enters context ⟨scope, .block pos (past ++ stmt :: rest), frame⟩ ⟨child, stmt, reached⟩
  | element {scope : ScopeId} {pos : Int} {type name : String} {past rest : List (String × Node)}
      {node : Node} {frame reached : Frame}
      (before : (do
        let made ← Step.onHeap (Heap.allocate type false)
        Step.attach context scope pos made 0 past : Step Unit) frame = .ok () reached) :
      Enters context ⟨scope, .new pos type "" (past ++ (name, node) :: rest), frame⟩
        ⟨scope, node, reached⟩
  | passed {scope : ScopeId} {pos : Int} {type maker name : String}
      {past rest : List (String × Node)} {node : Node} {frame reached : Frame}
      {values : List (Option Ref)} (named : maker ≠ "")
      (before : (do
        let _ ← Step.onHeap (Heap.allocate type false)
        let callee ← Step.method context ⟨type, constructorMember maker⟩
        Step.requireAnalyzed context callee
        Step.evalNamed context scope past : Step (List (Option Ref))) frame = .ok values reached) :
      Enters context ⟨scope, .new pos type maker (past ++ (name, node) :: rest), frame⟩
        ⟨scope, node, reached⟩
  | initial {scope : ScopeId} {pos : Int} {type name : String} {past rest : List (String × Node)}
      {node : Node} {frame reached : Frame}
      (before : Step.declareAll context scope type past frame = .ok () reached) :
      Enters context ⟨scope, .localVar pos type (past ++ (name, node) :: rest), frame⟩
        ⟨scope, node, reached⟩
  | value {scope : ScopeId} {pos : Int} {target : Option Reference} {value : Node} {frame : Frame} :
      Enters context ⟨scope, .assign pos target value, frame⟩ ⟨scope, value, frame⟩
  | result {scope : ScopeId} {pos : Int} {past rest : List Node} {value : Node}
      {frame reached : Frame}
      (before : Step.returnAll context scope past frame = .ok () reached) :
      Enters context ⟨scope, .ret pos (past ++ value :: rest), frame⟩ ⟨scope, value, reached⟩
  | argument {scope : ScopeId} {pos : Int} {qualifier member : String} {past rest : List Node}
      {arg : Node} {frame reached : Frame} {values : List (Option Ref)}
      (before : (do
        let type ← Step.ofRegistry (context.registry.qualifierType context.method qualifier)
        let callee ← Step.method context ⟨type, member⟩
        let _ ← Step.callReceiver context scope qualifier
        Step.requireAnalyzed context callee
        Step.evalAll context scope past : Step (List (Option Ref))) frame = .ok values reached) :
      Enters context ⟨scope, .call pos qualifier member (past ++ arg :: rest), frame⟩
        ⟨scope, arg, reached⟩
  | operand {scope : ScopeId} {pos : Int} {op : String} {past rest : List Node} {operand : Node}
      {frame reached : Frame} {values : List (Option Ref)}
      (before : Step.evalAll context scope past frame = .ok values reached) :
      Enters context ⟨scope, .operation pos op (past ++ operand :: rest), frame⟩
        ⟨scope, operand, reached⟩

/-- The evaluation of a node looks up a name: the first segment of a reference, of the
target of an assignment, which comes after its value, or of the qualifier of a call. -/
inductive LooksUp (context : Context) : Site → String → Frame → Prop where
  | reference {scope : ScopeId} {target : Reference} {frame : Frame} :
      LooksUp context ⟨scope, .reference target, frame⟩ target.first frame
  | target {scope : ScopeId} {pos : Int} {target : Reference} {value : Node}
      {frame reached : Frame} {result : Option Ref}
      (before : Step.eval context scope value frame = .ok result reached) :
      LooksUp context ⟨scope, .assign pos (some target) value, frame⟩ target.first reached
  | qualifier {scope : ScopeId} {pos : Int} {qualifier member : String} {args : List Node}
      {frame : Frame} :
      LooksUp context ⟨scope, .call pos qualifier member args, frame⟩ (qualifierFirst qualifier)
        frame

end Site

/-! ## Names that are bound by statements -/

section Binding

variable {env : Environment} {scope : ScopeId} {frame next : Frame}

theorem binds_of_declareAll {type : String} {declarators : List (String × Node)}
    (named : ∀ declarator ∈ declarators, (declarator.1, type) ∈ env)
    (within : (Node.preorderNamed declarators).flatMap Node.declared ⊆ env)
    (listed : frame.memory.Listed)
    (done : Step.declareAll context scope type declarators frame = .ok () next) :
    ∀ declarator ∈ declarators, next.memory.Binds scope declarator.1 := by
  induction declarators generalizing frame with
  | nil => nofun
  | cons declarator rest ih =>
      obtain ⟨name, node⟩ := declarator
      rw [Node.preorderNamed, List.flatMap_append, List.append_subset] at within
      rw [Step.declareAll] at done
      obtain ⟨value, middle, evaluated, done⟩ := bind_eq_ok done
      obtain ⟨binding, bound, declares, done⟩ := bind_eq_ok done
      have known : middle.memory.Listed :=
        (Advancing.eval context scope node within.1 evaluated).listed listed
      have onward : Memory.Advances env _ _ :=
        Relating.onMemory (fun done => .declare (named _ (.head _)) done) declares
      have later := Advancing.declareAll context scope type rest
        (fun declarator member => named declarator (.tail _ member)) within.2 done
      intro declarator member
      rcases List.mem_cons.1 member with rfl | member
      · obtain ⟨memory, declared, rfl⟩ := Step.onMemory_eq_ok declares
        exact (Memory.binds_of_declare known declared).advances (onward.listed known) later
      · exact ih (fun declarator member => named declarator (.tail _ member)) within.2
          (onward.listed known) done declarator member

theorem binds_of_eval {node : Node} {result : Option Ref}
    (within : node.preorder.flatMap Node.declared ⊆ env) (listed : frame.memory.Listed)
    (done : Step.eval context scope node frame = .ok result next) :
    ∀ entry ∈ node.declared, next.memory.Binds scope entry.1 := by
  intro entry member
  cases node with
  | localVar pos type declarators =>
      rw [Node.preorder, List.flatMap_cons, List.append_subset] at within
      obtain ⟨declarator, inside, rfl⟩ := List.mem_map.1 member
      rw [Step.eval] at done
      obtain ⟨_, middle, declares, done⟩ := bind_eq_ok (Step.locate_eq_ok done)
      cases done
      refine binds_of_declareAll ?_ within.2 listed declares declarator inside
      intro declarator inside
      exact within.1 (List.mem_map.2 ⟨declarator, inside, rfl⟩)
  | _ => cases member

/-- Statements bind what they declare for those after them. -/
theorem binds_of_block {stmts : List Node}
    (within : (Node.preorderAll stmts).flatMap Node.declared ⊆ env)
    (listed : frame.memory.Listed)
    (done : Step.block context scope stmts frame = .ok () next) :
    ∀ entry ∈ stmts.flatMap Node.declared, next.memory.Binds scope entry.1 := by
  induction stmts generalizing frame with
  | nil => nofun
  | cons stmt rest ih =>
      rw [Node.preorderAll, List.flatMap_append, List.append_subset] at within
      rw [Step.block] at done
      obtain ⟨value, middle, evaluated, done⟩ := bind_eq_ok done
      obtain ⟨_, swept, sweeps, done⟩ := bind_eq_ok done
      have first := Advancing.eval context scope stmt within.1 evaluated
      have onward : Memory.Advances env _ _ := Relating.sweepAfter stmt sweeps
      have later := Advancing.block context scope rest within.2 done
      intro entry member
      rw [List.flatMap_cons, List.mem_append] at member
      rcases member with here | member
      · exact (binds_of_eval within.1 listed evaluated entry here).advances (first.listed listed)
          (onward.trans later)
      · exact ih within.2 (onward.listed (first.listed listed)) done entry member

end Binding

/-! ## What is bound at a site -/

/-- What is declared at a position is bound when the evaluation comes to it, and all
names are bound under types of a table. -/
structure Site.Fit (table : Environment) (holds : Environment → Node → Prop) (env : Environment)
    (site : Site) : Prop where
  throughout : Node.Throughout holds env site.node
  binds : ∀ entry ∈ env, site.frame.memory.Binds site.scope entry.1
  listed : site.frame.memory.Listed
  declares : site.node.preorder.flatMap Node.declared ⊆ table
  labels : site.frame.memory.labels ⊆ table

namespace Site.Fit

variable {table env : Environment} {holds : Environment → Node → Prop} {site next : Site}

/-- To a node below that sees the same variables, past some steps. -/
theorem move (fit : site.Fit table holds env) {child : Node} {reached : Frame}
    (inside : Node.Inside env site.node env child)
    (within : child.preorder.flatMap Node.declared ⊆ table)
    (advances : Memory.Advances table site.frame.memory reached.memory) :
    Site.Fit table holds env ⟨site.scope, child, reached⟩ where
  throughout := fit.throughout.under inside
  binds := fun entry member => (fit.binds entry member).advances fit.listed advances
  listed := advances.listed fit.listed
  declares := within
  labels := fun _ member => (advances.labels _ member).elim (fun earlier => fit.labels earlier) id

/-- What is declared is bound at the next site, too. -/
theorem enters (fit : site.Fit table holds env) (enters : site.Enters context next) :
    ∃ more, next.Fit table holds more := by
  have declares := fit.declares
  cases enters with
  | @stmt scope child pos past rest stmt frame reached before =>
      simp only [Node.preorder, List.flatMap_cons, Node.preorderAll_append, Node.preorderAll,
        List.flatMap_append, List.append_subset] at declares
      obtain ⟨_, opened, opens, before⟩ := bind_eq_ok before
      obtain ⟨_, _, evaluated, done⟩ := bind_eq_ok before
      cases done
      have first : Memory.Advances table _ _ := Advancing.openChild scope opens
      have known := first.listed fit.listed
      have onward : Memory.Advances table _ _ :=
        Advancing.block context child past declares.2.1 evaluated
      have advances := first.trans onward
      refine ⟨env ++ past.flatMap Node.declared, fit.throughout.under (.stmt past stmt rest), ?_,
        advances.listed fit.listed, declares.2.2.1, ?_⟩
      · intro entry member
        rcases List.mem_append.1 member with earlier | new
        · obtain ⟨memory, opened, rfl⟩ := Step.onMemory_eq_ok opens
          exact ((fit.binds entry earlier).openChild opened).advances known onward
        · exact binds_of_block declares.2.1 known evaluated entry new
      · intro label member
        exact (advances.labels label member).elim (fun earlier => fit.labels earlier) id
  | @element scope pos type name past rest node frame reached before =>
      simp only [Node.preorder, List.flatMap_cons, Node.preorderNamed_append, Node.preorderNamed,
        List.flatMap_append, List.append_subset] at declares
      have advances : Memory.Advances table _ _ :=
        Relating.after before <| .bind (.onHeap _) fun made =>
          Advancing.attach context scope pos made 0 past declares.2.1
      exact ⟨env, fit.move (.element (List.mem_append_right _ (.head _))) declares.2.2.1 advances⟩
  | @passed scope pos type maker name past rest node frame reached values named before =>
      simp only [Node.preorder, List.flatMap_cons, Node.preorderNamed_append, Node.preorderNamed,
        List.flatMap_append, List.append_subset] at declares
      have advances : Memory.Advances table _ _ :=
        Relating.after before <| .bind (.onHeap _) fun _ =>
        .bind (.method _) fun callee => .bind (.requireAnalyzed callee) fun _ =>
          Advancing.evalNamed context scope past declares.2.1
      exact ⟨env, fit.move (.element (List.mem_append_right _ (.head _))) declares.2.2.1 advances⟩
  | @initial scope pos type name past rest node frame reached before =>
      simp only [Node.preorder, List.flatMap_cons, Node.preorderNamed_append, Node.preorderNamed,
        List.flatMap_append, List.append_subset] at declares
      have named : ∀ declarator ∈ past, (declarator.1, type) ∈ table := fun declarator member =>
        declares.1 (List.mem_map.2 ⟨declarator, List.mem_append_left _ member, rfl⟩)
      have advances := Advancing.declareAll context scope type past named declares.2.1 before
      exact ⟨env, fit.move (.initial (List.mem_append_right _ (.head _))) declares.2.2.1 advances⟩
  | value =>
      simp only [Node.preorder, List.flatMap_cons, List.flatMap_append, List.append_subset] at declares
      exact ⟨env, fit.move .value declares.2.2 (.refl _)⟩
  | @result scope pos past rest value frame reached before =>
      simp only [Node.preorder, List.flatMap_cons, Node.preorderAll_append, Node.preorderAll,
        List.flatMap_append, List.append_subset] at declares
      have advances := Advancing.returnAll context scope past declares.2.1 before
      exact ⟨env, fit.move (.result (List.mem_append_right _ (.head _))) declares.2.2.1 advances⟩
  | @argument scope pos qualifier member past rest arg frame reached values before =>
      simp only [Node.preorder, List.flatMap_cons, Node.preorderAll_append, Node.preorderAll,
        List.flatMap_append, List.append_subset] at declares
      have advances : Memory.Advances table _ _ :=
        Relating.after before <| .bind (.ofRegistry _) fun type =>
        .bind (.method _) fun callee => .bind (.callReceiver qualifier) fun _ =>
          .bind (.requireAnalyzed callee) fun _ =>
            Advancing.evalAll context scope past declares.2.1
      exact ⟨env, fit.move (.argument (List.mem_append_right _ (.head _))) declares.2.2.1 advances⟩
  | @operand scope pos op past rest operand frame reached values before =>
      simp only [Node.preorder, List.flatMap_cons, Node.preorderAll_append, Node.preorderAll,
        List.flatMap_append, List.append_subset] at declares
      have advances := Advancing.evalAll context scope past declares.2.1 before
      exact ⟨env, fit.move (.operand (List.mem_append_right _ (.head _))) declares.2.2.1 advances⟩

/-- What a node looks up is looked up past what is evaluated before. -/
theorem advances_of_looksUp (fit : site.Fit table holds env) {name : String} {frame : Frame}
    (looks : site.LooksUp context name frame) :
    Memory.Advances table site.frame.memory frame.memory := by
  have declares := fit.declares
  cases looks with
  | reference => exact .refl _
  | @target scope pos target value frame reached result before =>
      rw [Node.preorder, List.flatMap_cons, List.append_subset, List.flatMap_append,
        List.append_subset] at declares
      exact Advancing.eval context scope value declares.2.2 before
  | qualifier => exact .refl _

/-- A name that is declared is looked up in the scopes, not among the fields of the
receiver, and it has a type of the table. -/
theorem first_of_looksUp (fit : site.Fit table holds env) {name : String} {frame : Frame}
    (looks : site.LooksUp context name frame) (member : name ∈ env.map (·.1)) :
    ∃ binding, frame.memory.lookup? site.scope name = some binding ∧
      (name, (frame.memory.binding binding).type) ∈ table ∧
      Step.first context site.scope name frame =
        .ok ((frame.memory.binding binding).object, (frame.memory.binding binding).type) frame := by
  obtain ⟨entry, listed, rfl⟩ := List.mem_map.1 member
  have advances := fit.advances_of_looksUp looks
  have binds := (fit.binds entry listed).advances fit.listed advances
  obtain ⟨binding, found⟩ := Option.isSome_iff_exists.1 binds.isSome_lookup?
  refine ⟨binding, found, ?_, ?_⟩
  · have label := (advances.listed fit.listed).mem_labels_of_lookup? found
    exact (advances.labels _ label).elim (fun earlier => fit.labels earlier) id
  · exact Step.first_of_bound context found

end Site.Fit

/-! ## Units -/

/-- The receiver and the parameters of a unit with their types. -/
def entryNames (method : Method) : Environment :=
  (this, method.owner) :: method.params.map fun param => (param.name, param.type)

theorem binds_of_bindParams {rules : Heap.Discipline} {root : ScopeId} {params : List Param}
    {memory next : Memory} {tracked : List Tracked} {env : Environment}
    (named : ∀ param ∈ params, (param.name, param.type) ∈ env) (listed : memory.Listed)
    (done : bindParams rules root params memory = .ok tracked next) :
    Memory.Advances env memory next ∧ ∀ param ∈ params, next.Binds root param.name := by
  induction params generalizing memory tracked with
  | nil =>
      cases done
      exact ⟨.refl _, nofun⟩
  | cons param rest ih =>
      obtain ⟨object, allocated, allocates, done⟩ := bind_eq_ok done
      obtain ⟨_, held, holds, done⟩ := bind_eq_ok done
      obtain ⟨binding, bound, declares, done⟩ := bind_eq_ok done
      obtain ⟨others, last, later, done⟩ := bind_eq_ok done
      cases done
      have first : Memory.Advances env memory held := (Memory.Advances.onHeap allocates).trans
        (.onHeap holds)
      have second : Memory.Advances env held bound := .declare (named param (.head _)) declares
      have known := second.listed (first.listed listed)
      obtain ⟨onward, binds⟩ := ih (fun other member => named other (.tail _ member)) known later
      refine ⟨(first.trans second).trans onward, ?_⟩
      intro other member
      rcases List.mem_cons.1 member with rfl | member
      · exact (Memory.binds_of_declare (first.listed listed) declares).advances known onward
      · exact binds other member

/-- The receiver and the parameters are all that is bound at the entry of a unit. -/
theorem binds_of_enter {rules : Heap.Discipline} {method : Method} {heap : Heap} {entry : Entry}
    {memory : Memory} (done : enter rules method (.ofHeap heap) = .ok entry memory) :
    memory.Listed ∧ memory.labels ⊆ entryNames method ∧
      ∀ name ∈ entryNames method, memory.Binds entry.root name.1 := by
  obtain ⟨root, opened, opens, done⟩ := bind_eq_ok done
  obtain ⟨receiver, allocated, allocates, done⟩ := bind_eq_ok done
  obtain ⟨binding, bound, declares, done⟩ := bind_eq_ok done
  obtain ⟨sink, stored, stores, done⟩ := bind_eq_ok done
  obtain ⟨_, held, holds, done⟩ := bind_eq_ok done
  obtain ⟨params, last, binds, done⟩ := bind_eq_ok done
  cases done
  have bare : (Memory.ofHeap heap).Listed := by
    intro scope binding member
    simp [Memory.ofHeap, Memory.scope] at member
  have start : Memory.Advances (entryNames method) (.ofHeap heap) allocated := by
    refine Memory.Advances.trans ?_ (.onHeap allocates)
    cases opens
    exact .openScope _ _
  have known := start.listed bare
  have second : Memory.Advances (entryNames method) allocated bound := .declare (.head _) declares
  have third : Memory.Advances (entryNames method) bound held :=
    (Memory.Advances.onHeap stores).trans (.onHeap holds)
  have ready := third.listed (second.listed known)
  obtain ⟨onward, each⟩ := binds_of_bindParams
    (fun param member => .tail _ (List.mem_map.2 ⟨param, member, rfl⟩)) ready binds
  refine ⟨onward.listed ready, ?_, ?_⟩
  · intro label member
    rcases (start.trans (second.trans (third.trans onward))).labels label member with none | listed
    · cases none
    · exact listed
  · intro name member
    rcases List.mem_cons.1 member with rfl | member
    · exact (Memory.binds_of_declare known declares).advances (second.listed known)
        (third.trans onward)
    · obtain ⟨param, listed, rfl⟩ := List.mem_map.1 member
      exact each param listed

/-- The evaluation of a unit comes to a site. -/
inductive Visits (context : Context) (lastId : Nat) : Site → Prop where
  | stmt {entry : Entry} {memory : Memory} {block : Block} {site : Site}
      (entered : enter context.rules context.method (.ofHeap (.startingAfter lastId)) =
        .ok entry memory)
      (declared : context.method.decl.body = some block)
      (enters : Site.Enters context ⟨entry.root, block.node, entry.frame memory⟩ site) :
      Visits context lastId site
  | inside {site next : Site} (visits : Visits context lastId site)
      (enters : site.Enters context next) : Visits context lastId next

/-- At every site that the evaluation of a unit comes to, what is declared there is
bound. -/
theorem Visits.fit {lastId : Nat} {site : Site} {holds : Environment → Node → Prop}
    (visits : Visits context lastId site)
    (throughout : ∀ block ∈ context.method.decl.body,
      Node.Throughout holds (entryNames context.method) block.node) :
    ∃ env, site.Fit ((this, context.method.owner) :: context.method.decl.variables) holds env := by
  induction visits with
  | @stmt entry memory block site entered declared enters =>
      obtain ⟨listed, labels, binds⟩ := binds_of_enter entered
      have parts : context.method.decl.variables =
          (context.method.params.map fun param => (param.name, param.type)) ++
            block.node.preorder.flatMap Node.declared := by
        simp only [MethodDecl.variables, MethodDecl.nodes, declared, Method.params]
      have fit : Site.Fit ((this, context.method.owner) :: context.method.decl.variables) holds
          (entryNames context.method) ⟨entry.root, block.node, entry.frame memory⟩ := by
        refine ⟨throughout block declared, binds, listed, ?_, ?_⟩
        · rw [parts]
          exact fun entry member => .tail _ (List.mem_append_right _ member)
        · rw [parts]
          exact List.Subset.trans labels (List.cons_subset_cons _ (List.subset_append_left _ _))
      exact fit.enters enters
  | inside _ enters ih =>
      obtain ⟨env, fit⟩ := ih
      exact fit.enters enters

end Custody.Eval
