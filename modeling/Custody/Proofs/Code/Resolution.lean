import Custody.Graph.Edges
import Custody.Proofs.Code.Paths
import Custody.Proofs.Code.Positions
import Custody.Proofs.Data.Occurrences

/-!
# Names that resolve

The registry is asked for the types of variables and fields and for the methods that a
body mentions.  `Registry.resolving` demands of every position of a body that the answers
are there, with what is declared at the position as the only variables.
-/

namespace Custody

open Code

namespace Code.Node

variable {holds : Environment → Node → Prop} {env later table : Environment}
variable {node child other : Node} {nodes : List Node}

/-! ## Nodes below a node -/

theorem preorder_subset_preorderAll (member : node ∈ nodes) :
    node.preorder ⊆ preorderAll nodes := by
  obtain ⟨past, rest, rfl⟩ := List.append_of_mem member
  rw [preorderAll_append, preorderAll]
  exact List.subset_append_of_subset_right _ (List.subset_append_left _ _)

theorem preorder_subset_preorderNamed {args : List (String × Node)} {arg : String × Node}
    (member : arg ∈ args) : arg.2.preorder ⊆ preorderNamed args := by
  rw [preorderNamed_eq]
  exact preorder_subset_preorderAll (List.mem_map_of_mem member)

theorem exists_of_mem_preorderAll (member : other ∈ preorderAll nodes) :
    ∃ node ∈ nodes, other ∈ node.preorder := by
  induction nodes with
  | nil => cases member
  | cons node rest ih =>
      rw [preorderAll] at member
      rcases List.mem_append.1 member with here | member
      · exact ⟨node, .head _, here⟩
      · obtain ⟨found, listed, inside⟩ := ih member
        exact ⟨found, .tail _ listed, inside⟩

theorem preorderAll_subset {others : List Node} (within : nodes ⊆ others) :
    preorderAll nodes ⊆ preorderAll others := by
  intro other member
  obtain ⟨node, listed, inside⟩ := exists_of_mem_preorderAll member
  exact preorder_subset_preorderAll (within listed) inside

theorem exists_of_mem_preorderNamed {args : List (String × Node)}
    (member : other ∈ preorderNamed args) : ∃ arg ∈ args, other ∈ arg.2.preorder := by
  rw [preorderNamed_eq] at member
  obtain ⟨node, listed, inside⟩ := exists_of_mem_preorderAll member
  obtain ⟨arg, here, rfl⟩ := List.mem_map.1 listed
  exact ⟨arg, here, inside⟩

/-- What a node declares itself is among what is declared below it. -/
theorem declared_subset (node : Node) : node.declared ⊆ node.preorder.flatMap declared := by
  cases node with
  | localVar pos type declarators =>
      rw [preorder, List.flatMap_cons]
      exact List.subset_append_left _ _
  | _ => exact List.nil_subset _

theorem flatMap_declared_subset (nodes : List Node) :
    nodes.flatMap declared ⊆ (preorderAll nodes).flatMap declared := by
  intro entry member
  obtain ⟨node, listed, here⟩ := List.mem_flatMap.1 member
  obtain ⟨found, inside, declares⟩ := List.mem_flatMap.1 (declared_subset node here)
  exact List.mem_flatMap.2 ⟨found, preorder_subset_preorderAll listed inside, declares⟩

/-- A node of a tree is its root, the target that it assigns to, or below a child. -/
theorem mem_preorder_cases (env : Environment) (member : other ∈ node.preorder) :
    other = node ∨
      (∃ pos target value, node = .assign pos (some target) value ∧ other = .reference target) ∨
      ∃ later child, Inside env node later child ∧ other ∈ child.preorder := by
  cases node with
  | absent | vacant => cases member
  | literal | reference | unsupported | alien => exact .inl (List.mem_singleton.1 member)
  | block pos stmts =>
      rcases List.mem_cons.1 member with rfl | member
      · exact .inl rfl
      · obtain ⟨stmt, listed, inside⟩ := exists_of_mem_preorderAll member
        obtain ⟨past, rest, rfl⟩ := List.append_of_mem listed
        exact .inr (.inr ⟨_, stmt, .stmt past stmt rest, inside⟩)
  | new pos type maker args =>
      rcases List.mem_cons.1 member with rfl | member
      · exact .inl rfl
      · obtain ⟨arg, listed, inside⟩ := exists_of_mem_preorderNamed member
        exact .inr (.inr ⟨env, arg.2, .element listed, inside⟩)
  | localVar pos type declarators =>
      rcases List.mem_cons.1 member with rfl | member
      · exact .inl rfl
      · obtain ⟨declarator, listed, inside⟩ := exists_of_mem_preorderNamed member
        exact .inr (.inr ⟨env, declarator.2, .initial listed, inside⟩)
  | assign pos target value =>
      rcases List.mem_cons.1 member with rfl | member
      · exact .inl rfl
      · rcases List.mem_append.1 member with here | inside
        · obtain ⟨target, rfl, rfl⟩ := Option.map_eq_some_iff.1 (Option.mem_toList.1 here)
          exact .inr (.inl ⟨pos, target, value, rfl, rfl⟩)
        · exact .inr (.inr ⟨env, value, .value, inside⟩)
  | ret pos values =>
      rcases List.mem_cons.1 member with rfl | member
      · exact .inl rfl
      · obtain ⟨value, listed, inside⟩ := exists_of_mem_preorderAll member
        exact .inr (.inr ⟨env, value, .result listed, inside⟩)
  | call pos qualifier name args =>
      rcases List.mem_cons.1 member with rfl | member
      · exact .inl rfl
      · obtain ⟨arg, listed, inside⟩ := exists_of_mem_preorderAll member
        exact .inr (.inr ⟨env, arg, .argument listed, inside⟩)
  | operation pos op operands =>
      rcases List.mem_cons.1 member with rfl | member
      · exact .inl rfl
      · obtain ⟨operand, listed, inside⟩ := exists_of_mem_preorderAll member
        exact .inr (.inr ⟨env, operand, .operand listed, inside⟩)

theorem Inside.preorder_subset (inside : Inside env node later child) :
    child.preorder ⊆ node.preorder := by
  cases inside with
  | stmt past _ rest =>
      exact List.subset_cons_of_subset _ (preorder_subset_preorderAll (by simp))
  | element member => exact List.subset_cons_of_subset _ (preorder_subset_preorderNamed member)
  | initial member => exact List.subset_cons_of_subset _ (preorder_subset_preorderNamed member)
  | value => exact List.subset_cons_of_subset _ (List.subset_append_right _ _)
  | result member => exact List.subset_cons_of_subset _ (preorder_subset_preorderAll member)
  | argument member => exact List.subset_cons_of_subset _ (preorder_subset_preorderAll member)
  | operand member => exact List.subset_cons_of_subset _ (preorder_subset_preorderAll member)

/-- A position below sees nothing but what was there and what is declared above it. -/
theorem Inside.environment_subset (inside : Inside env node later child) :
    later ⊆ env ++ node.preorder.flatMap declared := by
  cases inside with
  | stmt past _ rest =>
      refine List.append_subset.2 ⟨List.subset_append_left _ _, ?_⟩
      refine List.subset_append_of_subset_right _ ?_
      have shown : past.flatMap declared ⊆ (past ++ child :: rest).flatMap declared := by
        rw [List.flatMap_append]
        exact List.subset_append_left _ _
      exact List.Subset.trans shown (flatMap_declared_subset _)
  | _ => exact List.subset_append_left _ _

namespace Throughout

/-- What holds throughout a tree holds where its variables and its nodes are known. -/
theorem within (throughout : Throughout holds env node) (known : env ⊆ table)
    (listed : node.preorder ⊆ nodes) (declares : nodes.flatMap declared ⊆ table) :
    Throughout (fun env node => env ⊆ table ∧ node.preorder ⊆ nodes ∧ holds env node) env node := by
  induction throughout with
  | @intro env node here _ ih =>
      refine .intro ⟨known, listed, here⟩ fun later child inside => ?_
      refine ih later child inside ?_ (List.Subset.trans inside.preorder_subset listed)
      have above : node.preorder.flatMap declared ⊆ table := by
        intro entry member
        obtain ⟨found, inside, declared⟩ := List.mem_flatMap.1 member
        exact declares (List.mem_flatMap.2 ⟨found, listed inside, declared⟩)
      exact List.Subset.trans inside.environment_subset (List.append_subset.2 ⟨known, above⟩)

theorem imp {weaker : Environment → Node → Prop} (throughout : Throughout holds env node)
    (weakens : ∀ {env node}, holds env node → weaker env node) :
    Throughout weaker env node := by
  induction throughout with
  | intro here _ ih => exact .intro (weakens here) ih

/-- What holds throughout a tree holds of its nodes, wherever they stand; the target of an
assignment stands where the assignment does. -/
theorem of_mem_preorder (throughout : Throughout holds env node) (member : other ∈ node.preorder) :
    ∃ env, holds env other ∨
      ∃ pos target value, other = .reference target ∧ holds env (.assign pos (some target) value) := by
  induction throughout with
  | @intro env node here _ ih =>
      rcases mem_preorder_cases env member with
        rfl | ⟨pos, target, value, rfl, rfl⟩ | ⟨later, child, inside, below⟩
      · exact ⟨env, .inl here⟩
      · exact ⟨env, .inr ⟨pos, target, value, rfl, here⟩⟩
      · exact ih later child inside below

end Throughout

end Code.Node

/-- The type of a name is that of its one declaration. -/
theorem Method.localType?_ofDecl {decl : MethodDecl} (distinct : (decl.variables.map (·.1)).Nodup)
    (owner name type : String) :
    (Method.ofDecl owner decl).localType? name = some type ↔ (name, type) ∈ decl.variables :=
  Table.find?_ofList_iff distinct

namespace Registry

variable {registry : Registry} {method : Method} {env more table : Environment}
variable {qualifier type : String}

/-! ## What is looked up -/

/-- A qualifier denotes an object of a type where some variables are declared.  Without a
qualifier it is the receiver. -/
def Denotes (registry : Registry) (env : Environment) (qualifier type : String) : Prop :=
  ∃ start, (qualifierFirst qualifier, start) ∈ env ∧
    registry.fieldChainType start (Path.parse qualifier).rest = .ok type

/-- A reference is to a variable that is declared, or to a field of a class. -/
def Finds (registry : Registry) (env : Environment) (target : Reference) : Prop :=
  if target.qualifier = "" then ∃ type, (target.member, type) ∈ env
  else ∃ owner type, registry.Denotes env target.qualifier owner ∧
    registry.fieldType owner target.member = .ok type

/-- The registry knows what is mentioned, and no argument is attached under a name that
is made up. -/
def resolving (registry : Registry) : Demands where
  reads := registry.Finds
  calls env qualifier member :=
    ∃ type, registry.Denotes env qualifier type ∧ (registry.method? ⟨type, member⟩).isSome = true
  makes type maker names :=
    (maker ≠ "" → (registry.method? ⟨type, constructorMember maker⟩).isSome = true) ∧
      ∀ name ∈ names, name.toList.head? ≠ some '$'

theorem Denotes.grow (denotes : registry.Denotes env qualifier type) (within : env ⊆ more) :
    registry.Denotes more qualifier type := by
  obtain ⟨start, declared, typed⟩ := denotes
  exact ⟨start, within declared, typed⟩

theorem Finds.grow {target : Reference} (finds : registry.Finds env target) (within : env ⊆ more) :
    registry.Finds more target := by
  unfold Finds at finds ⊢
  split
  next bare =>
    rw [if_pos bare] at finds
    obtain ⟨type, declared⟩ := finds
    exact ⟨type, within declared⟩
  next qualified =>
    rw [if_neg qualified] at finds
    obtain ⟨owner, type, denotes, typed⟩ := finds
    exact ⟨owner, type, denotes.grow within, typed⟩

theorem grows_resolving (registry : Registry) : registry.resolving.Grows where
  reads within finds := Finds.grow finds within
  calls within := fun ⟨type, denotes, declared⟩ => ⟨type, denotes.grow within, declared⟩

/-! ## Types of variables -/

/-- The variables of a table have the types that the registry takes them to have inside a
method. -/
def Types (registry : Registry) (method : Method) (table : Environment) : Prop :=
  ∀ entry ∈ table, registry.firstType method entry.1 = .ok entry.2

/-- Where all variables of a method have different names, the registry takes them to have their
declared types. -/
theorem types_ofDecl (registry : Registry) (owner : String) {decl : MethodDecl}
    (distinct : (this :: decl.variables.map (·.1)).Nodup) :
    registry.Types (.ofDecl owner decl) ((this, owner) :: decl.variables) := by
  obtain ⟨other, distinct⟩ := List.nodup_cons.1 distinct
  intro entry listed
  rcases List.mem_cons.1 listed with rfl | listed
  · rfl
  · have apart : entry.1 ≠ this := fun same => other (List.mem_map.2 ⟨entry, listed, same⟩)
    have typed := (Method.localType?_ofDecl distinct owner entry.1 entry.2).2 listed
    simp only [firstType, if_neg apart, typed]

theorem Denotes.qualifierType (denotes : registry.Denotes env qualifier type)
    (types : registry.Types method table) (within : env ⊆ table) :
    registry.qualifierType method qualifier = .ok type := by
  obtain ⟨start, declared, typed⟩ := denotes
  have first := types _ (within declared)
  unfold qualifierFirst at first
  unfold Registry.qualifierType
  split
  next bare =>
    rw [if_pos bare] at first
    have owner : method.owner = start := by simpa [firstType] using first
    rw [bare] at typed
    cases typed
    rw [owner]
  next qualified =>
    rw [if_neg qualified] at first
    simp only [first]
    exact typed

/-! ## Nodes of a body -/

/-- The registry knows what a node mentions inside a method: a call is of a method of the
class that its qualifier leads to, and a path leads to a field. -/
def Resolves (registry : Registry) (method : Method) : Node → Prop
  | .call _ qualifier member _ =>
      ∃ type, registry.qualifierType method qualifier = .ok type ∧
        (registry.method? ⟨type, member⟩).isSome = true
  | .new _ type maker _ =>
      maker ≠ "" → (registry.method? ⟨type, constructorMember maker⟩).isSome = true
  | .reference target =>
      if target.qualifier = "" then ∃ type, registry.firstType method target.member = .ok type
      else ∃ owner type, registry.qualifierType method target.qualifier = .ok owner ∧
        registry.fieldType owner target.member = .ok type
  | _ => True

theorem Finds.resolves {target : Reference} (finds : registry.Finds env target)
    (types : registry.Types method table) (within : env ⊆ table) :
    registry.Resolves method (.reference target) := by
  unfold Finds at finds
  dsimp only [Resolves]
  split
  next bare =>
    rw [if_pos bare] at finds
    obtain ⟨type, declared⟩ := finds
    exact ⟨type, types _ (within declared)⟩
  next qualified =>
    rw [if_neg qualified] at finds
    obtain ⟨owner, type, denotes, typed⟩ := finds
    exact ⟨owner, type, denotes.qualifierType types within, typed⟩

theorem resolves_of_meets {node : Node} (meets : registry.resolving.Meets env node)
    (types : registry.Types method table) (within : env ⊆ table) :
    registry.Resolves method node := by
  cases node with
  | call pos qualifier member args =>
      obtain ⟨type, denotes, declared⟩ := meets
      exact ⟨type, denotes.qualifierType types within, declared⟩
  | new pos type maker args => exact meets.1
  | reference target => exact Finds.resolves meets types within
  | _ => trivial

/-- What a body mentions at its positions resolves at all its nodes. -/
theorem resolves_of_throughout {node other : Node}
    (throughout : Node.Throughout registry.resolving.Meets env node)
    (types : registry.Types method table) (within : env ⊆ table)
    (declares : node.preorder.flatMap Node.declared ⊆ table) (member : other ∈ node.preorder) :
    registry.Resolves method other := by
  obtain ⟨later, ⟨known, _, meets⟩ | ⟨_, target, _, rfl, known, _, meets⟩⟩ :=
    (throughout.within within (List.Subset.refl _) declares).of_mem_preorder member
  · exact resolves_of_meets meets types known
  · exact Finds.resolves meets types known

end Registry

end Custody
