import Custody.Proofs.Lowering.Declarations

/-!
# Positions of a lowered body

The lowering flattens control flow, so the block structure of a body is built anew.
`Tracks` ties the names given so far to a position of what is built: every variable
that is visible in the source, and has a name, is declared there under that name.
`Emits` says that some nodes ask for nothing that their positions do not offer, and
that the names still track what is visible after them.

Every statement keeps both if the source sees only what is visible, whatever is asked
of the nodes: `Satisfied` lists what has to be known of single expressions.
-/

namespace Custody.Lowering

open Source
open Code (Environment Demands)
open Code.Node (declared Throughout)

/-- A unit of a class, its variables, and what is asked: of expressions where some
variables are visible, and of nodes where some names are declared. -/
structure Setting where
  unit : Unit
  owner : String
  known : List EntityId
  fits : List EntityId → Expr → Prop
  demands : Demands

namespace Setting

variable {setting : Setting} {visible : List EntityId} {env : Environment} {names : Names}

/-- The scope of expressions with some names given. -/
abbrev scope (setting : Setting) (names : Names) : Scope := setting.unit.withNames names

/-- A node and all below it ask for nothing that a position does not offer. -/
abbrev Supports (setting : Setting) (env : Environment) (node : Code.Node) : Prop :=
  Throughout setting.demands.Meets env node

/-- The variables that are visible are declared under their names. -/
structure Tracks (setting : Setting) (visible : List EntityId) (env : Environment)
    (names : Names) : Prop where
  listed : ∀ {id name}, names.of? id = some name → id ∈ setting.known
  worded : ∀ {id name}, names.of? id = some name → ∃ number, name = Names.numbered
    (Names.wish ((setting.unit.context.package.entity? id).getD default)) number
  bound : ∀ {id name}, id ∈ visible → names.of? id = some name →
    (name, setting.unit.context.typeName (setting.unit.context.entityType id)) ∈ env
  receiver : (Code.this, setting.owner) ∈ env

/-- The type under which a variable or the receiver is declared. -/
def declaredType (setting : Setting) (id : EntityId) : String :=
  if setting.unit.receiver = some id then setting.owner
  else setting.unit.context.typeName (setting.unit.context.entityType id)

/-- The name of a variable that is visible is declared with its type. -/
theorem Tracks.mem_of_nameOf? (tracks : setting.Tracks visible env names)
    {entity : Option EntityId} {name : String}
    (named : (setting.scope names).nameOf? entity = some name)
    (seen : ∀ id ∈ entity, id ∈ setting.known → id ∈ visible) :
    ∃ id, entity = some id ∧ (setting.unit.receiver = some id ∨ id ∈ setting.known) ∧
      (name, setting.declaredType id) ∈ env := by
  unfold Scope.nameOf? at named
  split at named
  next isReceiver =>
    cases named
    simp only [Scope.isReceiver, scope, Unit.withNames, Bool.and_eq_true, beq_iff_eq] at isReceiver
    obtain ⟨id, found⟩ := Option.isSome_iff_exists.1 isReceiver.1
    refine ⟨id, by rw [← isReceiver.2, found], .inl found, ?_⟩
    rw [declaredType, if_pos found]
    exact tracks.receiver
  next notReceiver =>
    obtain ⟨id, rfl, found⟩ := Option.bind_eq_some_iff.1 named
    have other : setting.unit.receiver ≠ some id := by
      intro same
      apply notReceiver
      simp [Scope.isReceiver, scope, Unit.withNames, same]
    refine ⟨id, rfl, .inr (tracks.listed found), ?_⟩
    rw [declaredType, if_neg other]
    exact tracks.bound (seen id rfl (tracks.listed found)) found

/-- A name is that of the receiver, or it was made for a variable. -/
theorem Tracks.worded_of_nameOf? (tracks : setting.Tracks visible env names)
    {entity : Option EntityId} {name : String}
    (named : (setting.scope names).nameOf? entity = some name) :
    name = Code.this ∨ ∃ id ∈ setting.known, ∃ number, name = Names.numbered
      (Names.wish ((setting.unit.context.package.entity? id).getD default)) number := by
  unfold Scope.nameOf? at named
  split at named
  next =>
    cases named
    exact .inl rfl
  next =>
    obtain ⟨id, _, found⟩ := Option.bind_eq_some_iff.1 named
    exact .inr ⟨id, tracks.listed found, tracks.worded found⟩

/-- What single expressions become is as it should be, if each expression fits what is
visible where it stands. -/
structure Satisfied (setting : Setting) : Prop where
  grows : setting.demands.Grows
  /-- Every variable is described in the package. -/
  described : ∀ id ∈ setting.known, (setting.unit.context.package.entity? id).isSome = true
  missing : ∀ visible, setting.fits visible .missing
  seen : ∀ {visible typing name}, setting.fits visible (.ident typing name) →
    ∀ id ∈ name.entity?, id ∈ setting.known → id ∈ visible
  named : ∀ {env name type}, (name, type) ∈ env → ∀ pos, setting.demands.reads env ⟨pos, "", name⟩
  field : ∀ {visible env names pos typing base name namePos used selection reference},
    setting.Tracks visible env names →
    (Expr.selector pos typing base name namePos used selection).Sees setting.fits visible →
    (setting.scope names).fieldRef? ((setting.scope names).path? base) namePos selection =
      some reference →
    setting.demands.reads env reference
  method : ∀ {visible env names function typing used selection base id entity called found path},
    setting.Tracks visible env names → function.Sees setting.fits visible →
    (setting.scope names).callee function = .selected typing used (some selection) (some base) →
    selection.kind = .method → selection.entity = some id →
    function? setting.unit.context.package id = some (entity, called) →
    setting.unit.context.unitOf? id = some (found, false) →
    setting.unit.context.fieldPath? selection.receiver selection.indices.dropLast = some path →
    setting.demands.calls env (if ".".intercalate (base :: path) = Code.this then ""
      else ".".intercalate (base :: path)) entity.name
  constructor : ∀ {id entity called found names},
    function? setting.unit.context.package id = some (entity, called) →
    setting.unit.context.unitOf? id = some (found, true) → (∀ name ∈ names, name = "") →
    setting.demands.makes found.name entity.name names
  plain : ∀ {type names}, (∀ name ∈ names, name = "") → setting.demands.makes type "" names
  composite : ∀ {visible names pos typing elements},
    setting.fits visible (.composite pos typing elements) →
    setting.demands.makes (setting.unit.context.typeName (typing.bind (·.type))) ""
      (((setting.scope names).arguments
        ((setting.unit.context.classOf? (typing.bind (·.type))).map (·.fields)) 0 elements).map
          (·.1))

section Expressions

variable (satisfied : setting.Satisfied)

include satisfied

theorem Satisfied.call (tracks : setting.Tracks visible env names) {pos : Int}
    {type : Option Ty} {function : Expr} {args : List Code.Node} {node : Code.Node}
    (sees : function.Sees setting.fits visible) (each : ∀ arg ∈ args, setting.Supports env arg)
    (called : (setting.scope names).Called pos type ((setting.scope names).callee function) args
      node) : setting.Supports env node := by
  have passed : ∀ arg ∈ args.map (("" : String), ·), setting.Supports env arg.2 := by
    intro arg member
    obtain ⟨node, listed, rfl⟩ := List.mem_map.1 member
    exact each node listed
  have unnamed : ∀ name ∈ (args.map (("" : String), ·)).map (·.1), name = "" := by
    intro name member
    obtain ⟨arg, listed, rfl⟩ := List.mem_map.1 member
    obtain ⟨node, _, rfl⟩ := List.mem_map.1 listed
    rfl
  cases called with
  | converted single =>
      apply each
      simp [single]
  | unsupported construct => exact .intro trivial nofun
  | operation op =>
      refine .intro trivial ?_
      intro later child inside
      cases inside with
      | operand member => exact each child member
  | allocated => exact .intro (satisfied.plain nofun) nofun
  | appended =>
      refine .intro (satisfied.plain unnamed) ?_
      intro later child inside
      cases inside with
      | element member => exact passed _ member
  | constructed found isUnit =>
      refine .intro (satisfied.constructor found isUnit unnamed) ?_
      intro later child inside
      cases inside with
      | element member => exact passed _ member
  | method selected kind chosen found isUnit path =>
      refine .intro (satisfied.method tracks sees selected kind chosen found isUnit path) ?_
      intro later child inside
      cases inside with
      | argument member => exact each child member

/-- A lowered expression asks for nothing that its position does not offer. -/
theorem Satisfied.expr (tracks : setting.Tracks visible env names) {value : Expr}
    (sees : value.Sees setting.fits visible) :
    setting.Supports env ((setting.scope names).expr value) := by
  have respects : (setting.scope names).Respects (setting.fits visible) (setting.Supports env) := by
    constructor
    case absent => exact .intro trivial nofun
    case literal => exact fun _ _ _ => .intro trivial nofun
    case unsupported => exact fun _ _ => .intro trivial nofun
    case operation =>
      intro pos op operands each
      refine .intro trivial ?_
      intro later child inside
      cases inside with
      | operand member => exact each child member
    case ident =>
      intro typing name here
      unfold Scope.ident
      split
      · split
        next known named =>
          obtain ⟨_, _, _, member⟩ := tracks.mem_of_nameOf? named (satisfied.seen here)
          exact .intro (satisfied.named member _) nofun
        next => exact .intro trivial nofun
      · exact .intro trivial nofun
      · exact .intro trivial nofun
    case selected =>
      intro pos typing base name namePos used selection here
      unfold Scope.selected
      split
      · exact .intro trivial nofun
      · split
        next reference found => exact .intro (satisfied.field tracks here found) nofun
        next => exact .intro trivial nofun
    case composite =>
      intro pos typing elements args here same each
      refine .intro (same ▸ satisfied.composite here) ?_
      intro later child inside
      cases inside with
      | element member => exact each _ member
    case call =>
      intro pos typing function args nodes here _ each
      exact satisfied.call tracks here.2.1 each ((setting.scope names).called_call pos _ _ nodes)
  exact respects.expr value sees

end Expressions

/-! ## Lists of nodes -/

/-- Some variables are declared for the first time. -/
structure Fresh (setting : Setting) (visible locals : List EntityId) : Prop where
  listed : locals ⊆ setting.known
  distinct : locals.Nodup
  unseen : ∀ id ∈ locals, id ∉ visible

namespace Fresh

variable {first second added : List EntityId}

theorem left (fresh : setting.Fresh visible (first ++ second)) : setting.Fresh visible first where
  listed := fun _ member => fresh.listed (List.mem_append_left _ member)
  distinct := (List.nodup_append.1 fresh.distinct).1
  unseen := fun id member => fresh.unseen id (List.mem_append_left _ member)

theorem right (fresh : setting.Fresh visible (first ++ second)) (within : added ⊆ first) :
    setting.Fresh (visible ++ added) second where
  listed := fun _ member => fresh.listed (List.mem_append_right _ member)
  distinct := (List.nodup_append.1 fresh.distinct).2.1
  unseen := by
    intro id member seen
    rcases List.mem_append.1 seen with earlier | now
    · exact fresh.unseen id (List.mem_append_right _ member) earlier
    · exact (List.nodup_append.1 fresh.distinct).2.2 id (within now) id member rfl

end Fresh

/-- Some nodes ask for nothing that their positions do not offer.  They declare some
variables for the nodes after them, among all variables that they declare. -/
structure Emits (setting : Setting) (visible : List EntityId) (env : Environment) (names : Names)
    (nodes : List Code.Node) (added locals : List EntityId) (after : Names) : Prop where
  throughout : ∀ {past node rest}, nodes = past ++ node :: rest →
    setting.Supports (env ++ past.flatMap declared) node
  tracks : setting.Tracks (visible ++ added) (env ++ nodes.flatMap declared) after
  kept : ∀ {id}, id ∉ locals → after.of? id = names.of? id

namespace Emits

variable {nodes others : List Code.Node} {added more locals further : List EntityId}
variable {middle after : Names}

theorem nil (tracks : setting.Tracks visible env names) :
    setting.Emits visible env names [] [] [] names where
  throughout := by simp
  tracks := by simpa using tracks
  kept := fun _ => rfl

theorem append (first : setting.Emits visible env names nodes added locals middle)
    (second : setting.Emits (visible ++ added) (env ++ nodes.flatMap declared)
      middle others more further after) :
    setting.Emits visible env names (nodes ++ others) (added ++ more)
      (locals ++ further) after where
  throughout := by
    intro past node rest split
    rcases List.append_eq_append_iff.1 split with ⟨between, rfl, later⟩ | ⟨between, rfl, later⟩
    · have inside := second.throughout later
      rwa [List.append_assoc, ← List.flatMap_append] at inside
    · cases between with
      | nil =>
          have whole : others = [] ++ node :: rest := by simpa using later.symm
          simpa using second.throughout whole
      | cons head tail =>
          obtain ⟨rfl, _⟩ := List.cons.inj later
          exact first.throughout rfl
  tracks := by
    simpa only [List.append_assoc, List.flatMap_append] using second.tracks
  kept := by
    intro id absent
    rw [List.mem_append, not_or] at absent
    rw [second.kept absent.2, first.kept absent.1]

/-- Nodes that declare nothing for those after them. -/
theorem stays (emits : setting.Emits visible env names nodes [] locals after) :
    setting.Tracks visible (env ++ nodes.flatMap declared) after := by
  simpa using emits.tracks

theorem next (first : setting.Emits visible env names nodes [] locals middle)
    (second : setting.Emits visible (env ++ nodes.flatMap declared) middle others more further
      after) :
    setting.Emits visible env names (nodes ++ others) more (locals ++ further) after :=
  first.append (by rwa [List.append_nil])

theorem also (first : setting.Emits visible env names nodes added locals middle)
    (second : setting.Emits (visible ++ added) (env ++ nodes.flatMap declared) middle others []
      further after) :
    setting.Emits visible env names (nodes ++ others) added (locals ++ further) after := by
  simpa only [List.append_nil] using first.append second

/-- Nodes that declare nothing at all may follow. -/
theorem followed (first : setting.Emits visible env names nodes added locals middle)
    (second : setting.Emits (visible ++ added) (env ++ nodes.flatMap declared) middle others [] []
      after) :
    setting.Emits visible env names (nodes ++ others) added locals after := by
  simpa only [List.append_nil] using first.also second

/-- What a block declares is gone after it. -/
theorem block (tracks : setting.Tracks visible env names)
    (fresh : setting.Fresh visible locals)
    (inside : setting.Emits visible env names nodes added locals after) (pos : Int) :
    setting.Emits visible env names [.block pos nodes] [] locals after where
  throughout := by
    intro past node rest split
    cases past with
    | cons head tail => simp at split
    | nil =>
        obtain ⟨rfl, rfl⟩ := List.cons.inj split
        refine .intro trivial ?_
        intro later child below
        cases below with
        | stmt past _ rest => simpa using inside.throughout rfl
  tracks := by
    have same : ∀ id ∈ visible, after.of? id = names.of? id := by
      intro id seen
      exact inside.kept fun member => fresh.unseen id member seen
    simp only [List.flatMap_cons, List.flatMap_nil, declared, List.append_nil]
    constructor
    · exact inside.tracks.listed
    · exact inside.tracks.worded
    · intro id name seen named
      rw [same id seen] at named
      exact tracks.bound seen named
    · exact tracks.receiver
  kept := inside.kept

/-- Expressions declare nothing. -/
theorem expressions (tracks : setting.Tracks visible env names)
    (each : ∀ node ∈ nodes, node.IsExpression ∧ setting.Supports env node) :
    setting.Emits visible env names nodes [] [] names := by
  have nothing : ∀ some : List Code.Node, (∀ node ∈ some, node.IsExpression) →
      some.flatMap declared = [] := by
    intro some each
    rw [List.flatMap_eq_nil_iff]
    intro node member
    cases each node member with
    | _ => rfl
  constructor
  · rintro past node rest rfl
    rw [nothing past fun other member => (each other (List.mem_append_left _ member)).1,
      List.append_nil]
    exact (each node (by simp)).2
  · rw [nothing nodes fun node member => (each node member).1]
    simpa using tracks
  · exact fun _ => rfl

/-- Steps one after the other. -/
theorem flatten {α : Type} {step : α → Action (List Code.Node)} {brings : α → List EntityId}
    {items : List α} (tracks : setting.Tracks visible env names)
    (fresh : setting.Fresh visible (items.flatMap brings))
    (each : ∀ item ∈ items, ∀ {seen more names}, visible ⊆ seen → env ⊆ more →
      setting.Tracks seen more names → setting.Fresh seen (brings item) →
      setting.Emits seen more names (step item names).1 (brings item) (brings item)
        (step item names).2) :
    setting.Emits visible env names (items.mapM step names).1.flatten (items.flatMap brings)
      (items.flatMap brings) (items.mapM step names).2 := by
  induction items generalizing visible env names with
  | nil => exact nil tracks
  | cons item rest ih =>
      rw [Action.mapM_cons, List.flatten_cons, List.flatMap_cons]
      rw [List.flatMap_cons] at fresh
      have first := each item (.head _) (fun _ member => member) (fun _ member => member) tracks
        fresh.left
      refine first.append (ih first.tracks (fresh.right fun _ member => member) ?_)
      intro other member seen more names subset within
      exact each other (.tail _ member) (fun _ listed => subset (List.mem_append_left _ listed))
        (fun _ listed => within (List.mem_append_left _ listed))

end Emits

end Setting

end Custody.Lowering
