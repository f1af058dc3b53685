import Custody.Proofs.Eval.Forwarding
import Custody.Proofs.Eval.Reaching

/-!
# Two ways to resolve a path

The registry finds the type of a path in one flat table of all variables of a method.  An
evaluation finds its object, and the type of that, in the scopes that are open, and makes up
objects on the way.  Wherever the first name of the path is bound, or is no variable at all,
both have the same answer: the same type, or the same error.
-/

namespace Custody.Eval

open Code

variable {registry : Registry} {summaries : Summaries} {method : Method} {table : Environment}
variable {held : List Ref} {opened : List ScopeId} {scope : ScopeId} {frame next : Frame}
variable {name : String}

/-- What a name is bound to is firm. -/
theorem Grounded.firm (grounded : Grounded table held opened scope frame) {binding : BindingId}
    (found : frame.memory.lookup? scope name = some binding) :
    ∀ ref ∈ (frame.memory.binding binding).object, frame.Firm held ref := fun _ holds =>
  .of_mem (List.mem_append_left _ (Memory.mem_bound (grounded.listed.lt_of_lookup? found) holds))

theorem exists_read_of_sound {owner : Ref} (sound : frame.memory.Sound held opened)
    (firm : frame.Firm held owner) (type name : String) :
    ∃ found next, Step.read (.counting registry summaries method) owner type name frame =
      .ok found next ∧ next.memory.Sound held opened ∧ ∀ ref ∈ found, next.Firm held ref := by
  refine exists_read sound firm fun free => ?_
  obtain ⟨heap, done, _, sound, known⟩ := exists_materialize sound firm free type
  exact ⟨_, _, done, sound, known⟩

/-! ## Answers alike -/

/-- An object is found, and its type is the answer of the registry, or both fail for one
reason. -/
def Echoes (held : List Ref) (opened : List ScopeId) (answer : Except Registry.Error String) :
    EStateM.Result Failure Frame (Option Ref × String) → Prop
  | .ok found next => answer = .ok found.2 ∧ next.memory.Sound held opened ∧
      ∀ ref ∈ found.1, next.Firm held ref
  | .error failure _ => ∃ error, answer = .error error ∧ failure = .plain (.registry error)

namespace Echoes

theorem ok_iff {answer : Except Registry.Error String}
    {outcome : EStateM.Result Failure Frame (Option Ref × String)}
    (echoes : Echoes held opened answer outcome) (type : String) :
    (∃ object next, outcome = .ok (object, type) next) ↔ answer = .ok type := by
  cases outcome with
  | ok found next =>
      obtain ⟨rfl, _⟩ := echoes
      constructor
      · rintro ⟨_, _, ⟨⟩⟩
        rfl
      · rintro ⟨⟩
        exact ⟨found.1, next, rfl⟩
  | error failure next =>
      obtain ⟨error, rfl, _⟩ := echoes
      constructor
      · rintro ⟨_, _, ⟨⟩⟩
      · rintro ⟨⟩

theorem error_iff {answer : Except Registry.Error String}
    {outcome : EStateM.Result Failure Frame (Option Ref × String)}
    (echoes : Echoes held opened answer outcome) (failure : Failure) :
    (∃ next, outcome = .error failure next) ↔
      ∃ error, answer = .error error ∧ failure = .plain (.registry error) := by
  cases outcome with
  | ok found next =>
      obtain ⟨rfl, _⟩ := echoes
      constructor
      · rintro ⟨_, ⟨⟩⟩
      · rintro ⟨_, ⟨⟩, _⟩
  | error other next =>
      obtain ⟨error, rfl, rfl⟩ := echoes
      constructor
      · rintro ⟨_, ⟨⟩⟩
        exact ⟨error, rfl, rfl⟩
      · rintro ⟨_, ⟨⟩, rfl⟩
        exact ⟨next, rfl⟩

/-- What comes after a name that both resolve alike. -/
theorem bind {answer : Except Registry.Error String}
    {later : String → Except Registry.Error String} {step : Step (Option Ref × String)}
    {last : Option Ref × String → Step (Option Ref × String)}
    (first : Echoes held opened answer (step frame))
    (second : ∀ found next, next.memory.Sound held opened →
      (∀ ref ∈ found.1, next.Firm held ref) →
      Echoes held opened (later found.2) (last found next)) :
    Echoes held opened
      (match answer with
        | .ok type => later type
        | .error error => .error error)
      ((step >>= last) frame) := by
  cases done : step frame with
  | ok found next =>
      rw [done] at first
      obtain ⟨rfl, sound, firm⟩ := first
      rw [bind_of_ok done]
      exact second found next sound firm
  | error failure next =>
      rw [done] at first
      obtain ⟨error, rfl, rfl⟩ := first
      rw [bind_of_error done]
      exact ⟨error, rfl, rfl⟩

section Steps

variable (registry summaries method)

theorem field (sound : frame.memory.Sound held opened) {object : Option Ref}
    (firm : ∀ ref ∈ object, frame.Firm held ref) (ownerType name : String) :
    Echoes held opened (registry.fieldType ownerType name)
      (Step.field (.counting registry summaries method) object ownerType name frame) := by
  rw [Step.field_eq]
  cases answer : registry.fieldType ownerType name with
  | error error =>
      exact ⟨error, rfl, rfl⟩
  | ok type =>
      rw [Step.ofRegistry_bind rfl]
      cases object with
      | none => exact ⟨rfl, sound, nofun⟩
      | some object =>
          obtain ⟨found, next, done, after, known⟩ :=
            exists_read_of_sound sound (firm object rfl) type name
          dsimp only
          rw [bind_of_ok done]
          exact ⟨rfl, after, known⟩

/-- Chains of fields are followed in step. -/
theorem follow (sound : frame.memory.Sound held opened) {object : Option Ref}
    (firm : ∀ ref ∈ object, frame.Firm held ref) (type : String) (names : List String) :
    Echoes held opened (registry.fieldChainType type names)
      (Step.follow (.counting registry summaries method) (object, type) names frame) := by
  induction names generalizing object type frame with
  | nil => exact ⟨rfl, sound, firm⟩
  | cons name rest ih =>
      exact bind (field registry summaries method sound firm type name)
        fun found next sound firm => ih sound firm found.2

end Steps

end Echoes

section Methods

variable (registry summaries) {decl : MethodDecl} {owner : String}

/-- The first name of a path is a variable that is bound, or no variable at all. -/
theorem echoes_first (distinct : ((tableOf (.ofDecl owner decl)).map (·.1)).Nodup)
    (grounded : Grounded (tableOf (.ofDecl owner decl)) held opened scope frame)
    (bound : name ∈ decl.variables.map (·.1) → (frame.memory.lookup? scope name).isSome = true) :
    Echoes held opened (registry.firstType (.ofDecl owner decl) name)
      (Step.first (.counting registry summaries (.ofDecl owner decl)) scope name frame) := by
  cases found : frame.memory.lookup? scope name with
  | some binding =>
      have label := grounded.labels (grounded.listed.mem_labels_of_lookup? found)
      rw [Step.first_of_bound _ found]
      exact ⟨registry.types_ofDecl owner distinct _ label, grounded.sound, grounded.firm found⟩
  | none =>
      obtain ⟨receiver, here⟩ := Option.isSome_iff_exists.1 grounded.receiver.isSome_lookup?
      have other : name ≠ this := by
        rintro rfl
        cases found.symm.trans here
      have unlisted : (Method.ofDecl owner decl).localType? name = none := by
        by_contra typed
        obtain ⟨type, typed⟩ := Option.ne_none_iff_exists'.1 typed
        have listed := (Method.localType?_ofDecl (List.nodup_cons.1 distinct).2 _ _ _).1 typed
        have bound := bound (List.mem_map_of_mem listed)
        rw [found] at bound
        cases bound
      rw [Step.first_of_unbound _ found here, Registry.firstType, if_neg other, unlisted]
      exact .field registry summaries _ grounded.sound (grounded.firm here) owner name

theorem echoes_path (distinct : ((tableOf (.ofDecl owner decl)).map (·.1)).Nodup)
    (grounded : Grounded (tableOf (.ofDecl owner decl)) held opened scope frame)
    {qualifier : String} (some : qualifier ≠ "")
    (bound : qualifierFirst qualifier ∈ decl.variables.map (·.1) →
      (frame.memory.lookup? scope (qualifierFirst qualifier)).isSome = true) :
    Echoes held opened (registry.qualifierType (.ofDecl owner decl) qualifier)
      (Step.path (.counting registry summaries (.ofDecl owner decl)) scope qualifier frame) := by
  rw [qualifierFirst, if_neg some] at bound
  rw [Step.path, Registry.qualifierType, if_neg some]
  exact .bind (echoes_first registry summaries distinct grounded bound)
    fun found next sound firm => .follow registry summaries _ sound firm found.2 _

/-- Wherever an evaluation comes to, a path denotes an object of the type that the registry takes
it to have, or both fail for one reason, if the first name of the path is bound or no variable.
So the class in which a callee is looked up is that of the object on which the call is made. -/
theorem path_agrees (lastId : Nat) (distinct : ((tableOf (.ofDecl owner decl)).map (·.1)).Nodup)
    (reaches : Reaches (.counting registry summaries (.ofDecl owner decl)) lastId scope frame)
    {qualifier : String}
    (bound : qualifierFirst qualifier ∈ decl.variables.map (·.1) →
      (frame.memory.lookup? scope (qualifierFirst qualifier)).isSome = true) :
    (qualifier ≠ "" →
      (∀ type,
        (∃ object next, Step.path (.counting registry summaries (.ofDecl owner decl)) scope
            qualifier frame = .ok (object, type) next) ↔
          registry.qualifierType (.ofDecl owner decl) qualifier = .ok type) ∧
      ∀ failure,
        (∃ next, Step.path (.counting registry summaries (.ofDecl owner decl)) scope qualifier
            frame = .error failure next) ↔
          ∃ error, registry.qualifierType (.ofDecl owner decl) qualifier = .error error ∧
            failure = .plain (.registry error)) ∧
    ∀ pos member args unit,
      (Node.call pos qualifier member args).callee registry (.ofDecl owner decl) =
        .ok (some unit) →
      ∃ object next,
        Step.callReceiver (.counting registry summaries (.ofDecl owner decl)) scope qualifier
          frame = .ok object next ∧
        (if qualifier = "" then
            Step.first (.counting registry summaries (.ofDecl owner decl)) scope this
          else Step.path (.counting registry summaries (.ofDecl owner decl)) scope qualifier)
          frame = .ok (object, unit.owner) next := by
  obtain ⟨held, opened, grounded⟩ := reaches.grounded
  constructor
  · intro some
    have echoes := echoes_path registry summaries distinct grounded some bound
    exact ⟨echoes.ok_iff, echoes.error_iff⟩
  · intro pos member args unit named
    have typed : registry.qualifierType (.ofDecl owner decl) qualifier = .ok unit.owner := by
      simp only [Node.callee] at named
      split at named
      next type answer =>
        cases named
        exact answer
      next => cases named
    unfold Step.callReceiver
    split
    next bare =>
      rw [qualifierFirst, if_pos bare] at bound
      have echoes := echoes_first registry summaries distinct grounded bound
      rw [Registry.qualifierType, if_pos bare] at typed
      obtain ⟨object, next, done⟩ := (echoes.ok_iff _).2 typed
      exact ⟨object, next, by rw [bind_of_ok done]; rfl, done⟩
    next some =>
      have echoes := echoes_path registry summaries distinct grounded some bound
      obtain ⟨object, next, done⟩ := (echoes.ok_iff _).2 typed
      exact ⟨object, next, by rw [bind_of_ok done]; rfl, done⟩

end Methods

theorem Picking.bound_own : ∀ arrival ∈ Picking.arrival?,
    (arrival.store.frame.memory.lookup? arrival.store.scope "own").isSome = true := by
  decide +kernel

/-- A path that starts at a variable leads from object to object as it leads from class to
class. -/
theorem path_agrees_relink :
    ∃ scope frame, Reaches Picking.evaluation 0 scope frame ∧
      (frame.memory.lookup? scope (qualifierFirst "own.next")).isSome = true ∧
      ∃ object next,
        Step.path Picking.evaluation scope "own.next" frame = .ok (object, "Cell") next := by
  obtain ⟨arrival, found⟩ := Option.isSome_iff_exists.1 Picking.isSome_arrival?
  have reaches := Reaches.visited (Picking.comes_of_arrival? found).store
  have first : qualifierFirst "own.next" = "own" := by decide
  have bound := Picking.bound_own arrival found
  rw [← first] at bound
  have agrees := (path_agrees Picking.cells _ 0 (by decide) reaches fun _ => bound).1 (by decide)
  exact ⟨_, _, reaches, bound, (agrees.1 "Cell").2 (by decide)⟩

end Custody.Eval
