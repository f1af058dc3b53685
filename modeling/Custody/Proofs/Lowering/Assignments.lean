import Custody.Proofs.Eval.Assigning
import Custody.Proofs.Eval.Leaving
import Custody.Proofs.Eval.Loops
import Custody.Proofs.Eval.Visits
import Custody.Proofs.Lowering.Declarations
import Custody.Proofs.Lowering.Routes

/-!
# Parallel assignments

An assignment of several values first computes all of them, and then stores one after the
other.  The bases of its targets, however, are looked up only when their values are stored.  An
assignment to a variable and to a field of what this variable held, in this order, changes the
object that the variable holds afterwards.
-/

namespace Custody.Lowering

open Source
open Eval hiding Context

/-! ## Targets -/

namespace Scope

variable {scope other : Scope} {target : Expr} {reference : Code.Reference}

/-- The variable or field that is assigned. -/
def target? (scope : Scope) (target : Expr) : Option Code.Reference :=
  match target.unparen with
  | .ident _ name =>
      if name.name = "_" then none else (scope.nameOf? name.entity?).map (⟨name.pos, "", ·⟩)
  | .selector _ _ base _ namePos _ selection =>
      scope.fieldRef? (scope.path? base) namePos selection
  | _ => none

section Names

variable (context : other.context = scope.context)
variable (names : ∀ entity, other.nameOf? entity = scope.nameOf? entity)

include context in
theorem fieldRef?_congr (base : Option String) (namePos : Int) (selection : Option Selection) :
    other.fieldRef? base namePos selection = scope.fieldRef? base namePos selection := by
  simp only [fieldRef?, context]

include context names

/-- Paths depend on the names of variables, and not on which names are taken. -/
theorem path?_congr (value : Expr) : other.path? value = scope.path? value := by
  fun_induction Scope.path? scope value with
  | case1 _ _ inner ih => exact ih
  | case2 _ _ inner ih => exact ih
  | case3 _ name => exact names _
  | case4 _ _ base _ namePos _ selection ih => rw [path?, ih, fieldRef?_congr context]
  | case5 => simp_all [path?]

theorem target?_congr (target : Expr) : other.target? target = scope.target? target := by
  unfold target?
  split
  · rw [names]
  · rw [path?_congr context names, fieldRef?_congr context]
  · rfl

end Names

theorem reserved_of_nameOf? (reserved : scope.names.Reserved) {entity : Option EntityId}
    {name : String} (named : scope.nameOf? entity = some name) :
    name ≠ "" ∧ scope.names.taken.contains name = true := by
  unfold nameOf? at named
  split at named
  · cases named
    exact ⟨by decide, reserved.this⟩
  · obtain ⟨id, _, given⟩ := Option.bind_eq_some_iff.1 named
    exact reserved.given given

/-- No path is empty. -/
theorem Leads.ne_empty (reserved : scope.names.Reserved) {value : Expr} {path : String}
    (leads : scope.Leads value path) : path ≠ "" := by
  induction leads with
  | start named => exact (reserved_of_nameOf? reserved named).1
  | paren _ ih => exact ih
  | star _ ih => exact ih
  | @field _ _ _ _ _ _ _ _ _ _ _ names _ _ ih =>
      have before := Code.Path.intercalate_ne_empty ih names
      simp [Code.dotted, before]

/-- The name of a variable that is assigned is taken. -/
theorem contains_of_target? (reserved : scope.names.Reserved)
    (found : scope.target? target = some reference) (unqualified : reference.qualifier = "") :
    scope.names.taken.contains reference.member = true := by
  unfold target? at found
  split at found
  · split at found
    · cases found
    · obtain ⟨name, named, rfl⟩ := Option.map_eq_some_iff.1 found
      exact (reserved_of_nameOf? reserved named).2
  · obtain ⟨start, _, _, _, names, _, before, _, _, rfl⟩ := fieldRef?_eq_some found
    have leads := leads_of_path? before
    exact absurd unqualified (Code.Path.intercalate_ne_empty (leads.ne_empty reserved) names)
  · cases found

end Scope

namespace Unit

variable (unit : Unit) {target : Expr} {reference : Code.Reference} {names : Names}

/-- A value that has a target is assigned to it. -/
theorem store_of_target? (found : (unit.withNames names).target? target = some reference)
    (value : Code.Node) :
    unit.store target value names = ([assignment reference value], names) := by
  unfold Scope.target? at found
  unfold Unit.store
  simp only [Action.bind_apply, Unit.scope_apply]
  cases inside : target.unparen with
  | ident typing name =>
      rw [inside] at found
      dsimp only at found ⊢
      split at found
      next => cases found
      next blank =>
        obtain ⟨known, named, rfl⟩ := Option.map_eq_some_iff.1 found
        rw [if_neg blank, named]
        rfl
  | selector pos typing base name namePos used selection =>
      rw [inside] at found
      dsimp only at found ⊢
      obtain ⟨_, _, _, _, _, _, _, _, _, rfl⟩ := Scope.fieldRef?_eq_some found
      simp only [found]
      rfl
  | _ =>
      rw [inside] at found
      cases found

/-- The targets of a plain assignment are assigned one after the other. -/
theorem mapM_store {left : List Expr} {references : List Code.Reference}
    (found : left.map (unit.withNames names).target? = references.map some)
    (values : List Code.Node) :
    ((left.zip values).mapM fun (target, value) => unit.assignOne false target value :
        Action (List (List Code.Node))) names =
      ((List.zipWith assignment references values).map ([·]), names) := by
  induction left generalizing references values with
  | nil =>
      cases List.map_eq_nil_iff.1 found.symm
      rfl
  | cons target rest ih =>
      cases references with
      | nil => cases found
      | cons reference others =>
          obtain ⟨first, later⟩ := List.cons.inj found
          cases values with
          | nil => rfl
          | cons value values =>
              have plain : target.introduced? false = none := by
                cases target <;> rfl
              have stored : unit.assignOne false target value names =
                  ([assignment reference value], names) := by
                rw [assignOne_eq, plain]
                exact unit.store_of_target? first value
              rw [List.zip_cons_cons, Action.mapM_cons, List.zipWith_cons_cons]
              simp only [stored, ih later, List.map_cons]

theorem temporary_of_absent {value : Code.Node} (absent : value.isPresent = false) (source : Expr)
    (names : Names) : unit.temporary source value names = (([], value), names) := by
  rw [temporary, absent]
  rfl

theorem temporary_of_present {value : Code.Node} (present : value.isPresent = true) (source : Expr)
    (names : Names) :
    unit.temporary source value names =
      (([.localVar source.pos (unit.context.typeName (unit.context.typeOf source))
          [(names.free "$tmp", value)]], .reference ⟨source.pos, "", names.free "$tmp"⟩),
        { names with taken := names.taken.add (names.free "$tmp") }) := by
  rw [temporary, present]
  rfl

/-- Temporaries give no name to a variable. -/
theorem given_temporary (source : Expr) (value : Code.Node) (names : Names) :
    (unit.temporary source value names).2.given = names.given := by
  unfold temporary
  split <;> rfl

/-- Take values into temporaries, one after the other. -/
def temporaries (pairs : List (Expr × Code.Node)) : Action (List (List Code.Node × Code.Node)) :=
  pairs.mapM fun (source, value) => unit.temporary source value

theorem temporaries_cons (source : Expr) (value : Code.Node) (rest : List (Expr × Code.Node))
    (names : Names) :
    unit.temporaries ((source, value) :: rest) names =
      ((unit.temporary source value names).1 ::
          (unit.temporaries rest (unit.temporary source value names).2).1,
        (unit.temporaries rest (unit.temporary source value names).2).2) :=
  Action.mapM_cons _ _ _ _

theorem given_temporaries (pairs : List (Expr × Code.Node)) (names : Names) :
    (unit.temporaries pairs names).2.given = names.given := by
  induction pairs generalizing names with
  | nil => rfl
  | cons pair rest ih =>
      rw [temporaries_cons]
      exact (ih _).trans (unit.given_temporary pair.1 pair.2 names)

/-- The nodes that compute the values of an assignment into temporaries, and those that denote
them afterwards. -/
def gathered (right : List Expr) : Action (List Code.Node × List Code.Node) := fun names =>
  let taken := unit.temporaries (right.zip (right.map (unit.withNames names).expr)) names
  (((taken.1.map (·.1)).flatten, taken.1.map (·.2)), taken.2)

/-- An assignment of several values takes them into temporaries, and then stores them. -/
theorem assign_eq {left right : List Expr} {references : List Code.Reference}
    (found : left.map (unit.withNames names).target? = references.map some)
    (several : 1 < left.length) (matching : right.length = left.length) (opPos : Int) :
    unit.assign "=" opPos left right names =
      ((unit.gathered right names).1.1 ++
          List.zipWith assignment references (unit.gathered right names).1.2,
        (unit.gathered right names).2) := by
  have given : (unit.gathered right names).2.given = names.given := unit.given_temporaries _ names
  have later : left.map (unit.withNames (unit.gathered right names).2).target? =
      references.map some := by
    have same : (unit.withNames (unit.gathered right names).2).context =
      (unit.withNames names).context := rfl
    rw [← found]
    refine List.map_congr_left fun target _ => Scope.target?_congr same ?_ target
    intro entity
    have same : (unit.withNames (unit.gathered right names).2).names.of? =
        (unit.withNames names).names.of? := funext fun id => congrArg (·.find? id) given
    rw [Scope.nameOf?, same]
    rfl
  have values : unit.values right left.length names =
      (right.map (unit.withNames names).expr, names) := by
    unfold Unit.values
    rw [if_pos matching, Unit.mapM_expr]
  have both : (decide (1 < left.length) && decide (right.length = left.length)) = true := by
    simp [several, matching]
  have all : unit.assign "=" opPos left right names = unit.assignAll false left right names := rfl
  have stored := unit.mapM_store later (unit.gathered right names).1.2
  have single (nodes : List Code.Node) : (nodes.map ([·])).flatten = nodes := by
    rw [← List.flatMap_def, List.flatMap_singleton']
  rw [all, assignAll, Action.bind_apply, values]
  dsimp only
  rw [if_pos both]
  refine (congrArg (fun stored : List (List Code.Node) × Names =>
    ((unit.gathered right names).1.1 ++ stored.1.flatten, stored.2)) stored).trans ?_
  dsimp only
  rw [single]

end Unit

/-! ## Runs -/

section Runs

variable {context : Eval.Context} {scope : ScopeId} {frame ready : Frame}

/-- A temporary that is declared holds its value. -/
theorem declares_of_block {pos : Int} {type name : String} {node : Code.Node}
    {rest : List Code.Node}
    (done : Step.block context scope (.localVar pos type [(name, node)] :: rest) frame =
      .ok () ready) :
    ∃ value computed binding declared swept,
      Step.eval context scope node frame = .ok value computed ∧
      Step.onMemory (Memory.declare context.rules scope name type value) computed =
        .ok binding declared ∧
      Step.onHeap context.rules.sweep declared = .ok () swept ∧
      Step.block context scope rest swept = .ok () ready := by
  rw [Step.block] at done
  obtain ⟨_, declared, evaluates, done⟩ := bind_eq_ok done
  obtain ⟨_, swept, sweeps, done⟩ := bind_eq_ok done
  rw [Step.eval] at evaluates
  obtain ⟨_, _, declares, told⟩ := bind_eq_ok (Step.locate_eq_ok evaluates)
  cases told
  rw [Step.declareAll] at declares
  obtain ⟨value, computed, computes, declares⟩ := bind_eq_ok declares
  obtain ⟨binding, _, declares, told⟩ := bind_eq_ok declares
  cases told
  exact ⟨value, computed, binding, declared, swept, computes, declares,
    Step.sweepAfter_eq_ok sweeps, done⟩

/-- The temporaries of an assignment gather its values, and denote them afterwards. -/
theorem gathers_of_block (unit : Unit) (pairs : List (Expr × Code.Node))
    (each : ∀ pair ∈ pairs, pair.2.IsExpression) {names : Names} (listed : frame.memory.Listed)
    (done : Step.block context scope ((unit.temporaries pairs names).1.map (·.1)).flatten frame =
      .ok () ready) :
    ∃ values,
      Gathers context scope (names.taken.contains · = true) (pairs.map (·.2)) values frame ready ∧
      List.Forall₂ (Carries scope (names.taken.contains · = true) ready)
        ((unit.temporaries pairs names).1.map (·.2)) values := by
  induction pairs generalizing names frame with
  | nil =>
      rw [show ((unit.temporaries [] names).1.map (·.1)).flatten = [] from rfl, Step.block] at done
      cases done
      exact ⟨[], .nil _, .nil⟩
  | cons pair rest ih =>
      obtain ⟨source, node⟩ := pair
      have computes : node.IsExpression := each (source, node) (.head _)
      have others : ∀ pair ∈ rest, pair.2.IsExpression :=
        fun pair member => each pair (.tail _ member)
      rw [Unit.temporaries_cons] at done ⊢
      cases present : node.isPresent with
      | false =>
          have absent : node = .absent := by
            cases computes <;> first | rfl | cases present
          rw [unit.temporary_of_absent present] at done ⊢
          obtain ⟨values, gathers, carried⟩ := ih others listed done
          rw [absent]
          exact ⟨none :: values, .absent gathers, .cons .absent carried⟩
      | true =>
          rw [unit.temporary_of_present present] at done ⊢
          obtain ⟨value, computed, binding, declared, swept, evaluates, declares, sweeps, done⟩ :=
            declares_of_block done
          have wider : ∀ name, names.taken.contains name = true →
              (names.taken.add (names.free "$tmp")).contains name = true :=
            fun _ taken => KeySet.contains_add.2 (.inr taken)
          have isFree : ¬names.taken.contains (names.free "$tmp") = true := by
            rw [Takes.contains_free]
            exact Bool.false_ne_true
          have rests : Memory.Rests _ _ := Relating.eval context scope node computes evaluates
          have swept_listed : swept.memory.Listed := by
            obtain ⟨memory, made, rfl⟩ := Step.onMemory_eq_ok declares
            have idle : Memory.Rests _ _ := Relating.onHeap _ sweeps
            exact idle.listed (Memory.listed_declare (rests.listed listed) made)
          obtain ⟨values, gathers, carried⟩ := ih others swept_listed done
          refine ⟨value :: values, .cons evaluates isFree declares sweeps (gathers.mono wider),
            .cons ?_ (carried.imp fun _ _ carries => carries.mono wider)⟩
          exact gathers.carries (List.forall_mem_map.2 others) (rests.listed listed) declares sweeps
            isFree (KeySet.contains_add.2 (.inl rfl)) source.pos

end Runs

section Assignment

variable {registry : Registry} {summaries : Summaries} {method : Method}
variable {held temporaries : List Ref} {opened : List ScopeId} {scope : ScopeId}
variable {frame last : Frame}

/-- An assignment of several values computes them all, and then stores each in its variable, or
in the field of the object that the base of its target denotes by then.  The base denotes what it
denoted before the first store unless something that it reads has been assigned. -/
theorem assign_gathers_stores (unit : Unit) {names : Names} (reserved : names.Reserved)
    {left right : List Expr} {references : List Code.Reference}
    (found : left.map (unit.withNames names).target? = references.map some)
    (several : 1 < left.length) (matching : right.length = left.length) (opPos : Int)
    (upkeep : Upkeep registry held opened temporaries frame) (within : scope ∈ opened)
    (bound : ∀ target ∈ references, target.qualifier = "" →
      frame.memory.Binds scope target.member)
    (done : Step.block (.counting registry summaries method) scope
      (unit.assign "=" opPos left right names).1 frame = .ok () last) :
    ∃ values ready,
      Gathers (.counting registry summaries method) scope (names.taken.contains · = true)
        (right.map (unit.withNames names).expr) values frame ready ∧
      Stores (.counting registry summaries method) scope ready [] (references.zip values) ready
        last := by
  rw [unit.assign_eq found several matching, Step.block_append] at done
  obtain ⟨_, ready, gathering, storing⟩ := bind_eq_ok done
  have listed := upkeep.sound.owned.declared
  have zipped : (right.zip (right.map (unit.withNames names).expr)).map (·.2) =
      right.map (unit.withNames names).expr := by
    rw [List.map_snd_zip]
    simp
  have computes : ∀ node ∈ right.map (unit.withNames names).expr, node.IsExpression :=
    List.forall_mem_map.2 fun value _ => Scope.isExpression_expr _ value
  obtain ⟨values, gathers, carried⟩ := gathers_of_block unit _
    (fun pair member => computes _ (List.of_mem_zip member).2) listed gathering
  rw [zipped] at gathers
  have kept : ready.memory.Sound held opened := by
    have meets := (Eval.upkeep registry summaries method held).block temporaries opened scope
      within (unit.gathered right names).1.1 (answersAll_upkeep _ _ _ _ _) frame upkeep
    rw [gathering] at meets
    exact meets.sound
  refine ⟨values, ready, gathers, stores_of_block carried ?_ kept (.refl ready) nofun storing⟩
  intro target member unqualified
  obtain ⟨expr, _, aimed⟩ : ∃ expr ∈ left, (unit.withNames names).target? expr = some target := by
    have listed : some target ∈ left.map (unit.withNames names).target? := by
      rw [found]
      exact List.mem_map_of_mem member
    simpa using listed
  have taken := Scope.contains_of_target? reserved aimed unqualified
  refine ⟨taken, ?_⟩
  rw [(gathers.retains computes listed taken).lookup]
  exact (bound target member unqualified).isSome_lookup?

end Assignment

/-! ## A variable and a field of what it held -/

namespace Relinking

/-- The struct of cells, and the variables of a method. -/
def package : Package where
  path := "cells"
  entities :=
    #[⟨"Cell", 1, .type false false (some [⟨"next", 2, some (.pointer (.named 0)), false⟩])⟩,
      ⟨"c", 3, .var (some (.pointer (.named 0)))⟩, ⟨"p", 4, .var (some (.pointer (.named 0)))⟩,
      ⟨"q", 5, .var (some (.pointer (.named 0)))⟩, ⟨"r", 6, .var (some (.pointer (.named 0)))⟩]
  scope := [0]
  files := []

def function : Function := ⟨"cells", "cells.relink", false, some 1, [2, 3, 4], []⟩

def use (pos : Int) (name : String) (id : EntityId) : Expr :=
  .ident none ⟨pos, name, none, some id⟩

/-- The assignment `p, p.next = q, r`. -/
def left : List Expr :=
  [use 10 "p" 2, .selector 11 none (use 11 "p" 2) "next" 12 none
    (some ⟨.field, some (.pointer (.named 0)), none, [0]⟩)]

def right : List Expr := [use 13 "q" 3, use 14 "r" 4]

def context : Context :=
  ⟨package, [⟨0, "Cell", 1, [⟨"next", 2, some (.pointer (.named 0)), false⟩]⟩], []⟩

def unit : Unit := .of context function

def names : Names := .ofResults context function

def lowered : Code.MethodDecl :=
  method context default ⟨"relink", 7, .function function⟩ function false
    (9, [.assign "=" 15 left right])

def references : List Code.Reference := [⟨10, "", "p"⟩, ⟨12, "p", "next"⟩]

abbrev evaluation : Eval.Context :=
  .counting (.ofProgram ⟨[⟨0, "Cell", "", [⟨0, "Cell", ["next"]⟩], [lowered]⟩]⟩) ∅
    (.ofDecl "Cell" lowered)

/-- The evaluation of the method: its entry, the frames in which the assignment is evaluated and
its values have been computed, and the last one. -/
structure Course where
  entry : Entry
  memory : Memory
  scope : ScopeId
  frame : Frame
  ready : Frame
  last : Frame

def course? : Option Course :=
  match enter .counting evaluation.method (.ofHeap (.startingAfter 0)) with
  | .error _ _ => none
  | .ok entry memory =>
      match Step.onMemory (Memory.openChild entry.root) (entry.frame memory) with
      | .error _ _ => none
      | .ok scope frame =>
          match Step.block evaluation scope (unit.gathered right names).1.1 frame,
              Step.block evaluation scope (unit.assign "=" 15 left right names).1 frame with
          | .ok _ ready, .ok _ last => some ⟨entry, memory, scope, frame, ready, last⟩
          | _, _ => none

structure Course.Runs (course : Course) : Prop where
  entered : enter .counting evaluation.method (.ofHeap (.startingAfter 0)) =
    .ok course.entry course.memory
  opens : Step.onMemory (Memory.openChild course.entry.root) (course.entry.frame course.memory) =
    .ok course.scope course.frame
  gathers : Step.block evaluation course.scope (unit.gathered right names).1.1 course.frame =
    .ok () course.ready
  assigns : Step.block evaluation course.scope (unit.assign "=" 15 left right names).1
    course.frame = .ok () course.last

theorem runs_of_course? {course : Course} (found : course? = some course) : course.Runs := by
  unfold course? at found
  split at found
  · cases found
  next entered =>
    split at found
    · cases found
    next opens =>
      split at found
      next gathers assigns =>
        cases found
        exact ⟨entered, opens, gathers, assigns⟩
      next => cases found

theorem isSome_course? : course?.isSome = true := by decide +kernel

theorem upkeep_of_runs {course : Course} (runs : course.Runs) :
    Upkeep evaluation.registry (course.entry.params.map (·.object) ++ [course.entry.sink])
      [course.scope, course.entry.root] [] course.frame := by
  have opened := (Eval.upkeep evaluation.registry ∅ evaluation.method _).openChild _ _
    course.entry.root _ (upkeep_enter runs.entered)
  rw [runs.opens] at opened
  exact opened

theorem binds_of_runs {course : Course} (runs : course.Runs) :
    course.frame.memory.Binds course.scope "p" := by
  obtain ⟨memory, opens, same⟩ := Step.onMemory_eq_ok runs.opens
  rw [same]
  exact ((binds_of_enter runs.entered).2.2 ("p", "Cell") (by decide +kernel)).openChild opens

theorem map_target? : left.map (unit.withNames names).target? = references.map some := by
  decide +kernel

end Relinking

/-- Both values are computed, and stored one after the other. -/
theorem assign_gathers_stores_relink :
    ∃ course : Relinking.Course, course.Runs ∧ ∃ values ready,
      Gathers Relinking.evaluation course.scope (Relinking.names.taken.contains · = true)
        (Relinking.right.map (Relinking.unit.withNames Relinking.names).expr) values course.frame
        ready ∧
      Stores Relinking.evaluation course.scope ready [] (Relinking.references.zip values) ready
        course.last := by
  obtain ⟨course, found⟩ := Option.isSome_iff_exists.1 Relinking.isSome_course?
  have runs := Relinking.runs_of_course? found
  refine ⟨course, runs, assign_gathers_stores Relinking.unit (Names.reserved_ofResults _ _)
    Relinking.map_target? (by decide) rfl 15 (Relinking.upkeep_of_runs runs) (.head _) ?_
    runs.assigns⟩
  intro target member unqualified
  rcases List.mem_cons.1 member with rfl | member
  · exact Relinking.binds_of_runs runs
  · rw [List.mem_singleton.1 member] at unqualified
    exact absurd unqualified (by decide)

/-- The base of the second target denotes the first parameter before the stores, but the field of
this object is not assigned.  That of the second parameter is, which counts as changed in the
place of the first. -/
theorem relink_misses_denoted :
    ∃ course : Relinking.Course, course.Runs ∧
      course.ready.denoted course.last course.scope "p" = some 2 ∧
      course.ready.denoted course.last course.scope "r" = some 4 ∧
      course.last.content (.field 2 "next") = none ∧
      course.last.content (.field 3 "next") = some 4 ∧
      (run Relinking.evaluation 0).result.toOption.map (·.effects) =
        some (.ofList [("p", .doesNotChange), ("q", .doesChange), ("r", .doesChange)]) := by
  obtain ⟨course, found⟩ := Option.isSome_iff_exists.1 Relinking.isSome_course?
  have ends : ∀ course ∈ Relinking.course?,
      course.ready.denoted course.last course.scope "p" = some 2 ∧
      course.ready.denoted course.last course.scope "r" = some 4 ∧
      course.last.content (.field 2 "next") = none ∧
      course.last.content (.field 3 "next") = some 4 := by
    decide +kernel
  obtain ⟨base, value, missed, hit⟩ := ends course found
  exact ⟨course, Relinking.runs_of_course? found, base, value, missed, hit, by decide +kernel⟩

end Custody.Lowering
