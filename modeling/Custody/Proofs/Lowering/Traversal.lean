import Custody.Proofs.Lowering.Tracking

/-!
# Lowered statements in their places
-/

namespace Custody.Lowering

open Source
open Code (Environment Demands)
open Code.Node (declared Throughout)

namespace Setting

variable {setting : Setting} {visible : List EntityId} {env : Environment} {names : Names}

/-! ## Assignments and declarations -/

/-- A node computes a value from what a position offers. -/
structure Computes (setting : Setting) (env : Environment) (value : Code.Node) : Prop where
  expression : value.IsExpression
  supports : setting.Supports env value

theorem Computes.absent : setting.Computes env .absent := ⟨.absent, .intro trivial nofun⟩

theorem Tracks.narrow {seen : List EntityId} (tracks : setting.Tracks visible env names)
    (within : seen ⊆ visible) : setting.Tracks seen env names :=
  ⟨tracks.listed, tracks.worded, fun member => tracks.bound (within member), tracks.receiver⟩

section Statements

variable (satisfied : setting.Satisfied)

include satisfied

theorem Computes.mono {value : Code.Node} {more : Environment}
    (computes : setting.Computes env value) (within : env ⊆ more) : setting.Computes more value :=
  ⟨computes.expression, computes.supports.mono satisfied.grows.meets within⟩

theorem computes_expr (tracks : setting.Tracks visible env names) {value : Expr}
    (sees : value.Sees setting.fits visible) :
    setting.Computes env ((setting.scope names).expr value) :=
  ⟨Scope.isExpression_expr _ value, satisfied.expr tracks sees⟩

theorem computes_values (tracks : setting.Tracks visible env names) {right : List Expr}
    (sees : ∀ value ∈ right, value.Sees setting.fits visible) (count : Nat) :
    ∀ node ∈ (setting.unit.values right count names).1, setting.Computes env node := by
  intro node member
  rcases (setting.unit.values_cases right count names).2 node member with rfl | ⟨value, listed, rfl⟩
  · exact .absent
  · exact computes_expr satisfied tracks (sees value listed)

theorem emits_exprs (tracks : setting.Tracks visible env names) {values : List Expr}
    (sees : ∀ value ∈ values, value.Sees setting.fits visible) :
    setting.Emits visible env names (values.mapM setting.unit.expr names).1 [] []
      (values.mapM setting.unit.expr names).2 := by
  rw [Unit.mapM_expr]
  refine .expressions tracks ?_
  intro node member
  obtain ⟨value, listed, rfl⟩ := List.mem_map.1 member
  exact ⟨Scope.isExpression_expr _ value, satisfied.expr tracks (sees value listed)⟩

omit satisfied in
theorem emits_computed (tracks : setting.Tracks visible env names) {value : Code.Node}
    (computes : setting.Computes env value) :
    setting.Emits visible env names (Unit.computed value) [] [] names := by
  refine .expressions tracks ?_
  intro node member
  unfold Unit.computed at member
  split at member
  · rw [List.mem_singleton.1 member]
    exact ⟨computes.expression, computes.supports⟩
  · cases member

omit satisfied in
/-- A single node that declares nothing. -/
theorem Emits.single (tracks : setting.Tracks visible env names) {node : Code.Node}
    (nothing : declared node = []) (supports : setting.Supports env node) :
    setting.Emits visible env names [node] [] [] names := by
  constructor
  · intro past other rest split
    cases past with
    | cons head tail => simp at split
    | nil =>
        obtain ⟨rfl, rfl⟩ := List.cons.inj split
        simpa using supports
  · simpa [nothing] using tracks
  · exact fun _ => rfl

/-- A target is seen like an expression; what has been declared meanwhile does no harm. -/
theorem emits_store {seen : List EntityId} (tracks : setting.Tracks visible env names)
    (within : seen ⊆ visible) {target : Expr}
    (sees : target.Sees setting.fits seen) {value : Code.Node}
    (computes : setting.Computes env value) :
    setting.Emits visible env names (setting.unit.store target value names).1 [] []
      (setting.unit.store target value names).2 := by
  obtain ⟨nodes, same, stored⟩ := setting.unit.store_cases target value names
  have narrow := tracks.narrow within
  have inner : target.unparen.Sees setting.fits seen := Expr.Everywhere.unparen sees
  have assigned : ∀ {pos reference}, setting.demands.reads env reference →
      setting.Emits visible env names [.assign pos (some reference) value] [] [] names := by
    intro pos reference reads
    refine .single tracks rfl (.intro reads ?_)
    intro later child inside
    cases inside with
    | value => exact computes.supports
  rw [same]
  cases stored with
  | ignored => exact emits_computed tracks computes
  | discarded inside construct =>
      have first := emits_computed tracks computes
      exact first.append (.single first.tracks rfl (.intro trivial nofun))
  | bound inside named =>
      rw [inside] at inner
      obtain ⟨_, _, _, member⟩ := narrow.mem_of_nameOf? named (satisfied.seen inner)
      exact assigned (satisfied.named member _)
  | field inside found =>
      rw [inside] at inner
      exact assigned (satisfied.field narrow inner found)

omit satisfied in
/-- A variable is declared under a name that stands for it from then on. -/
theorem Tracks.give (tracks : setting.Tracks visible env names) {id : EntityId} {entity : Entity}
    (found : (setting.unit.context.package.entity? id).getD default = entity)
    (fresh : setting.Fresh visible [id]) :
    setting.Tracks (visible ++ [id]) (env ++ [(names.free (Names.wish entity),
      setting.unit.context.typeName (setting.unit.context.entityType id))])
      (names.give id entity) := by
  have given := names.of?_give id entity
  constructor
  · intro other name named
    rw [given] at named
    split at named
    next here => exact here ▸ fresh.listed (.head _)
    next => exact tracks.listed named
  · intro other name named
    rw [given] at named
    split at named
    next here =>
      cases named
      obtain ⟨number, _, worded, _⟩ := names.free_eq (Names.wish entity)
      exact ⟨number, by rw [here, found]; exact worded⟩
    next => exact tracks.worded named
  · intro other name seen named
    rw [given] at named
    split at named
    next here =>
      cases named
      rw [here]
      exact List.mem_append_right _ (.head _)
    next apart =>
      have earlier := (List.mem_append.1 seen).resolve_right (by simpa using apart)
      exact List.mem_append_left _ (tracks.bound earlier named)
  · exact List.mem_append_left _ tracks.receiver

theorem emits_localVars (tracks : setting.Tracks visible env names) {id : EntityId}
    (fresh : setting.Fresh visible [id]) {init : Code.Node} (computes : setting.Computes env init) :
    setting.Emits visible env names (setting.unit.localVars id init names).1 [id] [id]
      (setting.unit.localVars id init names).2 := by
  have described := satisfied.described id (fresh.listed (.head _))
  have result : setting.unit.localVars id init names =
      ([(setting.unit.localVar id init names).1], (setting.unit.localVar id init names).2) := rfl
  rcases setting.unit.localVar_cases id init names with ⟨none, _⟩ | ⟨entity, found, same⟩
  · rw [none] at described
    cases described
  · rw [result, same]
    constructor
    · intro past node rest split
      cases past with
      | cons head tail => simp at split
      | nil =>
          obtain ⟨rfl, rfl⟩ := List.cons.inj split
          refine .intro trivial ?_
          intro later child inside
          cases inside with
          | initial member =>
              rw [List.mem_singleton.1 member]
              simpa using computes.supports
    · exact tracks.give (by rw [found]; rfl) fresh
    · intro other absent
      rw [names.of?_give, if_neg (by simpa using absent)]

/-- A target is declared or assigned. -/
theorem emits_assignOne {seen : List EntityId} (tracks : setting.Tracks visible env names)
    (within : seen ⊆ visible) {defines : Bool}
    {target : Expr} (targets : target.Targets setting.fits defines seen)
    (fresh : setting.Fresh visible (target.introduced? defines).toList) {value : Code.Node}
    (computes : setting.Computes env value) :
    setting.Emits visible env names (setting.unit.assignOne defines target value names).1
      (target.introduced? defines).toList (target.introduced? defines).toList
      (setting.unit.assignOne defines target value names).2 := by
  rw [Unit.assignOne_eq]
  cases declares : target.introduced? defines with
  | some id =>
      rw [declares] at fresh
      exact emits_localVars satisfied tracks fresh computes
  | none =>
      have sees : target.Sees setting.fits seen := targets.resolve_left (by simp [declares])
      exact emits_store satisfied tracks within sees computes

omit satisfied in
/-- Targets that are paired with a value each declare what they declare alone. -/
theorem flatMap_zip {α : Type} {brings : α → Option EntityId} {targets : List α}
    {values : List Code.Node} (enough : targets.length ≤ values.length) :
    (targets.zip values).flatMap (fun pair => (brings pair.1).toList) =
      targets.filterMap brings := by
  induction targets generalizing values with
  | nil => rfl
  | cons target rest ih =>
      cases values with
      | nil => simp at enough
      | cons value others =>
          rw [List.zip_cons_cons, List.flatMap_cons, ih (by simpa using enough),
            List.filterMap_cons]
          cases brings target with
          | none => rfl
          | some id => rfl

theorem emits_stores (tracks : setting.Tracks visible env names) {defines : Bool}
    {seen : List EntityId} (within : seen ⊆ visible)
    {left : List Expr} {values : List Code.Node}
    (computes : ∀ value ∈ values, setting.Computes env value) (enough : left.length ≤ values.length)
    (targets : ∀ target ∈ left, target.Targets setting.fits defines seen)
    (fresh : setting.Fresh visible (introduced defines left)) :
    let stores := ((left.zip values).mapM fun (target, value) =>
      setting.unit.assignOne defines target value : Action _) names
    setting.Emits visible env names stores.1.flatten (introduced defines left)
      (introduced defines left) stores.2 := by
  have brings : (left.zip values).flatMap (fun pair => (pair.1.introduced? defines).toList) =
      introduced defines left := flatMap_zip enough
  rw [← brings] at fresh ⊢
  refine .flatten tracks fresh ?_
  rintro ⟨target, value⟩ member seen' more names subset wider tracks fresh
  obtain ⟨listed, given⟩ := List.of_mem_zip member
  exact emits_assignOne satisfied tracks (fun _ here => subset (within here))
    (targets target listed) fresh ((computes value given).mono satisfied wider)

/-- A value is taken into a temporary, which can be read afterwards. -/
theorem emits_temporary (tracks : setting.Tracks visible env names) (source : Expr)
    {value : Code.Node} (computes : setting.Computes env value) :
    let taken := setting.unit.temporary source value names
    setting.Emits visible env names taken.1.1 [] [] taken.2 ∧
      setting.Computes (env ++ taken.1.1.flatMap declared) taken.1.2 := by
  unfold Unit.temporary
  cases value.isPresent with
  | false => exact ⟨.nil tracks, by simpa using computes⟩
  | true =>
      have readable : (names.free "$tmp", setting.unit.context.typeName
          (setting.unit.context.typeOf source)) ∈ env ++ [(names.free "$tmp",
            setting.unit.context.typeName (setting.unit.context.typeOf source))] :=
        List.mem_append_right _ (.head _)
      refine ⟨?_, .reference _, .intro (satisfied.named readable _) nofun⟩
      · constructor
        · intro past node rest split
          cases past with
          | cons head tail => simp at split
          | nil =>
              obtain ⟨rfl, rfl⟩ := List.cons.inj split
              refine .intro trivial ?_
              intro later child inside
              cases inside with
              | initial member =>
                  rw [List.mem_singleton.1 member]
                  simpa using computes.supports
        · constructor
          · exact tracks.listed
          · exact tracks.worded
          · intro id name seen named
            exact List.mem_append_left _ (tracks.bound (by simpa using seen) named)
          · exact List.mem_append_left _ tracks.receiver
        · exact fun _ => rfl

theorem emits_temporaries (tracks : setting.Tracks visible env names)
    {values : List (Expr × Code.Node)} (computes : ∀ value ∈ values, setting.Computes env value.2) :
    let taken := (values.mapM fun (source, value) => setting.unit.temporary source value :
      Action _) names
    setting.Emits visible env names (taken.1.map (·.1)).flatten [] [] taken.2 ∧
      (∀ value ∈ taken.1.map (·.2), setting.Computes
        (env ++ (taken.1.map (·.1)).flatten.flatMap declared) value) ∧
      (taken.1.map (·.2)).length = values.length := by
  induction values generalizing env names with
  | nil => exact ⟨.nil tracks, by simp [Action.mapM_nil], rfl⟩
  | cons first rest ih =>
      obtain ⟨emits, computed⟩ := emits_temporary satisfied tracks first.1 (computes first (.head _))
      have next : setting.Tracks visible (env ++ (setting.unit.temporary first.1 first.2
          names).1.1.flatMap declared) (setting.unit.temporary first.1 first.2 names).2 := by
        simpa using emits.tracks
      obtain ⟨later, others, length⟩ := ih next fun value member =>
        (computes value (.tail _ member)).mono satisfied (List.subset_append_left _ _)
      simp only [Action.mapM_cons, List.map_cons, List.flatten_cons, List.length_cons]
      refine ⟨emits.append (by simpa only [List.append_nil] using later), ?_, by rw [length]⟩
      intro node member
      rw [List.flatMap_append, ← List.append_assoc]
      rcases List.mem_cons.1 member with rfl | member
      · exact computed.mono satisfied (List.subset_append_left _ _)
      · exact others node member

theorem emits_assignAll (tracks : setting.Tracks visible env names) {defines : Bool}
    {left right : List Expr} (sees : ∀ value ∈ right, value.Sees setting.fits visible)
    (targets : ∀ target ∈ left, target.Targets setting.fits defines visible)
    (fresh : setting.Fresh visible (introduced defines left)) :
    setting.Emits visible env names (setting.unit.assignAll defines left right names).1
      (introduced defines left) (introduced defines left)
      (setting.unit.assignAll defines left right names).2 := by
  have values := computes_values satisfied tracks sees left.length
  have same := (setting.unit.values_cases right left.length names).1
  have enough := setting.unit.le_length_values right left.length names
  unfold Unit.assignAll
  simp only [Action.bind_apply, same]
  split
  next parallel =>
    -- Every value is in a temporary before the first target changes.
    have lengths : right.length = left.length := by simpa using (Bool.and_eq_true_iff.1 parallel).2
    have pairs : ∀ pair ∈ right.zip (setting.unit.values right left.length names).1,
        setting.Computes env pair.2 := fun pair member => values pair.2 (List.of_mem_zip member).2
    obtain ⟨taken, computed, length⟩ := emits_temporaries satisfied tracks pairs
    rw [List.length_zip] at length
    have stores := emits_stores satisfied taken.stays (fun _ member => member)
      computed (by omega) targets fresh
    exact taken.next stores
  next =>
    exact emits_stores satisfied tracks (fun _ member => member) values enough targets
      fresh

theorem emits_assign (tracks : setting.Tracks visible env names) {op : String} {opPos : Int}
    {left right : List Expr} (sees : ∀ value ∈ right, value.Sees setting.fits visible)
    (targets : ∀ target ∈ left, target.Targets setting.fits (op = ":=") visible)
    (fresh : setting.Fresh visible (introduced (op = ":=") left)) :
    setting.Emits visible env names (setting.unit.assign op opPos left right names).1
      (introduced (op = ":=") left) (introduced (op = ":=") left)
      (setting.unit.assign op opPos left right names).2 := by
  unfold Unit.assign
  split
  next => exact emits_assignAll satisfied tracks sees targets fresh
  next other =>
    have plain : decide (op = ":=") = false := by
      simp only [Bool.or_eq_true, decide_eq_true_eq, not_or] at other
      exact decide_eq_false other.2
    have nothing : introduced false left = [] := by
      simp only [introduced, List.filterMap_eq_nil_iff]
      intro target _
      cases target with
      | _ => rfl
    have first : (left.headD .missing).Sees setting.fits visible := by
      cases left with
      | nil => exact satisfied.missing visible
      | cons target rest =>
          refine (targets target (.head _)).resolve_left ?_
          cases target with
          | _ => simp [plain, Expr.introduced?]
    have second : (right.headD .missing).Sees setting.fits visible := by
      cases right with
      | nil => exact satisfied.missing visible
      | cons value rest => exact sees value (.head _)
    simp only [Action.bind_apply, Unit.mapM_expr]
    rw [plain, nothing]
    refine emits_store satisfied tracks (fun _ member => member) first ⟨.operation ?_,
      .intro trivial ?_⟩
    · intro operand member
      obtain ⟨value, _, rfl⟩ := List.mem_map.1 member
      exact Scope.isExpression_expr _ value
    · intro later child inside
      cases inside with
      | operand member =>
          obtain ⟨value, listed, rfl⟩ := List.mem_map.1 member
          rcases List.mem_cons.1 listed with rfl | listed
          · exact satisfied.expr tracks first
          · rw [List.mem_singleton.1 listed]
            exact satisfied.expr tracks second

theorem emits_returned (tracks : setting.Tracks visible env names)
    (results : setting.unit.results ⊆ visible) {pos : Int} {values : List Expr}
    (sees : ∀ value ∈ values, value.Sees setting.fits visible) :
    setting.Emits visible env names [(setting.unit.returned pos values names).1] [] []
      (setting.unit.returned pos values names).2 := by
  have returns : ∀ nodes : List Code.Node, (∀ node ∈ nodes, setting.Supports env node) →
      setting.Emits visible env names [.ret pos nodes] [] [] names := by
    intro nodes each
    refine .single tracks rfl (.intro trivial ?_)
    intro later child inside
    cases inside with
    | result member => exact each child member
  unfold Unit.returned
  split
  next =>
    refine returns _ ?_
    intro node member
    obtain ⟨name, listed, rfl⟩ := List.mem_map.1 member
    obtain ⟨id, result, named⟩ := List.mem_filterMap.1 listed
    exact .intro (satisfied.named (tracks.bound (results result) named) _) nofun
  next =>
    simp only [Action.bind_apply, Action.pure_apply, Unit.mapM_expr]
    refine returns _ ?_
    intro node member
    obtain ⟨value, listed, rfl⟩ := List.mem_map.1 member
    exact satisfied.expr tracks (sees value listed)

/-- The object of a class that a variable starts with. -/
theorem computes_zero (pos : Int) (type : Option Ty) (env : Environment) :
    setting.Computes env (setting.unit.zero pos type) := by
  refine ⟨setting.unit.isExpression_zero pos type, ?_⟩
  unfold Unit.zero
  split
  · exact .intro trivial nofun
  · split
    · exact .intro (satisfied.plain nofun) nofun
    · exact .intro trivial nofun

theorem emits_declareVar (tracks : setting.Tracks visible env names) {hasValues : Bool}
    {name : Ident} (fresh : setting.Fresh visible name.introduced?.toList) {value : Code.Node}
    (computes : setting.Computes env value) :
    setting.Emits visible env names (setting.unit.declareVar hasValues name value names).1
      name.introduced?.toList name.introduced?.toList
      (setting.unit.declareVar hasValues name value names).2 := by
  rcases setting.unit.declareVar_cases hasValues name value with
    ⟨id, init, declares, shape, same⟩ | ⟨none, same⟩
  · rw [same, declares]
    rw [declares] at fresh
    refine emits_localVars satisfied tracks fresh ?_
    rcases shape with rfl | ⟨_, rfl⟩
    · exact computes
    · exact computes_zero satisfied _ _ env
  · rw [same, none]
    exact emits_computed tracks computes

theorem emits_declareSpec (tracks : setting.Tracks visible env names) {spec : ValueSpec}
    (sees : ∀ value ∈ spec.values, value.Sees setting.fits visible)
    (fresh : setting.Fresh visible spec.introduced) :
    setting.Emits visible env names (setting.unit.declareSpec spec names).1 spec.introduced
      spec.introduced (setting.unit.declareSpec spec names).2 := by
  have values := computes_values satisfied tracks sees spec.names.length
  have same := (setting.unit.values_cases spec.values spec.names.length names).1
  have brings : (spec.names.zip (setting.unit.values spec.values spec.names.length
      names).1).flatMap (fun pair => pair.1.introduced?.toList) = spec.introduced :=
    flatMap_zip (setting.unit.le_length_values _ _ names)
  unfold Unit.declareSpec
  simp only [Action.bind_apply, Action.pure_apply, same]
  rw [← brings] at fresh ⊢
  refine .flatten tracks fresh ?_
  rintro ⟨name, value⟩ member seen more names _ wider tracks fresh
  exact emits_declareVar satisfied tracks fresh
    ((values value (List.of_mem_zip member).2).mono satisfied wider)

theorem emits_specs (tracks : setting.Tracks visible env names) {specs : List ValueSpec}
    (inScope : SpecsInScope setting.fits visible specs)
    (fresh : setting.Fresh visible (specs.flatMap (·.introduced))) :
    setting.Emits visible env names (specs.mapM setting.unit.declareSpec names).1.flatten
      (specs.flatMap (·.introduced)) (specs.flatMap (·.introduced))
      (specs.mapM setting.unit.declareSpec names).2 := by
  induction specs generalizing visible env names with
  | nil => exact .nil tracks
  | cons spec rest ih =>
      obtain ⟨sees, later⟩ := inScope
      rw [List.flatMap_cons] at fresh ⊢
      rw [Action.mapM_cons, List.flatten_cons]
      have first := emits_declareSpec satisfied tracks sees fresh.left
      exact first.append (ih first.tracks later (fresh.right fun _ member => member))

omit satisfied in
variable (setting) in
theorem computes_element (target : Expr) (env : Environment) :
    setting.Computes env (setting.unit.element target) := by
  refine ⟨setting.unit.isExpression_element target, ?_⟩
  unfold Unit.element
  split
  · exact .intro trivial nofun
  · exact .intro trivial nofun

theorem emits_rangeElement {seen : List EntityId} (tracks : setting.Tracks visible env names)
    (within : seen ⊆ visible) {defines : Bool}
    {target : Option Expr}
    (targets : ∀ expr ∈ target, expr.Targets setting.fits defines seen)
    (fresh : setting.Fresh visible (introduced defines target.toList)) :
    setting.Emits visible env names (setting.unit.rangeElement defines target names).1
      (introduced defines target.toList) (introduced defines target.toList)
      (setting.unit.rangeElement defines target names).2 := by
  cases target with
  | none => exact .nil tracks
  | some target =>
      have computes := setting.computes_element target env
      have brings : introduced defines (some target).toList =
          (target.introduced? defines).toList := by
        simp only [introduced, Option.toList_some, List.filterMap_cons, List.filterMap_nil]
        cases target.introduced? defines with
        | none => rfl
        | some id => rfl
      rw [brings] at fresh ⊢
      rcases setting.unit.rangeElement_cases defines target with
        ⟨id, declares, same⟩ | ⟨none, same | same⟩
      · rw [same, declares]
        rw [declares] at fresh
        exact emits_localVars satisfied tracks fresh computes
      · rw [same, none]
        have sees : target.Sees setting.fits seen :=
          (targets target rfl).resolve_left (by simp [none])
        exact emits_store satisfied tracks within sees computes
      · rw [same, none]
        exact .nil tracks

/-- What stands before the statements of a clause. -/
theorem emits_clauseHead (tracks : setting.Tracks visible env names) {subject : Option Expr}
    (sees : ∀ value ∈ subject, value.Sees setting.fits visible) {head : ClauseHead}
    (inScope : head.InScope setting.fits visible)
    (fresh : setting.Fresh visible (head.introduced subject.isSome)) :
    setting.Emits visible env names (setting.unit.clauseHead subject head names).1
      (head.introduced subject.isSome) (head.introduced subject.isSome)
      (setting.unit.clauseHead subject head names).2 := by
  cases head with
  | cases exprs => exact emits_exprs satisfied tracks inScope
  | «implicit» entity =>
      cases entity with
      | none =>
          cases subject with
          | none => exact .nil tracks
          | some subject => exact .nil tracks
      | some id =>
          cases subject with
          | none => exact .nil tracks
          | some subject =>
              exact emits_localVars satisfied tracks fresh
                (computes_expr satisfied tracks (sees subject rfl))
  | communication pos =>
      cases pos with
      | none => exact .nil tracks
      | some pos => exact .single tracks rfl (.intro trivial nofun)

/-! ## Statements -/

omit satisfied in
theorem Computes.emits (tracks : setting.Tracks visible env names) {value : Code.Node}
    (computes : setting.Computes env value) :
    setting.Emits visible env names [value] [] [] names := by
  refine .expressions tracks ?_
  intro node member
  rw [List.mem_singleton.1 member]
  exact ⟨computes.expression, computes.supports⟩

end Statements

mutual

/-- A statement that sees only what is visible asks for nothing that its position does
not offer. -/
theorem emits_stmt (satisfied : setting.Satisfied) : (stmt : Stmt) → {visible : List EntityId} →
    {env : Environment} → {names : Names} → setting.Tracks visible env names →
    setting.unit.results ⊆ visible → stmt.InScope setting.fits visible →
    setting.Fresh visible stmt.locals →
    setting.Emits visible env names (setting.unit.stmt stmt names).1 stmt.introduced stmt.locals
      (setting.unit.stmt stmt names).2
  | .empty, visible, env, names, tracks, _, _, _ => by
      rw [Unit.stmt, Stmt.locals]
      exact .nil tracks
  | .send pos, visible, env, names, tracks, _, _, _ => by
      rw [Unit.stmt, Stmt.locals]
      exact .single tracks rfl (.intro trivial nofun)
  | .bad pos, visible, env, names, tracks, _, _, _ => by
      rw [Unit.stmt, Stmt.locals]
      exact .single tracks rfl (.intro trivial nofun)
  | .block pos list, visible, env, names, tracks, results, inScope, fresh => by
      rw [Stmt.InScope] at inScope
      rw [Stmt.locals] at fresh ⊢
      rw [Unit.stmt]
      exact (emits_stmts satisfied list tracks results inScope fresh).block tracks fresh pos
  | .expr value, visible, env, names, tracks, _, inScope, _ => by
      rw [Stmt.InScope] at inScope
      rw [Unit.stmt, Stmt.locals]
      exact (computes_expr satisfied tracks inScope).emits tracks
  | .vars specs, visible, env, names, tracks, _, inScope, fresh => by
      rw [Stmt.InScope] at inScope
      rw [Stmt.locals] at fresh ⊢
      rw [Unit.stmt]
      exact emits_specs satisfied tracks inScope fresh
  | .assign op opPos left right, visible, env, names, tracks, _, inScope, fresh => by
      rw [Stmt.InScope] at inScope
      rw [Stmt.locals] at fresh ⊢
      rw [Unit.stmt]
      exact emits_assign satisfied tracks inScope.1 inScope.2 fresh
  | .incDec op opPos target, visible, env, names, tracks, _, inScope, _ => by
      rw [Stmt.InScope] at inScope
      rw [Unit.stmt, Stmt.locals]
      have operand := computes_expr satisfied tracks inScope
      refine emits_store satisfied tracks (fun _ member => member) inScope
        ⟨.operation ?_, .intro trivial ?_⟩
      · intro value member
        rw [List.mem_singleton.1 member]
        exact operand.expression
      · intro later child inside
        cases inside with
        | operand member =>
            rw [List.mem_singleton.1 member]
            exact operand.supports
  | .ret pos values, visible, env, names, tracks, results, inScope, _ => by
      rw [Stmt.InScope] at inScope
      rw [Unit.stmt, Stmt.locals]
      exact emits_returned satisfied tracks results inScope
  | .cond pos init test bodyPos body otherwise, visible, env, names, tracks, results, inScope, fresh => by
      rw [Stmt.InScope] at inScope
      obtain ⟨begins, tests, inside, other⟩ := inScope
      rw [Stmt.locals] at fresh ⊢
      rw [Unit.stmt]
      have within := init.introduced_subset_locals
      have first := emits_stmt satisfied init tracks results begins fresh.left.left
      have tested := (computes_expr satisfied first.tracks tests).emits first.tracks
      have freshBody := fresh.left.right within
      have branch := (emits_stmts satisfied body tested.stays
        (List.subset_append_of_subset_left _ results) inside freshBody).block tested.stays freshBody
        bodyPos
      have list := first.also (tested.next branch)
      have others := emits_stmt satisfied otherwise list.tracks
        (List.subset_append_of_subset_left _ results) other
        (fresh.right fun _ member => List.mem_append_left _ (within member))
      exact (list.append others).block tracks fresh pos
  | .loop pos init test post bodyPos body, visible, env, names, tracks, results, inScope, fresh => by
      rw [Stmt.InScope] at inScope
      obtain ⟨begins, tested, inside, last⟩ := inScope
      rw [Stmt.locals] at fresh ⊢
      rw [Unit.stmt]
      have within := init.introduced_subset_locals
      have first := emits_stmt satisfied init tracks results begins fresh.left.left
      have tests := first.followed (emits_exprs satisfied first.tracks
        fun expr member => tested expr (Option.mem_toList.1 member))
      simp only [Action.bind_apply, Action.pure_apply, Unit.mapM_expr] at tests ⊢
      have freshBody := fresh.left.right within
      have loop := (emits_stmts satisfied body tests.tracks
        (List.subset_append_of_subset_left _ results) inside freshBody).block tests.tracks freshBody
        bodyPos
      have list := tests.also loop
      have others := emits_stmt satisfied post list.tracks
        (List.subset_append_of_subset_left _ results) last
        (fresh.right fun _ member => List.mem_append_left _ (within member))
      exact (list.append others).block tracks fresh pos
  | .range pos defines key value collection bodyPos body, visible, env, names, tracks,
      results, inScope, fresh => by
      rw [Stmt.InScope] at inScope
      obtain ⟨ranged, targets, inside⟩ := inScope
      rw [Stmt.locals] at fresh ⊢
      rw [Unit.stmt]
      have both : introduced defines (key.toList ++ value.toList) =
          introduced defines key.toList ++ introduced defines value.toList := by
        simp [introduced]
      rw [both] at fresh inside ⊢
      have first := (computes_expr satisfied tracks ranged).emits tracks
      have keys := emits_rangeElement satisfied first.stays (fun _ member => member)
        (fun target member => targets target (List.mem_append_left _ (Option.mem_toList.2 member)))
        fresh.left.left
      have values := emits_rangeElement satisfied (first.next keys).tracks
        (List.subset_append_left _ _)
        (fun target member => targets target (List.mem_append_right _ (Option.mem_toList.2 member)))
        (fresh.left.right fun _ member => member)
      have elements := (first.next keys).append values
      have freshBody := fresh.right fun _ member => member
      have loop := (emits_stmts satisfied body elements.tracks
        (List.subset_append_of_subset_left _ results) inside freshBody).block elements.tracks
        freshBody bodyPos
      exact (elements.also loop).block tracks fresh pos
  | .switch pos init tag clauseList, visible, env, names, tracks, results, inScope, fresh => by
      rw [Stmt.InScope] at inScope
      obtain ⟨begins, tagged, inside⟩ := inScope
      rw [Stmt.locals] at fresh ⊢
      rw [Unit.stmt]
      have first := emits_stmt satisfied init tracks results begins fresh.left
      have tags := first.followed (emits_exprs satisfied first.tracks
        fun expr member => tagged expr (Option.mem_toList.1 member))
      simp only [Action.bind_apply, Action.pure_apply, Unit.mapM_expr] at tags ⊢
      have branches := emits_clauses satisfied none clauseList tags.tracks
        (List.subset_append_of_subset_left _ results) nofun inside
        (fresh.right init.introduced_subset_locals)
      exact (tags.also branches).block tracks fresh pos
  | .typeSwitch pos init binds subject clauseList, visible, env, names, tracks,
      results, inScope, fresh => by
      rw [Stmt.InScope] at inScope
      obtain ⟨begins, sees, inside⟩ := inScope
      rw [Stmt.locals] at fresh ⊢
      rw [Unit.stmt]
      have first := emits_stmt satisfied init tracks results begins fresh.left
      have freshClauses := fresh.right init.introduced_subset_locals
      cases binds with
      | true =>
          have branches := emits_clauses satisfied (some subject) clauseList first.tracks
            (List.subset_append_of_subset_left _ results)
            (by simpa using sees) inside freshClauses
          simp only [Action.bind_apply, Action.pure_apply, ↓reduceIte, List.append_nil]
          exact (first.also branches).block tracks fresh pos
      | false =>
          have tested := first.followed
            ((computes_expr satisfied first.tracks sees).emits first.tracks)
          simp only [Action.bind_apply, Bool.false_eq_true, ↓reduceIte, Unit.mapM_expr]
          have branches := emits_clauses satisfied none clauseList tested.tracks
            (List.subset_append_of_subset_left _ results) nofun inside freshClauses
          exact (tested.also branches).block tracks fresh pos
  | .select pos clauseList, visible, env, names, tracks, results, inScope, fresh => by
      rw [Stmt.InScope] at inScope
      rw [Stmt.locals] at fresh ⊢
      rw [Unit.stmt]
      have branches := emits_clauses satisfied none clauseList tracks results nofun inScope fresh
      exact branches.block tracks fresh pos
  | .labeled inner, visible, env, names, tracks, results, inScope, fresh => by
      rw [Stmt.InScope] at inScope
      rw [Stmt.locals] at fresh ⊢
      rw [Unit.stmt]
      exact emits_stmt satisfied inner tracks results inScope fresh
  termination_by structural stmt => stmt

theorem emits_stmts (satisfied : setting.Satisfied) : (stmts : List Stmt) →
    {visible : List EntityId} → {env : Environment} → {names : Names} →
    setting.Tracks visible env names → setting.unit.results ⊆ visible →
    StmtsInScope setting.fits visible stmts → setting.Fresh visible (localsAll stmts) →
    setting.Emits visible env names (setting.unit.stmts stmts names).1
      (stmts.flatMap (·.introduced)) (localsAll stmts) (setting.unit.stmts stmts names).2
  | [], visible, env, names, tracks, _, _, _ => by
      rw [Unit.stmts, localsAll]
      exact .nil tracks
  | first :: rest, visible, env, names, tracks, results, inScope, fresh => by
      rw [StmtsInScope] at inScope
      rw [localsAll] at fresh ⊢
      rw [Unit.stmts]
      have begins := emits_stmt satisfied first tracks results inScope.1 fresh.left
      exact begins.append (emits_stmts satisfied rest begins.tracks
        (List.subset_append_of_subset_left _ results) inScope.2
        (fresh.right first.introduced_subset_locals))
  termination_by structural stmts => stmts

theorem emits_clause (satisfied : setting.Satisfied) (subject : Option Expr) :
    (clause : Clause) → {visible : List EntityId} → {env : Environment} → {names : Names} →
    setting.Tracks visible env names → setting.unit.results ⊆ visible →
    (∀ value ∈ subject, value.Sees setting.fits visible) →
    clause.InScope setting.fits subject.isSome visible →
    setting.Fresh visible (clause.locals subject.isSome) →
    setting.Emits visible env names [(setting.unit.clause subject clause names).1] []
      (clause.locals subject.isSome) (setting.unit.clause subject clause names).2
  | .mk pos head body, visible, env, names, tracks, results, sees, inScope, fresh => by
      rw [Clause.InScope] at inScope
      rw [Clause.locals] at fresh ⊢
      rw [Unit.clause]
      have first := emits_clauseHead satisfied tracks sees inScope.1 fresh.left
      have rest := emits_stmts satisfied body first.tracks
        (List.subset_append_of_subset_left _ results) inScope.2
        (fresh.right fun _ member => member)
      exact (first.append rest).block tracks fresh pos
  termination_by structural clause => clause

theorem emits_clauses (satisfied : setting.Satisfied) (subject : Option Expr) :
    (clauses : List Clause) → {visible : List EntityId} → {env : Environment} → {names : Names} →
    setting.Tracks visible env names → setting.unit.results ⊆ visible →
    (∀ value ∈ subject, value.Sees setting.fits visible) →
    ClausesInScope setting.fits subject.isSome visible clauses →
    setting.Fresh visible (localsOfClauses subject.isSome clauses) →
    setting.Emits visible env names (setting.unit.clauses subject clauses names).1 []
      (localsOfClauses subject.isSome clauses) (setting.unit.clauses subject clauses names).2
  | [], visible, env, names, tracks, _, _, _, _ => by
      rw [Unit.clauses, localsOfClauses]
      exact .nil tracks
  | first :: rest, visible, env, names, tracks, results, sees, inScope, fresh => by
      rw [ClausesInScope] at inScope
      rw [localsOfClauses] at fresh ⊢
      rw [Unit.clauses]
      have begins := emits_clause satisfied subject first tracks results sees inScope.1 fresh.left
      have later : setting.Fresh visible (localsOfClauses subject.isSome rest) := by
        simpa using fresh.right (List.nil_subset _)
      exact begins.next (emits_clauses satisfied subject rest begins.stays results sees inScope.2 later)
  termination_by structural clauses => clauses

end

/-! ## Units -/

/-- Parameters are declared with their types. -/
theorem tracks_params (tracks : setting.Tracks visible env names) {ids : List EntityId}
    (fresh : setting.Fresh visible ids) :
    let made := params setting.unit.context ids names
    setting.Tracks (visible ++ ids)
        (env ++ made.1.map fun param => (param.name, param.type)) made.2 ∧
      ∀ id, id ∉ ids → made.2.of? id = names.of? id := by
  induction ids generalizing visible env names with
  | nil => exact ⟨by simpa [params, Action.mapM_nil] using tracks, fun _ _ => rfl⟩
  | cons id rest ih =>
      have parts : setting.Fresh visible ([id] ++ rest) := fresh
      obtain ⟨later, kept⟩ := ih (tracks.give rfl parts.left) (parts.right fun _ member => member)
      rw [params_cons]
      refine ⟨?_, ?_⟩
      · simpa only [List.append_assoc, List.singleton_append, List.map_cons] using later
      · intro other absent
        rw [List.mem_cons, not_or] at absent
        have same := kept other absent.2
        rw [names.of?_give, if_neg absent.1] at same
        exact same

theorem emits_localVar_mapM (satisfied : setting.Satisfied)
    (tracks : setting.Tracks visible env names) {ids : List EntityId}
    (fresh : setting.Fresh visible ids) :
    let made := (ids.mapM fun id => setting.unit.localVar id .absent : Action _) names
    setting.Emits visible env names made.1 ids ids made.2 := by
  induction ids generalizing visible env names with
  | nil => exact .nil tracks
  | cons id rest ih =>
      have parts : setting.Fresh visible ([id] ++ rest) := fresh
      have first := emits_localVars satisfied tracks parts.left .absent
      have later := ih first.tracks (parts.right fun _ member => member)
      rw [Action.mapM_cons]
      exact first.append later

/-- The results that have a name. -/
def named (setting : Setting) : List EntityId :=
  setting.unit.results.filter fun id =>
    (setting.unit.context.package.entity? id).any (·.name ≠ "")

/-- Results without a name are no variables. -/
theorem emits_namedResults (satisfied : setting.Satisfied)
    (tracks : setting.Tracks visible env names)
    (fresh : setting.Fresh visible setting.unit.results)
    (unnamed : ∀ id ∈ setting.unit.results, names.of? id = none) :
    setting.Emits visible env names (namedResults setting.unit names).1 setting.unit.results
      setting.unit.results (namedResults setting.unit names).2 := by
  have sublist : setting.named.Sublist setting.unit.results := List.filter_sublist
  have some : setting.Fresh visible setting.named :=
    ⟨fun _ member => fresh.listed (sublist.subset member), fresh.distinct.sublist sublist,
      fun id member => fresh.unseen id (sublist.subset member)⟩
  have emits : setting.Emits visible env names (namedResults setting.unit names).1 setting.named
      setting.named (namedResults setting.unit names).2 := emits_localVar_mapM satisfied tracks some
  have tracks := emits.tracks
  refine ⟨emits.throughout, ⟨tracks.listed, tracks.worded, ?_, tracks.receiver⟩, ?_⟩
  · intro id name seen given
    refine tracks.bound ?_ given
    rcases List.mem_append.1 seen with earlier | result
    · exact List.mem_append_left _ earlier
    · apply List.mem_append_right
      apply Classical.byContradiction
      intro absent
      rw [emits.kept absent, unnamed id result] at given
      cases given
  · intro id absent
    exact emits.kept fun member => absent (sublist.subset member)

/-- The body of a unit that sees only what is visible asks for nothing that is not
declared. -/
theorem supports_body (satisfied : setting.Satisfied) {context : Context} {function : Function}
    (same : setting.unit = .of context function) {stmts : List Stmt}
    (fresh : setting.Fresh [] (function.params ++ (function.results ++ localsAll stmts)))
    (inScope : StmtsInScope setting.fits (function.params ++ function.results) stmts) (pos : Int) :
    setting.Supports ((Code.this, setting.owner) ::
        (params context function.params .start).1.map fun param => (param.name, param.type))
      (.block pos (Unit.bodyStmts context function stmts)) := by
  have given : ∀ id, Names.start.of? id = none := fun id => rfl
  have start : setting.Tracks [] [(Code.this, setting.owner)] .start := by
    constructor
    · intro id name named
      rw [given] at named
      cases named
    · intro id name named
      rw [given] at named
      cases named
    · nofun
    · exact .head _
  obtain ⟨unit, owner, known, fits, demands⟩ := setting
  cases same
  obtain ⟨begins, kept⟩ := tracks_params start fresh.left
  have later := fresh.right fun _ member => member
  have unnamed : ∀ id ∈ function.results, (Names.ofParams context function).of? id = none := by
    intro id member
    have absent : id ∉ function.params := fun seen => later.left.unseen id member (by simpa using seen)
    exact kept id absent
  have results := emits_namedResults satisfied begins later.left unnamed
  have body := emits_stmts satisfied stmts results.tracks (List.subset_append_right _ _) inScope
    (later.right fun _ member => member)
  have whole := (results.append body).block begins later pos
  have supports := whole.throughout (List.nil_append [_]).symm
  rw [List.flatMap_nil, List.append_nil] at supports
  exact supports

end Setting

end Custody.Lowering
