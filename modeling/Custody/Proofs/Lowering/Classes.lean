import Custody.Proofs.Eval.Upkeep
import Custody.Proofs.Lowering.Typing
import Custody.Proofs.Registry

/-!
# The registry of a package

The registry of a lowered package answers as the types of the package say: a class has its
fields with the names of their types, a path through fields leads to the type at its end,
and the functions that are units are methods of their classes.
-/

namespace Custody.Lowering

open Source

variable {package : Package} {info other : ClassInfo}

/-! ## Classes -/

theorem entity_of_classInfo? {id : EntityId} (found : classInfo? package id = some info) :
    info.entity = id := by
  unfold classInfo? at found
  split at found
  · cases found
    rfl
  · cases found

theorem mem_classInfos_iff :
    info ∈ classInfos package ↔ ∃ id ∈ package.scope, classInfo? package id = some info := by
  rw [classInfos, List.mem_mergeSort, List.mem_filterMap]

/-- A class is known by its entity. -/
theorem eq_of_entity_eq (first : info ∈ classInfos package) (second : other ∈ classInfos package)
    (same : info.entity = other.entity) : info = other := by
  obtain ⟨id, _, found⟩ := mem_classInfos_iff.1 first
  obtain ⟨_, _, known⟩ := mem_classInfos_iff.1 second
  rw [← entity_of_classInfo? known, ← same, entity_of_classInfo? found, found] at known
  exact Option.some.inj known

theorem name_of_classInfo? {id : EntityId} (found : classInfo? package id = some info) :
    (package.entity? id).map (·.name) = some info.name := by
  unfold classInfo? at found
  split at found
  next declared =>
    cases found
    rw [declared]
    rfl
  next => cases found

/-- Classes have different names if all declarations of the package have. -/
theorem nodup_classInfos
    (distinct : ((package.scope.filterMap package.entity?).map (·.name)).Nodup) :
    ((classInfos package).map (·.name)).Nodup := by
  have sublist : ∀ ids : List EntityId,
      ((ids.filterMap (classInfo? package)).map (·.name)).Sublist
        ((ids.filterMap package.entity?).map (·.name)) := by
    intro ids
    induction ids with
    | nil => exact .slnil
    | cons id rest ih =>
        rw [List.filterMap_cons, List.filterMap_cons]
        cases found : classInfo? package id with
        | some info =>
            obtain ⟨entity, declared, same⟩ := Option.map_eq_some_iff.1 (name_of_classInfo? found)
            rw [declared, List.map_cons, List.map_cons, same]
            exact ih.cons_cons _
        | none =>
            cases package.entity? id with
            | none => exact ih
            | some entity => exact ih.cons _
  have sorted : ((classInfos package).map (·.name)).Perm
      ((package.scope.filterMap (classInfo? package)).map (·.name)) :=
    (List.mergeSort_perm _ _).map _
  exact sorted.nodup_iff.2 (distinct.sublist (sublist package.scope))

/-- A type is of a class, or it points to one. -/
theorem Context.classOf?_eq_some {context : Context} {type : Option Ty}
    (found : context.classOf? type = some info) :
    ∃ entity, context.classes.find? (·.entity == entity) = some info ∧
      (type.map Ty.unalias = some (.named entity) ∨
        ∃ element, type.map Ty.unalias = some (.pointer element) ∧
          element.unalias = .named entity) := by
  unfold Context.classOf? at found
  simp only at found
  split at found
  next element pointer =>
    split at found
    next entity named => exact ⟨entity, found, .inr ⟨element, pointer, named⟩⟩
    next => cases found
  next same =>
    split at found
    next entity _ => exact ⟨entity, found, .inl same⟩
    next => cases found
  next => cases found

theorem Context.classOf?_of_named {context : Context} {type : Option Ty} {entity : EntityId}
    (named : type.map Ty.unalias = some (.named entity)) :
    context.classOf? type = context.classes.find? (·.entity == entity) := by
  simp only [Context.classOf?, named]

/-- What points to a class is of that class. -/
theorem Context.classOf?_of_pointer {context : Context} {type : Option Ty}
    (found : context.classOf? (type.map .pointer) = some info) :
    context.classOf? type = some info := by
  cases type with
  | none => cases found
  | some type =>
      obtain ⟨entity, listed, same | ⟨element, same, named⟩⟩ := context.classOf?_eq_some found
      · cases same
      · cases same
        have named : (some type).map Ty.unalias = some (.named entity) := congrArg some named
        rw [context.classOf?_of_named named, listed]

/-- A dereference of a class gives that class. -/
theorem Context.Dereferences.classOf?_eq {context : Context} {type result : Option Ty}
    (dereferences : context.Dereferences type result)
    (found : context.classOf? type = some info) : context.classOf? result = some info := by
  unfold Context.Dereferences at dereferences
  split at dereferences
  next element pointer =>
    obtain ⟨entity, listed, same | ⟨_, same, named⟩⟩ := context.classOf?_eq_some found
    · rw [pointer] at same
      cases same
    · rw [pointer] at same
      cases same
      have named : (some element).map Ty.unalias = some (.named entity) := congrArg some named
      rw [dereferences, context.classOf?_of_named named, listed]
  next =>
    rw [dereferences] at found
    cases found

/-- The class of a type is one of the package. -/
theorem Context.mem_of_classOf? {context : Context} {type : Option Ty}
    (found : context.classOf? type = some info) : info ∈ context.classes := by
  obtain ⟨_, listed, _⟩ := context.classOf?_eq_some found
  exact List.mem_of_find?_eq_some listed

/-- The name of the type of a class is the name of the class. -/
theorem Context.typeName_of_classOf? {context : Context} {type : Option Ty}
    (found : context.classOf? type = some info) : context.typeName type = info.name := by
  rw [Context.typeName, found]

/-! ## Methods -/

/-- The units of a package with the entities of their classes. -/
def units (package : Package) : List (EntityId × Code.MethodDecl) :=
  (decls package).filterMap (unit? (.of package))

/-- The declaration of a class with its methods. -/
def classDecl (package : Package) (info : ClassInfo) : Code.ClassDecl :=
  { info.decl (.of package) with
    methods := ((units package).filter (·.1 == info.entity)).map (·.2) }

theorem classes_program (package : Package) :
    (program package).classes = (classInfos package).map (classDecl package) := rfl

theorem classDecl_mem_program (member : info ∈ classInfos package) :
    classDecl package info ∈ (program package).classes := by
  rw [classes_program]
  exact List.mem_map_of_mem member

/-- A class declares the fields of its struct that are not blank. -/
theorem fieldNames_classDecl (package : Package) (info : ClassInfo) :
    ((classDecl package info).fields.flatMap fun field =>
        field.names.map (·, field.type)).map (·.1) =
      (info.fields.filter (·.name ≠ "_")).map (·.name) := by
  rw [List.map_flatMap, List.map_eq_flatMap]
  exact List.flatMap_map _ _ _

theorem mem_methods_classDecl {declared : Code.MethodDecl} :
    declared ∈ (classDecl package info).methods ↔ (info.entity, declared) ∈ units package := by
  simp only [classDecl, List.mem_map, List.mem_filter, beq_iff_eq, Prod.exists, exists_eq_right]

/-- A unit comes from a function with a body. -/
theorem mem_units_iff {id : EntityId} {declared : Code.MethodDecl} :
    (id, declared) ∈ units package ↔
      ∃ decl ∈ decls package, ∃ body ∈ decl.body, ∃ function ∈ decl.entity,
        ∃ entity called owner isConstructor,
          function? package function = some (entity, called) ∧
          (Context.of package).unitOf? function = some (owner, isConstructor) ∧
          id = owner.entity ∧
          declared = method (.of package) decl entity called isConstructor body := by
  simp only [units, List.mem_filterMap, unit?, Option.bind_eq_bind, Option.bind_eq_some_iff,
    Option.pure_def, Option.some.injEq]
  constructor
  · rintro ⟨decl, listed, body, declares, function, named, ⟨entity, called⟩, known,
      ⟨owner, isConstructor⟩, isUnit, same⟩
    obtain ⟨rfl, rfl⟩ := Prod.mk.inj same
    exact ⟨decl, listed, body, declares, function, named, entity, called, owner, isConstructor,
      known, isUnit, rfl, rfl⟩
  · rintro ⟨decl, listed, body, declares, function, named, entity, called, owner, isConstructor,
      known, isUnit, rfl, rfl⟩
    exact ⟨decl, listed, body, declares, function, named, (entity, called), known,
      (owner, isConstructor), isUnit, rfl⟩

/-- A unit has a body, and its class is that of its receiver if there is one. -/
theorem Context.unitOf?_eq_some {context : Context} {id : EntityId} {isConstructor : Bool}
    (isUnit : context.unitOf? id = some (info, isConstructor)) :
    id ∈ context.bodies ∧ info ∈ context.classes ∧
      ∃ entity function, function? context.package id = some (entity, function) ∧
        ∀ receiver ∈ function.receiver,
          context.classOf? (context.entityType receiver) = some info := by
  unfold Context.unitOf? at isUnit
  split at isUnit
  · cases isUnit
  next entity function known =>
    split at isUnit
    · cases isUnit
    next kept =>
      have body : id ∈ context.bodies := by
        simp only [Bool.or_eq_true, not_or, Bool.not_eq_true', Bool.not_eq_true] at kept
        simpa using kept.1.2
      split at isUnit
      next receiver _ same =>
        obtain ⟨owner, found, ⟨⟩⟩ := Option.map_eq_some_iff.1 isUnit
        refine ⟨body, context.mem_of_classOf? found, entity, function, known, ?_⟩
        rintro other here
        rw [same] at here
        cases here
        exact found
      next result _ none _ =>
        obtain ⟨owner, found, ⟨⟩⟩ := Option.map_eq_some_iff.1 isUnit
        refine ⟨body, context.mem_of_classOf? found, entity, function, known, ?_⟩
        rw [none]
        nofun
      next => cases isUnit

/-- The registry of the lowered package. -/
abbrev registry (package : Package) : Registry := .ofProgram (program package)

/-- A method of the registry is a unit of the package. -/
theorem exists_of_method? {unit : UnitId} {lowered : Method}
    (found : (registry package).method? unit = some lowered) :
    ∃ decl ∈ decls package, ∃ body ∈ decl.body, ∃ id ∈ decl.entity,
      ∃ entity function owner isConstructor,
        function? package id = some (entity, function) ∧
        (Context.of package).unitOf? id = some (owner, isConstructor) ∧
        lowered =
          .ofDecl owner.name (method (.of package) decl entity function isConstructor body) := by
  obtain ⟨_, listed, declared, here, rfl⟩ := Registry.exists_of_method? found
  rw [classes_program] at listed
  obtain ⟨info, member, rfl⟩ := List.mem_map.1 listed
  obtain ⟨decl, listed, body, bodied, id, named, entity, function, owner, isConstructor, known,
    isUnit, same, rfl⟩ := mem_units_iff.1 (mem_methods_classDecl.1 here)
  obtain ⟨_, owns, _⟩ := Context.unitOf?_eq_some isUnit
  cases eq_of_entity_eq member owns same
  exact ⟨decl, listed, body, bodied, id, named, entity, function, info, isConstructor, known,
    isUnit, rfl⟩

section Registered

variable (wellTyped : WellTyped package) (member : info ∈ classInfos package)

include wellTyped

theorem WellTyped.nodup_program : ((program package).classes.map (·.name)).Nodup := by
  rw [classes_program, List.map_map]
  exact nodup_classInfos wellTyped.distinct

include member

theorem WellTyped.isOk_lookup : ((registry package).lookup info.name).isOk = true := by
  have found : (registry package).classes.find? info.name = _ :=
    Registry.find?_of_mem wellTyped.nodup_program (classDecl_mem_program member)
  simp only [Registry.lookup, found]
  rfl

/-- A class has its fields with the names of their types. -/
theorem WellTyped.fieldType {field : StructField} (listed : field ∈ info.fields)
    (named : field.name ≠ "_") :
    (registry package).fieldType info.name field.name =
      .ok ((Context.of package).typeName field.type) := by
  have apart : (((classDecl package info).fields.flatMap fun field =>
      field.names.map (·, field.type)).map (·.1)).Nodup := by
    rw [fieldNames_classDecl]
    exact (wellTyped.fields info member).1
  have declared : (⟨field.pos, (Context.of package).typeName field.type, [field.name]⟩ :
      Code.FieldDecl) ∈ (classDecl package info).fields :=
    List.mem_map.2 ⟨field, List.mem_filter.2 ⟨listed, by simpa using named⟩, rfl⟩
  exact Registry.fieldType_of_mem wellTyped.nodup_program (classDecl_mem_program member) declared
    (.head _) apart

omit member

/-- A path through fields leads to the name of the type at its end. -/
theorem WellTyped.fieldChainType {type : Option Ty} {indices : List Nat}
    {fields : List StructField} (chosen : (Context.of package).fields? type indices = some fields)
    (named : ∀ field ∈ fields, field.name ≠ "_") :
    (registry package).fieldChainType ((Context.of package).typeName type)
        (fields.map (·.name)) =
      .ok ((Context.of package).typeName (endType type fields)) := by
  induction indices generalizing type fields with
  | nil =>
      cases chosen
      rfl
  | cons index rest ih =>
      obtain ⟨info, field, later, found, listed, onward, rfl⟩ :=
        Context.fields?_cons_eq_some chosen
      have typed := wellTyped.fieldType (Context.mem_of_classOf? found) listed
        (named field (.head _))
      rw [List.map_cons, Registry.fieldChainType, Context.typeName_of_classOf? found, typed]
      exact ih onward fun other member => named other (.tail _ member)

/-- A function that is a unit is a method of its class. -/
theorem WellTyped.isSome_method? {id : EntityId} {entity : Entity} {called : Function}
    {isConstructor : Bool} (known : function? package id = some (entity, called))
    (isUnit : (Context.of package).unitOf? id = some (info, isConstructor)) :
    ((registry package).method? ⟨info.name,
      if isConstructor then Code.constructorMember entity.name else entity.name⟩).isSome = true := by
  obtain ⟨hasBody, member, _⟩ := Context.unitOf?_eq_some isUnit
  obtain ⟨decl, listed, declares⟩ := List.mem_filterMap.1 hasBody
  split at declares
  next some =>
    obtain ⟨body, bodied⟩ := Option.isSome_iff_exists.1 some
    obtain ⟨other, named, same⟩ := Option.bind_eq_some_iff.1 declares
    obtain ⟨_, _, rfl⟩ := Option.map_eq_some_iff.1 same
    have method := mem_methods_classDecl.2 (mem_units_iff.2 ⟨decl, listed, body, bodied, _, named,
      entity, called, info, isConstructor, known, isUnit, rfl, rfl⟩)
    exact Registry.isSome_method?_of_mem wellTyped.nodup_program (classDecl_mem_program member)
      method
  next => cases declares

/-- Identifiers are no names of captures. -/
theorem WellTyped.unreserved : (registry package).Unreserved := by
  apply Eval.unreserved_of_names
  intro owner listed name declared
  obtain ⟨⟨key, _⟩, entry, rfl⟩ := List.mem_map.1 listed
  have found := Table.find?_eq_some_iff.2 entry
  rw [Registry.find?_ofProgram] at found
  obtain ⟨decl, first, rfl⟩ := Option.map_eq_some_iff.1 found
  have member := List.mem_of_find?_eq_some first
  rw [classes_program] at member
  obtain ⟨info, known, rfl⟩ := List.mem_map.1 member
  have declared : name ∈ (info.fields.filter (·.name ≠ "_")).map (·.name) := by
    rw [← fieldNames_classDecl package info]
    exact Table.isSome_find?_ofList.1 (Table.mem_keys_iff.1 declared)
  obtain ⟨field, kept, rfl⟩ := List.mem_map.1 declared
  exact ((wellTyped.fields info known).2 field (List.mem_filter.1 kept).1).head?_ne

end Registered

end Custody.Lowering
