import Custody.Proofs.Data.Occurrences
import Custody.Registry

/-!
# What a registry holds

Of several classes with one name a registry holds the first, and so it does of several
methods of a class with one member name.
-/

namespace Custody

open Code

/-- Where a key that is taken keeps its value, the first item with a key counts. -/
theorem Table.find?_firsts {α β : Type} (key : α → String) (value : α → β) (items : List α)
    (table : Table String β) (name : String) :
    (items.foldl (fun table item =>
        if table.contains (key item) then table else table.insert (key item) (value item))
      table).find? name =
      (table.find? name).or ((items.find? (key · == name)).map value) := by
  induction items generalizing table with
  | nil => simp
  | cons item rest ih =>
      rw [List.foldl_cons, ih, List.find?_cons]
      cases taken : table.contains (key item) with
      | true =>
          rw [if_pos rfl]
          cases same : key item == name with
          | false => rfl
          | true =>
              rw [beq_iff_eq] at same
              rw [Table.contains, same] at taken
              obtain ⟨found, here⟩ := Option.isSome_iff_exists.1 taken
              rw [here]
              rfl
      | false =>
          rw [if_neg Bool.false_ne_true]
          cases same : key item == name with
          | false =>
              rw [Table.find?_insert_of_ne fun here => by simp [here] at same]
          | true =>
              rw [beq_iff_eq] at same
              rw [Table.contains, Option.isSome_eq_false_iff, Option.isNone_iff_eq_none] at taken
              subst same
              rw [Table.find?_insert_self, taken]
              rfl

namespace Registry

variable {program : Program} {decl : ClassDecl}

theorem find?_ofProgram (program : Program) (name : String) :
    (ofProgram program).classes.find? name = (program.class? name).map Class.ofDecl := by
  have folded : ∀ (decls : List ClassDecl) (registry : Registry),
      (decls.foldl (fun registry decl => (registry.register (Class.ofDecl decl)).2)
        registry).classes =
      decls.foldl (fun classes decl => if classes.contains decl.name then classes
        else classes.insert decl.name (Class.ofDecl decl)) registry.classes := by
    intro decls
    induction decls with
    | nil => exact fun _ => rfl
    | cons decl rest ih =>
        intro registry
        rw [List.foldl_cons, ih, List.foldl_cons]
        congr 1
        unfold register
        split
        next taken => rw [if_pos (show registry.classes.contains decl.name = true from taken)]
        next free => rw [if_neg (show ¬registry.classes.contains decl.name = true from free)]; rfl
  rw [ofProgram, folded, Table.find?_firsts (·.name) Class.ofDecl]
  rfl

theorem method?_ofDecl (decl : ClassDecl) (member : String) :
    (Class.ofDecl decl).method? member = (decl.method? member).map (Method.ofDecl decl.name) :=
  Table.find?_firsts MethodDecl.member (Method.ofDecl decl.name) decl.methods ∅ member

/-- A method is declared by the class of its name. -/
theorem exists_of_method? {unit : UnitId} {method : Method}
    (found : (ofProgram program).method? unit = some method) :
    ∃ decl ∈ program.classes, ∃ declared ∈ decl.methods,
      method = Method.ofDecl decl.name declared := by
  unfold method? at found
  rw [find?_ofProgram] at found
  obtain ⟨owner, known, listed⟩ := Option.bind_eq_some_iff.1 found
  obtain ⟨decl, first, rfl⟩ := Option.map_eq_some_iff.1 known
  rw [method?_ofDecl] at listed
  obtain ⟨declared, here, rfl⟩ := Option.map_eq_some_iff.1 listed
  exact ⟨decl, List.mem_of_find?_eq_some first, declared, List.mem_of_find?_eq_some here, rfl⟩

section Distinct

variable (distinct : (program.classes.map (·.name)).Nodup) (member : decl ∈ program.classes)

include distinct member

theorem class?_of_mem : program.class? decl.name = some decl := by
  obtain ⟨found, first⟩ : ∃ found, program.class? decl.name = some found := by
    rw [← Option.isSome_iff_exists, Program.class?, List.find?_isSome]
    exact ⟨decl, member, by simp⟩
  have same : found.name = decl.name := by simpa using List.find?_some first
  rw [first, List.inj_on_of_nodup_map distinct (List.mem_of_find?_eq_some first) member same]

theorem find?_of_mem : (ofProgram program).classes.find? decl.name = some (Class.ofDecl decl) := by
  rw [find?_ofProgram, class?_of_mem distinct member]
  rfl

/-- A class has the methods that it declares. -/
theorem isSome_method?_of_mem {declared : MethodDecl} (listed : declared ∈ decl.methods) :
    ((ofProgram program).method? ⟨decl.name, declared.member⟩).isSome = true := by
  have first : (decl.method? declared.member).isSome = true := by
    rw [ClassDecl.method?, List.find?_isSome]
    exact ⟨declared, listed, by simp⟩
  rw [method?, find?_of_mem distinct member, Option.bind_some, method?_ofDecl, Option.isSome_map]
  exact first

/-- A class has the fields that it declares, if their names differ. -/
theorem fieldType_of_mem {field : FieldDecl} {name : String} (listed : field ∈ decl.fields)
    (named : name ∈ field.names)
    (apart : ((decl.fields.flatMap fun field => field.names.map (·, field.type)).map
      (·.1)).Nodup) :
    (ofProgram program).fieldType decl.name name = .ok field.type := by
  have found : (Class.ofDecl decl).fields.find? name = some field.type := by
    refine (Table.find?_ofList_iff apart).2 ?_
    exact List.mem_flatMap.2 ⟨field, listed, List.mem_map.2 ⟨name, named, rfl⟩⟩
  have known : (ofProgram program).lookup decl.name = .ok (Class.ofDecl decl) := by
    simp only [lookup, find?_of_mem distinct member]
  simp only [fieldType, known, found]

end Distinct

/-! ## Chains of fields -/

variable {registry : Registry} {start middle type : String} {names others : List String}

theorem fieldChainType_append (first : registry.fieldChainType start names = .ok middle)
    (second : registry.fieldChainType middle others = .ok type) :
    registry.fieldChainType start (names ++ others) = .ok type := by
  induction names generalizing start with
  | nil =>
      cases first
      exact second
  | cons name rest ih =>
      rw [fieldChainType] at first
      split at first
      next next found =>
        rw [List.cons_append, fieldChainType, found]
        exact ih first
      next => cases first

/-- A chain of fields can be cut. -/
theorem exists_of_fieldChainType_append
    (whole : registry.fieldChainType start (names ++ others) = .ok type) :
    ∃ middle, registry.fieldChainType start names = .ok middle ∧
      registry.fieldChainType middle others = .ok type := by
  induction names generalizing start with
  | nil => exact ⟨start, rfl, whole⟩
  | cons name rest ih =>
      rw [List.cons_append, fieldChainType] at whole
      split at whole
      next next found =>
        obtain ⟨middle, first, second⟩ := ih whole
        refine ⟨middle, ?_, second⟩
        rw [fieldChainType, found]
        exact first
      next => cases whole

theorem fieldChainType_singleton (name : String) :
    registry.fieldChainType start [name] = registry.fieldType start name := by
  unfold fieldChainType
  cases registry.fieldType start name <;> rfl

end Registry

end Custody
