import Custody.Proofs.Lowering.Classes
import Custody.Proofs.Schedule.Completion

/-!
# Lowered units mention what the registry knows

The lowering decides from the types of expressions what is a path, and emits type names
and dotted paths; the registry reads these again.  Where a package is well typed and no
selection misses a dereference, both agree: the path of an expression leads to the class
of its type.
-/

namespace Custody

open Code (Environment Path)

/-- A path goes on from where another one leads to. -/
theorem Registry.denotes_append_iff {registry : Registry} {env : Environment}
    {base path type : String} {names : List String} (some : (Path.parse base).first ≠ "")
    (longer : Path.segments path = Path.segments base ++ names) :
    registry.Denotes env path type ↔
      ∃ middle, registry.Denotes env base middle ∧
        registry.fieldChainType middle names = .ok type := by
  obtain ⟨first, rest⟩ := List.cons.inj longer
  have start : Code.qualifierFirst path = Code.qualifierFirst base := by
    have present : (Path.parse path).first ≠ "" := by rwa [first]
    rw [Code.qualifierFirst, if_neg (Path.ne_empty_of_first present), Code.qualifierFirst,
      if_neg (Path.ne_empty_of_first some), first]
  unfold Registry.Denotes
  rw [start, rest]
  constructor
  · rintro ⟨start, declared, typed⟩
    obtain ⟨middle, before, after⟩ := Registry.exists_of_fieldChainType_append typed
    exact ⟨middle, ⟨start, declared, before⟩, after⟩
  · rintro ⟨middle, ⟨start, declared, before⟩, after⟩
    exact ⟨start, declared, Registry.fieldChainType_append before after⟩

/-- The receiver may be left out before a call. -/
theorem Registry.denotes_empty_iff {registry : Registry} {env : Environment} {type : String} :
    registry.Denotes env "" type ↔ registry.Denotes env Code.this type := by
  have first : Code.qualifierFirst Code.this = Code.this := by decide
  have rest : (Path.parse Code.this).rest = [] := by decide
  rw [Registry.Denotes, Registry.Denotes, first, rest]
  rfl

namespace Lowering

open Source

/-- A unit of which is asked that the registry knows what it mentions. -/
def Setting.resolving (package : Package) (function : Function) (owner : String)
    (stmts : List Stmt) : Setting where
  unit := .of (.of package) function
  owner := owner
  known := function.known stmts
  fits visible value := Expr.Refers (function.known stmts) visible value ∧
    (Context.of package).Typed value ∧ (Context.of package).Direct value
  demands := (registry package).resolving

variable {package : Package} {function : Function} {owner : ClassInfo} {stmts : List Stmt}
variable {visible : List EntityId} {env : Environment} {names : Names}

/-! ## Paths -/

/-- A path leads to an object of a type, which is the class of an expression if that is of a
class. -/
def LeadsTo (package : Package) (env : Environment) (type : Option Ty) (path : String) : Prop :=
  (Path.parse path).first ≠ "" ∧ ∃ name, (registry package).Denotes env path name ∧
    ∀ info, (Context.of package).classOf? type = some info → name = info.name

/-- A path goes on through fields. -/
theorem LeadsTo.fields (wellTyped : WellTyped package) {type : Option Ty} {path longer : String}
    {indices : List Nat} {fields : List StructField} (leads : LeadsTo package env type path)
    (chosen : (Context.of package).fields? type indices = some fields)
    (named : ∀ field ∈ fields, field.name ≠ "_")
    (same : Path.segments longer = Path.segments path ++ fields.map (·.name)) :
    LeadsTo package env (endType type fields) longer := by
  obtain ⟨some, name, denotes, typed⟩ := leads
  have first : (Path.parse longer).first = (Path.parse path).first := (List.cons.inj same).1
  refine ⟨by rwa [first], ?_⟩
  cases fields with
  | nil =>
      refine ⟨name, (Registry.denotes_append_iff some same).2 ⟨name, denotes, rfl⟩, typed⟩
  | cons field rest =>
      obtain ⟨info, found⟩ : ∃ info, (Context.of package).classOf? type = Option.some info := by
        cases indices with
        | nil => cases chosen
        | cons index rest =>
            obtain ⟨info, _, _, found, _⟩ := Context.fields?_cons_eq_some chosen
            exact ⟨info, found⟩
      have chain := wellTyped.fieldChainType chosen named
      rw [Context.typeName_of_classOf? found, ← typed info found] at chain
      refine ⟨_, (Registry.denotes_append_iff some same).2 ⟨name, denotes, chain⟩, ?_⟩
      exact fun info found => Context.typeName_of_classOf? found

/-- The names of fields are segments of a path. -/
theorem WellTyped.isName_of_fields? (wellTyped : WellTyped package) {type : Option Ty}
    {indices : List Nat} {fields : List StructField}
    (chosen : (Context.of package).fields? type indices = some fields) :
    ∀ name ∈ fields.map (·.name), Path.IsName name := by
  induction indices generalizing type fields with
  | nil =>
      cases chosen
      nofun
  | cons index rest ih =>
      obtain ⟨info, field, later, found, listed, onward, rfl⟩ :=
        Context.fields?_cons_eq_some chosen
      refine List.forall_mem_cons.2 ⟨?_, ih onward⟩
      exact ((wellTyped.fields info (Context.mem_of_classOf? found)).2 field listed).isName

/-- A field that is selected is found, and the path to it goes on from there. -/
theorem LeadsTo.field (wellTyped : WellTyped package) {receiver : Option Ty} {indices : List Nat}
    {start last : String} {before : List String} (leads : LeadsTo package env receiver start)
    (chosen : (Context.of package).fieldPath? receiver indices = some (before ++ [last]))
    (unblank : ∀ fields ∈ (Context.of package).fields? receiver indices,
      ∀ field ∈ fields, field.name ≠ "_") :
    (∃ fields ∈ (Context.of package).fields? receiver indices,
      LeadsTo package env (endType receiver fields)
        (Code.dotted (".".intercalate (start :: before)) last)) ∧
      ∀ pos, (registry package).Finds env ⟨pos, ".".intercalate (start :: before), last⟩ := by
  rw [Context.fieldPath?_eq] at chosen
  obtain ⟨fields, chosen, named⟩ := Option.map_eq_some_iff.1 chosen
  have whole := wellTyped.isName_of_fields? chosen
  rw [named] at whole
  have first : (Path.parse (".".intercalate (start :: before))).first ≠ "" := by
    rw [Path.first_intercalate]
    exact leads.1
  have present := Path.ne_empty_of_first first
  have shorter : Path.segments (".".intercalate (start :: before)) =
      Path.segments start ++ before :=
    Path.segments_intercalate fun name member => whole name (List.mem_append_left _ member)
  have longer : Path.segments (Code.dotted (".".intercalate (start :: before)) last) =
      Path.segments (".".intercalate (start :: before)) ++ [last] := by
    rw [Path.segments_dotted present,
      Path.segments_of_isName (whole last (List.mem_append_right _ (.head _)))]
  have leads := leads.fields wellTyped chosen (unblank fields chosen)
    (by rw [longer, shorter, named, List.append_assoc])
  refine ⟨⟨fields, chosen, leads⟩, fun pos => ?_⟩
  obtain ⟨_, type, denotes, _⟩ := leads
  obtain ⟨middle, denotes, typed⟩ := (Registry.denotes_append_iff first longer).1 denotes
  rw [Registry.fieldChainType_singleton] at typed
  rw [Registry.Finds, if_neg present]
  exact ⟨middle, type, denotes, typed⟩

/-- The type of a variable, as an expression. -/
theorem Context.typeOf_ident {context : Context} {typing : Option Typing} {name : Ident}
    {id : EntityId} (typed : context.Typed (.ident typing name)) (same : name.entity? = some id)
    (isVariable : context.IsVariable id) :
    context.typeOf (.ident typing name) = context.entityType id := by
  cases typing with
  | none => simp only [Context.typeOf, Expr.typing?, same, Option.bind_some]
  | some known => exact typed id same isVariable known rfl

/-- A class that a dereference gives is that of what is dereferenced, if this is of a
class. -/
theorem Context.classOf?_star {context : Context} {pos : Int} {typing : Option Typing}
    {inner : Expr} {info : ClassInfo} (typed : context.Typed (.star pos typing inner))
    (reaches : context.isClass (context.typeOf inner) = true)
    (found : context.classOf? (context.typeOf (.star pos typing inner)) = some info) :
    context.classOf? (context.typeOf inner) = some info := by
  cases typing with
  | none => cases found
  | some known =>
      have typed := typed known rfl
      have found : context.classOf? known.type = some info := found
      by_cases isType : known.mode = .type
      · rw [if_pos isType] at typed
        rw [typed] at found
        exact Context.classOf?_of_pointer found
      · rw [if_neg isType] at typed
        obtain ⟨other, isClass⟩ := Option.isSome_iff_exists.1 reaches
        cases found.symm.trans (typed.classOf?_eq isClass)
        exact isClass

/-- The path of an expression leads to the class of its type. -/
theorem leadsTo_of_leads (wellTyped : WellTyped package)
    (lawful : (Context.of package).WellTypedFunction function stmts)
    (owns : ∀ receiver ∈ function.receiver,
      (Context.of package).classOf? ((Context.of package).entityType receiver) = some owner)
    (tracks : (Setting.resolving package function owner.name stmts).Tracks visible env names)
    {value : Expr} {path : String}
    (leads : ((Setting.resolving package function owner.name stmts).scope names).Leads value path)
    (sees : value.Sees (Setting.resolving package function owner.name stmts).fits visible)
    (reaches : (Context.of package).Reaches value) :
    LeadsTo package env ((Context.of package).typeOf value) path := by
  induction leads with
  | @start typing name path named =>
      obtain ⟨whole, some⟩ := tracks.isName_of_nameOf? lawful.scopes.named named
      obtain ⟨id, same, listed, member⟩ := tracks.mem_of_nameOf? named sees.1
      have isVariable : (Context.of package).IsVariable id :=
        lawful.entities id (List.mem_append.2 (listed.imp_left Option.mem_toList.2))
      rw [Context.typeOf_ident sees.2.1 same isVariable]
      have first := Path.first_of_isName whole
      have rest : (Path.parse path).rest = [] := (List.cons.inj (Path.segments_of_isName whole)).2
      have denotes : (registry package).Denotes env path
          ((Setting.resolving package function owner.name stmts).declaredType id) := by
        refine ⟨_, ?_, by rw [rest]; rfl⟩
        rwa [Code.qualifierFirst, if_neg some, first]
      refine ⟨by rwa [first], _, denotes, ?_⟩
      · intro info found
        unfold Setting.declaredType
        split
        next isReceiver =>
          cases found.symm.trans (owns id isReceiver)
          rfl
        next => exact Context.typeName_of_classOf? found
  | @paren pos typing inner path _ ih =>
      obtain ⟨some, name, denotes, typed⟩ := ih sees.2 reaches
      refine ⟨some, name, denotes, fun info found => typed info ?_⟩
      cases typing with
      | none => cases found
      | some known =>
          have found : (Context.of package).classOf? known.type = Option.some info := found
          rwa [sees.1.2.1 known rfl] at found
  | @star pos typing inner path _ ih =>
      obtain ⟨some, name, denotes, typed⟩ := ih sees.2 reaches.2
      refine ⟨some, name, denotes, fun info found => typed info ?_⟩
      refine Context.classOf?_star sees.1.2.1 (reaches.1 ?_) found
      simp [Context.isClass, found]
  | @field pos namePos typing base name start last used entity receiver indices before
      leads chosen ih =>
      obtain ⟨⟨_, ⟨rfl, selects⟩, reaches⟩, sees⟩ := sees
      obtain ⟨⟨fields, chosen, leads⟩, _⟩ := (ih sees reaches).field wellTyped chosen
        fun fields chosen => (selects fields chosen).1
      cases typing with
      | none => exact ⟨leads.1, leads.2.imp fun name denotes => ⟨denotes.1, fun _ found => by cases found⟩⟩
      | some known =>
          have typed : known.type = _ := (selects fields chosen).2 known rfl
          rw [← typed] at leads
          exact leads

/-! ## Names of arguments -/

/-- An element of a composite is named by its key or by a field, if it is named at all. -/
theorem Scope.name_of_arguments (scope : Scope) (fields : Option (List StructField))
    {elements : List Expr} {index : Nat} {name : String}
    (member : name ∈ (scope.arguments fields index elements).map (·.1)) :
    name = "" ∨ (∃ element ∈ elements, name ∈ element.key?) ∨
      ∃ list ∈ fields, ∃ field ∈ list, field.name = name := by
  induction elements generalizing index with
  | nil => cases member
  | cons element rest ih =>
      unfold Scope.arguments at member
      rw [List.map_cons] at member
      rcases List.mem_cons.1 member with here | later
      · split at here
        next key _ =>
          dsimp only at here
          split at here
          · cases named : key.name? with
            | none =>
                rw [named] at here
                exact .inl here
            | some label =>
                rw [named] at here
                exact .inr (.inl ⟨_, .head _, named.trans (congrArg some here.symm)⟩)
          · exact .inl here
        next =>
          cases found : fields.bind (·[index]?) with
          | none =>
              rw [found] at here
              exact .inl here
          | some field =>
              rw [found] at here
              obtain ⟨list, given, listed⟩ := Option.bind_eq_some_iff.1 found
              exact .inr (.inr ⟨list, given, field, List.mem_of_getElem? listed, here.symm⟩)
      · rcases ih later with empty | ⟨element, listed, key⟩ | field
        · exact .inl empty
        · exact .inr (.inl ⟨element, .tail _ listed, key⟩)
        · exact .inr (.inr field)

/-! ## Units -/

section Units

variable (wellTyped : WellTyped package)
variable (lawful : (Context.of package).WellTypedFunction function stmts)
variable (owns : ∀ receiver ∈ function.receiver,
  (Context.of package).classOf? ((Context.of package).entityType receiver) = some owner)

include wellTyped lawful owns

theorem satisfied_resolving :
    (Setting.resolving package function owner.name stmts).Satisfied := by
  constructor
  case grows => exact Registry.grows_resolving _
  case described =>
    intro id listed
    obtain ⟨entity, found, _⟩ := lawful.scopes.named id listed
    exact Option.isSome_iff_exists.2 ⟨entity, found⟩
  case missing => exact fun _ => ⟨trivial, trivial, trivial⟩
  case seen => exact fun fits => fits.1
  case named =>
    intro env name type member pos
    exact ⟨type, member⟩
  case field =>
    intro visible env names pos typing base name namePos used selection reference tracks sees found
    obtain ⟨start, receiver, entity, indices, path, last, before, rfl, chosen, rfl⟩ :=
      Scope.fieldRef?_eq_some found
    obtain ⟨⟨_, ⟨rfl, selects⟩, reaches⟩, sees⟩ := sees
    have leads := leadsTo_of_leads wellTyped lawful owns tracks (Scope.leads_of_path? before) sees
      reaches
    exact (leads.field wellTyped chosen fun fields chosen => (selects fields chosen).1).2 namePos
  case method =>
    intro visible env names function typing used selection base id entity called found path tracks
      sees chosen isMethod named known isUnit path
    obtain ⟨pos, inner, name, namePos, inside, before⟩ := Scope.callee_eq_selected chosen
    have everywhere : function.unparen.Everywhere _ := Expr.Everywhere.unparen sees
    rw [inside] at everywhere
    obtain ⟨kind, receiver, selected, indices⟩ := selection
    cases isMethod
    obtain ⟨⟨_, ⟨rfl, selects⟩, reaches⟩, sees⟩ := everywhere
    have leads := leadsTo_of_leads wellTyped lawful owns tracks (Scope.leads_of_path? before) sees
      reaches
    rw [Context.fieldPath?_eq] at path
    obtain ⟨fields, through, rfl⟩ := Option.map_eq_some_iff.1 path
    obtain ⟨unblank, declares⟩ := selects fields through
    obtain ⟨_, type, denotes, typed⟩ := leads.fields wellTyped through unblank
      (Path.segments_intercalate (wellTyped.isName_of_fields? through))
    have isClass := typed found (declares id named found isUnit)
    refine ⟨type, ?_, ?_⟩
    · split
      next receiver =>
        rw [receiver] at denotes
        exact Registry.denotes_empty_iff.2 denotes
      next => exact denotes
    · rw [isClass]
      exact wellTyped.isSome_method? known isUnit
  case constructor =>
    intro id entity called found names known isUnit unnamed
    refine ⟨fun _ => wellTyped.isSome_method? known isUnit, fun name member => ?_⟩
    rw [unnamed name member]
    nofun
  case plain =>
    intro type names unnamed
    refine ⟨fun named => (named rfl).elim, fun name member => ?_⟩
    rw [unnamed name member]
    nofun
  case composite =>
    intro visible names pos typing elements fits
    refine ⟨fun named => (named rfl).elim, fun name member => ?_⟩
    rcases Scope.name_of_arguments _ _ member with rfl | ⟨element, listed, key⟩ |
      ⟨list, isClass, field, listed, rfl⟩
    · nofun
    · exact (fits.2.1 element listed name key).head?_ne
    · obtain ⟨info, found, rfl⟩ := Option.map_eq_some_iff.1 isClass
      exact ((wellTyped.fields info (Context.mem_of_classOf? found)).2 field listed).head?_ne

/-- The registry knows what a unit mentions. -/
theorem resolved_method (member : owner ∈ classInfos package)
    (direct : (Context.of package).DirectFunction function stmts) (decl : FuncDecl)
    (entity : Entity) (isConstructor : Bool) (pos : Int) :
    Eval.Resolved (registry package) (.ofDecl owner.name
      (method (.of package) decl entity function isConstructor (pos, stmts))) := by
  have distinct := nodup_variables_method (.of package) decl entity function isConstructor
    (pos, stmts)
  constructor
  case known => exact wellTyped.isOk_lookup member
  case distinct => exact distinct
  case types => exact Registry.types_ofDecl _ owner.name distinct
  case statements =>
    intro block declared stmt listed
    cases declared
    rcases List.mem_append.1 listed with result | listed
    · exact (declares_namedResults _ _).statements stmt result
    · exact (Unit.declares_stmts _ stmts _).statements stmt listed
  case resolves =>
    intro block declared
    cases declared
    exact (Setting.resolving package function owner.name stmts).supports_body
      (satisfied_resolving wellTyped lawful owns) rfl
      ⟨fun _ member => member, lawful.scopes.distinct, fun _ _ => List.not_mem_nil⟩
      (lawful.scopes.inScope.and (lawful.typed.and direct)) pos

end Units

/-- The units of a package mention only what its registry knows, if the package is well
typed and no selection misses a dereference. -/
theorem WellTyped.resolved (wellTyped : WellTyped package) (direct : Direct package) :
    (registry package).Resolved where
  unreserved := wellTyped.unreserved
  units := by
    intro unit lowered found
    obtain ⟨decl, listed, body, bodied, id, named, entity, function, owner, isConstructor, known,
      isUnit, rfl⟩ := exists_of_method? found
    obtain ⟨_, member, _, called, also, owns⟩ := Context.unitOf?_eq_some isUnit
    cases known.symm.trans also
    have isSome : ((Context.of package).unitOf? id).isSome = true := by rw [isUnit]; rfl
    exact resolved_method wellTyped
      (wellTyped.units decl listed body bodied id named entity function known isSome) owns member
      (direct decl listed body bodied id named entity function known isSome) decl entity
      isConstructor body.1

end Lowering

end Custody
