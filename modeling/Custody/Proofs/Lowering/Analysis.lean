import Custody.Proofs.Lowering.Resolution

/-!
# Analyses of well-typed packages

The analysis of a well-typed package has no errors of its own making.  Its graph can be
built, a run ends with all units processed or with units that wait for each other, and
what the units mention is known to the registry: all else has become an unsupported
construct.

This needs that no selection misses a dereference.  The lowering takes the path of what is
dereferenced for that of the result, but the type names that it emits for variables tell a
pointer to a pointer from a pointer.
-/

namespace Custody.Lowering

open Source

/-- The graph of a well-typed package can be built, no run of it fails, and all that the
units mention resolves: calls to classes that declare the method, and paths to fields. -/
theorem analysis_endsWell (package : Package) (wellTyped : WellTyped package)
    (direct : Direct package) :
    (∀ policy, ∃ graph, Graph.build (registry package) policy = .ok graph ∧
      ∀ workers, Schedule.EndsWell (Schedule.run (registry package) graph ∅ workers).error) ∧
      ∀ unit lowered, (registry package).method? unit = some lowered →
        ∀ node ∈ lowered.decl.nodes, (registry package).Resolves lowered node := by
  have named := Registry.named_ofProgram (program package)
  have resolved := wellTyped.resolved direct
  constructor
  · intro policy
    obtain ⟨graph, built⟩ := Graph.exists_build named resolved policy
    refine ⟨graph, built, fun workers => ?_⟩
    exact Schedule.run_endsWell named resolved built (fun _ _ _ => rfl) workers
  · intro unit lowered found node member
    exact (resolved.units unit lowered found).resolves_of_mem member

/-! ## A pointer to a pointer -/

namespace Dereferencing

/-- An expression of a type. -/
def known (type : Ty) : Option Typing := some ⟨.value, some type, none⟩

/-- The dereference `(*p)` of a pointer to a type. -/
def dereferenced (element : Ty) : Expr :=
  .paren 20 (known element) (.star 21 (known element)
    (.ident (known (.pointer element)) ⟨22, "p", none, some 5⟩))

/-- The statements `(*p).n = 1` and `(*p).N()`. -/
def stmts (element : Ty) : List Stmt :=
  [.assign "=" 25
      [.selector 20 (known (.other "int")) (dereferenced element) "n" 24 none
        (some ⟨.field, some element, none, [0]⟩)]
      [.basicLit 26 (some ⟨.value, some (.other "int"), some "1"⟩) "1"],
    .expr (.call 30 (known (.other "()"))
      (.selector 30 (known (.other "func()")) (dereferenced element) "N" 34 (some 1)
        (some ⟨.method, some element, some 1, [0]⟩)) [])]

def fill : Function := ⟨"test", "(*test.T).N", false, some 2, [], []⟩

def touch : Function := ⟨"test", "(*test.T).M", false, some 4, [5], []⟩

/-- A struct with two methods.  The second one has a pointer to a type as parameter. -/
def package (element : Ty) : Package where
  path := "test"
  entities :=
    #[⟨"T", 1, .type false false (some [⟨"n", 2, some (.other "int"), false⟩])⟩,
      ⟨"N", 3, .function fill⟩, ⟨"t", 4, .var (some (.pointer (.named 0)))⟩,
      ⟨"M", 5, .function touch⟩, ⟨"t", 6, .var (some (.pointer (.named 0)))⟩,
      ⟨"p", 7, .var (some (.pointer element))⟩]
  scope := [0]
  files :=
    [⟨1, 100, [], 1, "p", 9, [], none, false,
      [⟨10, 12, "N", 11, some 1, none, some (12, [])⟩,
        ⟨13, 40, "M", 14, some 3, none, some (15, stmts element)⟩]⟩]

theorem classInfos_eq (element : Ty) : classInfos (package element) =
    [⟨0, "T", 1, [⟨"n", 2, some (.other "int"), false⟩]⟩] := by
  simp [classInfos, package, classInfo?, Package.entity?]

/-- The only class. -/
def owner : ClassInfo := ⟨0, "T", 1, [⟨"n", 2, some (.other "int"), false⟩]⟩

theorem of_package (element : Ty) : Context.of (package element) =
    ⟨package element, [owner], [1, 3]⟩ := by
  simp only [Context.of, classInfos_eq]
  rfl

variable {element : Ty}

theorem typed_dereferenced :
    (dereferenced element).Everywhere (Context.of (package element)).Typed := by
  refine ⟨?_, ?_, ?_⟩
  · rintro known ⟨⟩
    rfl
  · rintro known ⟨⟩
    rfl
  · rintro id ⟨⟩ _ known ⟨⟩
    rfl

theorem typed (points : (Context.of (package element)).classOf? (some element) = some owner) :
    StmtsInScope (fun _ => (Context.of (package element)).Typed)
      (touch.params ++ touch.results) (stmts element) := by
  refine ⟨⟨?_, ?_⟩, ⟨trivial, ⟨⟨rfl, ?_⟩, typed_dereferenced⟩, trivial⟩, trivial⟩
  · exact List.forall_mem_singleton.2 trivial
  · refine List.forall_mem_singleton.2 (.inr ⟨⟨rfl, ?_⟩, typed_dereferenced⟩)
    intro fields chosen
    obtain ⟨info, field, later, found, listed, ⟨⟩, rfl⟩ := Context.fields?_cons_eq_some chosen
    cases points.symm.trans found
    cases List.mem_singleton.1 listed
    refine ⟨by decide, ?_⟩
    rintro known ⟨⟩
    rfl
  · rintro fields ⟨⟩
    refine ⟨nofun, ?_⟩
    rintro id ⟨⟩ found isUnit
    have same : (Context.of (package element)).unitOf? 1 = some (owner, false) := by
      rw [of_package]
      rfl
    cases same.symm.trans isUnit
    exact points

theorem wellTyped (element : Ty)
    (points : (Context.of (package element)).classOf? (some element) = some owner) :
    WellTyped (package element) := by
  constructor
  case distinct => exact List.nodup_singleton "T"
  case fields =>
    rw [classInfos_eq]
    decide
  case units =>
    intro decl listed body bodied id named entity function found isUnit
    have listed : decl ∈ [_, _] := listed
    rcases List.mem_pair.1 listed with rfl | rfl
    · cases bodied
      cases named
      cases found
      refine ⟨⟨by decide, nofun, trivial⟩, ?_, trivial⟩
      exact List.forall_mem_singleton.2 ⟨_, _, _, rfl⟩
    · cases bodied
      cases named
      cases found
      have known : touch.known (stmts element) = [5] := rfl
      refine ⟨⟨?_, ?_, ?_⟩, ?_, typed points⟩
      · rw [known]
        decide
      · rw [known]
        exact List.forall_mem_singleton.2 ⟨_, rfl, show Code.Path.IsName "p" by decide⟩
      · rw [known]
        have visible : Expr.Refers [5] [5] (.ident (Dereferencing.known (.pointer element))
            ⟨22, "p", none, some 5⟩) := fun id _ listed => listed
        refine ⟨⟨List.forall_mem_singleton.2 trivial, ?_⟩, ⟨trivial, ?_, trivial⟩, trivial⟩
        · exact List.forall_mem_singleton.2 (.inr ⟨trivial, trivial, trivial, visible⟩)
        · exact ⟨trivial, trivial, trivial, visible⟩
      · rw [known]
        exact List.forall_mem_cons.2 ⟨⟨_, _, _, rfl⟩,
          List.forall_mem_singleton.2 ⟨_, _, _, rfl⟩⟩

/-- A pointer to the struct points to a class. -/
theorem direct : Direct (package (.named 0)) := by
  have reaches : (Context.of (package (.named 0))).Reaches (dereferenced (.named 0)) := by
    refine ⟨fun _ => ?_, trivial⟩
    rw [of_package]
    rfl
  intro decl listed body bodied id named entity function found isUnit
  have listed : decl ∈ [_, _] := listed
  rcases List.mem_pair.1 listed with rfl | rfl
  · cases bodied
    exact trivial
  · cases bodied
    refine ⟨⟨List.forall_mem_singleton.2 trivial, ?_⟩, ⟨trivial, ?_, trivial⟩, trivial⟩
    · exact List.forall_mem_singleton.2 (.inr ⟨reaches, trivial, trivial, trivial⟩)
    · exact ⟨reaches, trivial, trivial, trivial⟩

/-- With a parameter that points to the struct, the analysis ends well. -/
theorem analysis_endsWell_pointer : WellTyped (package (.named 0)) ∧ Direct (package (.named 0)) ∧
    ∃ graph, Graph.build (registry (package (.named 0))) .lexicographic = .ok graph ∧
      Schedule.EndsWell (Schedule.run (registry (package (.named 0))) graph ∅ 1).error := by
  have wellTyped := wellTyped (.named 0) (by rw [of_package]; rfl)
  obtain ⟨graph, built, ends⟩ := (analysis_endsWell _ wellTyped direct).1 .lexicographic
  exact ⟨wellTyped, direct, graph, built, ends 1⟩

/-- With a parameter that points to a pointer, the package is well typed, but its graph
cannot be built. -/
theorem not_endsWell_indirect : WellTyped (package (.pointer (.named 0))) ∧
    ∀ policy graph,
      Graph.build (registry (package (.pointer (.named 0)))) policy ≠ .ok graph := by
  refine ⟨wellTyped _ (by rw [of_package]; rfl), ?_⟩
  intro policy graph built
  have fails : (Graph.build (registry (package (.pointer (.named 0)))) policy).isOk = false := by
    cases policy <;> decide +kernel
  rw [built] at fails
  cases fails

end Dereferencing

end Custody.Lowering
