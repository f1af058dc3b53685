import Custody.Proofs.Eval.Completion
import Custody.Proofs.Graph.Exactness
import Custody.Proofs.Schedule.Parallel
import Custody.Proofs.Schedule.Recording

/-!
# Runs that do not fail

Where every unit of a registry mentions only what the registry knows, the graph of its
units can be built, and no unit fails: a run ends with all units processed, or with units
that wait for each other.
-/

namespace Custody

/-- The units of a registry mention only what it knows, and no class declares a field
under the name of a capture. -/
structure Registry.Resolved (registry : Registry) : Prop where
  unreserved : registry.Unreserved
  units : ∀ unit method, registry.method? unit = some method → Eval.Resolved registry method

/-- All that a unit mentions is known. -/
theorem Eval.Resolved.resolves_of_mem {registry : Registry} {method : Method}
    (resolved : Eval.Resolved registry method) {node : Code.Node}
    (member : node ∈ method.decl.nodes) : registry.Resolves method node := by
  cases declared : method.decl.body with
  | none =>
      simp only [Code.MethodDecl.nodes, declared] at member
      cases member
  | some block =>
      have nodes : method.decl.nodes = block.node.preorder := by
        simp only [Code.MethodDecl.nodes, declared]
      have declares : block.node.preorder.flatMap Code.Node.declared ⊆ Eval.tableOf method := by
        rw [Eval.tableOf, Code.MethodDecl.variables, nodes]
        exact fun entry member => .tail _ (List.mem_append_right _ member)
      rw [nodes] at member
      exact Registry.resolves_of_throughout (resolved.resolves block declared) resolved.types
        (List.cons_subset_cons _ (List.subset_append_left _ _)) declares member

namespace Graph

theorem exists_build {registry : Registry} (named : registry.Named) (resolved : registry.Resolved)
    (policy : Policy) : ∃ graph, build registry policy = .ok graph := by
  obtain ⟨_, built⟩ | ⟨error, first, _⟩ := build_cases named policy
  · exact built
  · refine (first.not_links fun method found => ?_).elim
    refine Code.MethodDecl.linkable_iff.2 fun site member => ?_
    exact ((resolved.units _ method found).resolves_of_mem member).linkable

end Graph

namespace Schedule

variable {registry : Registry} {graph : Graph} {summaries : Summaries}

/-! ## Running the analysis -/

/-- A run ends well: all units are processed, or the rest waits for each other. -/
def EndsWell (error : Option Error) : Prop := error = none ∨ ∃ cycle, error = some (.cycle cycle)

/-- A unit that is dispatched has a result, which is recorded. -/
theorem Informed.exists_analyzed {progress : Progress} {unit : UnitId} {method : Method}
    (informed : Informed registry progress unit method) (resolved : registry.Resolved)
    (known : registry.method? unit = some method) :
    ∃ found summary,
      Analyzed registry progress.summaries progress.lastId method found summary := by
  obtain ⟨found, evaluated⟩ := Eval.exists_run resolved.unreserved (resolved.units unit method known)
    (fun node member other callee names declared =>
      informed.callees other callee ⟨method, known, node, member, names⟩ declared) progress.lastId
  exact ⟨found, found.summary, evaluated, informed.recorded found evaluated⟩

/-- An execution that starts with nothing known ends well. -/
theorem Executes.endsWell {policy : Policy} {lastId : Nat} {error : Option Error}
    {last : Progress} (named : registry.Named) (resolved : registry.Resolved)
    (built : Graph.build registry policy = .ok graph) (blank : Blank registry summaries)
    (executes : Executes registry (.start graph summaries lastId) error last) : EndsWell error := by
  obtain ⟨middle, steps, ends⟩ := executes
  have begins := sound_start named built summaries lastId
  have sound := begins.steps named steps
  rcases ends.cases sound.consistent with ⟨_, _, rfl⟩ | ⟨unit, method, _, _, refuses⟩
  · cases middle.graph.stuck? with
    | none => exact .inl rfl
    | some cycle => exact .inr ⟨cycle, rfl⟩
  · have present : (registry.method? unit).isSome = true := by simp [refuses.known]
    have ready := (sound.consistent.ready_iff unit).2 ⟨present, refuses.fresh, refuses.settled⟩
    obtain ⟨found, summary, analyzed⟩ := (sound.informed named blank ready
      refuses.known).exists_analyzed resolved refuses.known
    exact (refuses.unanalyzed found summary analyzed).elim

/-- A run ends well, whatever the number of workers. -/
theorem run_endsWell {policy : Policy} (named : registry.Named) (resolved : registry.Resolved)
    (built : Graph.build registry policy = .ok graph) (blank : Blank registry summaries)
    (workers : Int) : EndsWell (run registry graph summaries workers).error := by
  have executes := executes_runGraph registry graph summaries 0
  have alone := Executes.endsWell named resolved built blank executes
  by_cases few : workers < 2
  · simp only [run, if_pos few]
    exact alone
  · obtain ⟨floor, steps, done, same⟩ :=
      exists_interleaving registry graph summaries (Int.not_lt.1 few)
    obtain ⟨middle, moves, ends⟩ := executes
    have consistent := Graph.consistent_build named built
    have ended := endsLike_of_ends named consistent
      ((sound_start named built summaries 0).steps named moves) ends
      (foremost_runGraph consistent summaries 0)
      ((aligned_start consistent 0).steps named steps) done
    rw [same]
    generalize (runGraph registry .counting graph summaries 0).1 = error at alone ended
    generalize floor.outcome.error = other at ended
    cases ended with
    | finished _ => exact .inl rfl
    | stuck cycle _ => exact .inr ⟨cycle, rfl⟩
    | failed error other =>
        rcases alone with none | ⟨_, cycle⟩
        · cases none
        · cases cycle

end Schedule

end Custody
