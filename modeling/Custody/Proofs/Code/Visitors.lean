import Custody.Code.Walk

/-!
# What a visitor is shown

A visitor keeps a state of its own and may stop a walk at any node.  Whatever it does, a walk
shows it the nodes of the preorder one by one, and nothing after the node at which it first said
no; a walk over selected nodes shows it the selected ones in the same way.

Walking over a tree comes to feeding a list to the visitor, by induction on the tree.  The rest is
about lists: a visitor that writes down what it is shown tells which calls were made.
-/

namespace Custody.Code.Node

variable {σ : Type} {visit : Visit σ} {node : Node} {nodes : List Node} {start : σ}

/-! ## Walking as feeding a list -/

/-- Feed a list of nodes to a visitor until it stops. -/
def feed (visit : Visit σ) : List Node → σ → Bool × σ
  | [], state => (true, state)
  | node :: rest, state => andThen (visit node state) (feed visit rest)

theorem andThen_assoc (step : Bool × σ) (second third : σ → Bool × σ) :
    andThen (andThen step second) third =
      andThen step fun state => andThen (second state) third := by
  obtain ⟨goesOn, state⟩ := step
  cases goesOn <;> rfl

/-- A step that ends a walk needs nothing after it. -/
theorem andThen_true (step : Bool × σ) : andThen step (fun state => (true, state)) = step := by
  obtain ⟨goesOn, state⟩ := step
  cases goesOn <;> rfl

theorem feed_append (visit : Visit σ) (front back : List Node) (state : σ) :
    feed visit (front ++ back) state = andThen (feed visit front state) (feed visit back) := by
  induction front generalizing state with
  | nil => rfl
  | cons node rest ih =>
      have later : feed visit (rest ++ back) =
          fun state => andThen (feed visit rest state) (feed visit back) := funext ih
      rw [List.cons_append, feed, feed, andThen_assoc, later]

mutual

/-- A walk feeds the preorder of a tree to the visitor. -/
theorem walk_eq_feed (visit : Visit σ) : (node : Node) →
    walk visit node = feed visit node.preorder
  | absent | vacant => rfl
  | literal .. | reference _ | unsupported .. | alien .. => by
      funext state
      exact (andThen_true _).symm
  | block _ stmts => by
      funext state
      rw [walk, preorder, feed, walkAll_eq_feed visit stmts]
  | new _ _ _ args => by
      funext state
      rw [walk, preorder, feed, walkNamed_eq_feed visit args]
  | localVar _ _ declarators => by
      funext state
      rw [walk, preorder, feed, walkNamed_eq_feed visit declarators]
  | assign _ none value => by
      funext state
      rw [walk, preorder, feed, walk_eq_feed visit value]
      rfl
  | assign _ (some target) value => by
      funext state
      rw [walk, preorder, feed, walk_eq_feed visit value]
      rfl
  | ret _ values => by
      funext state
      rw [walk, preorder, feed, walkAll_eq_feed visit values]
  | call _ _ _ args => by
      funext state
      rw [walk, preorder, feed, walkAll_eq_feed visit args]
  | operation _ _ operands => by
      funext state
      rw [walk, preorder, feed, walkAll_eq_feed visit operands]
  termination_by structural node => node

theorem walkAll_eq_feed (visit : Visit σ) : (nodes : List Node) →
    walkAll visit nodes = feed visit (preorderAll nodes)
  | [] => rfl
  | node :: rest => by
      funext state
      rw [walkAll, preorderAll, feed_append, walk_eq_feed visit node, walkAll_eq_feed visit rest]
  termination_by structural nodes => nodes

theorem walkNamed_eq_feed (visit : Visit σ) : (nodes : List (String × Node)) →
    walkNamed visit nodes = feed visit (preorderNamed nodes)
  | [] => rfl
  | (_, node) :: rest => by
      funext state
      rw [walkNamed, preorderNamed, feed_append, walk_eq_feed visit node,
        walkNamed_eq_feed visit rest]
  termination_by structural nodes => nodes

end

/-- Nodes that are let pass unseen may as well be left out. -/
theorem feed_filter (select : Node → Bool) (visit : Visit σ) (nodes : List Node) :
    feed (fun node state => if select node then visit node state else (true, state)) nodes =
      feed visit (nodes.filter select) := by
  induction nodes with
  | nil => rfl
  | cons node rest ih =>
      funext state
      rw [feed, ih, List.filter_cons]
      split
      next => rfl
      next => rfl

/-- A walk over selected nodes feeds those of the preorder to the visitor. -/
theorem walkOnly_eq_feed (select : Node → Bool) (visit : Visit σ) (node : Node) :
    walkOnly select visit node = feed visit (node.preorder.filter select) := by
  funext state
  rw [walkOnly, walk_eq_feed, feed_filter]

/-! ## The calls that are made -/

/-- A visitor that also writes down the nodes it is shown. -/
def recorded (visit : Visit σ) : Visit (σ × List Node) := fun node (state, seen) =>
  let answer := visit node state
  (answer.1, answer.2, seen ++ [node])

/-- The state of a visitor that has been shown some nodes. -/
def shown (visit : Visit σ) (seen : List Node) (start : σ) : σ :=
  seen.foldl (fun state node => (visit node state).2) start

/-- The visitor has been shown the first nodes of a list, in order.  It answered yes to each of
them but the last; if it answered yes to that one too it has been shown the whole list, and if not
the walk was stopped there. -/
structure Heeds (visit : Visit σ) (nodes : List Node) (start : σ) (seen : List Node)
    (outcome : Bool × σ) : Prop where
  inOrder : seen <+: nodes
  state : outcome.2 = shown visit seen start
  answers : ∀ before node after, seen = before ++ node :: after →
    ((visit node (shown visit before start)).1 = true ↔ after ≠ [] ∨ outcome.1 = true)
  finished : outcome.1 = true → seen = nodes
  stopped : outcome.1 = false → seen ≠ []

namespace Heeds

theorem nil : Heeds visit [] start [] (true, start) where
  inOrder := List.nil_prefix
  state := rfl
  answers before node after split := by simp at split
  finished _ := rfl
  stopped going := by cases going

/-- The visitor stops at the first node. -/
theorem stop {state : σ} (answer : visit node start = (false, state)) :
    Heeds visit (node :: nodes) start [node] (false, state) where
  inOrder := ⟨nodes, rfl⟩
  state := by simp [shown, answer]
  answers before other after split := by
    obtain ⟨rfl, same⟩ | ⟨tail, _, rest⟩ := List.cons_eq_append_iff.1 split
    · cases same
      simp [shown, answer]
    · simp at rest
  finished going := by cases going
  stopped _ := List.cons_ne_nil _ _

/-- The visitor goes on after the first node. -/
theorem cons {state : σ} {seen : List Node} {outcome : Bool × σ}
    (answer : visit node start = (true, state)) (heeds : Heeds visit nodes state seen outcome) :
    Heeds visit (node :: nodes) start (node :: seen) outcome where
  inOrder := (List.prefix_cons_inj node).2 heeds.inOrder
  state := by
    rw [heeds.state]
    simp [shown, answer]
  answers before other after split := by
    obtain ⟨rfl, same⟩ | ⟨tail, rfl, rest⟩ := List.cons_eq_append_iff.1 split
    · cases same
      have more : seen ≠ [] ∨ outcome.1 = true := by
        cases going : outcome.1 with
        | true => exact .inr rfl
        | false => exact .inl (heeds.stopped going)
      simp [shown, answer, more]
    · have later := heeds.answers tail other after rest
      simpa [shown, answer] using later
  finished going := by rw [heeds.finished going]
  stopped _ := List.cons_ne_nil _ _

end Heeds

/-- Writing down what is shown changes nothing, and tells that the visitor is heeded. -/
theorem feed_heeds (visit : Visit σ) (nodes : List Node) (start : σ) (earlier : List Node) :
    ∃ seen, feed (recorded visit) nodes (start, earlier) =
        ((feed visit nodes start).1, (feed visit nodes start).2, earlier ++ seen) ∧
      Heeds visit nodes start seen (feed visit nodes start) := by
  induction nodes generalizing start earlier with
  | nil => exact ⟨[], by simp [feed], .nil⟩
  | cons node rest ih =>
      cases answer : visit node start with
      | mk goesOn state =>
          cases goesOn with
          | false =>
              refine ⟨[node], ?_, ?_⟩
              · simp [feed, recorded, andThen, answer]
              · simp only [feed, andThen, answer, Bool.false_eq_true, ↓reduceIte]
                exact .stop answer
          | true =>
              obtain ⟨seen, same, heeds⟩ := ih state (earlier ++ [node])
              refine ⟨node :: seen, ?_, ?_⟩
              · simp [feed, recorded, andThen, answer] at same ⊢
                exact same
              · simp only [feed, andThen, answer, ↓reduceIte]
                exact heeds.cons answer

/-- A walk shows a visitor the nodes of the preorder one by one until it first says no, and a walk
over selected nodes the selected ones among them. -/
theorem walk_heeds (visit : Visit σ) (node : Node) (start : σ) :
    (∃ seen, walk (recorded visit) node (start, []) =
        ((walk visit node start).1, (walk visit node start).2, seen) ∧
      Heeds visit node.preorder start seen (walk visit node start)) ∧
    ∀ select, ∃ seen, walkOnly select (recorded visit) node (start, []) =
        ((walkOnly select visit node start).1, (walkOnly select visit node start).2, seen) ∧
      Heeds visit (node.preorder.filter select) start seen (walkOnly select visit node start) := by
  simp only [walk_eq_feed, walkOnly_eq_feed]
  exact ⟨feed_heeds visit _ start [], fun select => feed_heeds visit _ start []⟩

end Custody.Code.Node
