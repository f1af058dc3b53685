import Custody.Text.Enumerated

/-!
# Effects

An effect says what a unit does to an object that it is given.  A recorded
effect can only be refined: once an object is known to be changed it stays so,
and a known effect is never forgotten.
-/

namespace Custody

/-- What a unit does to an object passed to it. -/
inductive Effect where
  /-- The unit has not been analyzed. -/
  | unknown
  /-- The object flows through the unit and is returned. -/
  | passForward
  /-- The unit neither stores nor mutates the object. -/
  | doesNotChange
  /-- The unit may capture the object or mutate what it reaches. -/
  | doesChange
  deriving DecidableEq, Inhabited, Repr

namespace Effect

/-- The number of an effect. -/
def code : Effect → UInt8
  | unknown => 0
  | passForward => 1
  | doesNotChange => 2
  | doesChange => 3

/-- The effect with a number. -/
def ofCode? (code : UInt8) : Option Effect :=
  match code.toNat with
  | 0 => some unknown
  | 1 => some passForward
  | 2 => some doesNotChange
  | 3 => some doesChange
  | _ => none

@[simp] theorem ofCode?_code (effect : Effect) : ofCode? effect.code = some effect := by
  cases effect <;> rfl

/-- The name of an effect number, defined or not. -/
def codeName (code : UInt8) : String :=
  Text.enumerated "Effect" ["Unknown", "PassForward", "DoesNotChange", "DoesChange"] code

/-- The name of an effect. -/
def name (effect : Effect) : String := codeName effect.code

/-- Why an effect cannot be recorded over another one. -/
inductive Refusal where
  /-- The number is no effect. -/
  | undefined (code : UInt8)
  /-- A change cannot be taken back. -/
  | revert (next : Effect)
  /-- A known effect cannot be forgotten. -/
  | reset (current : Effect)
  deriving DecidableEq, Repr

/-- The wording of a refusal. -/
def Refusal.message : Refusal → String
  | undefined code => "can't assign " ++ codeName code ++ ": invalid effect assignment"
  | revert next =>
      "can't revert " ++ doesChange.name ++ " to " ++ next.name ++ ": invalid effect assignment"
  | reset current => "can't reset " ++ current.name ++ ": invalid effect assignment"

/-- Record the effect with a number over the current one. -/
def refine (current : Effect) (next : UInt8) : Except Refusal Effect :=
  match ofCode? next with
  | none => .error (.undefined next)
  | some effect =>
      if current = doesChange && effect ≠ doesChange then .error (.revert effect)
      else if current ≠ unknown && effect = unknown then .error (.reset current)
      else .ok effect

end Effect

end Custody
