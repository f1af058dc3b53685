/-!
# The end of an operation

An operation that may fail leaves a state behind in either case.
-/

namespace Custody

variable {ε σ α β : Type}

/-- The state that an operation leaves behind, whether it fails or not. -/
def ending : EStateM.Result ε σ α → σ
  | .ok _ state => state
  | .error _ state => state

@[simp] theorem ending_ok (result : α) (state : σ) :
    ending (.ok result state : EStateM.Result ε σ α) = state := rfl

@[simp] theorem ending_error (error : ε) (state : σ) :
    ending (.error error state : EStateM.Result ε σ α) = state := rfl

@[simp] theorem ending_map (change : α → β) (step : EStateM ε σ α) (state : σ) :
    ending ((change <$> step) state) = ending (step state) := by
  simp only [Functor.map, EStateM.map]
  cases step state <;> rfl

@[simp] theorem ending_discard (step : EStateM ε σ α) (state : σ) :
    ending ((discard step : EStateM ε σ PUnit) state) = ending (step state) := by
  exact ending_map (fun _ => PUnit.unit) step state

/-- What holds after each part of an operation holds after the whole. -/
theorem ending_bind (property : σ → Prop) {step : EStateM ε σ α} {next : α → EStateM ε σ β}
    {state : σ} (first : property (ending (step state)))
    (rest : ∀ result middle, step state = .ok result middle → property middle →
      property (ending (next result middle))) :
    property (ending ((step >>= next) state)) := by
  simp only [bind, EStateM.bind]
  split
  next result middle done =>
    rw [done] at first
    exact rest result middle done first
  next error middle failed =>
    rw [failed] at first
    exact first

/-- What holds after the whole may be lost between the parts, if it holds wherever the first part
fails. -/
theorem ending_bind_of_cases (property : σ → Prop) {step : EStateM ε σ α} {next : α → EStateM ε σ β}
    {state : σ} (failed : ∀ error middle, step state = .error error middle → property middle)
    (rest : ∀ result middle, step state = .ok result middle →
      property (ending (next result middle))) :
    property (ending ((step >>= next) state)) := by
  simp only [bind, EStateM.bind]
  split
  next result middle done => exact rest result middle done
  next error middle refused => exact failed error middle refused

/-- An operation in two parts succeeds if both parts do. -/
theorem bind_eq_ok {step : EStateM ε σ α} {next : α → EStateM ε σ β} {state last : σ}
    {result : β} (done : (step >>= next) state = .ok result last) :
    ∃ first middle, step state = .ok first middle ∧ next first middle = .ok result last := by
  simp only [bind, EStateM.bind] at done
  split at done
  next first middle started => exact ⟨first, middle, started, done⟩
  next => cases done

theorem bind_of_ok {step : EStateM ε σ α} {next : α → EStateM ε σ β} {state middle : σ}
    {first : α} (done : step state = .ok first middle) :
    (step >>= next) state = next first middle := by
  simp only [bind, EStateM.bind, done]

theorem bind_of_error {step : EStateM ε σ α} {next : α → EStateM ε σ β} {state middle : σ}
    {error : ε} (failed : step state = .error error middle) :
    (step >>= next) state = .error error middle := by
  simp only [bind, EStateM.bind, failed]

/-! ## Mirrored outcomes -/

/-- Two outcomes are the same but for a change of the states that they leave
behind.  Their errors may have different words. -/
def Mirrored (change : σ → σ) : EStateM.Result ε σ α → EStateM.Result ε σ α → Prop
  | .ok result state, .ok other changed => other = result ∧ changed = change state
  | .error _ state, .error _ changed => changed = change state
  | _, _ => False

namespace Mirrored

variable {change : σ → σ} {left right : EStateM.Result ε σ α}

theorem of_ok {result : α} {state : σ} (mirrored : Mirrored change left right)
    (done : left = .ok result state) : right = .ok result (change state) := by
  subst done
  cases right with
  | ok other changed =>
      obtain ⟨rfl, rfl⟩ := mirrored
      rfl
  | error error changed => exact mirrored.elim

theorem of_error {error : ε} {state : σ} (mirrored : Mirrored change left right)
    (failed : left = .error error state) : ∃ other, right = .error other (change state) := by
  subst failed
  cases right with
  | ok other changed => exact mirrored.elim
  | error other changed =>
      have same : changed = change state := mirrored
      exact ⟨other, by rw [same]⟩

theorem bind {first second : EStateM ε σ α} {firstNext secondNext : α → EStateM ε σ β}
    {state changed : σ} (start : Mirrored change (first state) (second changed))
    (next : ∀ result middle, first state = .ok result middle →
      Mirrored change (firstNext result middle) (secondNext result (change middle))) :
    Mirrored change ((first >>= firstNext) state) ((second >>= secondNext) changed) := by
  cases done : first state with
  | ok result middle =>
      rw [bind_of_ok done, bind_of_ok (start.of_ok done)]
      exact next result middle done
  | error error middle =>
      obtain ⟨other, failed⟩ := start.of_error done
      rw [bind_of_error done, bind_of_error failed]
      rfl

end Mirrored

end Custody
