import ScriptBundler.Fault

/-!
# Computations that end without a fault

Every computation here has a state and may end with a fault.  One that ends without a fault is taken
apart into parts that end without one.
-/

namespace ScriptBundler

variable {ε σ α β : Type} {before after : σ}

theorem run_pure (value : α) (before : σ) :
    (pure value : EStateM ε σ α).run before = .ok value before := rfl

theorem run_throw (fault : ε) (before : σ) :
    (throw fault : EStateM ε σ α).run before = .error fault before := rfl

theorem run_get_bind (next : σ → EStateM ε σ β) (before : σ) :
    (get >>= next).run before = (next before).run before := rfl

theorem run_bind_eq_ok {first : EStateM ε σ α} {next : α → EStateM ε σ β} {result : β}
    (hrun : (first >>= next).run before = .ok result after) :
    ∃ value middle, first.run before = .ok value middle ∧
      (next value).run middle = .ok result after := by
  change EStateM.bind first next before = .ok result after at hrun
  unfold EStateM.bind at hrun
  cases hfirst : first before with
  | ok value middle =>
      rw [hfirst] at hrun
      exact ⟨value, middle, hfirst, hrun⟩
  | error fault middle =>
      rw [hfirst] at hrun
      contradiction

theorem run_map_eq_ok {change : α → β} {first : EStateM ε σ α} {result : β}
    (hrun : (change <$> first).run before = .ok result after) :
    ∃ value, first.run before = .ok value after ∧ result = change value := by
  change EStateM.map change first before = .ok result after at hrun
  unfold EStateM.map at hrun
  cases hfirst : first before with
  | ok value middle =>
      rw [hfirst] at hrun
      obtain ⟨rfl, rfl⟩ := EStateM.Result.ok.inj hrun
      exact ⟨value, hfirst, rfl⟩
  | error fault middle =>
      rw [hfirst] at hrun
      contradiction

/-- A part that is known to end without a fault. -/
theorem run_bind_of_ok {first : EStateM ε σ α} {next : α → EStateM ε σ β} {value : α} {middle : σ}
    (hfirst : first.run before = .ok value middle) :
    (first >>= next).run before = (next value).run middle := by
  show EStateM.bind first next before = _
  unfold EStateM.bind
  rw [show first before = .ok value middle from hfirst]
  rfl

/-- A part that ends with a fault, after which nothing is done. -/
theorem run_bind_of_error {first : EStateM ε σ α} {next : α → EStateM ε σ β} {fault : ε}
    (hfirst : first.run before = .error fault after) :
    (first >>= next).run before = .error fault after := by
  show EStateM.bind first next before = _
  unfold EStateM.bind
  rw [show first before = .error fault after from hfirst]

end ScriptBundler
