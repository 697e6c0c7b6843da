import Perigee.Soroban.Run

/-!
# Runs under a clock

A `Timed` state carries the time of the last step.  Each step has a time of its own, which is not
before that of the step before it.
-/

namespace Soroban

structure Timed (σ : Type) where
  state : σ
  now : ℕ := 0
  deriving DecidableEq

namespace Timed

variable {σ κ ε : Type} {time : κ → ℕ} {step : σ → κ → σ → Prop} {s s' : Timed σ}

/-- A step that is not before the last one. -/
def Step (time : κ → ℕ) (step : σ → κ → σ → Prop) (s : Timed σ) (l : κ) (s' : Timed σ) : Prop :=
  s.now ≤ time l ∧ s'.now = time l ∧ step s.state l s'.state

def perform (time : κ → ℕ) (exec : σ → κ → Outcome ε σ) (s : Timed σ) (l : κ) :
    Outcome ε (Timed σ) := do
  ensure (s.now ≤ time l)
  let state ← exec s.state l
  pure ⟨state, time l⟩

theorem perform_step {exec : σ → κ → Outcome ε σ} {l : κ}
    (carry : ∀ s l s', exec s l = .ok s' → step s l s') (done : s.perform time exec l = .ok s') :
    s.Step time step l s' := by
  simp only [perform, ok_iff] at done
  obtain ⟨_, later, _, executed, rfl⟩ := done
  exact ⟨later, rfl, carry _ _ _ executed⟩

end Timed

end Soroban
