import Mathlib.Data.List.Basic

/-!
# Isolation in deterministic machines

An observer of a machine sees some of the inputs and a view of the state.  If the inputs that are
not seen leave the view alone, and the view determines what the seen ones do, then the observer
cannot tell a run from the same run without the inputs that are not seen.
-/

namespace Isolation

variable {σ α ρ ν : Type} {step : σ → α → ρ × σ} {seen : α → Bool} {view : σ → ν} {s t : σ}

def final (step : σ → α → ρ × σ) (s : σ) (inputs : List α) : σ :=
  inputs.foldl (fun s a => (step s a).2) s

/-- The outputs of the inputs that are seen. -/
def outputs (step : σ → α → ρ × σ) (seen : α → Bool) : σ → List α → List ρ
  | _, [] => []
  | s, a :: inputs =>
    if seen a then (step s a).1 :: outputs step seen (step s a).2 inputs
    else outputs step seen (step s a).2 inputs

/-- The inputs that are not seen leave the view alone, and the view determines the outputs of those
that are seen and the view after them. -/
structure Isolated (step : σ → α → ρ × σ) (seen : α → Bool) (view : σ → ν) : Prop where
  hidden : ∀ s a, seen a = false → view (step s a).2 = view s
  next : ∀ s t a, seen a = true → view s = view t → view (step s a).2 = view (step t a).2
  out : ∀ s t a, seen a = true → view s = view t → (step s a).1 = (step t a).1

theorem Isolated.view_final (isolated : Isolated step seen view) (same : view s = view t)
    (inputs : List α) :
    view (final step s inputs) = view (final step t (inputs.filter seen)) := by
  induction inputs generalizing s t with
  | nil => exact same
  | cons a _ ih =>
    rw [List.filter_cons]
    split_ifs with h
    · exact ih (isolated.next s t a h same)
    · exact ih ((isolated.hidden s a (Bool.eq_false_iff.2 h)).trans same)

theorem Isolated.outputs_eq (isolated : Isolated step seen view) (same : view s = view t)
    (inputs : List α) :
    outputs step seen s inputs = outputs step seen t (inputs.filter seen) := by
  induction inputs generalizing s t with
  | nil => rfl
  | cons a _ ih =>
    rw [outputs, List.filter_cons]
    split_ifs with h
    · rw [outputs, if_pos h, isolated.out s t a h same, ih (isolated.next s t a h same)]
    · exact ih ((isolated.hidden s a (Bool.eq_false_iff.2 h)).trans same)

end Isolation
