import Perigee.Soroban.Run

/-!
# What happened in a run

`Happened step s P ls s'` says that a step of the run `ls` from `s` to `s'` met `P`, which may
speak of the steps before it.  A fact that can only come about by steps that meet `P` happened if it
holds at the end (`Run.happened`).
-/

namespace Soroban

variable {σ κ : Type} {step : σ → κ → σ → Prop} {s s' : σ} {ls : List κ}

/-- Some step of the run met `P`, which is about the steps before it, the state it started from and
its label. -/
def Happened (step : σ → κ → σ → Prop) (s : σ) (P : List κ → σ → κ → Prop) (ls : List κ) (s' : σ) :
    Prop :=
  ∃ before l after s₁ s₂, ls = before ++ l :: after ∧ Run step s before s₁ ∧ step s₁ l s₂ ∧
    Run step s₂ after s' ∧ P before s₁ l

theorem Happened.last {P : List κ → σ → κ → Prop} {l : κ} {s₁ : σ} (run : Run step s ls s₁)
    (last : step s₁ l s') (meets : P ls s₁ l) : Happened step s P (ls ++ [l]) s' :=
  ⟨ls, l, [], s₁, s', rfl, run, last, .nil, meets⟩

theorem Happened.snoc {P : List κ → σ → κ → Prop} {l : κ} {s₁ : σ}
    (happened : Happened step s P ls s₁) (last : step s₁ l s') :
    Happened step s P (ls ++ [l]) s' := by
  obtain ⟨before, k, after, u, v, rfl, run, made, rest, meets⟩ := happened
  exact ⟨before, k, after ++ [l], u, v, by simp, run, made, rest.snoc last, meets⟩

/-- A fact that is not there at the start and that only steps with `P` can bring about has been
brought about by such a step. -/
theorem Run.happened {F : σ → Prop} {P : List κ → σ → κ → Prop} (run : Run step s ls s')
    (start : ¬ F s)
    (gain : ∀ before s₁ l s₂, Run step s before s₁ → step s₁ l s₂ → F s₂ → F s₁ ∨ P before s₁ l)
    (h : F s') : Happened step s P ls s' := by
  induction run with
  | nil => exact absurd h start
  | snoc run last ih =>
    rcases gain _ _ _ _ run last h with earlier | meets
    · exact (ih earlier).snoc last
    · exact .last run last meets

theorem Run.foldlM_eq {ε : Type} {exec : σ → κ → Outcome ε σ}
    (run : Run (fun s l s' => exec s l = .ok s') s ls s') : ls.foldlM exec s = .ok s' := by
  induction run with
  | nil => rfl
  | snoc _ last ih =>
    rw [List.foldlM_append]
    exact bind_ok_iff.2 ⟨_, ih, bind_ok_iff.2 ⟨_, last, rfl⟩⟩

end Soroban
