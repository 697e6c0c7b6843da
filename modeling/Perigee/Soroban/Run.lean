import Perigee.Soroban.Outcome

/-!
# Runs of a labelled transition system

`Run step s ls s'` says that the steps labelled `ls` lead from `s` to `s'`.
-/

namespace Soroban

variable {σ κ : Type}

/-- The labelled steps `ls` lead from `s` to the last argument. -/
inductive Run (step : σ → κ → σ → Prop) (s : σ) : List κ → σ → Prop where
  | nil : Run step s [] s
  | snoc {ls : List κ} {s₁ s₂ : σ} {l : κ} :
      Run step s ls s₁ → step s₁ l s₂ → Run step s (ls ++ [l]) s₂

/-- Some run leads from a state of `init` to `s`. -/
def Reachable (init : σ → Prop) (step : σ → κ → σ → Prop) (s : σ) : Prop :=
  ∃ s₀ ls, init s₀ ∧ Run step s₀ ls s

/-- The steps whose label meets `cond` in the state they start from. -/
def Guarded (cond : σ → κ → Prop) (step : σ → κ → σ → Prop) : σ → κ → σ → Prop :=
  fun s l s' => cond s l ∧ step s l s'

/-- The steps that end in a state with the property `P`. -/
def Into (P : σ → Prop) (step : σ → κ → σ → Prop) : σ → κ → σ → Prop :=
  fun s l s' => step s l s' ∧ P s'

variable {init : σ → Prop} {step step' : σ → κ → σ → Prop} {s s' : σ}

theorem Run.invariant {P : σ → Prop} {ls : List κ} (run : Run step s ls s')
    (start : P s) (keep : ∀ s₁ l s₂, P s₁ → step s₁ l s₂ → P s₂) : P s' := by
  induction run with
  | nil => exact start
  | snoc _ last ih => exact keep _ _ _ ih last

theorem Run.invariant_of_mem {P : σ → Prop} {ls : List κ} (run : Run step s ls s')
    (start : P s) (keep : ∀ s₁ l s₂, l ∈ ls → P s₁ → step s₁ l s₂ → P s₂) : P s' := by
  induction run with
  | nil => exact start
  | snoc _ last ih =>
    refine keep _ _ _ (by simp) (ih fun s₁ l s₂ mem => keep s₁ l s₂ (by simp [mem])) last

theorem Run.trans {ls ls' : List κ} {s₁ : σ} (first : Run step s ls s₁)
    (rest : Run step s₁ ls' s') : Run step s (ls ++ ls') s' := by
  induction rest with
  | nil => rwa [List.append_nil]
  | snoc _ last ih =>
    rw [← List.append_assoc]
    exact ih.snoc last

theorem Run.of_snoc {ls : List κ} {l : κ} (run : Run step s (ls ++ [l]) s') :
    ∃ s₁, Run step s ls s₁ ∧ step s₁ l s' := by
  generalize all : ls ++ [l] = labels at run
  cases run with
  | nil => simp at all
  | snoc before last =>
    obtain ⟨rfl, rfl⟩ := List.append_singleton_inj.1 all
    exact ⟨_, before, last⟩

theorem Run.of_append {ls ls' : List κ} (run : Run step s (ls ++ ls') s') :
    ∃ s₁, Run step s ls s₁ ∧ Run step s₁ ls' s' := by
  induction ls' using List.reverseRecOn generalizing s' with
  | nil => exact ⟨s', List.append_nil ls ▸ run, .nil⟩
  | append_singleton _ _ ih =>
    rw [← List.append_assoc] at run
    obtain ⟨_, before, last⟩ := run.of_snoc
    obtain ⟨s₁, first, rest⟩ := ih before
    exact ⟨s₁, first, rest.snoc last⟩

theorem Reachable.invariant {P : σ → Prop} (reach : Reachable init step s)
    (start : ∀ s₀, init s₀ → P s₀) (keep : ∀ s₁ l s₂, P s₁ → step s₁ l s₂ → P s₂) : P s := by
  obtain ⟨s₀, _, h₀, run⟩ := reach
  exact run.invariant (start s₀ h₀) keep

theorem Run.mono {ls : List κ} (sub : ∀ s₁ l s₂, step s₁ l s₂ → step' s₁ l s₂)
    (run : Run step s ls s') : Run step' s ls s' := by
  induction run with
  | nil => exact .nil
  | snoc _ last ih => exact .snoc ih (sub _ _ _ last)

theorem Run.map {τ : Type} {stepτ : τ → κ → τ → Prop} {ls : List κ} (f : σ → τ)
    (carry : ∀ s₁ l s₂, step s₁ l s₂ → stepτ (f s₁) l (f s₂)) (run : Run step s ls s') :
    Run stepτ (f s) ls (f s') := by
  induction run with
  | nil => exact .nil
  | snoc _ last ih => exact ih.snoc (carry _ _ _ last)

section Exact

variable {inv P : σ → Prop} {cond : σ → κ → Prop} {ls : List κ}

theorem Run.into_of_guarded (start : inv s ∧ P s)
    (keep : ∀ s₁ l s₂, inv s₁ → step s₁ l s₂ → inv s₂)
    (preserve : ∀ s₁ l s₂, inv s₁ → P s₁ → step s₁ l s₂ → cond s₁ l → P s₂)
    (run : Run (Guarded cond step) s ls s') : Run (Into P step) s ls s' ∧ inv s' ∧ P s' := by
  induction run with
  | nil => exact ⟨.nil, start⟩
  | snoc _ last ih =>
    obtain ⟨run, hinv, hP⟩ := ih
    have next := preserve _ _ _ hinv hP last.2 last.1
    exact ⟨run.snoc ⟨last.2, next⟩, keep _ _ _ hinv last.2, next⟩

theorem Run.guarded_of_into (start : inv s ∧ P s)
    (keep : ∀ s₁ l s₂, inv s₁ → step s₁ l s₂ → inv s₂)
    (need : ∀ s₁ l s₂, inv s₁ → P s₁ → step s₁ l s₂ → P s₂ → cond s₁ l)
    (run : Run (Into P step) s ls s') : Run (Guarded cond step) s ls s' ∧ inv s' ∧ P s' := by
  induction run with
  | nil => exact ⟨.nil, start⟩
  | snoc _ last ih =>
    obtain ⟨run, hinv, hP⟩ := ih
    exact ⟨run.snoc ⟨need _ _ _ hinv hP last.1 last.2, last.1⟩, keep _ _ _ hinv last.1, last.2⟩

/-- If a step from a state with `P` ends in one exactly when it meets `cond`, the runs whose steps
meet `cond` are the runs through states with `P`. -/
theorem Run.guarded_iff_into (inv : σ → Prop) (start : inv s ∧ P s)
    (keep : ∀ s₁ l s₂, inv s₁ → step s₁ l s₂ → inv s₂)
    (exact_step : ∀ s₁ l s₂, inv s₁ → P s₁ → step s₁ l s₂ → (P s₂ ↔ cond s₁ l)) :
    (Run (Guarded cond step) s ls s' → P s') ∧
      (Run (Guarded cond step) s ls s' ↔ Run (Into P step) s ls s') := by
  have forward (run : Run (Guarded cond step) s ls s') := run.into_of_guarded start keep
    fun s₁ l s₂ hinv hP step => (exact_step s₁ l s₂ hinv hP step).2
  have backward (run : Run (Into P step) s ls s') := run.guarded_of_into start keep
    fun s₁ l s₂ hinv hP step => (exact_step s₁ l s₂ hinv hP step).1
  exact ⟨fun run => (forward run).2.2, fun run => (forward run).1, fun run => (backward run).1⟩

theorem Run.guarded_of_guarded {cond' : σ → κ → Prop} (start : inv s)
    (sub : ∀ s₁ l s₂, inv s₁ → step s₁ l s₂ → cond s₁ l → cond' s₁ l ∧ inv s₂)
    (run : Run (Guarded cond step) s ls s') : Run (Guarded cond' step) s ls s' ∧ inv s' := by
  induction run with
  | nil => exact ⟨.nil, start⟩
  | snoc _ last ih =>
    obtain ⟨meets, next⟩ := sub _ _ _ ih.2 last.2 last.1
    exact ⟨ih.1.snoc ⟨meets, last.2⟩, next⟩

/-- If two conditions on a step agree wherever an invariant holds, and steps that meet the second
one keep it, the runs whose steps meet the first are those whose steps meet the second. -/
theorem Run.guarded_iff_guarded {cond' : σ → κ → Prop} (inv : σ → Prop) (start : inv s)
    (agree : ∀ s₁ l s₂, inv s₁ → step s₁ l s₂ → (cond s₁ l ↔ cond' s₁ l))
    (keep : ∀ s₁ l s₂, inv s₁ → step s₁ l s₂ → cond' s₁ l → inv s₂) :
    Run (Guarded cond step) s ls s' ↔ Run (Guarded cond' step) s ls s' := by
  constructor
  · refine fun run => (run.guarded_of_guarded start fun s₁ l s₂ hinv last meets => ?_).1
    have meets' := (agree s₁ l s₂ hinv last).1 meets
    exact ⟨meets', keep s₁ l s₂ hinv last meets'⟩
  · refine fun run => (run.guarded_of_guarded start fun s₁ l s₂ hinv last meets => ?_).1
    exact ⟨(agree s₁ l s₂ hinv last).2 meets, keep s₁ l s₂ hinv last meets⟩

end Exact

theorem Run.cons {l : κ} {ls : List κ} {s₁ : σ} (first : step s l s₁) (rest : Run step s₁ ls s') :
    Run step s (l :: ls) s' := by
  induction rest with
  | nil => exact Run.nil.snoc first
  | snoc _ last ih => exact ih.snoc last

theorem Reachable.of_init {init' : σ → Prop} (sub : ∀ s, init s → init' s)
    (reach : Reachable init step s) : Reachable init' step s := by
  obtain ⟨s₀, ls, h₀, run⟩ := reach
  exact ⟨s₀, ls, sub s₀ h₀, run⟩

theorem Reachable.start {s : σ} (h : init s) : Reachable init step s := ⟨s, [], h, .nil⟩

theorem Reachable.next {l : κ} (reach : Reachable init step s) (last : step s l s') :
    Reachable init step s' := by
  obtain ⟨s₀, ls, h₀, run⟩ := reach
  exact ⟨s₀, ls ++ [l], h₀, run.snoc last⟩

theorem Reachable.next_guarded {cond : σ → κ → Prop} {l : κ}
    (reach : Reachable init (Guarded cond step) s) (last : step s l s') (h : cond s l) :
    Reachable init (Guarded cond step) s' := reach.next ⟨h, last⟩

theorem Reachable.of_guarded {cond : σ → κ → Prop} (reach : Reachable init (Guarded cond step) s) :
    Reachable init step s := by
  obtain ⟨s₀, ls, h₀, run⟩ := reach
  exact ⟨s₀, ls, h₀, run.mono fun _ _ _ h => h.2⟩

/-! ## Running a list of labels -/

section Executed

variable {ε : Type} {exec : σ → κ → Outcome ε σ} {ls : List κ}

/-- Run a step only where it meets a condition. -/
def execIf (cond : σ → κ → Prop) [∀ s l, Decidable (cond s l)] (exec : σ → κ → Outcome ε σ) (s : σ)
    (l : κ) : Outcome ε σ :=
  if cond s l then exec s l else .error .trap

theorem execIf_ok_iff {cond : σ → κ → Prop} [∀ s l, Decidable (cond s l)] {l : κ} :
    execIf cond exec s l = .ok s' ↔ cond s l ∧ exec s l = .ok s' := by
  unfold execIf
  split_ifs with h <;> simp [h]

theorem Run.of_foldlM (carry : ∀ s l s', exec s l = .ok s' → step s l s')
    (h : ls.foldlM exec s = .ok s') : Run step s ls s' := by
  induction ls generalizing s with
  | nil =>
    obtain rfl := pure_ok_iff.1 h
    exact .nil
  | cons _ _ ih =>
    obtain ⟨_, first, rest⟩ := bind_ok_iff.1 h
    exact .cons (carry _ _ _ first) (ih rest)

/-- A run with a decidable outcome is found by running the labels. -/
theorem exists_run {P : σ → Prop} (carry : ∀ s l s', exec s l = .ok s' → step s l s')
    (h : ∃ s', ls.foldlM exec s = .ok s' ∧ P s') : ∃ s', Run step s ls s' ∧ P s' := by
  obtain ⟨s', done, holds⟩ := h
  exact ⟨s', .of_foldlM carry done, holds⟩

theorem exists_guarded_run {P : σ → Prop} {cond : σ → κ → Prop} [∀ s l, Decidable (cond s l)]
    (carry : ∀ s l s', exec s l = .ok s' → step s l s')
    (h : ∃ s', ls.foldlM (execIf cond exec) s = .ok s' ∧ P s') :
    ∃ s', Run (Guarded cond step) s ls s' ∧ P s' :=
  exists_run (fun _ _ _ done => (execIf_ok_iff.1 done).imp_right (carry _ _ _)) h

end Executed

end Soroban
