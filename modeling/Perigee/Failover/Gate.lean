import Perigee.Data.Fields
import Perigee.Soroban.Store

/-!
# The failover gate

`core/src/failover.rs`.  A failover of a vault puts `vault:agent` on a list, and the vault may not
execute while an entry starts with `vault:`.  Entries are matched as texts, so the gate is one per
vault as long as the ids of the failovers that are started do not contain the separator.
-/

namespace Failover

open Soroban

abbrev Text := List Char

structure FailoverEvent where
  vaultId : Text
  agentId : Text
  reason : Text
  timestamp : ℤ

structure FailoverManager where
  pendingReauth : List Text := []
  consecutiveFailures : Store Text UInt32 := ∅
  failureThreshold : UInt32 := 3
  events : List FailoverEvent := []

def withFailureThreshold (threshold : UInt32) : FailoverManager :=
  { failureThreshold := threshold }

def entryKey (vault agent : Text) : Text := vault ++ ':' :: agent

namespace FailoverManager

variable (m : FailoverManager)

def initiateFailover (vault agent : Text) : FailoverManager :=
  let key := entryKey vault agent
  if key ∈ m.pendingReauth then m else { m with pendingReauth := m.pendingReauth ++ [key] }

def confirmReauth (vault : Text) : Bool × FailoverManager :=
  let pending := m.pendingReauth.filter fun entry => ¬ vault ++ [':'] <+: entry
  (decide (pending.length < m.pendingReauth.length), { m with pendingReauth := pending })

def canExecute (vault : Text) : Bool :=
  !m.pendingReauth.any fun entry => vault ++ [':'] <+: entry

/-- The count wraps, as in a release build. -/
def recordHealthFailure (agent : Text) : Bool × FailoverManager :=
  let count := m.consecutiveFailures.getD agent 0 + 1
  (decide (m.failureThreshold ≤ count),
    { m with consecutiveFailures := m.consecutiveFailures.set agent count })

/-- `record_health_success` does the same. -/
def resetHealthFailures (agent : Text) : FailoverManager :=
  { m with consecutiveFailures := m.consecutiveFailures.remove agent }

def removeAgent (agent : Text) : FailoverManager :=
  { m with
    consecutiveFailures := m.consecutiveFailures.remove agent
    pendingReauth := m.pendingReauth.filter fun entry => ¬ ':' :: agent <:+ entry
    events := m.events.filter fun event => event.agentId ≠ agent }

def checkAndTriggerFailover (now : ℤ) (vault agent replacement : Text) : Bool × FailoverManager :=
  let (shouldFailover, m) := m.recordHealthFailure agent
  if shouldFailover then
    let m := m.initiateFailover vault replacement
    let reason := "Health check failed ".toList ++ Fields.decimal m.failureThreshold.toNat ++
      " consecutive times".toList
    (true, { m with events := m.events ++ [⟨vault, agent, reason, now⟩] })
  else (false, m)

end FailoverManager

inductive Call where
  | initiateFailover (vault agent : Text)
  | checkAndTriggerFailover (now : ℤ) (vault agent replacement : Text)
  | confirmReauth (vault : Text)
  | removeAgent (agent : Text)
  | recordHealthFailure (agent : Text)
  | resetHealthFailures (agent : Text)

def exec (m : FailoverManager) : Call → FailoverManager
  | .initiateFailover vault agent => m.initiateFailover vault agent
  | .checkAndTriggerFailover now vault agent replacement =>
    (m.checkAndTriggerFailover now vault agent replacement).2
  | .confirmReauth vault => (m.confirmReauth vault).2
  | .removeAgent agent => m.removeAgent agent
  | .recordHealthFailure agent => (m.recordHealthFailure agent).2
  | .resetHealthFailures agent => m.resetHealthFailures agent

def after (threshold : UInt32) (calls : List Call) : FailoverManager :=
  calls.foldl exec (withFailureThreshold threshold)

/-! ## What the gate is for -/

/-- The vault a call works on. -/
def Call.vault : Call → Option Text
  | .initiateFailover vault _ | .checkAndTriggerFailover _ vault _ _ | .confirmReauth vault =>
    some vault
  | _ => none

/-- The call starts a failover of the vault to the agent. -/
def Starts (m : FailoverManager) (call : Call) (vault agent : Text) : Prop :=
  match call with
  | .initiateFailover v a => v = vault ∧ a = agent
  | .checkAndTriggerFailover _ v failing a =>
    (m.recordHealthFailure failing).1 = true ∧ v = vault ∧ a = agent
  | _ => False

/-- A failover of the vault to the agent was started, and since then neither was the vault
confirmed nor the agent removed. -/
def Pending (threshold : UInt32) (calls : List Call) (vault agent : Text) : Prop :=
  ∃ before call later, calls = before ++ call :: later ∧
    Starts (after threshold before) call vault agent ∧
    Call.confirmReauth vault ∉ later ∧ Call.removeAgent agent ∉ later

/-- The ids of a failover that the call may start do not contain the separator. -/
def Plain : Call → Prop
  | .initiateFailover vault agent | .checkAndTriggerFailover _ vault _ agent =>
    ':' ∉ vault ∧ ':' ∉ agent
  | _ => True

variable {threshold : UInt32} {calls : List Call} {call : Call} {m : FailoverManager}
  {vault agent entry : Text}

theorem pending_snoc : Pending threshold (calls ++ [call]) vault agent ↔
    Starts (after threshold calls) call vault agent ∨
      Pending threshold calls vault agent ∧ call ≠ .confirmReauth vault ∧
        call ≠ .removeAgent agent := by
  constructor
  · rintro ⟨before, first, later, all, starts, confirmed, removed⟩
    induction later using List.reverseRecOn with
    | nil =>
      obtain ⟨rfl, rfl⟩ := List.append_singleton_inj.1 all
      exact .inl starts
    | append_singleton later last =>
      rw [← List.cons_append, ← List.append_assoc] at all
      obtain ⟨rfl, rfl⟩ := List.append_singleton_inj.1 all
      simp only [List.mem_append, List.mem_singleton, not_or] at confirmed removed
      exact .inr ⟨⟨before, first, later, rfl, starts, confirmed.1, removed.1⟩,
        Ne.symm confirmed.2, Ne.symm removed.2⟩
  · rintro (starts | ⟨⟨before, first, later, rfl, starts, confirmed, removed⟩, kept, kept'⟩)
    · exact ⟨calls, call, [], rfl, starts, List.not_mem_nil, List.not_mem_nil⟩
    · refine ⟨before, first, later ++ [call], by simp, starts, ?_, ?_⟩
      · simp [confirmed, kept.symm]
      · simp [removed, kept'.symm]

theorem Pending.plain (plain : ∀ call ∈ calls, Plain call)
    (pending : Pending threshold calls vault agent) : ':' ∉ vault ∧ ':' ∉ agent := by
  obtain ⟨before, call, later, rfl, starts, -, -⟩ := pending
  have ids := plain call (by simp)
  cases call with
  | initiateFailover =>
    obtain ⟨rfl, rfl⟩ := starts
    exact ids
  | checkAndTriggerFailover =>
    obtain ⟨-, rfl, rfl⟩ := starts
    exact ids
  | _ => exact starts.elim

/-! ## The list of entries -/

theorem vault_isPrefix_iff {v : Text} (ids : ':' ∉ vault ∧ ':' ∉ agent) :
    v ++ [':'] <+: entryKey vault agent ↔ v = vault := by
  constructor
  · rintro ⟨rest, h⟩
    rw [List.append_assoc] at h
    exact (Fields.cut_once ids.1 ids.2 h).1
  · rintro rfl
    exact ⟨agent, by simp [entryKey]⟩

theorem agent_isSuffix_iff {a : Text} (ids : ':' ∉ vault ∧ ':' ∉ agent) :
    ':' :: a <:+ entryKey vault agent ↔ a = agent := by
  constructor
  · rintro ⟨rest, h⟩
    exact (Fields.cut_once ids.1 ids.2 h).2
  · rintro rfl
    exact ⟨vault, rfl⟩

/-- The entry is one that the call takes off the list. -/
def Clears (call : Call) (entry : Text) : Prop :=
  match call with
  | .confirmReauth v => v ++ [':'] <+: entry
  | .removeAgent a => ':' :: a <:+ entry
  | _ => False

theorem clears_entryKey_iff (ids : ':' ∉ vault ∧ ':' ∉ agent) :
    Clears call (entryKey vault agent) ↔
      call = .confirmReauth vault ∨ call = .removeAgent agent := by
  cases call with
  | confirmReauth => simp [Clears, vault_isPrefix_iff ids]
  | removeAgent => simp [Clears, agent_isSuffix_iff ids]
  | _ => simp [Clears]

theorem mem_initiateFailover : entry ∈ (m.initiateFailover vault agent).pendingReauth ↔
    entry ∈ m.pendingReauth ∨ entry = entryKey vault agent := by
  unfold FailoverManager.initiateFailover
  by_cases present : entryKey vault agent ∈ m.pendingReauth
  · rw [if_pos present]
    refine ⟨.inl, ?_⟩
    rintro (old | rfl)
    · exact old
    · exact present
  · simp [if_neg present]

/-- What a call does to the list: it adds the entry of the failover it starts, and takes off those
that it clears. -/
theorem mem_exec : entry ∈ (exec m call).pendingReauth ↔
    (∃ vault agent, Starts m call vault agent ∧ entry = entryKey vault agent) ∨
      entry ∈ m.pendingReauth ∧ ¬ Clears call entry := by
  cases call with
  | initiateFailover => simp [exec, Starts, Clears, mem_initiateFailover, or_comm]
  | checkAndTriggerFailover _ _ failing =>
    by_cases triggered : m.failureThreshold ≤ m.consecutiveFailures.getD failing 0 + 1 <;>
      simp [exec, FailoverManager.checkAndTriggerFailover, FailoverManager.recordHealthFailure,
        Starts, Clears, triggered, mem_initiateFailover, or_comm]
  | confirmReauth => simp [exec, FailoverManager.confirmReauth, Starts, Clears]
  | removeAgent => simp [exec, FailoverManager.removeAgent, Starts, Clears]
  | recordHealthFailure => simp [exec, FailoverManager.recordHealthFailure, Starts, Clears]
  | resetHealthFailures => simp [exec, FailoverManager.resetHealthFailures, Starts, Clears]

/-- The entries are the keys of the pending failovers. -/
theorem mem_after (plain : ∀ call ∈ calls, Plain call) :
    entry ∈ (after threshold calls).pendingReauth ↔
      ∃ vault agent, Pending threshold calls vault agent ∧ entry = entryKey vault agent := by
  induction calls using List.reverseRecOn generalizing entry with
  | nil => simp [after, withFailureThreshold, Pending]
  | append_singleton calls call ih =>
    have earlier : ∀ call ∈ calls, Plain call := fun call mem => plain call (by simp [mem])
    rw [after, List.foldl_append, List.foldl_cons, List.foldl_nil, ← after, mem_exec, ih earlier]
    simp only [pending_snoc]
    constructor
    · rintro (⟨v, a, starts, rfl⟩ | ⟨⟨v, a, pending, rfl⟩, kept⟩)
      · exact ⟨v, a, .inl starts, rfl⟩
      · rw [clears_entryKey_iff (pending.plain earlier), not_or] at kept
        exact ⟨v, a, .inr ⟨pending, kept⟩, rfl⟩
    · rintro ⟨v, a, starts | ⟨pending, kept⟩, rfl⟩
      · exact .inl ⟨v, a, starts, rfl⟩
      · refine .inr ⟨⟨v, a, pending, rfl⟩, ?_⟩
        rwa [clears_entryKey_iff (pending.plain earlier), not_or]

theorem canExecute_after_iff (plain : ∀ call ∈ calls, Plain call) :
    (after threshold calls).canExecute vault = false ↔
      ∃ agent, Pending threshold calls vault agent := by
  simp only [FailoverManager.canExecute, Bool.not_eq_false', List.any_eq_true,
    decide_eq_true_eq, mem_after plain]
  constructor
  · rintro ⟨_, ⟨v, agent, pending, rfl⟩, starts⟩
    obtain rfl := (vault_isPrefix_iff (pending.plain plain)).1 starts
    exact ⟨agent, pending⟩
  · rintro ⟨agent, pending⟩
    exact ⟨_, ⟨vault, agent, pending, rfl⟩, (vault_isPrefix_iff (pending.plain plain)).2 rfl⟩

/-- A vault is blocked exactly while a failover of it is pending, and calls on another vault do not
change that. -/
theorem gate_per_vault (plain : ∀ call ∈ calls, Plain call) (vault : Text) :
    ((after threshold calls).canExecute vault = false ↔
        ∃ agent, Pending threshold calls vault agent) ∧
      ∀ call other, Plain call → call.vault = some other → other ≠ vault →
        (exec (after threshold calls) call).canExecute vault =
          (after threshold calls).canExecute vault := by
  refine ⟨canExecute_after_iff plain, fun call other ids on apart => ?_⟩
  have next : ∀ c ∈ calls ++ [call], Plain c := by
    simp only [List.mem_append, List.mem_singleton]
    rintro c (old | rfl)
    · exact plain c old
    · exact ids
  have grown : exec (after threshold calls) call = after threshold (calls ++ [call]) := by
    simp [after]
  rw [grown, ← Bool.not_inj_iff, Bool.eq_iff_iff, Bool.not_eq_true', Bool.not_eq_true',
    canExecute_after_iff next, canExecute_after_iff plain]
  refine exists_congr fun agent => pending_snoc.trans ⟨?_, fun pending => .inr ⟨pending, ?_⟩⟩
  · rintro (starts | ⟨pending, -⟩)
    · cases call <;> simp_all [Starts, Call.vault]
    · exact pending
  · cases call <;> simp_all [Call.vault]

/-- Failovers of two vaults, of which the removal of its agent ends the first. -/
def twoFailovers : List Call :=
  [.initiateFailover ['v'] ['a'], .initiateFailover ['u'] ['b'], .removeAgent ['a']]

theorem gate_per_vault_of_failover :
    (¬ ∃ agent, Pending 3 twoFailovers ['v'] agent) ∧
      (after 3 twoFailovers).canExecute ['u'] = false ∧
      (exec (after 3 twoFailovers) (.confirmReauth ['v'])).canExecute ['u'] = false := by
  have plain : ∀ call ∈ twoFailovers, Plain call := by simp [twoFailovers, Plain]
  have blocked : (after 3 twoFailovers).canExecute ['u'] = false :=
    (gate_per_vault plain ['u']).1.2 ⟨['b'], [.initiateFailover ['v'] ['a']], _, _, rfl, ⟨rfl, rfl⟩,
      by simp, by simp⟩
  refine ⟨fun pending => ?_, blocked, ?_⟩
  · exact absurd ((gate_per_vault plain ['v']).1.2 pending) (by decide)
  · exact ((gate_per_vault plain ['u']).2 (.confirmReauth ['v']) ['v'] trivial rfl
      (by decide)).trans blocked

/-- A failover of the vault `a:b` blocks the vault `a`, of which none was started. -/
theorem failover_blocks_other_vault :
    let start : Call := .initiateFailover ['a', ':', 'b'] ['c']
    (after 3 []).canExecute ['a'] = true ∧ (after 3 [start]).canExecute ['a'] = false ∧
      ¬ ∃ agent, Pending 3 [start] ['a'] agent := by
  refine ⟨by decide, by decide, ?_⟩
  rintro ⟨agent, pending⟩
  rcases (@pending_snoc 3 [] _ _ _).1 pending with starts | ⟨⟨_, _, _, none, -⟩, -⟩
  · exact absurd starts.1 (by decide)
  · simp at none

end Failover
