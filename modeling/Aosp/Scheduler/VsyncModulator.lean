import Mathlib.Data.List.Basic

/- `VsyncModulator.cpp`: the phase offsets, by the transactions, the refresh rate changes and the
composition. -/
namespace Aosp.Scheduler

structure VsyncConfig where
  sfOffset : Int
  appOffset : Int
  sfWorkDuration : Int
  appWorkDuration : Int
deriving DecidableEq

structure VsyncConfigSet where
  early : VsyncConfig
  earlyGpu : VsyncConfig
  late : VsyncConfig

inductive TransactionSchedule where
  | late
  | earlyStart
  | earlyEnd
deriving DecidableEq

inductive VsyncConfigType where
  | early
  | earlyGpu
  | late

structure VsyncModulator (τ : Type) where
  vsyncConfigSet : VsyncConfigSet
  vsyncConfig : VsyncConfig := vsyncConfigSet.late
  transactionSchedule : TransactionSchedule := .late
  earlyWakeupRequests : List τ := []
  refreshRateChangePending : Bool := false
  earlyTransactionFrames : Nat := 0
  earlyGpuFrames : Nat := 0
  earlyTransactionStartTime : Int := 0
  lastTransactionCommitTime : Int := 0

namespace VsyncModulator

def minEarlyTransactionFrames : Nat := 2
def minEarlyGpuFrames : Nat := 2

/-- One millisecond. -/
def minEarlyTransactionTime : Int := 1000000

variable {τ : Type} [DecidableEq τ] (m : VsyncModulator τ)

def getNextVsyncConfigType : VsyncConfigType :=
  if m.earlyWakeupRequests ≠ [] ∨ m.transactionSchedule = .earlyEnd ∨ m.earlyTransactionFrames > 0 ∨
      m.refreshRateChangePending then .early
  else if m.earlyGpuFrames > 0 then .earlyGpu
  else .late

def getNextVsyncConfig : VsyncConfig :=
  match m.getNextVsyncConfigType with
  | .early => m.vsyncConfigSet.early
  | .earlyGpu => m.vsyncConfigSet.earlyGpu
  | .late => m.vsyncConfigSet.late

/-- The state after a call, with the configuration that it returns. -/
abbrev Reply (τ : Type) := VsyncModulator τ × Option VsyncConfig

def updateVsyncConfig : Reply τ :=
  ({ m with vsyncConfig := m.getNextVsyncConfig }, some m.getNextVsyncConfig)

/-- The first part of `setTransactionSchedule`: the requests, and the frames after the last one. -/
def request (schedule : TransactionSchedule) (token : Option τ) (now : Int) : VsyncModulator τ :=
  let requests := match schedule, token with
    | .earlyStart, some token => m.earlyWakeupRequests.insert token
    | .earlyEnd, some token => m.earlyWakeupRequests.erase token
    | _, _ => m.earlyWakeupRequests
  let ended := schedule = .earlyEnd ∧ requests = []
  { m with
    earlyWakeupRequests := requests
    earlyTransactionFrames := if ended then minEarlyTransactionFrames else m.earlyTransactionFrames
    earlyTransactionStartTime := if ended then now else m.earlyTransactionStartTime }

inductive Call (τ : Type) where
  | setVsyncConfigSet (config : VsyncConfigSet)
  | setTransactionSchedule (schedule : TransactionSchedule) (token : Option τ) (now : Int)
  | onTransactionCommit (now : Int)
  | onRefreshRateChangeInitiated
  | onRefreshRateChangeCompleted
  | onDisplayRefresh (usedGpuComposition : Bool)
  | binderDied (who : τ)

def serve : Call τ → Reply τ
  | .setVsyncConfigSet config => updateVsyncConfig { m with vsyncConfigSet := config }
  | .setTransactionSchedule schedule token now =>
    let m := m.request schedule token now
    -- An early transaction stays an early transaction.
    if schedule = m.transactionSchedule ∨ m.transactionSchedule = .earlyEnd then (m, none)
    else updateVsyncConfig { m with transactionSchedule := schedule }
  | .onTransactionCommit now =>
    let m := { m with lastTransactionCommitTime := now }
    if m.transactionSchedule = .late then (m, none)
      else updateVsyncConfig { m with transactionSchedule := .late }
  | .onRefreshRateChangeInitiated =>
    if m.refreshRateChangePending then (m, none)
      else updateVsyncConfig { m with refreshRateChangePending := true }
  | .onRefreshRateChangeCompleted =>
    if !m.refreshRateChangePending then (m, none)
      else updateVsyncConfig { m with refreshRateChangePending := false }
  | .onDisplayRefresh usedGpuComposition =>
    let counts := m.earlyTransactionStartTime + minEarlyTransactionTime ≤
      m.lastTransactionCommitTime ∧ m.earlyTransactionFrames > 0
    let updateOffsetsNeeded := counts ∨ usedGpuComposition ∨ m.earlyGpuFrames > 0
    let m := { m with
      earlyTransactionFrames := if counts then m.earlyTransactionFrames - 1
        else m.earlyTransactionFrames
      earlyGpuFrames := if usedGpuComposition then minEarlyGpuFrames else m.earlyGpuFrames - 1 }
    if ¬ updateOffsetsNeeded then (m, none) else m.updateVsyncConfig
  | .binderDied who => updateVsyncConfig
    { m with earlyWakeupRequests := m.earlyWakeupRequests.erase who }

/-- The configuration in force is the one that is due. -/
def Fresh : Prop := m.vsyncConfig = m.getNextVsyncConfig

/-- A start with a token finds the schedule already at a start, although nothing has asked for early
offsets. -/
def Slips (call : Call τ) : Prop :=
  (∃ token now, call = .setTransactionSchedule .earlyStart (some token) now) ∧
    m.transactionSchedule = .earlyStart ∧ m.getNextVsyncConfig ≠ m.vsyncConfigSet.early

/-- Holds before each of the calls. -/
def Throughout (p : VsyncModulator τ → Call τ → Prop) : VsyncModulator τ → List (Call τ) → Prop
  | _, [] => True
  | m, call :: calls => p m call ∧ Throughout p (m.serve call).1 calls

/-- What a call should leave: the configuration that is due, the one before if nothing is returned.
-/
def Right (call : Call τ) : Prop :=
  (m.serve call).1.Fresh ∧ ((m.serve call).2 = none → (m.serve call).1.vsyncConfig = m.vsyncConfig)

variable {m}

theorem right_iff_of_guard {call : Call τ} {skip : Prop} [Decidable skip]
    {m' next : VsyncModulator τ}
    (served : m.serve call = if skip then (m', none) else next.updateVsyncConfig)
    (same : m'.vsyncConfig = m.vsyncConfig) :
    m.Right call ↔ (skip → m'.Fresh) := by
  rw [Right, served]
  split
  next skipped => exact ⟨fun right _ => right.1, fun kept => ⟨kept skipped, fun _ => same⟩⟩
  next updated => exact iff_of_true ⟨rfl, nofun⟩ fun skipped => absurd skipped updated

omit [DecidableEq τ] in
theorem getNextVsyncConfig_early
    (asks : m.earlyWakeupRequests ≠ [] ∨ m.transactionSchedule = .earlyEnd) :
    m.getNextVsyncConfig = m.vsyncConfigSet.early := by
  rcases asks with asks | asks <;> simp [getNextVsyncConfig, getNextVsyncConfigType, asks]

theorem start_right_iff (fresh : m.Fresh) (token : τ) (now : Int) :
    m.Right (.setTransactionSchedule .earlyStart (some token) now) ↔
      ¬ m.Slips (.setTransactionSchedule .earlyStart (some token) now) := by
  have early : (m.request .earlyStart (some token) now).getNextVsyncConfig =
      m.vsyncConfigSet.early :=
    getNextVsyncConfig_early (.inl (List.ne_nil_of_mem List.mem_insert_self))
  rw [right_iff_of_guard rfl (by rfl)]
  constructor
  · rintro kept ⟨-, started, due⟩
    exact due (fresh.symm.trans ((kept (.inl started.symm)).trans early))
  · intro sound skipped
    have due : m.getNextVsyncConfig = m.vsyncConfigSet.early := by
      rcases skipped with started | ended
      · by_contra due
        exact sound ⟨⟨token, now, rfl⟩, started.symm, due⟩
      · exact getNextVsyncConfig_early (.inr ended)
    exact fresh.trans (due.trans early.symm)

theorem right_iff (fresh : m.Fresh) (call : Call τ) : m.Right call ↔ ¬ m.Slips call := by
  by_cases starts : ∃ token now, call = .setTransactionSchedule .earlyStart (some token) now
  · obtain ⟨token, now, rfl⟩ := starts
    exact start_right_iff fresh token now
  refine iff_of_true ?_ fun slips => starts slips.1
  cases call with
  | setVsyncConfigSet | binderDied => exact ⟨rfl, nofun⟩
  | onTransactionCommit | onRefreshRateChangeInitiated | onRefreshRateChangeCompleted =>
    rw [right_iff_of_guard rfl (by rfl)]
    exact fun _ => fresh
  | onDisplayRefresh usedGpuComposition =>
    rw [right_iff_of_guard rfl (by rfl)]
    intro idle
    obtain ⟨same, unused, nothing⟩ := (not_or.mp idle).imp_right not_or.mp
    have still : m.earlyGpuFrames - 1 = m.earlyGpuFrames := by omega
    simp only [if_neg same, if_neg unused, still]
    exact fresh
  | setTransactionSchedule schedule token now =>
    rw [right_iff_of_guard rfl (by rfl)]
    intro skipped
    cases schedule with
    | late => exact fresh
    | earlyStart =>
      cases token with
      | none => exact fresh
      | some token => exact absurd ⟨token, now, rfl⟩ starts
    | earlyEnd =>
      have ended : m.transactionSchedule = .earlyEnd := skipped.elim Eq.symm id
      have early : (m.request .earlyEnd token now).getNextVsyncConfig = m.vsyncConfigSet.early :=
        getNextVsyncConfig_early (.inr ended)
      exact fresh.trans ((getNextVsyncConfig_early (.inr ended)).trans early.symm)

/-- The configuration is the right one after every call, unless one of the calls slips. -/
theorem config_never_stale_iff (set : VsyncConfigSet) (calls : List (Call τ)) :
    Throughout Right { vsyncConfigSet := set } calls ↔
      Throughout (fun m call => ¬ m.Slips call) { vsyncConfigSet := set } calls := by
  have fresh : Fresh ({ vsyncConfigSet := set } : VsyncModulator τ) := rfl
  generalize ({ vsyncConfigSet := set } : VsyncModulator τ) = m at fresh
  induction calls generalizing m with
  | nil => exact Iff.rfl
  | cons call calls ih =>
    rw [Throughout, Throughout, ← right_iff fresh call]
    exact and_congr_right fun right => ih _ right.1

/-- The client that has started early offsets dies, and another one starts. -/
theorem stale_after_binderDied :
    ¬ Throughout Right
    ({ vsyncConfigSet := ⟨⟨1, 1, 0, 0⟩, ⟨2, 2, 0, 0⟩, ⟨3, 3, 0, 0⟩⟩ } : VsyncModulator Nat)
    [.setTransactionSchedule .earlyStart (some 0) 0, .binderDied 0,
    .setTransactionSchedule .earlyStart (some 1) 0] := by
  rintro ⟨-, -, ⟨fresh, -⟩, -⟩
  cases fresh

end VsyncModulator

end Aosp.Scheduler
