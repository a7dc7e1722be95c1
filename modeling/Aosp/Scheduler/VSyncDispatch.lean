import Mathlib.Data.BitVec
import Mathlib.Data.List.Nodup

/- `VSyncDispatchTimerQueue.cpp`: callbacks that are armed for a vsync and dispatched by one timer.
-/
namespace Aosp.Scheduler

/-- A sum or difference of `nsecs_t`, in 64 bits. -/
def int64 (x : Int) : Int := x.bmod (2 ^ 64)

/-- No time: the greatest `nsecs_t`. -/
def kInvalidTime : Int := 2 ^ 63 - 1

structure ScheduleTiming where
  workDuration : Int
  readyDuration : Int
  earliestVsync : Int

structure ArmingInfo where
  actualWakeupTime : Int
  actualVsyncTime : Int
  actualReadyTime : Int

/-- `VSyncDispatchTimerQueueEntry`. -/
structure Entry where
  scheduleTiming : ScheduleTiming
  armedInfo : Option ArmingInfo
  lastDispatchTime : Option Int
  workloadUpdateInfo : Option ScheduleTiming

/-- The tracker's prediction and what the queue has been constructed with. -/
structure Settings where
  nextAnticipatedVSyncTimeFrom : Int → Int
  timerSlack : Int
  minVsyncDistance : Int

/-- The earliest vsync that a callback with this timing can be for. -/
def ScheduleTiming.earliest (timing : ScheduleTiming) (now : Int) : Int :=
  max timing.earliestVsync (int64 (int64 (now + timing.workDuration) + timing.readyDuration))

/-- `getExpectedCallbackTime`. -/
def getExpectedCallbackTime (nextVsyncTime : Int) (timing : ScheduleTiming) : Int :=
  int64 (int64 (nextVsyncTime - timing.readyDuration) - timing.workDuration)

namespace Entry

def new : Entry := ⟨⟨0, 0, 0⟩, none, none, none⟩

def wakeupTime (e : Entry) : Option Int := e.armedInfo.map ArmingInfo.actualWakeupTime

variable (c : Settings) (e : Entry)

/-- The vsync would be later than the armed one, and the callback would be woken up later for it. -/
def wouldSkip (nextVsyncTime nextWakeupTime : Int) : Bool :=
  match e.armedInfo with
  | some armed =>
    nextVsyncTime > int64 (armed.actualVsyncTime + c.minVsyncDistance) &&
      nextWakeupTime > int64 (armed.actualWakeupTime + c.minVsyncDistance)
  | none => false

def alreadyDispatchedForVsync (nextVsyncTime : Int) : Option Int :=
  match e.lastDispatchTime with
  | some last =>
    if int64 (last + c.minVsyncDistance) ≥ nextVsyncTime ∧
      int64 (last - c.minVsyncDistance) ≤ nextVsyncTime
    then some last else none
  | none => none

/-- The vsync a callback is armed for: not the one it has already been dispatched for. -/
def vsyncTime (timing : ScheduleTiming) (now : Int) : Int :=
  let nextVsyncTime := c.nextAnticipatedVSyncTimeFrom (timing.earliest now)
  match e.alreadyDispatchedForVsync c nextVsyncTime with
  | some last => c.nextAnticipatedVSyncTimeFrom (int64 (last + c.minVsyncDistance))
  | none => nextVsyncTime

def schedule (timing : ScheduleTiming) (now : Int) : Entry × Int :=
  let nextVsyncTime := c.nextAnticipatedVSyncTimeFrom (timing.earliest now)
  let nextWakeupTime := int64 (int64 (nextVsyncTime - timing.workDuration) - timing.readyDuration)
  if e.wouldSkip c nextVsyncTime nextWakeupTime
    then (e, getExpectedCallbackTime nextVsyncTime timing)
  else
    let vsync := e.vsyncTime c timing now
    let wakeup := int64 (int64 (vsync - timing.workDuration) - timing.readyDuration)
    let ready := int64 (vsync - timing.readyDuration)
    ({ e with scheduleTiming := timing, armedInfo := some ⟨wakeup, vsync, ready⟩ },
      getExpectedCallbackTime vsync timing)

def addPendingWorkloadUpdate (timing : ScheduleTiming) : Entry :=
  { e with workloadUpdateInfo := some timing }

/-- The timing that `update` goes by. -/
def timing : ScheduleTiming := e.workloadUpdateInfo.getD e.scheduleTiming

def update (now : Int) : Entry :=
  if e.armedInfo.isNone ∧ e.workloadUpdateInfo.isNone then e
  else
    let vsync := c.nextAnticipatedVSyncTimeFrom (e.timing.earliest now)
    let ready := int64 (vsync - e.timing.readyDuration)
    let wakeup := int64 (ready - e.timing.workDuration)
    { e with scheduleTiming := e.timing, workloadUpdateInfo := none, armedInfo := some ⟨wakeup,
      vsync, ready⟩ }

def disarm : Entry := { e with armedInfo := none }

/-- `executing`, for a callback that is armed. -/
def executing (armed : ArmingInfo) : Entry :=
  { e with lastDispatchTime := some armed.actualVsyncTime, armedInfo := none }

end Entry

/-- The callbacks by their tokens, in the order in which the map is iterated. A token is not given
away again. -/
structure Queue where
  callbacks : List (Nat × Entry)
  intendedWakeupTime : Int
  callbackToken : Nat
  nodup : (callbacks.map Prod.fst).Nodup
  given : ∀ p ∈ callbacks, p.1 ≤ callbackToken

structure Invocation where
  token : Nat
  vsyncTimestamp : Int
  wakeupTimestamp : Int
  deadlineTimestamp : Int
deriving DecidableEq

inductive CancelResult where
  | cancelled
  | tooLate
  | error
deriving DecidableEq

namespace Queue

def find (q : Queue) (token : Nat) : Option Entry := q.callbacks.lookup token

/-- Every callback's entry changes, and the map keeps its tokens. -/
def mapEntries (q : Queue) (f : Nat → Entry → Entry) : Queue where
  callbacks := q.callbacks.map fun p => (p.1, f p.1 p.2)
  intendedWakeupTime := q.intendedWakeupTime
  callbackToken := q.callbackToken
  nodup := by
    rw [List.map_map]
    exact q.nodup
  given := by
    intro p member
    obtain ⟨old, inside, rfl⟩ := List.mem_map.mp member
    exact q.given old inside

def set (q : Queue) (token : Nat) (e : Entry) : Queue :=
  q.mapEntries fun t old => if t = token then e else old

def empty : Queue := ⟨[], kInvalidTime, 0, List.nodup_nil, nofun⟩

/-- `registerCallback`. -/
def register (q : Queue) : Queue where
  callbacks := q.callbacks ++ [(q.callbackToken + 1, Entry.new)]
  intendedWakeupTime := q.intendedWakeupTime
  callbackToken := q.callbackToken + 1
  nodup := by
    rw [List.map_append, List.map_singleton, ← List.concat_eq_append]
    refine q.nodup.concat fun member => ?_
    obtain ⟨p, inside, same⟩ := List.mem_map.mp member
    have := q.given p inside
    omega
  given := by
    intro p member
    rcases List.mem_append.mp member with before | new
    · exact Nat.le_succ_of_le (q.given p before)
    · cases List.mem_singleton.mp new
      exact Nat.le_refl _

/-- The section of `unregisterCallback` that holds the lock. -/
def erase (q : Queue) (token : Nat) : Queue where
  callbacks := q.callbacks.filter fun p => p.1 ≠ token
  intendedWakeupTime := q.intendedWakeupTime
  callbackToken := q.callbackToken
  nodup := (q.nodup.sublist (List.filter_sublist.map Prod.fst))
  given p member := q.given p (List.mem_filter.mp member).1

variable (c : Settings) (q : Queue)

/-- `rearmTimerSkippingUpdateFor`, and `rearmTimer` if no callback is skipped. -/
def rearmTimer (now : Int) (skip : Option Nat) : Queue :=
  let updated := q.mapEntries fun t e => if skip = some t then e else e.update c now
  match (updated.callbacks.filterMap fun p => p.2.wakeupTime).min? with
  | some min =>
    if min < q.intendedWakeupTime then { updated with intendedWakeupTime := min }
    else { updated with intendedWakeupTime := kInvalidTime }
  | none => { updated with intendedWakeupTime := kInvalidTime }

/-- The timer has come to the callback's wakeup time, or near enough. -/
def due (now : Int) (armed : ArmingInfo) : Bool :=
  let lagAllowance := max (int64 (now - q.intendedWakeupTime)) 0
  armed.actualWakeupTime < int64 (int64 (q.intendedWakeupTime + c.timerSlack) + lagAllowance)

/-- A callback's entry as the timer leaves it. -/
def fire (now : Int) (e : Entry) : Entry :=
  match e.armedInfo with
  | some armed => if q.due c now armed then e.executing armed else e
  | none => e

/-- The invocation of a callback that is due. -/
def invocation (now : Int) (token : Nat) (e : Entry) : Option Invocation :=
  match e.armedInfo with
  | some armed =>
    if q.due c now armed then
      some ⟨token, armed.actualVsyncTime, armed.actualWakeupTime, armed.actualReadyTime⟩
    else none
  | none => none

/-- The section of `timerCallback` that holds the lock, and the invocations it collects. -/
def timerCallback (now rearmNow : Int) : Queue × List Invocation :=
  let fired := q.mapEntries fun _ e => q.fire c now e
  ({ fired with intendedWakeupTime := kInvalidTime }.rearmTimer c rearmNow none,
    q.callbacks.filterMap fun p => q.invocation c now p.1 p.2)

/-- `schedule`. The timer is set anew only if this callback needs it earlier. -/
def schedule (token : Nat) (timing : ScheduleTiming) (now : Int) : Queue × Option Int :=
  match q.find token with
  | none => (q, none)
  | some e =>
    if now > q.intendedWakeupTime then
      (q.set token (e.addPendingWorkloadUpdate timing),
        some (getExpectedCallbackTime (c.nextAnticipatedVSyncTimeFrom (timing.earliest now))
        timing))
    else
      let (e, result) := e.schedule c timing now
      let q' := q.set token e
      match e.wakeupTime with
      | some wakeup =>
        if wakeup < int64 (q.intendedWakeupTime - c.timerSlack) then
          (q'.rearmTimer c now (some token), some result)
        else (q', some result)
      | none => (q'.rearmTimer c now (some token), some result)

def cancel (token : Nat) (now : Int) : Queue × CancelResult :=
  match q.find token with
  | none => (q, .error)
  | some e =>
    match e.wakeupTime with
    | some wakeup =>
      let q' := q.set token e.disarm
      if wakeup = q.intendedWakeupTime then
        ({ q' with intendedWakeupTime := kInvalidTime }.rearmTimer c now none, .cancelled)
      else (q', .cancelled)
    | none => (q, .tooLate)

end Queue

end Aosp.Scheduler
