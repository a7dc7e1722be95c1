import Mathlib.Data.BitVec
import Aosp.Lib.Fallible

/- `OneShotTimer.cpp`: the timer thread with calls from other threads. Each access to an atomic
variable, read of the clock and operation on the semaphore is a step. -/
namespace Aosp.Scheduler.OneShotTimer

open Function Fallible

inductive TimerState where
  | stopped | reset | waiting | idle
deriving DecidableEq

/-- The calls of `checkForResetAndStop`. The last one is in the inner loop. -/
inductive Check where
  | first (state : TimerState)
  | second (state : TimerState)
  | inner (trigger : Int)

def Check.state : Check → TimerState
  | first state | second state => state
  | inner _ => .waiting

/-- The next step of `loop`, with its `triggerTime`. -/
inductive Thread where
  | exchangeStop (check : Check)
  | exchangeReset (check : Check)
  | semWait
  | arm
  | compare (trigger : Int)
  | setWaiting (trigger : Int)
  | semClockwait (trigger : Int)
  | clearWaiting (trigger : Int)
  | timeOut (trigger : Int)
  | loadLastResetTime
  | ended

/-- The next step of a call of `reset` or `stop`. -/
inductive Call where
  | now
  | storeLastResetTime (now : Int)
  | setReset
  | loadWaiting
  | semPost
  | setStop
  | semPostStop
  | returned

inductive Actor where
  | thread (now : Int) (taken : Bool)
  | call (i : Nat) (now : Int)

structure State where
  thread : Thread := .exchangeStop (.first .reset)
  calls : Nat → Call
  semaphore : Nat := 0
  resetTriggered : Bool := false
  stopTriggered : Bool := false
  waiting : Bool := false
  /-- `none` is `time_point::min()`. -/
  lastResetTime : Option Int := none

/-- Behind a check that has returned the state. -/
def Check.returned : Check → TimerState → Thread
  | first _, .stopped | second _, .stopped => .ended
  | first _, .idle => .semWait
  | first _, state => .exchangeStop (.second state)
  | second _, _ => .arm
  | inner _, .stopped => .exchangeStop (.first .stopped)
  | inner _, .reset => .loadLastResetTime
  | inner trigger, .waiting => .timeOut trigger
  | inner trigger, .idle => .compare trigger

theorem Check.returned_load {check : Check} {state : TimerState}
    (loads : check.returned state = .loadLastResetTime) :
    state = .reset ∧ check.state = .waiting := by
  cases check <;> cases state <;> simp [returned, Check.state] at loads ⊢

theorem Check.returned_stopped (check : Check) :
    check.returned .stopped ≠ .semWait ∧ check.returned .stopped ≠ .loadLastResetTime := by
  cases check <;> simp [returned]

namespace State

/-- A wait on the semaphore ends when it is taken, or without it: by a signal or the timeout. -/
def wait (taken : Bool) (thread : Thread) (s : State) : Option State :=
  if !taken then some { s with thread := thread }
  else if s.semaphore = 0 then none
  else some { s with thread := thread, semaphore := s.semaphore - 1 }

def threadStep (interval now : Int) (taken : Bool) (s : State) : Option State :=
  match s.thread with
  | .exchangeStop check =>
    let thread := if s.stopTriggered then check.returned .stopped else .exchangeReset check
    some { s with thread := thread, stopTriggered := false }
  | .exchangeReset check =>
    if check.state = .stopped then some { s with thread := check.returned .stopped }
    else
      let thread := check.returned (if s.resetTriggered then .reset else check.state)
      some { s with thread := thread, resetTriggered := false }
  | .semWait => s.wait taken (.exchangeStop (.first .idle))
  | .arm => some { s with thread := .compare (now + interval) }
  | .compare trigger => some { s with thread :=
    if trigger - now > 0 then .setWaiting trigger else .clearWaiting trigger }
  | .setWaiting trigger => some { s with thread := .semClockwait trigger, waiting := true }
  | .semClockwait trigger => s.wait taken (.clearWaiting trigger)
  | .clearWaiting trigger =>
    some { s with thread := .exchangeStop (.inner trigger), waiting := false }
  | .timeOut trigger =>
    some { s with thread := if trigger - now ≤ 0 then .exchangeStop (.first .idle)
      else .compare trigger }
  | .loadLastResetTime => some
    { s with thread := .compare (s.lastResetTime.getD (-2 ^ 63) + interval) }
  | .ended => none

def callStep (i : Nat) (now : Int) (s : State) : Option State :=
  let calls := update s.calls i
  match s.calls i with
  | .now => some { s with calls := calls (.storeLastResetTime now) }
  | .storeLastResetTime now => some { s with calls := calls .setReset, lastResetTime := some now }
  | .setReset => some { s with calls := calls .loadWaiting, resetTriggered := true }
  | .loadWaiting => some { s with calls := calls (if !s.waiting then .semPost else .returned) }
  | .setStop => some { s with calls := calls .semPostStop, stopTriggered := true }
  | .semPost | .semPostStop => some { s with calls := calls .returned, semaphore :=
    s.semaphore + 1 }
  | .returned => none

def step (interval : Int) (s : State) : Actor → Option State
  | .thread now taken => s.threadStep interval now taken
  | .call i now => s.callStep i now

/-- A call of `reset` has set the flag, and may post the semaphore yet. -/
def Deciding (s : State) : Prop := ∃ i, s.calls i = .loadWaiting ∨ s.calls i = .semPost

structure Sound (s : State) : Prop where
  waits : s.waiting = true → ∃ trigger, s.thread = .semClockwait trigger ∨
    s.thread = .clearWaiting trigger
  heard : s.thread = .semWait → s.resetTriggered = true → 0 < s.semaphore ∨ s.Deciding
  timed : s.resetTriggered = true ∨ s.thread = .loadLastResetTime → s.lastResetTime ≠ none
  stored : ∀ i, s.calls i = .setReset → s.lastResetTime ≠ none

variable {interval now : Int} {taken : Bool} {i : Nat} {s s' : State}

/-- The thread goes on: it sleeps only with the flag down, and loads only a time that is there. -/
theorem Sound.moves (sound : s.Sound) {thread : Thread} {count : Nat} {flag stop waiting : Bool}
    (waits : waiting = true → ∃ trigger, thread = .semClockwait trigger ∨
      thread = .clearWaiting trigger)
    (heard : thread = .semWait → flag = false)
    (timed : flag = true ∨ thread = .loadLastResetTime → s.resetTriggered = true) :
    Sound { s with thread := thread, semaphore := count, resetTriggered := flag,
                   stopTriggered := stop, waiting := waiting } where
  waits := waits
  heard sleeps flagged := absurd (heard sleeps) (by simpa using flagged)
  timed loads := sound.timed (.inl (timed loads))
  stored := sound.stored

/-- It goes on to a step of another kind, with the flag as it is. -/
theorem Sound.goesTo (sound : s.Sound) {thread : Thread} (count : Nat) (stop : Bool)
    (awake : s.waiting = false ∨ ∃ trigger, thread = .clearWaiting trigger)
    (other : thread ≠ .semWait ∧ thread ≠ .loadLastResetTime) :
    Sound { s with thread := thread, semaphore := count, stopTriggered := stop } := by
  refine sound.moves (fun waiting => ?_) (fun sleeps => absurd sleeps other.1)
    fun loads => loads.resolve_right other.2
  rcases awake with awake | ⟨trigger, clears⟩
  · rw [awake] at waiting
    cases waiting
  · exact ⟨trigger, .inr clears⟩

theorem Sound.wait (sound : s.Sound) {thread : Thread}
    (awake : s.waiting = false ∨ ∃ trigger, thread = .clearWaiting trigger)
    (other : thread ≠ .semWait ∧ thread ≠ .loadLastResetTime)
    (stepped : s.wait taken thread = some s') :
    s'.Sound := by
  unfold State.wait at stepped
  split at stepped
  · cases stepped
    exact sound.goesTo s.semaphore s.stopTriggered awake other
  · split at stepped
    · cases stepped
    · cases stepped
      exact sound.goesTo _ s.stopTriggered awake other

theorem Sound.threadStep (sound : s.Sound) (stepped : s.threadStep interval now taken = some s') :
    s'.Sound := by
  have quiet (others : ∀ trigger, ¬ (s.thread = .semClockwait trigger ∨
      s.thread = .clearWaiting trigger)) : s.waiting = false := by
    by_contra waiting
    obtain ⟨trigger, there⟩ := sound.waits (Bool.not_eq_false _ ▸ waiting)
    exact others trigger there
  cases place : s.thread with
  | exchangeStop check =>
    rw [State.threadStep, place] at stepped
    cases stepped
    refine sound.goesTo s.semaphore false (.inl (quiet (by simp [place]))) ?_
    split
    · exact check.returned_stopped
    · simp
  | exchangeReset check =>
    have awake := quiet (by simp [place])
    simp only [State.threadStep, place] at stepped
    split at stepped
    · cases stepped
      exact sound.goesTo s.semaphore s.stopTriggered (.inl awake) check.returned_stopped
    · cases stepped
      refine sound.moves (by simp [awake]) (fun _ => rfl) fun loads => ?_
      -- the check has returned that there was a reset, and not the state it was called with
      obtain ⟨reset, waited⟩ := Check.returned_load (loads.resolve_left nofun)
      by_contra unset
      rw [if_neg unset, waited] at reset
      cases reset
  | semWait =>
    rw [State.threadStep, place] at stepped
    exact sound.wait (.inl (quiet (by simp [place]))) (by simp) stepped
  | semClockwait trigger =>
    rw [State.threadStep, place] at stepped
    exact sound.wait (.inr ⟨trigger, rfl⟩) (by simp) stepped
  | setWaiting trigger =>
    rw [State.threadStep, place] at stepped
    cases stepped
    exact sound.moves (fun _ => ⟨trigger, .inl rfl⟩) nofun fun loads => loads.resolve_right nofun
  | clearWaiting trigger =>
    rw [State.threadStep, place] at stepped
    cases stepped
    exact sound.moves nofun nofun fun loads => loads.resolve_right nofun
  | arm | loadLastResetTime =>
    rw [State.threadStep, place] at stepped
    cases stepped
    exact sound.goesTo s.semaphore s.stopTriggered (.inl (quiet (by simp [place]))) (by simp)
  | compare | timeOut =>
    rw [State.threadStep, place] at stepped
    cases stepped
    refine sound.goesTo s.semaphore s.stopTriggered (.inl (quiet (by simp [place]))) ?_
    split <;> simp
  | ended =>
    rw [State.threadStep, place] at stepped
    cases stepped

/-- A call goes on, and does what a sleeping thread has to hear of. -/
theorem Sound.goesOn (sound : s.Sound) {call : Call} {flag stop : Bool} {count : Nat}
    {time : Option Int}
    (told : s.waiting = false → flag = true → 0 < count ∨ call = .loadWaiting ∨ call = .semPost ∨
      s.resetTriggered = true ∧ s.semaphore ≤ count ∧ s.calls i ≠ .loadWaiting ∧
        s.calls i ≠ .semPost)
    (timed : flag = true ∨ call = .setReset ∨ s.lastResetTime ≠ none → time ≠ none) :
    Sound { s with calls := update s.calls i call, semaphore := count, resetTriggered := flag,
                   stopTriggered := stop, lastResetTime := time } where
  waits := sound.waits
  heard sleeps flagged := by
    have awake : s.waiting = false := by
      have waits := sound.waits
      grind
    rw [Deciding, exists_update_iff s.calls fun _ call => call = .loadWaiting ∨ call = .semPost]
    rcases told awake flagged with posted | here | here | ⟨before, more, elsewhere⟩
    · exact .inl posted
    · exact .inr (.inl (.inl here))
    · exact .inr (.inl (.inr here))
    · rcases sound.heard sleeps before with posted | ⟨j, there⟩
      · exact .inl (Nat.lt_of_lt_of_le posted more)
      · exact .inr (.inr
          ⟨j, fun same => there.elim (same ▸ elsewhere.1) (same ▸ elsewhere.2), there⟩)
  timed := by
    rintro (flagged | loads)
    · exact timed (.inl flagged)
    · exact timed (.inr (.inr (sound.timed (.inr loads))))
  stored := (forall_update_iff s.calls fun _ call => call = .setReset → time ≠ none).mpr
    ⟨fun here => timed (.inr (.inl here)),
      fun j _ there => timed (.inr (.inr (sound.stored j there)))⟩

theorem Sound.callStep (sound : s.Sound) (stepped : s.callStep i now = some s') : s'.Sound := by
  have flagged := sound.timed
  have stored := sound.stored i
  unfold State.callStep at stepped
  split at stepped <;> cases stepped <;> exact sound.goesOn (by grind) (by grind)

/-- A reset is not slept through, and one that is taken while waiting moves the end of the wait. -/
theorem no_reset_lost {calls : Nat → Call} (start : ∀ i, calls i = .now ∨ calls i = .setStop)
    {actors : List Actor} (run : actors.foldlM (step interval) { calls := calls } = some s) :
    ¬ (s.thread = .semWait ∧ s.resetTriggered = true ∧ s.semaphore = 0 ∧ ¬ s.Deciding) ∧
    (s.waiting = true → ∃ trigger, s.thread = .semClockwait trigger ∨
    s.thread = .clearWaiting trigger) ∧
    ∀ trigger now taken now' taken' (others : List (Nat × Int)) (s₁ s₂ s₃ : State),
      s.thread = .exchangeReset (.inner trigger) → s.resetTriggered = true →
      s.threadStep interval now taken = some s₁ →
      others.foldlM (fun s call => s.callStep call.1 call.2) s₁ = some s₂ →
      s₂.threadStep interval now' taken' = some s₃ →
      ∃ time, s₂.lastResetTime = some time ∧ s₃.thread = .compare (time + interval) := by
  have initial : Sound { calls := calls } := by
    refine ⟨by simp, by simp, by simp, fun i => ?_⟩
    rcases start i with here | here <;> simp [here]
  have sound : s.Sound := by
    refine foldlM_some_invariant _ Sound actors
      (fun s actor s' _ sound stepped => ?_) _ _ initial run
    cases actor with
    | thread => exact sound.threadStep stepped
    | call => exact sound.callStep stepped
  refine ⟨fun ⟨sleeps, flagged, zero, decided⟩ => ?_, sound.waits, ?_⟩
  · exact (sound.heard sleeps flagged).elim (by omega) decided
  intro trigger now taken now' taken' others s₁ s₂ s₃ place flagged consumed between last
  have loads : s₁.thread = .loadLastResetTime := by
    unfold State.threadStep at consumed
    rw [place] at consumed
    cases consumed
    rw [flagged]
    rfl
  have later : s₂.Sound ∧ s₂.thread = .loadLastResetTime :=
    foldlM_some_invariant _ (fun s => s.Sound ∧ s.thread = .loadLastResetTime) others
      (fun s call s' _ kept stepped =>
      ⟨kept.1.callStep stepped, by unfold State.callStep at stepped; grind⟩) _ _
      ⟨sound.threadStep consumed, loads⟩ between
  obtain ⟨time, isTime⟩ := Option.ne_none_iff_exists'.mp (later.1.timed (.inr later.2))
  unfold State.threadStep at last
  rw [later.2, isTime] at last
  cases last
  exact ⟨time, isTime, rfl⟩

/-- The thread waits until 10, a call comes at 4, and the thread is about to look for it. -/
def timedWait : List Actor := List.replicate 7 (.thread 0 true) ++ List.replicate 4 (.call 0 4) ++
  [.thread 10 false, .thread 10 true, .thread 10 true]

theorem no_reset_lost_timedWait : ∃ s s₁ s₂ s₃ time,
    timedWait.foldlM (step 10) { calls := fun _ => .now } = some s ∧ s.resetTriggered = true ∧
    s.threadStep 10 10 true = some s₁ ∧ (s₁.callStep 1 11).bind (callStep 1 11) = some s₂ ∧
    s₂.threadStep 10 11 true = some s₃ ∧ s₂.lastResetTime = some time ∧
    s₃.thread = .compare (time + 10) := by
  have lost := @no_reset_lost 10 _ _ (fun _ => .inl rfl) timedWait rfl
  obtain ⟨time, isTime, compares⟩ := lost.2.2 10 10 true 11 true [(1, 11), (1, 11)] _ _ _ rfl
    rfl rfl rfl rfl
  exact ⟨_, _, _, _, time, rfl, rfl, rfl, rfl, rfl, isTime, compares⟩

end State

end Aosp.Scheduler.OneShotTimer
