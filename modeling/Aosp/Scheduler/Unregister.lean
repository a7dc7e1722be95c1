import Mathlib.Logic.Relation
import Aosp.Scheduler.DispatchPaths

/- The timer thread and the threads that unregister callbacks: the sections that hold a lock and the
start and the end of a callback are the steps, in any order. -/
namespace Aosp.Scheduler

open List Queue

variable (c : Settings)

/-- A callback is known by its token, since no token is given away twice. -/
structure Threads where
  queue : Queue
  /-- The invocations that the timer thread has collected and not started yet. -/
  collected : List Invocation
  /-- The callback whose `mRunning` is set: the one that the timer thread is in. -/
  running : Option Nat
  /-- The calls to `unregisterCallback` that have found the callback and taken it out of the map. -/
  erased : List Nat
  /-- The ones that have come back from `ensureNotRunning`. -/
  returned : List Nat

inductive Step : Threads → Threads → Prop
  | call (s : Threads) (op : Op) (clients : ∀ now rearmNow, op ≠ .timerCallback now rearmNow) :
      Step s { s with queue := (s.queue.step c op).1 }
  | register (s : Threads) : Step s { s with queue := s.queue.register }
  /-- The locked section of `timerCallback`, on the timer thread. -/
  | collect (s : Threads) (now rearmNow : Int) (free : s.collected = [])
    (outside : s.running = none) : Step s { s with
        queue := (s.queue.timerCallback c now rearmNow).1
        collected := (s.queue.timerCallback c now rearmNow).2 }
  /-- `mRunning` is set and the callback begins. -/
  | start (s : Threads) (i : Invocation) (rest : List Invocation) (next : s.collected = i :: rest)
      (outside : s.running = none) : Step s { s with collected := rest, running := some i.token }
  /-- The callback has ended and `mRunning` is reset. -/
  | finish (s : Threads) (token : Nat) (inside : s.running = some token) :
    Step s { s with running := none }
  | erase (s : Threads) (token : Nat) (e : Entry) (found : s.queue.find token = some e) :
      Step s { s with queue := s.queue.erase token, erased := token :: s.erased }
  /-- `ensureNotRunning` finds `mRunning` reset. -/
  | ret (s : Threads) (token : Nat) (waiting : token ∈ s.erased)
    (stopped : s.running ≠ some token) :
      Step s { s with erased := s.erased.erase token, returned := token :: s.returned }

/-- The threads as they are when no callback has been registered. -/
def Threads.start : Threads := ⟨Queue.empty, [], none, [], []⟩

/-- States in which the threads can get. -/
def Reachable (s : Threads) : Prop := Relation.ReflTransGen (Step c) Threads.start s

/-- Neither now nor later the callback runs. -/
def NeverRuns (s : Threads) (token : Nat) : Prop :=
  ∀ s', Relation.ReflTransGen (Step c) s s' → s'.running ≠ some token

/-- An invocation of the callback has been collected and not started. -/
def Collected (s : Threads) (token : Nat) : Prop := ∃ i ∈ s.collected, i.token = token

/-- The callback has been taken out of the map for good. -/
structure Out (s : Threads) (token : Nat) : Prop where
  given : token ≤ s.queue.callbackToken
  absent : s.queue.find token = none

/-- Nor has it been collected before, or is it running. -/
structure Gone (s : Threads) (token : Nat) : Prop extends Out s token where
  stopped : s.running ≠ some token
  uncollected : ¬ Collected s token

variable {c} {s s' : Threads} {token : Nat}

theorem callbackToken_rearmTimer (q : Queue) (now : Int) (skip : Option Nat) :
    (q.rearmTimer c now skip).callbackToken = q.callbackToken := by
  unfold rearmTimer
  dsimp only
  split
  · split <;> rfl
  · rfl

theorem callbackToken_step (q : Queue) (op : Op) :
    (q.step c op).1.callbackToken = q.callbackToken := by
  cases op with
  | schedule token timing now =>
    change (q.schedule c token timing now).1.callbackToken = _
    unfold schedule
    split
    · rfl
    · dsimp only
      split
      · rfl
      · split
        · split
          · exact callbackToken_rearmTimer _ _ _
          · rfl
        · exact callbackToken_rearmTimer _ _ _
  | cancel token now =>
    change (q.cancel c token now).1.callbackToken = _
    unfold cancel
    split
    · rfl
    · split
      · split
        · exact callbackToken_rearmTimer _ _ _
        · rfl
      · rfl
  | timerCallback now rearmNow => exact callbackToken_rearmTimer _ _ _

variable {q : Queue}

theorem find_register (given : token ≤ q.callbackToken) : q.register.find token = q.find token := by
  change (q.callbacks ++ [_]).lookup token = _
  rw [lookup_append, lookup_cons]
  have other : (token == q.callbackToken + 1) = false := beq_eq_false_iff_ne.mpr (by omega)
  rw [other]
  exact Option.or_none

theorem find_erase_self (q : Queue) (token : Nat) : (q.erase token).find token = none := by
  apply lookup_eq_none
  intro member
  obtain ⟨p, inside, same⟩ := mem_map.mp member
  exact of_decide_eq_true (mem_filter.mp inside).2 same

theorem find_erase_of_none (absent : q.find token = none) (other : Nat) :
    (q.erase other).find token = none := by
  apply lookup_eq_none
  intro member
  obtain ⟨p, inside, same⟩ := mem_map.mp member
  have missing := lookup_eq_none_iff.mp absent p (mem_filter.mp inside).1
  exact bne_iff_ne.mp missing same.symm

theorem given_of_find {e : Entry} (found : q.find token = some e) : token ≤ q.callbackToken := by
  by_contra notGiven
  have missing : q.find token = none := by
    apply lookup_eq_none
    intro member
    obtain ⟨p, inside, same⟩ := mem_map.mp member
    have := q.given p inside
    omega
  rw [missing] at found
  cases found

theorem Out.step (out : Out s token) (step : Step c s s') : Out s' token := by
  have called (op : Op) : token ≤ (s.queue.step c op).1.callbackToken ∧
      (s.queue.step c op).1.find token = none := by
    refine ⟨(callbackToken_step s.queue op) ▸ out.given, ?_⟩
    rw [find_step, out.absent]
    rfl
  cases step with
  | call op clients => exact ⟨(called op).1, (called op).2⟩
  | register => exact ⟨Nat.le_succ_of_le out.given, (find_register out.given).trans out.absent⟩
  | collect now rearmNow free outside =>
    exact ⟨(called (.timerCallback now rearmNow)).1, (called (.timerCallback now rearmNow)).2⟩
  | start i rest next outside => exact ⟨out.given, out.absent⟩
  | finish other inside => exact ⟨out.given, out.absent⟩
  | erase other e found => exact ⟨out.given, find_erase_of_none out.absent other⟩
  | ret other waiting stopped => exact ⟨out.given, out.absent⟩

theorem Gone.step (gone : Gone s token) (step : Step c s s') : Gone s' token := by
  have out : Out s' token := gone.toOut.step step
  cases step with
  | call op clients => exact ⟨out, gone.stopped, gone.uncollected⟩
  | register => exact ⟨out, gone.stopped, gone.uncollected⟩
  | collect now rearmNow free outside =>
    refine ⟨out, gone.stopped, ?_⟩
    rintro ⟨i, member, same⟩
    -- only callbacks that are in the map are collected
    obtain ⟨p, inside, invoked⟩ := mem_filterMap.mp member
    have missing := lookup_eq_none_iff.mp gone.absent p inside
    exact bne_iff_ne.mp missing (same.symm.trans (token_invocation c invoked))
  | start i rest next outside =>
    refine ⟨out, ?_, ?_⟩
    · intro same
      refine gone.uncollected ⟨i, ?_, Option.some.inj same⟩
      rw [next]
      exact mem_cons_self
    · rintro ⟨j, member, same⟩
      refine gone.uncollected ⟨j, ?_, same⟩
      rw [next]
      exact mem_cons_of_mem _ member
  | finish other inside => exact ⟨out, nofun, gone.uncollected⟩
  | erase other e found => exact ⟨out, gone.stopped, gone.uncollected⟩
  | ret other waiting stopped => exact ⟨out, gone.stopped, gone.uncollected⟩

theorem Gone.neverRuns (gone : Gone s token) : NeverRuns c s token := by
  intro s' later
  have gone' : Gone s' token := by
    induction later with
    | refl => exact gone
    | tail _ step ih => exact ih.step step
  exact gone'.stopped

/-- Callbacks that `unregisterCallback` waits for are out of the map. -/
theorem Reachable.out (reachable : Reachable c s) : ∀ token ∈ s.erased, Out s token := by
  induction reachable with
  | refl => exact nofun
  | @tail s s' _ step ih =>
    intro token waiting
    have before (inside : token ∈ s.erased) : Out s' token := (ih token inside).step step
    cases step with
    | call op clients => exact before waiting
    | register => exact before waiting
    | collect now rearmNow free outside => exact before waiting
    | start i rest next outside => exact before waiting
    | finish other inside => exact before waiting
    | erase other e found =>
      rcases mem_cons.mp waiting with rfl | inside
      · have given : token ≤ s.queue.callbackToken := given_of_find found
        exact ⟨given, find_erase_self s.queue token⟩
      · exact before inside
    | ret other waiting' stopped => exact before (mem_of_mem_erase waiting)

/-- An invocation that has been collected can be started: the ones in front of it end. -/
theorem Collected.runs (collected : Collected s token) : ¬ NeverRuns c s token := by
  intro never
  obtain ⟨i, member, rfl⟩ := collected
  -- the induction is on the invocations in front
  generalize list : s.collected = invocations at member
  induction invocations generalizing s with
  | nil => cases member
  | cons j rest ih =>
    let idle : Threads := { s with running := none }
    have ended : Relation.ReflTransGen (Step c) s idle := by
      cases inside : s.running with
      | none =>
        have same : idle = s := by
          cases s
          cases inside
          rfl
        rw [same]
      | some t => exact .single (.finish s t inside)
    have started : Step c idle { idle with collected := rest, running := some j.token } :=
      .start idle j rest list rfl
    rcases mem_cons.mp member with rfl | later
    · exact never _ (ended.tail started) rfl
    · refine ih (fun s' after => never s' ((ended.tail started).trans after)) rfl later

/-- When `unregisterCallback` returns, the callback does not run and never will, unless the timer
thread has collected an invocation of it that has not started yet. -/
theorem unregister_final (c : Settings) (s : Threads) (token : Nat) (reachable : Reachable c s)
    (waiting : token ∈ s.erased) (stopped : s.running ≠ some token) :
    NeverRuns c { s with erased := s.erased.erase token, returned := token :: s.returned } token ↔
      ¬ Collected s token := by
  constructor
  · intro never collected
    refine absurd never (Collected.runs ?_)
    exact collected
  · intro uncollected
    have out := reachable.out token waiting
    exact Gone.neverRuns ⟨⟨out.given, out.absent⟩, stopped, uncollected⟩

/-- One callback has been registered and scheduled. -/
def scheduled : Threads :=
  ⟨(Queue.empty.register.step ⟨fun t => t, 5, 10⟩ (.schedule 1 ⟨20, 0, 100⟩ 0)).1, [], none, [], []⟩

theorem reachable_scheduled : Reachable ⟨fun t => t, 5, 10⟩ scheduled :=
  ((Relation.ReflTransGen.single (.register Threads.start)).tail
    (.call _ (.schedule 1 ⟨20, 0, 100⟩ 0) nofun))

/-- The callback is unregistered before the timer has come. -/
theorem unregister_final_scheduled :
    NeverRuns ⟨fun t => t, 5, 10⟩ { scheduled with queue := scheduled.queue.erase 1, returned :=
      [1] } 1 := by
  have erased : Step ⟨fun t => t, 5, 10⟩ scheduled
      { scheduled with queue := scheduled.queue.erase 1, erased := [1] } := .erase scheduled 1 _ rfl
  refine (unregister_final ⟨fun t => t, 5, 10⟩
    { scheduled with queue := scheduled.queue.erase 1, erased := [1] }
    1 (reachable_scheduled.tail erased) mem_cons_self nofun).mpr ?_
  rintro ⟨i, member, -⟩
  cases member

/-- The timer thread has collected the invocation; `unregisterCallback` returns, and then the
callback is started. -/
theorem unregistered_is_invoked :
    ∃ s, Reachable ⟨fun t => t, 5, 10⟩ s ∧ 1 ∈ s.returned ∧ s.running = some 1 := by
  have collected := reachable_scheduled.tail (.collect scheduled 80 80 rfl rfl)
  have erased := collected.tail (.erase _ 1 _ rfl)
  have returned := erased.tail (.ret _ 1 mem_cons_self nofun)
  exact ⟨_, returned.tail (.start _ ⟨1, 100, 80, 100⟩ [] rfl rfl), mem_cons_self, rfl⟩

end Aosp.Scheduler
