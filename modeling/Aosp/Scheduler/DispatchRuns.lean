import Mathlib.Data.List.Chain
import Mathlib.Algebra.Order.Ring.Int
import Mathlib.Algebra.Order.Group.Unbundled.Abs
import Mathlib.Order.Bounds.Basic
import Aosp.Scheduler.DispatchPaths

namespace Aosp.Scheduler

open List Queue Entry List.IsChain

variable (c : Settings)

/-- The callback is neither armed nor waiting to be armed. -/
def Entry.Quiet (e : Entry) : Prop := e.armedInfo = none ∧ e.workloadUpdateInfo = none

/-- Only a call to `schedule` does this to a callback. -/
def Action.schedules : Action → Bool
  | schedule _ _ => true
  | defer _ => true
  | _ => false

variable {action : Action}

theorem Entry.Quiet.act {e : Entry} (quiet : e.Quiet) (other : action.schedules = false) :
    (e.act c action).Quiet := by
  cases action with
  | schedule timing now => cases other
  | defer timing => cases other
  | update now =>
    have unchanged : e.update c now = e := by
      rw [update, quiet.1, quiet.2, if_pos ⟨rfl, rfl⟩]
    rw [act, unchanged]
    exact quiet
  | disarm => exact ⟨rfl, quiet.2⟩
  | execute =>
    rw [act, quiet.1]
    exact quiet

variable {actions : List Action}

theorem Entry.Quiet.dispatched {e : Entry} (quiet : e.Quiet)
    (others : ∀ action ∈ actions, action.schedules = false) :
    e.dispatched c actions = [] := by
  induction actions generalizing e with
  | nil => rfl
  | cons action rest ih =>
    have next := quiet.act c (others action mem_cons_self)
    have later := ih next fun a member => others a (mem_cons_of_mem _ member)
    cases action with
    | execute =>
      rw [Entry.dispatched, later, quiet.1]
      rfl
    | schedule timing now => exact later
    | defer timing => exact later
    | update now => exact later
    | disarm => exact later

variable {q : Queue} {token : Nat}

theorem schedules_actions {e : Entry} {op : Op}
    (unscheduled : ∀ timing now, op ≠ .schedule token timing now) :
    ∀ action ∈ q.actions c token e op, action.schedules = false := by
  intro action member
  rcases mem_actions c member with own | ⟨now, rfl⟩
  · cases op with
    | schedule t timing now =>
      have other : t ≠ token := fun same => unscheduled timing now (by rw [same])
      rw [Queue.own, if_neg other] at own
      cases own
    | cancel t now =>
      simp only [Queue.own] at own
      split at own
      · cases mem_singleton.mp own
        rfl
      · cases own
    | timerCallback now rearmNow =>
      simp only [Queue.own] at own
      split at own
      · cases mem_singleton.mp own
        rfl
      · cases own
  · rfl

theorem schedules_path {e : Entry} {ops : List Op}
    (unscheduled : ∀ timing now, .schedule token timing now ∉ ops) :
    ∀ action ∈ q.path c token e ops, action.schedules = false := by
  induction ops generalizing q e with
  | nil => exact nofun
  | cons op ops ih =>
    intro action member
    rcases mem_append.mp member with now | later
    · exact schedules_actions c (fun timing now same =>
        unscheduled timing now (same ▸ mem_cons_self)) action now
    · exact ih (fun timing now inside => unscheduled timing now (mem_cons_of_mem _ inside))
        action later

theorem not_mem_of_targets {invocations : List Invocation}
    (nothing : targets token invocations = []) :
    ∀ i ∈ invocations, i.token ≠ token := by
  intro i member same
  have here : i.vsyncTimestamp ∈ targets token invocations :=
    mem_map.mpr ⟨i, mem_filter.mpr ⟨member, decide_eq_true same⟩, rfl⟩
  rw [nothing] at here
  cases here

/-- A callback that is cancelled is not invoked until it is scheduled again, unless a schedule call
before has left its timing for the next recalculation. -/
theorem cancel_silences (q q' : Queue) (token : Nat) (now : Int)
    (cancelled : q.cancel c token now = (q', .cancelled))
    (applied : ∀ e, q.find token = some e → e.workloadUpdateInfo = none) (ops : List Op)
    (unscheduled : ∀ timing now, .schedule token timing now ∉ ops) :
    ∀ i ∈ (q'.run c ops).2, i.token ≠ token := by
  apply not_mem_of_targets
  have next := find_step c q (.cancel token now) token
  have left : (q.step c (.cancel token now)).1 = q' := congrArg Prod.fst cancelled
  rw [left] at next
  cases found : q.find token with
  | none =>
    rw [found] at next
    exact targets_run_none c next ops
  | some e =>
    rw [found] at next
    rw [targets_run c next]
    refine Entry.Quiet.dispatched c ?_ (schedules_path c unscheduled)
    have disarmed : e.disarm.Quiet := ⟨rfl, applied e found⟩
    simp only [actions, own, ↓reduceIte]
    split
    · have updated (now : Int) : (e.disarm.act c (.update now)).Quiet := disarmed.act c rfl
      exact updated _
    · exact disarmed

/-- A vsync every 100, a timer that may be 5 early, and vsyncs within 10 taken for the same. -/
def hundreds : Settings := ⟨fun t => (t + 99) / 100 * 100, 5, 10⟩

/-- Registered callbacks with the tokens 1 to `n`. -/
def registered : Nat → Queue
  | 0 => Queue.empty
  | n + 1 => (registered n).register

theorem cancel_silences_hundreds :
    (((registered 2).run hundreds [.schedule 1 ⟨20, 0, 0⟩ 0]).1.cancel hundreds 1 10).2 =
      .cancelled ∧
      ∀ i ∈ ((((registered 2).run hundreds [.schedule 1 ⟨20, 0, 0⟩ 0]).1.cancel hundreds 1 10).1.run
      hundreds
        [.schedule 2 ⟨20, 0, 0⟩ 10, .timerCallback 80 80]).2, i.token ≠ 1 := by
  refine ⟨rfl, cancel_silences hundreds ((registered 2).run hundreds [.schedule 1 ⟨20, 0, 0⟩ 0]).1 _
    1 10 rfl ?_ _ ?_⟩
  · intro e found
    cases found
    rfl
  · intro timing now member
    simp at member

/-- The timer is late, so the second schedule call is left for its recalculation. The callback is
still armed and is cancelled, but the recalculation in `cancel` itself arms it again. -/
theorem cancelled_is_invoked :
    let q := ((registered 1).run hundreds [.schedule 1 ⟨20, 0, 0⟩ 0, .schedule 1 ⟨20, 0, 0⟩ 85]).1
    (q.cancel hundreds 1 85).2 = .cancelled ∧
      ((q.cancel hundreds 1 85).1.run hundreds [.timerCallback 180 180]).2 =
      [⟨1, 200, 180, 200⟩] := by
  decide

/-- A fixed prediction: points of a grid, which is wide enough to tell them apart. -/
structure Periodic (phase period : Int) : Prop where
  after : ∀ t, t ≤ c.nextAnticipatedVSyncTimeFrom t
  grid : ∀ t, ∃ k, c.nextAnticipatedVSyncTimeFrom t = phase + k * period
  monotone : ∀ s t, s ≤ t → c.nextAnticipatedVSyncTimeFrom s ≤ c.nextAnticipatedVSyncTimeFrom t
  wide : 2 * c.minVsyncDistance < period

/-- Two vsyncs that are not taken for the same. -/
def Apart (a b : Int) : Prop := c.minVsyncDistance < |b - a|

/-- The callback is not armed for the vsync it has been invoked for. -/
structure Entry.Tracked (phase period : Int) (e : Entry) : Prop where
  last : ∀ t, e.lastDispatchTime = some t → ∃ k, t = phase + k * period
  armed : ∀ info, e.armedInfo = some info → ∃ k, info.actualVsyncTime = phase + k * period
  apart : ∀ t info, e.lastDispatchTime = some t → e.armedInfo = some info →
    Apart c t info.actualVsyncTime

/-- A recalculation is for a later vsync than the last one, and the distance to it fits into 64
bits. -/
def Entry.Clear (e : Entry) : Action → Prop
  | .schedule _ _ => ∀ t, e.lastDispatchTime = some t →
      -2 ^ 63 ≤ t - c.minVsyncDistance ∧ t + c.minVsyncDistance < 2 ^ 63
  | .update now => ¬ e.Quiet → ∀ t, e.lastDispatchTime = some t → t < e.timing.earliest now
  | _ => True

/-- Every action on the way is clear. -/
def Entry.ClearPath (e : Entry) : List Action → Prop
  | [] => True
  | action :: rest => e.Clear c action ∧ (e.act c action).ClearPath rest

variable {c} {phase period : Int} {e : Entry}

theorem Periodic.apart (periodic : Periodic c phase period) (positive : 0 < c.minVsyncDistance)
    {a b : Int} (first : ∃ k, a = phase + k * period) (second : ∃ k, b = phase + k * period)
    (later : a < b) :
    Apart c a b := by
  obtain ⟨j, rfl⟩ := first
  obtain ⟨k, rfl⟩ := second
  have wide := periodic.wide
  have above : j < k := by
    by_contra notAbove
    have : k * period ≤ j * period := mul_le_mul_of_nonneg_right (by omega) (by omega)
    omega
  have gap : (j + 1) * period ≤ k * period := mul_le_mul_of_nonneg_right (by omega) (by omega)
  have grows : (j + 1) * period = j * period + period := by rw [add_mul, one_mul]
  unfold Apart
  rw [abs_of_pos (by omega)]
  omega

theorem int64_of_fits {x : Int} (low : -2 ^ 63 ≤ x) (high : x < 2 ^ 63) : int64 x = x :=
  Int.bmod_eq_of_le (by omega) (by omega)

section

variable (tracked : e.Tracked c phase period) (periodic : Periodic c phase period)
  (positive : 0 < c.minVsyncDistance)

include tracked periodic positive

theorem Entry.Tracked.vsyncTime {timing : ScheduleTiming} {now : Int}
    (clear : e.Clear c (.schedule timing now)) :
    (∃ k, e.vsyncTime c timing now = phase + k * period) ∧
      ∀ t, e.lastDispatchTime = some t → Apart c t (e.vsyncTime c timing now) := by
  unfold Entry.vsyncTime Entry.alreadyDispatchedForVsync
  cases last : e.lastDispatchTime with
  | none => exact ⟨periodic.grid _, nofun⟩
  | some t =>
    obtain ⟨low, high⟩ := clear t last
    dsimp only
    rw [int64_of_fits (by omega) (by omega), int64_of_fits (by omega) (by omega)]
    by_cases dispatched : t + c.minVsyncDistance ≥
      c.nextAnticipatedVSyncTimeFrom (timing.earliest now) ∧
        t - c.minVsyncDistance ≤ c.nextAnticipatedVSyncTimeFrom (timing.earliest now)
    · rw [if_pos dispatched]
      refine ⟨periodic.grid _, ?_⟩
      rintro _ ⟨⟩
      dsimp only
      rw [int64_of_fits (by omega) (by omega)]
      have after := periodic.after (t + c.minVsyncDistance)
      exact periodic.apart positive (tracked.last t last) (periodic.grid _) (by omega)
    · rw [if_neg dispatched]
      refine ⟨periodic.grid _, ?_⟩
      rintro _ ⟨⟩
      unfold Apart
      dsimp only
      rw [lt_abs]
      omega

theorem Entry.Tracked.act (clear : e.Clear c action) : (e.act c action).Tracked c phase period := by
  cases action with
  | schedule timing now =>
    rw [act, schedule]
    split
    · exact tracked
    · obtain ⟨onGrid, apart⟩ := tracked.vsyncTime periodic positive clear
      refine ⟨tracked.last, ?_, ?_⟩
      · rintro _ ⟨⟩
        exact onGrid
      · rintro t _ last ⟨⟩
        exact apart t last
  | defer timing => exact ⟨tracked.last, tracked.armed, tracked.apart⟩
  | update now =>
    rw [act, update]
    by_cases quiet : e.armedInfo.isNone ∧ e.workloadUpdateInfo.isNone
    · rw [if_pos quiet]
      exact tracked
    · rw [if_neg quiet]
      have waiting : ¬ e.Quiet := by
        rintro ⟨unarmed, applied⟩
        rw [unarmed, applied] at quiet
        exact quiet ⟨rfl, rfl⟩
      refine ⟨tracked.last, ?_, ?_⟩
      · rintro _ ⟨⟩
        exact periodic.grid _
      · rintro t _ last ⟨⟩
        have behind := clear waiting t last
        have after := periodic.after (e.timing.earliest now)
        dsimp only
        exact periodic.apart positive (tracked.last t last) (periodic.grid _) (by omega)
  | disarm => exact ⟨tracked.last, by rintro _ ⟨⟩, by rintro _ _ _ ⟨⟩⟩
  | execute =>
    rw [act]
    cases armed : e.armedInfo with
    | none => exact tracked
    | some info =>
      refine ⟨?_, by rintro _ ⟨⟩, by rintro _ _ _ ⟨⟩⟩
      rintro _ ⟨⟩
      exact tracked.armed info armed

/-- Along its path a callback is never invoked twice for one vsync. -/
theorem Entry.Tracked.dispatched (clear : e.ClearPath c actions) :
    (e.lastDispatchTime.toList ++ e.dispatched c actions).IsChain (Apart c) := by
  induction actions generalizing e with
  | nil =>
    cases e.lastDispatchTime with
    | none => exact nil
    | some t => exact singleton t
  | cons action rest ih =>
    have later := ih (tracked.act periodic positive clear.1) clear.2
    cases action with
    | execute =>
      rw [Entry.dispatched]
      cases armed : e.armedInfo with
      | none =>
        rw [Entry.act, armed] at later ⊢
        exact later
      | some info =>
        rw [Entry.act, armed] at later ⊢
        cases last : e.lastDispatchTime with
        | none => exact later
        | some t => exact cons_cons (tracked.apart t info last armed) later
    | schedule timing now =>
      have same : (e.act c (.schedule timing now)).lastDispatchTime = e.lastDispatchTime := by
        rw [Entry.act, Entry.schedule]
        split <;> rfl
      rw [same] at later
      exact later
    | defer timing => exact later
    | update now =>
      have same : (e.act c (.update now)).lastDispatchTime = e.lastDispatchTime := by
        rw [Entry.act, Entry.update]
        split <;> rfl
      rw [same] at later
      exact later
    | disarm => exact later

end

theorem tracked_new : Entry.new.Tracked c phase period := ⟨nofun, nofun, nofun⟩

theorem find_registered {n : Nat} {e : Entry} (found : (registered n).find token = some e) :
    e = Entry.new := by
  induction n with
  | zero => cases found
  | succ n ih =>
    change ((registered n).callbacks ++ [_]).lookup token = some e at found
    rw [lookup_append] at found
    cases before : (registered n).callbacks.lookup token with
    | some old =>
      rw [before] at found
      cases found
      exact ih before
    | none =>
      rw [before, lookup_cons] at found
      split at found
      · cases found
        rfl
      · cases found

/-- No callback is invoked twice for one vsync, if no recalculation takes place so early that it
finds the vsync the callback has just been invoked for. -/
theorem vsyncs_apart (c : Settings) (phase period : Int) (periodic : Periodic c phase period)
    (positive : 0 < c.minVsyncDistance) (n : Nat) (ops : List Op)
    (clear : ∀ token e, (registered n).find token = some e →
      e.ClearPath c ((registered n).path c token e ops)) (token : Nat) :
    (targets token ((registered n).run c ops).2).IsChain (Apart c) := by
  cases found : (registered n).find token with
  | none =>
    rw [targets_run_none c found]
    exact nil
  | some e =>
    rw [targets_run c found]
    have tracked : e.Tracked c phase period := by
      rw [find_registered found]
      exact tracked_new
    exact (tracked.dispatched periodic positive (clear token e found)).right_of_append

theorem periodic_hundreds : Periodic hundreds 0 100 where
  after t := by
    simp only [hundreds]
    omega
  grid t := ⟨(t + 99) / 100, by simp only [hundreds]; omega⟩
  monotone s t le := by
    simp only [hundreds]
    omega
  wide := by decide

/-- The callback is scheduled again when its vsync has passed. -/
def twoVsyncs : List Op :=
  [.schedule 1 ⟨20, 0, 0⟩ 0, .timerCallback 80 81, .schedule 1 ⟨20, 0, 0⟩ 101,
    .timerCallback 180 180]

theorem vsyncs_apart_twoVsyncs :
    (targets 1 ((registered 1).run hundreds twoVsyncs).2).IsChain (Apart hundreds) := by
  refine vsyncs_apart hundreds 0 100 periodic_hundreds (by decide) 1 twoVsyncs ?_ 1
  intro token e found
  have first : token = 1 := by
    by_contra other
    have missing : (registered 1).find token = none := lookup_eq_none (by
      simpa [registered, register, Queue.empty] using other)
    rw [missing] at found
    cases found
  subst first
  cases find_registered found
  -- the recalculations find the callback disarmed, and it is scheduled behind the vsync at 100
  refine ⟨by rintro _ ⟨⟩, trivial, fun waiting => absurd ⟨rfl, rfl⟩ waiting, ?_, trivial,
    fun waiting => absurd ⟨rfl, rfl⟩ waiting, trivial⟩
  intro t last
  cases last
  decide

/-- The first callback is invoked for the vsync at 100 and scheduled again at once, for the next
one. The second callback then needs the timer earlier, and the recalculation takes the first one
back to the vsync at 100. -/
theorem vsync_dispatched_twice : Periodic hundreds 0 100 ∧
    targets 1 ((registered 2).run hundreds [.schedule 1 ⟨20, 0, 0⟩ 0, .timerCallback 80 80,
      .schedule 1 ⟨20, 0, 0⟩ 80, .schedule 2 ⟨50, 0, 0⟩ 80, .timerCallback 80 80]).2 = [100, 100] :=
  ⟨periodic_hundreds, by decide⟩

/-- A fixed prediction: of the vsyncs that are at least the margin behind a time, the first. -/
def Settings.Predicts (c : Settings) (vsyncs : Set Int) (margin : Int) : Prop :=
  ∀ t, IsLeast {v | v ∈ vsyncs ∧ t + margin ≤ v} (c.nextAnticipatedVSyncTimeFrom t)

section Prediction

variable {vsyncs : Set Int} {margin : Int} (predicts : c.Predicts vsyncs margin)

include predicts

theorem Settings.Predicts.mem (t : Int) : c.nextAnticipatedVSyncTimeFrom t ∈ vsyncs :=
  (predicts t).1.1

theorem Settings.Predicts.eq_iff {vsync : Int} (isVsync : vsync ∈ vsyncs) (t : Int) :
    c.nextAnticipatedVSyncTimeFrom t = vsync ↔
      t + margin ≤ vsync ∧ ∀ v ∈ vsyncs, v < vsync → v < t + margin := by
  constructor
  · rintro rfl
    refine ⟨(predicts t).1.2, fun v inside earlier => ?_⟩
    by_contra late
    exact absurd ((predicts t).2 ⟨inside, by omega⟩) (by omega)
  · rintro ⟨enough, first⟩
    refine IsLeast.unique (predicts t) ⟨⟨isVsync, enough⟩, fun v inside => ?_⟩
    by_contra earlier
    exact absurd (first v inside.1 (by omega)) (not_lt.mpr inside.2)

end Prediction

end Aosp.Scheduler
