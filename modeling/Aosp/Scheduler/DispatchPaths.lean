import Aosp.Scheduler.VSyncDispatch

namespace Aosp.Scheduler

open Option List

/-- A call, with the times that it reads from the clock. -/
inductive Op where
  | schedule (token : Nat) (timing : ScheduleTiming) (now : Int)
  | cancel (token : Nat) (now : Int)
  | timerCallback (now rearmNow : Int)

namespace Queue

variable (c : Settings)

def step (q : Queue) : Op → Queue × List Invocation
  | .schedule token timing now => ((q.schedule c token timing now).1, [])
  | .cancel token now => ((q.cancel c token now).1, [])
  | .timerCallback now rearmNow => q.timerCallback c now rearmNow

/-- The queue behind the calls, and all the invocations they have made. -/
def run (q : Queue) : List Op → Queue × List Invocation
  | [] => (q, [])
  | op :: ops =>
    let (q', invocations) := q.step c op
    let (q'', later) := q'.run ops
    (q'', invocations ++ later)

end Queue

/-- What happens to one callback's entry. -/
inductive Action where
  | schedule (timing : ScheduleTiming) (now : Int)
  | defer (timing : ScheduleTiming)
  | update (now : Int)
  | disarm
  | execute

namespace Entry

variable (c : Settings)

def act (e : Entry) : Action → Entry
  | .schedule timing now => (e.schedule c timing now).1
  | .defer timing => e.addPendingWorkloadUpdate timing
  | .update now => e.update c now
  | .disarm => e.disarm
  | .execute =>
    match e.armedInfo with
    | some armed => e.executing armed
    | none => e

def acts (e : Entry) (actions : List Action) : Entry := actions.foldl (act c) e

/-- The vsyncs that the callback is invoked for along the way. -/
def dispatched (e : Entry) : List Action → List Int
  | [] => []
  | .execute :: rest => (e.armedInfo.map ArmingInfo.actualVsyncTime).toList ++
    (e.act c .execute).dispatched rest
  | action :: rest => (e.act c action).dispatched rest

theorem acts_append (e : Entry) (first second : List Action) :
    e.acts c (first ++ second) = (e.acts c first).acts c second := foldl_append

theorem dispatched_append (e : Entry) (first second : List Action) :
    e.dispatched c (first ++ second) = e.dispatched c first ++
      (e.acts c first).dispatched c second := by
  induction first generalizing e with
  | nil => rfl
  | cons action rest ih =>
    cases action <;> simp only [cons_append, dispatched, ih, append_assoc] <;> rfl

theorem dispatched_eq_nil (e : Entry) {actions : List Action} (nothing : .execute ∉ actions) :
    e.dispatched c actions = [] := by
  induction actions generalizing e with
  | nil => rfl
  | cons action rest ih =>
    have later : Action.execute ∉ rest := fun member => nothing (mem_cons_of_mem _ member)
    cases action with
    | execute => exact absurd mem_cons_self nothing
    | schedule timing now => exact ih _ later
    | defer timing => exact ih _ later
    | update now => exact ih _ later
    | disarm => exact ih _ later

end Entry

namespace Queue

variable (c : Settings)

/-- The time with which the other callbacks are recalculated, if the call sets the timer anew. -/
def rearms (q : Queue) : Op → Option Int
  | .schedule token timing now =>
    match q.find token with
    | none => none
    | some e =>
      if now > q.intendedWakeupTime then none
      else
        match (e.schedule c timing now).1.wakeupTime with
        | some wakeup => if wakeup < int64 (q.intendedWakeupTime - c.timerSlack)
          then some now else none
        | none => some now
  | .cancel token now =>
    match (q.find token).bind Entry.wakeupTime with
    | some wakeup => if wakeup = q.intendedWakeupTime then some now else none
    | none => none
  | .timerCallback _ rearmNow => some rearmNow

/-- What the call itself does to a callback. -/
def own (q : Queue) (token : Nat) (e : Entry) : Op → List Action
  | .schedule t timing now =>
    if t = token then if now > q.intendedWakeupTime then [.defer timing] else [.schedule timing now]
    else []
  | .cancel t _ => if t = token then [.disarm] else []
  | .timerCallback now _ => if (q.invocation c now token e).isSome then [.execute] else []

/-- The callback that has just been scheduled is not recalculated. -/
def recalculated (token : Nat) : Op → Bool
  | .schedule t _ _ => t ≠ token
  | _ => true

def actions (q : Queue) (token : Nat) (e : Entry) (op : Op) : List Action :=
  q.own c token e op ++ match q.rearms c op with
    | some now => if recalculated token op then [.update now] else []
    | none => []

variable {q : Queue} {token : Nat} {e : Entry}

theorem mem_actions {op : Op} {action : Action} (member : action ∈ q.actions c token e op) :
    action ∈ q.own c token e op ∨ ∃ now, action = .update now := by
  rcases mem_append.mp member with own | recalculated
  · exact .inl own
  · split at recalculated
    · split at recalculated
      · exact .inr ⟨_, mem_singleton.mp recalculated⟩
      · cases recalculated
    · cases recalculated

theorem lookup_map (callbacks : List (Nat × Entry)) (f : Nat → Entry → Entry) (token : Nat) :
    (callbacks.map fun p => (p.1, f p.1 p.2)).lookup token =
      (callbacks.lookup token).map (f token) := by
  induction callbacks with
  | nil => rfl
  | cons p rest ih =>
    rw [map_cons, lookup_cons, lookup_cons, ih]
    by_cases same : token = p.1
    · simp only [same, beq_self_eq_true]
      rfl
    · simp [beq_eq_false_iff_ne.mpr same]

section

variable (q : Queue)

theorem find_mapEntries (f : Nat → Entry → Entry) (token : Nat) :
    (q.mapEntries f).find token = (q.find token).map (f token) := lookup_map q.callbacks f token

theorem find_set (token token' : Nat) (e : Entry) :
    (q.set token e).find token' = (q.find token').map fun old => if token' = token then e
      else old :=
  find_mapEntries q _ token'

theorem find_rearmTimer (now : Int) (skip : Option Nat) (token : Nat) :
    (q.rearmTimer c now skip).find token =
      (q.find token).map fun e => if skip = some token then e else e.update c now := by
  have mapped := find_mapEntries q (fun t e => if skip = some t then e else e.update c now) token
  rw [← mapped]
  unfold rearmTimer
  dsimp only
  split
  · split <;> rfl
  · rfl

theorem find_timerCallback (now rearmNow : Int) (token : Nat) :
    (q.timerCallback c now rearmNow).1.find token = (q.find token).map fun e =>
      (q.fire c now e).update c rearmNow := by
  unfold timerCallback
  rw [find_rearmTimer]
  change ((q.mapEntries fun _ e => q.fire c now e).find token).map _ = _
  rw [find_mapEntries, Option.map_map]
  rfl

theorem fire_eq (now : Int) (token : Nat) (e : Entry) :
    q.fire c now e = e.acts c (if (q.invocation c now token e).isSome then [.execute] else []) := by
  unfold fire invocation
  cases armed : e.armedInfo with
  | none => rfl
  | some info =>
    dsimp only
    split
    · simp [Entry.acts, Entry.act, armed]
    · rfl

/-- The queue as a call leaves it, apart from the timer. -/
def rearmed (skip : Option Nat) : Option Int → Queue
  | some now => q.rearmTimer c now skip
  | none => q

theorem find_rearmed (skip : Option Nat) (rearm : Option Int) (token : Nat) :
    (q.rearmed c skip rearm).find token = (q.find token).map fun e => e.acts c (match rearm with
      | some now => if skip = some token then [] else [.update now]
      | none => []) := by
  cases rearm with
  | none => exact map_id'.symm
  | some now =>
    rw [rearmed, find_rearmTimer]
    congr 1
    split <;> rfl

theorem schedule_eq (found : q.find token = some e) (timing : ScheduleTiming) (now : Int) :
    (q.schedule c token timing now).1 =
      (q.set token (e.acts c (q.own c token e (.schedule token timing now)))).rearmed c (some token)
        (q.rearms c (.schedule token timing now)) := by
  unfold schedule rearms own
  simp only [found]
  by_cases imminent : now > q.intendedWakeupTime
  · simp only [imminent]
    rfl
  · simp only [imminent, ↓reduceIte]
    cases (e.schedule c timing now).1.wakeupTime with
    | none => rfl
    | some wakeup =>
      dsimp only
      split <;> rfl

theorem cancel_eq (found : q.find token = some e) (now : Int) :
    ∃ q' : Queue, (q.cancel c token now).1 = q'.rearmed c none (q.rearms c (.cancel token now)) ∧
      ∀ other, q'.find other = (q.set token e.disarm).find other := by
  unfold cancel rearms
  simp only [found, bind_some]
  cases armed : e.wakeupTime with
  | none =>
    refine ⟨q, rfl, fun other => ?_⟩
    rw [find_set]
    have unarmed : e.armedInfo = none := map_eq_none_iff.mp armed
    have same : e.disarm = e := by
      cases e
      cases unarmed
      rfl
    by_cases here : other = token
    · rw [here, found, map_some, if_pos rfl, same]
    · simp only [here]
      exact map_id'.symm
  | some wakeup =>
    dsimp only
    split
    · exact ⟨{ q.set token e.disarm with intendedWakeupTime := kInvalidTime }, rfl, fun _ => rfl⟩
    · exact ⟨q.set token e.disarm, rfl, fun _ => rfl⟩

end

theorem find_missing {op : Op} {t : Nat} (found : q.find t = none) (unchanged : (q.step c op).1 = q)
    (idle : t ≠ token → ∀ e, q.actions c token e op = []) :
    (q.step c op).1.find token = (q.find token).map fun e => e.acts c (q.actions c token e op) := by
  rw [unchanged]
  cases here : q.find token with
  | none => rfl
  | some e =>
    have other : t ≠ token := by
      rintro rfl
      cases here.symm.trans found
    rw [Option.map_some, idle other]
    rfl

theorem find_step (q : Queue) (op : Op) (token : Nat) :
    (q.step c op).1.find token = (q.find token).map fun e => e.acts c (q.actions c token e op) := by
  cases op with
  | schedule t timing now =>
    cases found : q.find t with
    | none =>
      exact find_missing c found (by rw [step, schedule, found]) fun other e => by
        simp [actions, own, rearms, found, other]
    | some e =>
      change (q.schedule c t timing now).1.find token = _
      rw [schedule_eq c q found, find_rearmed, find_set]
      cases here : q.find token with
      | none => rfl
      | some e' =>
        simp only [Option.map_some, actions, recalculated]
        by_cases same : token = t
        · subst same
          cases here.symm.trans found
          rw [if_pos rfl, ← Entry.acts_append]
          simp
        · have other : t ≠ token := fun h => same h.symm
          simp [own, same, other]
  | cancel t now =>
    cases found : q.find t with
    | none =>
      exact find_missing c found (by rw [step, cancel, found]) fun other e => by
        simp [actions, own, rearms, found, other]
    | some e =>
      change (q.cancel c t now).1.find token = _
      obtain ⟨q', cancelled, same⟩ := cancel_eq c q found now
      rw [cancelled, find_rearmed, same, find_set]
      cases here : q.find token with
      | none => rfl
      | some e' =>
        simp only [Option.map_some, actions, own]
        by_cases same : token = t
        · subst same
          cases here.symm.trans found
          rw [if_pos rfl, if_pos rfl]
          rfl
        · rw [if_neg same, if_neg fun h => same h.symm]
          rfl
  | timerCallback now rearmNow =>
    change (q.timerCallback c now rearmNow).1.find token = _
    rw [find_timerCallback]
    congr 1
    funext e
    rw [fire_eq c q now token e]
    exact (Entry.acts_append c e _ [.update rearmNow]).symm

/-- The vsyncs for which a callback has been invoked. -/
def targets (token : Nat) (invocations : List Invocation) : List Int :=
  (invocations.filter fun i => i.token = token).map Invocation.vsyncTimestamp

theorem targets_append (token : Nat) (first second : List Invocation) :
    targets token (first ++ second) = targets token first ++ targets token second := by
  simp [targets]

theorem token_invocation {now : Int} {i : Invocation}
    (invoked : q.invocation c now token e = some i) :
    i.token = token := by
  unfold invocation at invoked
  split at invoked
  · split at invoked
    · cases invoked
      rfl
    · cases invoked
  · cases invoked

variable {callbacks : List (Nat × Entry)}

theorem lookup_eq_none (absent : token ∉ callbacks.map Prod.fst) :
    callbacks.lookup token = none := by
  rw [lookup_eq_none_iff]
  intro p member
  exact bne_iff_ne.mpr fun same => absent (mem_map.mpr ⟨p, member, same.symm⟩)

/-- Each callback is invoked by its own entry only. -/
theorem filter_invocations (q : Queue) (now : Int) (token : Nat)
    (nodup : (callbacks.map Prod.fst).Nodup) :
    (callbacks.filterMap fun p => q.invocation c now p.1 p.2).filter (fun i => i.token = token) =
      ((callbacks.lookup token).bind (q.invocation c now token)).toList := by
  induction callbacks with
  | nil => rfl
  | cons p rest ih =>
    obtain ⟨absent, nodup'⟩ := nodup_cons.mp nodup
    rw [lookup_cons]
    by_cases same : token = p.1
    · have later := ih nodup'
      rw [same, lookup_eq_none absent, bind_none, toList_none] at later
      simp only [same, beq_self_eq_true, bind_some, filterMap_cons]
      cases invoked : q.invocation c now p.1 p.2 with
      | none => exact later
      | some i =>
        rw [filter_cons, if_pos (decide_eq_true (token_invocation c invoked)), later, toList_some]
    · simp only [beq_eq_false_iff_ne.mpr same, filterMap_cons]
      rw [← ih nodup']
      cases invoked : q.invocation c now p.1 p.2 with
      | none => rfl
      | some i =>
        have other : ¬ i.token = token := fun h => same (h.symm.trans (token_invocation c invoked))
        rw [filter_cons, if_neg (by rw [decide_eq_false other]; exact Bool.false_ne_true)]

theorem dispatched_invocation (q : Queue) (now rearmNow : Int) (token : Nat) (e : Entry) :
    e.dispatched c (q.actions c token e (.timerCallback now rearmNow)) =
      (q.invocation c now token e).toList.map Invocation.vsyncTimestamp := by
  simp only [actions, own]
  cases invoked : q.invocation c now token e with
  | none => rfl
  | some i =>
    unfold invocation at invoked
    cases armed : e.armedInfo with
    | none =>
      rw [armed] at invoked
      cases invoked
    | some info =>
      rw [armed] at invoked
      dsimp only at invoked
      split at invoked
      · cases invoked
        simp only [isSome_some, ↓reduceIte, singleton_append, Entry.dispatched, armed]
        rfl
      · cases invoked

theorem targets_step (q : Queue) (op : Op) (token : Nat) :
    targets token (q.step c op).2 = match q.find token with
      | some e => e.dispatched c (q.actions c token e op)
      | none => [] := by
  cases op with
  | schedule t timing now =>
    cases q.find token with
    | none => rfl
    | some e =>
      refine (e.dispatched_eq_nil c fun member => ?_).symm
      rcases mem_actions c member with own | ⟨now, other⟩
      · simp only [Queue.own] at own
        split at own
        · split at own <;> cases mem_singleton.mp own
        · cases own
      · cases other
  | cancel t now =>
    cases q.find token with
    | none => rfl
    | some e =>
      refine (e.dispatched_eq_nil c fun member => ?_).symm
      rcases mem_actions c member with own | ⟨now, other⟩
      · simp only [Queue.own] at own
        split at own
        · cases mem_singleton.mp own
        · cases own
      · cases other
  | timerCallback now rearmNow =>
    change targets token (q.callbacks.filterMap fun p => q.invocation c now p.1 p.2) = _
    rw [targets, filter_invocations c q now token q.nodup]
    change ((q.find token).bind (q.invocation c now token)).toList.map _ = _
    cases q.find token with
    | none => rfl
    | some e => exact (dispatched_invocation c q now rearmNow token e).symm

/-- The whole path of a callback in a run. -/
def path (q : Queue) (token : Nat) (e : Entry) : List Op → List Action
  | [] => []
  | op :: ops =>
    let first := q.actions c token e op
    first ++ (q.step c op).1.path token (e.acts c first) ops

/-- In a run, every callback goes its path and is invoked on it. -/
theorem targets_run (found : q.find token = some e) (ops : List Op) :
    targets token (q.run c ops).2 = e.dispatched c (q.path c token e ops) := by
  induction ops generalizing q e with
  | nil => rfl
  | cons op ops ih =>
    have step := targets_step c q op token
    have next := find_step c q op token
    rw [found] at step next
    rw [run]
    rw [targets_append, step, ih next, path, Entry.dispatched_append]

theorem targets_run_none (missing : q.find token = none) (ops : List Op) :
    targets token (q.run c ops).2 = [] := by
  induction ops generalizing q with
  | nil => rfl
  | cons op ops ih =>
    have step := targets_step c q op token
    have next := find_step c q op token
    rw [missing] at step next
    rw [run]
    rw [targets_append, step, ih next]
    rfl

end Queue

end Aosp.Scheduler
