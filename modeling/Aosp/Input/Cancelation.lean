import Aosp.Input.InputState
import Aosp.Lib.Mealy

namespace Aosp.Input

open Keyed List MotionMemento

/-- What a key memento is found by. -/
def KeyMemento.identity (memento : KeyMemento) : Int × BitVec 32 × Int × Int × Int :=
  (memento.deviceId, memento.source, memento.displayId, memento.keyCode, memento.scanCode)

/-- What a motion memento is found by. -/
def MotionMemento.identity (memento : MotionMemento) : Int × BitVec 32 × Int × Bool :=
  (memento.deviceId, memento.source, memento.displayId, memento.hovering)

def KeyEntry.identity (entry : KeyEntry) : Int × BitVec 32 × Int × Int × Int :=
  (entry.deviceId, entry.source, entry.displayId, entry.keyCode, entry.scanCode)

def MotionEntry.identity (entry : MotionEntry) (hovering : Bool) : Int × BitVec 32 × Int × Bool :=
  (entry.deviceId, entry.source, entry.displayId, hovering)

namespace InputState

variable {unset : Pointers} {s : InputState}

theorem findKeyMemento_eq (entry : KeyEntry) :
    s.findKeyMemento entry = Keyed.find KeyMemento.identity entry.identity s.keyMementos := by
  simp [findKeyMemento, Keyed.find, KeyMemento.identity, KeyEntry.identity]

theorem findMotionMemento_eq (entry : MotionEntry) (hovering : Bool) :
    s.findMotionMemento entry hovering =
      Keyed.find MotionMemento.identity (entry.identity hovering) s.motionMementos := by
  simp [findMotionMemento, Keyed.find, identity, MotionEntry.identity]

/-- At most one memento for each key and for each pointing device. -/
structure Unique (s : InputState) : Prop where
  keys : (s.keyMementos.map KeyMemento.identity).Nodup
  motions : (s.motionMementos.map MotionMemento.identity).Nodup

section Steps

variable (unique : s.Unique)

include unique

theorem trackKey_up (entry : KeyEntry) (flags : BitVec 32) :
    (s.trackKey entry .up flags).1 = true ∧
      (s.trackKey entry .up flags).2.keyMementos =
        s.keyMementos.filter (fun memento => memento.identity ≠ entry.identity) ∧
      (s.trackKey entry .up flags).2.motionMementos = s.motionMementos := by
  unfold trackKey
  dsimp only
  generalize state : (if isFromClass entry.flags flagFallback then _ else s : InputState) = s'
  have keys : s'.keyMementos = s.keyMementos := by
    rw [← state]
    split <;> rfl
  have motions : s'.motionMementos = s.motionMementos := by
    rw [← state]
    split <;> rfl
  rw [findKeyMemento_eq, keys]
  cases found : Keyed.find KeyMemento.identity entry.identity s.keyMementos with
  | none => exact ⟨rfl, keys.trans (filter_of_find_eq_none found).symm, motions⟩
  | some index =>
    refine ⟨rfl, ?_, motions⟩
    simp only [eraseKeyMemento, keys]
    exact eraseIdx_find unique.keys found

theorem trackKey_unique (entry : KeyEntry) (action : KeyAction) (flags : BitVec 32) :
    (s.trackKey entry action flags).2.Unique := by
  cases action with
  | up =>
    obtain ⟨-, keys, motions⟩ := trackKey_up unique entry flags
    exact ⟨by rw [keys]; exact unique_filter unique.keys, by rw [motions]; exact unique.motions⟩
  | down =>
    have added := unique_concat (newKeyMemento entry flags) unique.keys
    have same : (newKeyMemento entry flags).identity = entry.identity := rfl
    rw [same] at added
    simp only [trackKey, findKeyMemento_eq]
    cases found : Keyed.find KeyMemento.identity entry.identity s.keyMementos with
    | none =>
      rw [filter_of_find_eq_none found] at added
      exact ⟨added, unique.motions⟩
    | some index =>
      rw [← eraseIdx_find unique.keys found] at added
      exact ⟨added, unique.motions⟩
  | multiple => exact unique

variable (entry : MotionEntry) (flags : BitVec 32)

theorem dropMotionMemento_eq (hovering : Bool) :
    s.dropMotionMemento entry hovering =
      (decide (∃ memento ∈ s.motionMementos, memento.identity = entry.identity hovering),
        { s with motionMementos :=
          s.motionMementos.filter fun memento => memento.identity ≠ entry.identity hovering }) := by
  rw [dropMotionMemento, findMotionMemento_eq]
  cases found : Keyed.find identity (entry.identity hovering) s.motionMementos with
  | none =>
    have absent : ¬ ∃ memento ∈ s.motionMementos, memento.identity = entry.identity hovering := by
      rw [← find_isSome, found]
      exact fun filled => filled rfl
    simp only [absent, decide_false, filter_of_find_eq_none found]
  | some index =>
    have present : ∃ memento ∈ s.motionMementos, memento.identity = entry.identity hovering := by
      rw [← find_isSome, found]
      exact Option.some_ne_none index
    simp [present, eraseMotionMemento, eraseIdx_find unique.motions found]

theorem replaceMotionMemento_unique (hovering : Bool) :
    (s.replaceMotionMemento unset entry flags hovering).Unique := by
  have added := unique_concat (newMotionMemento unset entry flags hovering) unique.motions
  have same : (newMotionMemento unset entry flags hovering).identity =
    entry.identity hovering := rfl
  rw [same] at added
  unfold replaceMotionMemento
  rw [findMotionMemento_eq]
  cases found : Keyed.find identity (entry.identity hovering) s.motionMementos with
  | none =>
    rw [filter_of_find_eq_none found] at added
    exact ⟨unique.keys, added⟩
  | some index =>
    rw [← eraseIdx_find unique.motions found] at added
    exact ⟨unique.keys, added⟩

theorem setMotionPointers_unique (index : Nat) (entry : MotionEntry) :
    (s.setMotionPointers index entry).Unique := by
  refine ⟨unique.keys, ?_⟩
  have same : (s.setMotionPointers index entry).motionMementos.map identity =
      s.motionMementos.map identity := by
    refine map_modify (f := fun memento => setPointers memento entry) (fun _ => rfl) index
  rw [same]
  exact unique.motions

theorem trackJoystick_unique : (s.trackJoystick unset entry flags).Unique := by
  unfold trackJoystick
  rw [findMotionMemento_eq]
  cases found : Keyed.find identity (entry.identity false) s.motionMementos with
  | none =>
    dsimp only
    split
    · exact unique
    · have added := unique_concat (newMotionMemento unset entry flags false) unique.motions
      have same : (newMotionMemento unset entry flags false).identity = entry.identity false := rfl
      rw [same, filter_of_find_eq_none found] at added
      exact ⟨unique.keys, added⟩
  | some index =>
    dsimp only
    split
    · refine ⟨unique.keys, ?_⟩
      rw [eraseMotionMemento, eraseIdx_find unique.motions found]
      exact unique_filter unique.motions
    · exact setMotionPointers_unique unique index entry

theorem trackMove_unique : (s.trackMove unset entry flags).2.Unique := by
  unfold trackMove
  split
  · exact unique
  · split
    · exact trackJoystick_unique unique entry flags
    · split
      · split
        · split
          · exact setMotionPointers_unique unique _ entry
          · exact unique
        · exact unique
      · exact unique

theorem dropMotionMemento_unique (hovering : Bool) :
    (s.dropMotionMemento entry hovering).2.Unique := by
  rw [dropMotionMemento_eq unique]
  exact ⟨unique.keys, unique_filter unique.motions⟩

theorem trackMotion_unique (action : Action) (flags : BitVec 32) :
    (s.trackMotion unset entry action flags).2.Unique := by
  unfold trackMotion
  split
  · exact dropMotionMemento_unique unique entry false
  · exact dropMotionMemento_unique unique entry false
  · exact replaceMotionMemento_unique unique entry flags false
  · exact trackMove_unique unique entry flags
  · exact trackMove_unique unique entry flags
  · exact trackMove_unique unique entry flags
  · exact dropMotionMemento_unique unique entry true
  · exact replaceMotionMemento_unique unique entry flags true
  · exact replaceMotionMemento_unique unique entry flags true
  · exact unique

end Steps

/-- A call of `trackKey` or `trackMotion`. -/
inductive Call where
  | key (entry : KeyEntry) (action : KeyAction) (flags : BitVec 32)
  | motion (entry : MotionEntry) (action : Action) (flags : BitVec 32)

/-- The state behind a call, and the answer. -/
def step (unset : Pointers) (s : InputState) : Call → InputState × List Bool
  | .key entry action flags => ((s.trackKey entry action flags).2,
    [(s.trackKey entry action flags).1])
  | .motion entry action flags =>
    ((s.trackMotion unset entry action flags).2, [(s.trackMotion unset entry action flags).1])

/-- The states that calls can lead to. -/
def reached (unset : Pointers) (calls : List Call) : InputState :=
  (Mealy.run (step unset) start calls).1

theorem unique_reached (unset : Pointers) (calls : List Call) : (reached unset calls).Unique := by
  apply @Mealy.run_invariant _ _ _ (step unset) (fun _ => True) (fun _ _ s => s.Unique) start
  · simp
  · exact ⟨nodup_nil, nodup_nil⟩
  · intro _ call _ s _ unique
    cases call with
    | key entry action flags => exact trackKey_unique unique entry action flags
    | motion entry action flags => exact trackMotion_unique unique entry action flags
  · trivial

/-- An event is tracked with its own action and flags. -/
def callOf : EventEntry → Call
  | .key entry => .key entry entry.action entry.flags
  | .motion entry => .motion entry entry.action entry.flags

/-- Events are fed back. -/
def feed (unset : Pointers) (s : InputState) (events : List EventEntry) : InputState × List Bool :=
  Mealy.run (step unset) s (events.map callOf)

theorem feed_keys (unset : Pointers) (unique : s.Unique) (time : Int) (chosen : List KeyMemento) :
    (feed unset s (chosen.map fun memento => .key (cancelKey time memento))).1.Unique ∧
      (feed unset s (chosen.map fun memento => .key (cancelKey time memento))).1.keyMementos =
        chosen.foldl (fun left a => left.filter fun b => b.identity ≠ a.identity) s.keyMementos ∧
      (feed unset s (chosen.map fun memento => .key (cancelKey time memento))).1.motionMementos =
      s.motionMementos ∧
      ∀ answer ∈ (feed unset s (chosen.map fun memento => .key (cancelKey time memento))).2,
      answer = true := by
  induction chosen generalizing s with
  | nil => simp [feed, unique]
  | cons memento rest ih =>
    have unique' := trackKey_unique unique (cancelKey time memento) .up
      (memento.flags ||| flagCanceled)
    obtain ⟨accepted, keys, motions⟩ := trackKey_up unique (cancelKey time memento)
      (memento.flags ||| flagCanceled)
    obtain ⟨later, keys', motions', answers⟩ := ih unique'
    rw [keys] at keys'
    rw [motions] at motions'
    refine ⟨later, keys', motions', ?_⟩
    simp only [feed, map_cons, Mealy.run, callOf, step] at answers ⊢
    simp only [singleton_append, mem_cons, forall_eq_or_imp]
    exact ⟨accepted, answers⟩

theorem trackMotion_cancel (unique : s.Unique) (time : Int) (memento : MotionMemento)
    (flags : BitVec 32) :
    s.trackMotion unset (cancelMotion time memento) (cancelMotion time memento).action flags =
      (decide (∃ m ∈ s.motionMementos, m.identity = memento.identity),
        { s with motionMementos := s.motionMementos.filter fun m =>
        m.identity ≠ memento.identity }) := by
  have same : (cancelMotion time memento).identity memento.hovering = memento.identity := rfl
  rw [← same]
  cases hovering : memento.hovering with
  | true => simp [trackMotion, cancelMotion, hovering, dropMotionMemento_eq unique]
  | false => simp [trackMotion, cancelMotion, hovering, dropMotionMemento_eq unique]

theorem feed_motions (unset : Pointers) (unique : s.Unique) (time : Int)
    (chosen : List MotionMemento) (distinct : (chosen.map MotionMemento.identity).Nodup)
    (present : ∀ memento ∈ chosen, memento ∈ s.motionMementos) :
    (feed unset s (chosen.map fun memento => .motion (cancelMotion time memento))).1.keyMementos =
      s.keyMementos ∧
      (feed unset s (chosen.map fun memento =>
      .motion (cancelMotion time memento))).1.motionMementos =
        chosen.foldl (fun left a => left.filter fun b => b.identity ≠ a.identity) s.motionMementos ∧
      ∀ answer ∈ (feed unset s (chosen.map fun memento => .motion (cancelMotion time memento))).2,
      answer = true := by
  induction chosen generalizing s with
  | nil => simp [feed]
  | cons memento rest ih =>
    have found : ∃ m ∈ s.motionMementos, m.identity = memento.identity :=
      ⟨memento, present memento mem_cons_self, rfl⟩
    have unique' : (s.trackMotion unset (cancelMotion time memento) _ memento.flags).2.Unique :=
      trackMotion_unique unique _ (cancelMotion time memento).action _
    rw [map_cons, nodup_cons] at distinct
    rw [trackMotion_cancel unique] at unique'
    obtain ⟨keys', motions', answers⟩ := ih unique' distinct.2 (by
      intro m member
      refine mem_filter.mpr ⟨present m (mem_cons_of_mem _ member), decide_eq_true fun same => ?_⟩
      exact distinct.1 (mem_map.mpr ⟨m, member, same⟩))
    have state : (step unset s (callOf (.motion (cancelMotion time memento)))) =
        ({ s with motionMementos := s.motionMementos.filter fun m =>
        m.identity ≠ memento.identity }, [true]) := by
      simp only [step, callOf]
      rw [trackMotion_cancel unique]
      simp [found]
    simp only [feed, map_cons, Mealy.run, state] at keys' motions' answers ⊢
    refine ⟨keys', motions', ?_⟩
    simp only [singleton_append, mem_cons, forall_eq_or_imp]
    exact ⟨trivial, answers⟩

theorem feed_append (first second : List EventEntry) :
    feed unset s (first ++ second) =
      ((feed unset (feed unset s first).1 second).1,
      (feed unset s first).2 ++ (feed unset (feed unset s first).1 second).2) := by
  rw [feed, map_append, Mealy.run_append]
  rfl

theorem feed_cancelation (unset : Pointers) (unique : s.Unique) (time : Int)
    (options : CancelationOptions) :
    (feed unset s (s.synthesizeCancelationEvents time options)).1.keyMementos =
        s.keyMementos.filter (fun memento => !shouldCancelKey memento options) ∧
      (feed unset s (s.synthesizeCancelationEvents time options)).1.motionMementos =
        s.motionMementos.filter (fun memento => !shouldCancelMotion memento options) ∧
      ∀ answer ∈ (feed unset s (s.synthesizeCancelationEvents time options)).2, answer = true := by
  rw [synthesizeCancelationEvents, feed_append]
  obtain ⟨unique', keys, motions, answers⟩ :=
    feed_keys unset unique time (s.keyMementos.filter fun memento =>
      shouldCancelKey memento options)
  have distinct := unique_filter (p := fun memento => shouldCancelMotion memento options)
    unique.motions
  obtain ⟨keys', motions', answers'⟩ := feed_motions unset unique' time
    (s.motionMementos.filter fun memento => shouldCancelMotion memento options) distinct (by
      rw [motions]
      exact fun memento member => mem_of_mem_filter member)
  rw [keys, foldl_remove unique.keys] at keys'
  rw [motions, foldl_remove unique.motions] at motions'
  refine ⟨keys', motions', fun answer member => ?_⟩
  rcases mem_append.mp member with member | member
  · exact answers answer member
  · exact answers' answer member

/-- The actions that need a memento, and whether it is one of hovering. -/
def needs (entry : MotionEntry) (action : Action) : Option Bool :=
  match action.masked with
  | .up | .cancel => some false
  | .hoverExit => some true
  | .move | .pointerDown | .pointerUp =>
    if isFromClass entry.source sourceClassNavigation ||
      isFromClass entry.source sourceClassJoystick then none
    else some false
  | _ => none

theorem trackMotion_accepted (unique : s.Unique) {entry : MotionEntry} {action : Action}
    {flags : BitVec 32} {hovering : Bool} (needed : needs entry action = some hovering)
    (accepted : (s.trackMotion unset entry action flags).1 = true) :
    ∃ memento ∈ s.motionMementos, memento.identity = entry.identity hovering := by
  have dropped (h : Bool) (accepted : (s.dropMotionMemento entry h).1 = true) :
      ∃ memento ∈ s.motionMementos, memento.identity = entry.identity h := by
    rw [dropMotionMemento_eq unique] at accepted
    exact of_decide_eq_true accepted
  have moved (needed : (if isFromClass entry.source sourceClassNavigation ||
      isFromClass entry.source sourceClassJoystick
        then none else some false) = some hovering)
        (accepted : (s.trackMove unset entry flags).1 = true) :
      ∃ memento ∈ s.motionMementos, memento.identity = entry.identity hovering := by
    split at needed
    · cases needed
    · rename_i neither
      simp only [Bool.or_eq_true, not_or] at neither
      cases needed
      rw [← find_isSome, ← findMotionMemento_eq]
      intro nothing
      simp [trackMove, neither, nothing] at accepted
  unfold needs at needed
  unfold trackMotion at accepted
  cases masked : action.masked <;> simp only [masked] at needed accepted <;>
    first
      | exact moved needed accepted
      | (cases needed; exact dropped _ accepted)
      | cases needed

/-- In every state that calls lead to, the cancelation events are accepted and remove the mementos
that the options choose and no others; there is at most one memento for a key and for a pointing
device; and an event that goes on or ends is accepted only if it is known to have begun. -/
theorem cancelation_undoes (unset : Pointers) (calls : List Call) (time : Int)
    (options : CancelationOptions) :
    (reached unset calls).Unique ∧
      (let after := feed unset (reached unset calls)
         ((reached unset calls).synthesizeCancelationEvents time options)
       (∀ answer ∈ after.2, answer = true) ∧
        after.1.keyMementos =
          (reached unset calls).keyMementos.filter (fun m => !shouldCancelKey m options) ∧
        after.1.motionMementos =
          (reached unset calls).motionMementos.filter (fun m => !shouldCancelMotion m options) ∧
        (options = ⟨.allEvents, none, none, none⟩ → after.1.isNeutral = true)) ∧
      ∀ entry action flags hovering, needs entry action = some hovering →
        ((reached unset calls).trackMotion unset entry action flags).1 = true →
        ∃ memento ∈ (reached unset calls).motionMementos,
          memento.identity = entry.identity hovering := by
  have unique := unique_reached unset calls
  obtain ⟨keys, motions, answers⟩ := feed_cancelation unset unique time options
  refine ⟨unique, ⟨answers, keys, motions, ?_⟩,
    fun entry action flags hovering => trackMotion_accepted unique⟩
  rintro rfl
  simp only [shouldCancelKey, shouldCancelMotion, admits] at keys motions
  simp [isNeutral, keys, motions]

/-- A pointer on a touch screen. -/
def touch : MotionEntry where
  eventTime := 1
  deviceId := 1
  source := 0x1002
  displayId := 0
  policyFlags := 0
  action := ⟨.down, 0⟩
  flags := 0
  xPrecision := 0
  yPrecision := 0
  xCursorPosition := 0
  yCursorPosition := 0
  downTime := 1
  pointers := ⟨1, fun _ => ⟨0, .finger⟩, fun _ => ⟨0, []⟩⟩

/-- A key and a pointer are down. -/
def pressed : List Call :=
  [.key ⟨1, 2, 0x101, 0, 0, .down, 0, 30, 48, 0, 0, 1⟩ .down 0,
    .motion touch touch.action touch.flags]

theorem cancelation_undoes_pressed :
    let s := reached touch.pointers pressed
    let after := feed touch.pointers s (s.synthesizeCancelationEvents 2
    ⟨.allEvents, none, none, none⟩)
    s.isNeutral = false ∧ s.Unique ∧ after.2.length = 2 ∧ (∀ answer ∈ after.2, answer = true) ∧
      after.1.isNeutral = true ∧ ∃ memento ∈ s.motionMementos,
      memento.identity = touch.identity false := by
  obtain ⟨unique, ⟨answers, -, -, neutral⟩, accepted⟩ :=
    cancelation_undoes touch.pointers pressed 2 ⟨.allEvents, none, none, none⟩
  exact ⟨by decide, unique, by decide, answers, neutral rfl,
    accepted touch ⟨.up, 0⟩ 0 false rfl (by decide)⟩

end InputState

end Aosp.Input
