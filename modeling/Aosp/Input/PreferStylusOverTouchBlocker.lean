import Mathlib.Data.Finset.Basic
import Aosp.Input.Motion
import Aosp.Lib.StdMap

/- `PreferStylusOverTouchBlocker.cpp`: touch is not delivered while a stylus is down. -/
namespace Aosp.Input

open List

/-- The members of `PreferStylusOverTouchBlocker`. -/
structure StylusBlocker where
  activeStyli : Finset Int
  lastTouchEvents : List (Int × NotifyMotionArgs)
  canceledDevices : Finset Int
  devicesWithMixedToolType : Finset Int

namespace StylusBlocker

def start : StylusBlocker := ⟨∅, [], ∅, ∅⟩

/-- Whether there is touch, and whether there is a stylus. -/
def checkToolType (args : NotifyMotionArgs) : Bool × Bool :=
  (args.pointers.any fun p => p.properties.toolType = .finger,
    args.pointers.any fun p => p.properties.toolType = .stylus ∨ p.properties.toolType = .eraser)

def isUpOrCancel (args : NotifyMotionArgs) : Bool :=
  args.action = ⟨.up, 0⟩ ∨ args.action = ⟨.cancel, 0⟩

/-- The event that cancels the gesture of an event. -/
def toCancel (time : Int) (event : NotifyMotionArgs) : NotifyMotionArgs :=
  { event with action := ⟨.cancel, 0⟩, flags := event.flags ||| flagCanceled, eventTime := time }

/-- The loop over the last touch events: what it leaves of them, the devices that are canceled then,
and the events for them. The time is read for each device. -/
def cancelTouch (now : Int → Int) : List (Int × NotifyMotionArgs) → Finset Int →
    List (Int × NotifyMotionArgs) × Finset Int × List NotifyMotionArgs
  | [], canceled => ([], canceled, [])
  | (deviceId, lastTouchEvent) :: rest, canceled =>
    if deviceId ∈ canceled then
      let (events, canceled, result) := cancelTouch now rest canceled
      ((deviceId, lastTouchEvent) :: events, canceled, result)
    else
      let lastTouchEvent := toCancel (now deviceId) lastTouchEvent
      let (events, canceled, result) := cancelTouch now rest (insert deviceId canceled)
      ((deviceId, lastTouchEvent) :: events, canceled, lastTouchEvent :: result)

variable (s : StylusBlocker)

/-- The touch of a device has ended. -/
def endTouch (deviceId : Int) : StylusBlocker :=
  { s with
    canceledDevices := s.canceledDevices.erase deviceId
    lastTouchEvents := StdMap.erase deviceId s.lastTouchEvents }

def processStylus (now : Int → Int) (args : NotifyMotionArgs) :
    StylusBlocker × List NotifyMotionArgs :=
  if args.action = ⟨.down, 0⟩ then
    let (events, canceled, result) := cancelTouch now s.lastTouchEvents s.canceledDevices
    ({ s with
        activeStyli := insert args.deviceId s.activeStyli
        lastTouchEvents := events
        canceledDevices := canceled }, result ++ [args])
  else if isUpOrCancel args
    then ({ s with activeStyli := s.activeStyli.erase args.deviceId }, [args])
  else (s, [args])

def processTouch (args : NotifyMotionArgs) : StylusBlocker × List NotifyMotionArgs :=
  let s := if s.activeStyli ≠ ∅
    then { s with canceledDevices := insert args.deviceId s.canceledDevices } else s
  let shouldDrop := decide (args.deviceId ∈ s.canceledDevices)
  let s := if isUpOrCancel args then s.endTouch args.deviceId else s
  if shouldDrop then (s, [])
  else if isUpOrCancel args then (s, [args])
  else ({ s with lastTouchEvents := StdMap.put args.deviceId args s.lastTouchEvents }, [args])

def processMotion (now : Int → Int) (args : NotifyMotionArgs) :
    StylusBlocker × List NotifyMotionArgs :=
  let (hasTouch, hasStylus) := checkToolType args
  let s :=
    if hasTouch && hasStylus then
      { s with devicesWithMixedToolType := insert args.deviceId s.devicesWithMixedToolType }
    else s
  if args.deviceId ∈ s.devicesWithMixedToolType then
    if args.deviceId ∈ s.canceledDevices then
      (if isUpOrCancel args then s.endTouch args.deviceId else s, [])
    else (s, [args])
  else if hasStylus then processStylus s now args
  else if hasTouch then processTouch s args
  else (s, [args])

end StylusBlocker

/-- What a gesture is made with. -/
inductive Tool where
  | finger
  | stylus
deriving DecidableEq

def Tool.types : Tool → List ToolType
  | .finger => [.finger]
  | .stylus => [.stylus, .eraser]

/-- There are pointers, and all of them are of the tool. -/
def NotifyMotionArgs.MadeWith (args : NotifyMotionArgs) (tool : Tool) : Prop :=
  args.pointers ≠ [] ∧ ∀ p ∈ args.pointers, p.properties.toolType ∈ tool.types

instance (args : NotifyMotionArgs) (tool : Tool) : Decidable (args.MadeWith tool) :=
  inferInstanceAs (Decidable (_ ∧ _))

namespace StylusBlocker

variable {s : StylusBlocker} {now : Int → Int} {args : NotifyMotionArgs}

theorem checkToolType_finger (made : args.MadeWith .finger) :
    checkToolType args = (true, false) := by
  obtain ⟨filled, all⟩ := made
  obtain ⟨p, member⟩ := exists_mem_of_ne_nil _ filled
  have finger : ∀ p ∈ args.pointers, p.properties.toolType = .finger := fun p member => by
    simpa [Tool.types] using all p member
  refine Prod.ext ?_ ?_
  · exact any_eq_true.mpr ⟨p, member, by simp [finger p member]⟩
  · exact any_eq_false.mpr fun q here => by simp [finger q here]

theorem checkToolType_stylus (made : args.MadeWith .stylus) :
    checkToolType args = (false, true) := by
  obtain ⟨filled, all⟩ := made
  obtain ⟨p, member⟩ := exists_mem_of_ne_nil _ filled
  have stylus : ∀ p ∈ args.pointers, p.properties.toolType = .stylus ∨
      p.properties.toolType = .eraser :=
    fun p member => by simpa [Tool.types] using all p member
  refine Prod.ext ?_ ?_
  · refine any_eq_false.mpr fun q here => ?_
    rcases stylus q here with is | is <;> simp [is]
  · exact any_eq_true.mpr ⟨p, member, by simpa using stylus p member⟩

theorem processMotion_finger (unmixed : s.devicesWithMixedToolType = ∅)
    (made : args.MadeWith .finger) :
    s.processMotion now args = s.processTouch args := by
  simp [processMotion, checkToolType_finger made, unmixed]

theorem processMotion_stylus (unmixed : s.devicesWithMixedToolType = ∅)
    (made : args.MadeWith .stylus) :
    s.processMotion now args = s.processStylus now args := by
  simp [processMotion, checkToolType_stylus made, unmixed]

section Cancel

variable {entries : List (Int × NotifyMotionArgs)} {canceled : Finset Int}

theorem mem_cancelTouch (d : Int) :
    d ∈ (cancelTouch now entries canceled).2.1 ↔ d ∈ canceled ∨ List.lookup d entries ≠ none := by
  induction entries generalizing canceled with
  | nil => simp [cancelTouch]
  | cons entry rest ih =>
    obtain ⟨k, event⟩ := entry
    by_cases done : k ∈ canceled
    · simp only [cancelTouch, done, ↓reduceIte, ih]
      by_cases here : d = k
      · simp [here, done]
      · simp [here]
    · simp only [cancelTouch, done, ↓reduceIte, ih]
      by_cases here : d = k
      · simp [here]
      · simp [here]

theorem lookup_cancelTouch (d : Int) :
    List.lookup d (cancelTouch now entries canceled).1 = none ↔ List.lookup d entries = none := by
  induction entries generalizing canceled with
  | nil => simp [cancelTouch]
  | cons entry rest ih =>
    obtain ⟨k, event⟩ := entry
    by_cases done : k ∈ canceled
    · simp only [cancelTouch, done, ↓reduceIte, StdMap.lookup_cons]
      split
      · simp
      · exact ih
    · simp only [cancelTouch, done, ↓reduceIte, StdMap.lookup_cons]
      split
      · simp
      · exact ih

/-- The events are those of the devices that have not been canceled before. -/
theorem mem_cancelTouch_result {event : NotifyMotionArgs}
    (member : event ∈ (cancelTouch now entries canceled).2.2) :
    ∃ d last, d ∉ canceled ∧ List.lookup d entries = some last ∧ event = toCancel (now d) last := by
  induction entries generalizing canceled with
  | nil => cases member
  | cons entry rest ih =>
    obtain ⟨k, last⟩ := entry
    by_cases done : k ∈ canceled
    · simp only [cancelTouch, done] at member
      obtain ⟨d, last', fresh, found, same⟩ := ih member
      refine ⟨d, last', fresh, ?_, same⟩
      have apart : d ≠ k := fun eq => fresh (eq ▸ done)
      rw [StdMap.lookup_cons, if_neg apart, found]
    · simp only [cancelTouch, done, ↓reduceIte, mem_cons] at member
      rcases member with rfl | member
      · exact ⟨k, last, done, by simp, rfl⟩
      · obtain ⟨d, last', fresh, found, same⟩ := ih member
        rw [Finset.mem_insert, not_or] at fresh
        exact ⟨d, last', fresh.2, by rw [StdMap.lookup_cons, if_neg fresh.1, found], same⟩

/-- There is one event for a device with touch that has not been canceled, and none for the others.
-/
theorem filter_cancelTouch
    (named : ∀ d last, d ∉ canceled → List.lookup d entries = some last → last.deviceId = d)
    (d : Int) :
    (cancelTouch now entries canceled).2.2.filter (fun event => event.deviceId = d) =
      if d ∈ canceled then [] else ((List.lookup d entries).map (toCancel (now d))).toList := by
  induction entries generalizing canceled with
  | nil => simp [cancelTouch]
  | cons entry rest ih =>
    obtain ⟨k, last⟩ := entry
    by_cases done : k ∈ canceled
    · have named' : ∀ d last, d ∉ canceled → List.lookup d rest = some last →
          last.deviceId = d := by
        intro d' last' fresh found
        have apart : d' ≠ k := fun eq => fresh (eq ▸ done)
        exact named d' last' fresh (by rw [StdMap.lookup_cons, if_neg apart, found])
      simp only [cancelTouch, done, ↓reduceIte, ih named', StdMap.lookup_cons]
      by_cases here : d = k
      · simp [here, done]
      · simp [here]
    · have named' : ∀ d last, d ∉ insert k canceled → List.lookup d rest = some last →
          last.deviceId = d := by
        intro d' last' fresh found
        rw [Finset.mem_insert, not_or] at fresh
        exact named d' last' fresh.2 (by rw [StdMap.lookup_cons, if_neg fresh.1, found])
      have name : last.deviceId = k := named k last done (by simp)
      simp only [cancelTouch, done, ↓reduceIte, filter_cons, ih named',
        StdMap.lookup_cons, toCancel]
      by_cases here : d = k
      · subst here
        simp [name, done, toCancel]
      · have apart : last.deviceId ≠ d := fun eq => here (eq.symm.trans name)
        simp [here, apart]

end Cancel

end StylusBlocker

end Aosp.Input
