import Aosp.Input.Motion
import Aosp.Lib.Keyed

/- `InputState.cpp` of the dispatcher: the keys and pointers that a connection knows to be down. -/
namespace Aosp.Input

/-- `AKEY_EVENT_ACTION_*`. -/
inductive KeyAction where
  | down
  | up
  | multiple
deriving DecidableEq

def flagFallback : BitVec 32 := 0x400

def sourceClassPointer : BitVec 32 := 0x2
def sourceClassNavigation : BitVec 32 := 0x4
def sourceClassJoystick : BitVec 32 := 0x10

/-- `source & class`. -/
def isFromClass (source sourceClass : BitVec 32) : Bool := source &&& sourceClass ≠ 0

structure KeyEntry where
  eventTime : Int
  deviceId : Int
  source : BitVec 32
  displayId : Int
  policyFlags : BitVec 32
  action : KeyAction
  flags : BitVec 32
  keyCode : Int
  scanCode : Int
  metaState : Int
  repeatCount : Int
  downTime : Int

abbrev maxPointers : Nat := 16

/-- `pointerCount`, `pointerProperties` and `pointerCoords`. -/
structure Pointers where
  count : Nat
  properties : Fin maxPointers → PointerProperties
  coords : Fin maxPointers → PointerCoords

/-- Some fields are the same in all entries that are made here: the button, the meta state, the
state of the buttons, the classification and the edge flags. -/
structure MotionEntry where
  eventTime : Int
  deviceId : Int
  source : BitVec 32
  displayId : Int
  policyFlags : BitVec 32
  action : Action
  flags : BitVec 32
  xPrecision : BitVec 32
  yPrecision : BitVec 32
  xCursorPosition : BitVec 32
  yCursorPosition : BitVec 32
  downTime : Int
  pointers : Pointers

inductive EventEntry where
  | key (entry : KeyEntry)
  | motion (entry : MotionEntry)

/-- `CancelationOptions::Mode`. -/
inductive CancelationMode where
  | allEvents
  | pointerEvents
  | nonPointerEvents
  | fallbackEvents
deriving DecidableEq

structure CancelationOptions where
  mode : CancelationMode
  keyCode : Option Int
  deviceId : Option Int
  displayId : Option Int

structure KeyMemento where
  deviceId : Int
  source : BitVec 32
  displayId : Int
  keyCode : Int
  scanCode : Int
  metaState : Int
  flags : BitVec 32
  downTime : Int
  policyFlags : BitVec 32

structure MotionMemento where
  deviceId : Int
  source : BitVec 32
  displayId : Int
  flags : BitVec 32
  xPrecision : BitVec 32
  yPrecision : BitVec 32
  xCursorPosition : BitVec 32
  yCursorPosition : BitVec 32
  downTime : Int
  pointers : Pointers
  /-- -1 if the target knows all pointers. -/
  firstNewPointerIdx : Int
  hovering : Bool
  policyFlags : BitVec 32

/-- Copies the pointers of the entry; the arrays keep what is behind them. -/
def MotionMemento.setPointers (memento : MotionMemento) (entry : MotionEntry) : MotionMemento :=
  { memento with
    pointers := {
      count := entry.pointers.count
      properties := fun i =>
        if i.val < entry.pointers.count then entry.pointers.properties i
          else memento.pointers.properties i
      coords := fun i => if i.val < entry.pointers.count then entry.pointers.coords i
        else memento.pointers.coords i } }

structure InputState where
  keyMementos : List KeyMemento
  motionMementos : List MotionMemento
  fallbackKeys : List (Int × Int)

namespace InputState

def start : InputState := ⟨[], [], []⟩

variable (s : InputState)

def isNeutral : Bool := s.keyMementos.isEmpty && s.motionMementos.isEmpty

def findKeyMemento (entry : KeyEntry) : Option Nat :=
  s.keyMementos.findIdx? fun memento =>
    memento.deviceId = entry.deviceId ∧ memento.source = entry.source ∧
      memento.displayId = entry.displayId ∧ memento.keyCode = entry.keyCode ∧
      memento.scanCode = entry.scanCode

def findMotionMemento (entry : MotionEntry) (hovering : Bool) : Option Nat :=
  s.motionMementos.findIdx? fun memento =>
    memento.deviceId = entry.deviceId ∧ memento.source = entry.source ∧
      memento.displayId = entry.displayId ∧ memento.hovering = hovering

def eraseKeyMemento (index : Nat) : InputState :=
  { s with keyMementos := s.keyMementos.eraseIdx index }

def eraseMotionMemento (index : Nat) : InputState :=
  { s with motionMementos := s.motionMementos.eraseIdx index }

def newKeyMemento (entry : KeyEntry) (flags : BitVec 32) : KeyMemento where
  deviceId := entry.deviceId
  source := entry.source
  displayId := entry.displayId
  keyCode := entry.keyCode
  scanCode := entry.scanCode
  metaState := entry.metaState
  flags := flags
  downTime := entry.downTime
  policyFlags := entry.policyFlags

def addKeyMemento (entry : KeyEntry) (flags : BitVec 32) : InputState :=
  { s with keyMementos := s.keyMementos ++ [newKeyMemento entry flags] }

/-- The arrays of a new memento are not initialized. -/
def newMotionMemento (unset : Pointers) (entry : MotionEntry) (flags : BitVec 32)
    (hovering : Bool) : MotionMemento :=
  MotionMemento.setPointers {
    deviceId := entry.deviceId
    source := entry.source
    displayId := entry.displayId
    flags := flags
    xPrecision := entry.xPrecision
    yPrecision := entry.yPrecision
    xCursorPosition := entry.xCursorPosition
    yCursorPosition := entry.yCursorPosition
    downTime := entry.downTime
    pointers := unset
    firstNewPointerIdx := -1
    hovering := hovering
    policyFlags := entry.policyFlags } entry

section Track

variable (unset : Pointers)

variable (s : InputState) (entry : MotionEntry) (flags : BitVec 32)

def addMotionMemento (hovering : Bool) : InputState :=
  { s with motionMementos := s.motionMementos ++ [newMotionMemento unset entry flags hovering] }

/-- The answer whether the event should be delivered, and the state then. -/
def trackKey (entry : KeyEntry) (action : KeyAction) (flags : BitVec 32) : Bool × InputState :=
  match action with
  | .up =>
    let s :=
      if isFromClass entry.flags flagFallback then
        { s with fallbackKeys := s.fallbackKeys.filter fun pair => pair.2 ≠ entry.keyCode }
      else s
    match s.findKeyMemento entry with
    | some index => (true, s.eraseKeyMemento index)
    | none => (true, s)
  | .down =>
    let s :=
      match s.findKeyMemento entry with
      | some index => s.eraseKeyMemento index
      | none => s
    (true, s.addKeyMemento entry flags)
  | .multiple => (true, s)

/-- A memento in place of the one for the entry. -/
def replaceMotionMemento (hovering : Bool) : InputState :=
  let s :=
    match s.findMotionMemento entry hovering with
    | some index => s.eraseMotionMemento index
    | none => s
  s.addMotionMemento unset entry flags hovering

/-- The memento is removed, if there is one. -/
def dropMotionMemento (hovering : Bool) : Bool × InputState :=
  match s.findMotionMemento entry hovering with
  | some index => (true, s.eraseMotionMemento index)
  | none => (false, s)

def setMotionPointers (index : Nat) (entry : MotionEntry) : InputState :=
  { s with motionMementos := s.motionMementos.modify index fun memento =>
    memento.setPointers entry }

/-- A joystick: a position without axes is the neutral one. -/
def trackJoystick : InputState :=
  let isEmpty := (entry.pointers.coords 0).isEmpty
  match s.findMotionMemento entry false with
  | some index => if isEmpty then s.eraseMotionMemento index else s.setMotionPointers index entry
  | none => if isEmpty then s else s.addMotionMemento unset entry flags false

/-- `POINTER_UP`, `POINTER_DOWN` and `MOVE`. -/
def trackMove : Bool × InputState :=
  if isFromClass entry.source sourceClassNavigation then (true, s)
  else if isFromClass entry.source sourceClassJoystick
    then (true, s.trackJoystick unset entry flags)
  else
    match s.findMotionMemento entry false with
    | some index =>
      match s.motionMementos[index]? with
      | some memento => if memento.firstNewPointerIdx < 0
        then (true, s.setMotionPointers index entry) else (false, s)
      | none => (false, s)
    | none => (false, s)

def trackMotion (action : Action) (flags : BitVec 32) : Bool × InputState :=
  match action.masked with
  | .up | .cancel => s.dropMotionMemento entry false
  | .down => (true, s.replaceMotionMemento unset entry flags false)
  | .pointerUp | .pointerDown | .move => s.trackMove unset entry flags
  | .hoverExit => s.dropMotionMemento entry true
  | .hoverEnter | .hoverMove => (true, s.replaceMotionMemento unset entry flags true)
  | _ => (true, s)

end Track

/-- The filter is not set, or it is for the value. -/
def admits (wanted : Option Int) (value : Int) : Bool := wanted.all fun w => value = w

def shouldCancelKey (memento : KeyMemento) (options : CancelationOptions) : Bool :=
  admits options.keyCode memento.keyCode && admits options.deviceId memento.deviceId &&
    admits options.displayId memento.displayId &&
    match options.mode with
    | .allEvents | .nonPointerEvents => true
    | .fallbackEvents => isFromClass memento.flags flagFallback
    | .pointerEvents => false

def shouldCancelMotion (memento : MotionMemento) (options : CancelationOptions) : Bool :=
  admits options.deviceId memento.deviceId && admits options.displayId memento.displayId &&
    match options.mode with
    | .allEvents => true
    | .pointerEvents => isFromClass memento.source sourceClassPointer
    | .nonPointerEvents => !isFromClass memento.source sourceClassPointer
    | .fallbackEvents => false

variable (currentTime : Int)

def cancelKey (memento : KeyMemento) : KeyEntry where
  eventTime := currentTime
  deviceId := memento.deviceId
  source := memento.source
  displayId := memento.displayId
  policyFlags := memento.policyFlags
  action := .up
  flags := memento.flags ||| flagCanceled
  keyCode := memento.keyCode
  scanCode := memento.scanCode
  metaState := memento.metaState
  repeatCount := 0
  downTime := memento.downTime

def cancelMotion (memento : MotionMemento) : MotionEntry where
  eventTime := currentTime
  deviceId := memento.deviceId
  source := memento.source
  displayId := memento.displayId
  policyFlags := memento.policyFlags
  action := ⟨if memento.hovering then .hoverExit else .cancel, 0⟩
  flags := memento.flags
  xPrecision := memento.xPrecision
  yPrecision := memento.yPrecision
  xCursorPosition := memento.xCursorPosition
  yCursorPosition := memento.yCursorPosition
  downTime := memento.downTime
  pointers := memento.pointers

def synthesizeCancelationEvents (options : CancelationOptions) : List EventEntry :=
  (s.keyMementos.filter fun memento => shouldCancelKey memento options).map
      (fun memento => .key (cancelKey currentTime memento)) ++
    (s.motionMementos.filter fun memento => shouldCancelMotion memento options).map
      (fun memento => .motion (cancelMotion currentTime memento))

end InputState

end Aosp.Input
