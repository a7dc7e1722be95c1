import Mathlib.Data.Nat.Notation

/- Motion events, as `NotifyMotionArgs` has them. -/
namespace Aosp.Input

/-- `AMOTION_EVENT_TOOL_TYPE_*`. -/
inductive ToolType where
  | unknown
  | finger
  | stylus
  | mouse
  | eraser
  | palm
deriving DecidableEq

/-- The actions without the index of a pointer. The last one is for all other values. -/
inductive ActionMasked where
  | down
  | up
  | move
  | cancel
  | outside
  | pointerDown
  | pointerUp
  | hoverMove
  | scroll
  | hoverEnter
  | hoverExit
  | buttonPress
  | buttonRelease
  | other
deriving DecidableEq

/-- An action: what `getActionMasked` and `getActionIndex` return. -/
@[ext]
structure Action where
  masked : ActionMasked
  index : Nat := 0
deriving DecidableEq

structure PointerProperties where
  id : Int
  toolType : ToolType
deriving DecidableEq

/-- Which axes there are, and their values; a float is its bits. -/
structure PointerCoords where
  bits : BitVec 64
  values : List (BitVec 32)
deriving DecidableEq

def PointerCoords.isEmpty (coords : PointerCoords) : Bool := coords.bits = 0

/-- An element of `pointerProperties` and of `pointerCoords`. -/
structure Pointer where
  properties : PointerProperties
  coords : PointerCoords
deriving DecidableEq

structure NotifyMotionArgs where
  eventTime : Int
  deviceId : Int
  action : Action
  flags : BitVec 32
  pointers : List Pointer
deriving DecidableEq

/-- `AMOTION_EVENT_FLAG_CANCELED`, which is that of a key event. -/
def flagCanceled : BitVec 32 := 0x20

end Aosp.Input
