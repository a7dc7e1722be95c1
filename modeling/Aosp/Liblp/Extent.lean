import Aosp.Liblp.Utility

/- Extents, free intervals and partitions of `builder.h`. -/
namespace Aosp.Liblp

def sectorSize : BitVec 64 := 512

/-- `std::min` and `std::max`: the first argument unless the second is strictly better. -/
def stdMin {w : Nat} (a b : BitVec w) : BitVec w := if b < a then b else a
def stdMax {w : Nat} (a b : BitVec w) : BitVec w := if a < b then b else a

@[simp] theorem stdMin_toNat {w : Nat} (a b : BitVec w) :
    (stdMin a b).toNat = min a.toNat b.toNat := by
  simp only [stdMin, BitVec.lt_def]
  split <;> omega

@[simp] theorem stdMax_toNat {w : Nat} (a b : BitVec w) :
    (stdMax a b).toNat = max a.toNat b.toNat := by
  simp only [stdMax, BitVec.lt_def]
  split <;> omega

/-- `Interval`; the field `end` is called `stop`. -/
structure Interval where
  deviceIndex : BitVec 32
  start : BitVec 64
  stop : BitVec 64
deriving DecidableEq

namespace Interval

def length (i : Interval) : BitVec 64 := i.stop - i.start

/-- Not `other < i`, for the source's `operator<`: the device is not compared. -/
def Le (i other : Interval) : Prop :=
  if i.start = other.start then i.stop ≤ other.stop else i.start < other.start

instance : DecidableRel Le := fun i other =>
  inferInstanceAs (Decidable (if i.start = other.start then i.stop ≤ other.stop else i.start <
    other.start))

def intersect (a b : Interval) : Interval :=
  if a.deviceIndex ≠ b.deviceIndex then { a with stop := a.start }
  else
    let start := stdMax a.start b.start
    { a with start := start, stop := stdMax start (stdMin a.stop b.stop) }

/-- The overload on lists keeps the nonempty intersections, in the order of `a`. -/
def intersectAll (a b : List Interval) : List Interval :=
  a.flatMap fun aInterval =>
    (b.map fun bInterval => intersect aInterval bInterval).filter fun i => i.length ≠ 0

end Interval

structure LinearExtent where
  numSectors : BitVec 64
  deviceIndex : BitVec 32
  physicalSector : BitVec 64
deriving DecidableEq

namespace LinearExtent

variable (e : LinearExtent)

def endSector : BitVec 64 := e.physicalSector + e.numSectors

def asInterval : Interval := ⟨e.deviceIndex, e.physicalSector, e.endSector⟩

/-- Both overloads of `OverlapsWith` make this comparison. -/
def overlapsWith (interval : Interval) : Bool :=
  e.deviceIndex = interval.deviceIndex ∧ e.physicalSector < interval.stop ∧
    interval.start < e.endSector

/-- The test of `AddExtent`: `next` starts where `previous` ends, on the same device. -/
def continuedBy (previous next : LinearExtent) : Bool :=
  previous.endSector = next.physicalSector ∧ previous.deviceIndex = next.deviceIndex

/-- The extent `AddExtent` puts in the place of two contiguous ones. -/
def merge (previous next : LinearExtent) : LinearExtent :=
  ⟨previous.numSectors + next.numSectors, previous.deviceIndex, previous.physicalSector⟩

end LinearExtent

inductive Extent where
  | zero (numSectors : BitVec 64)
  | linear (extent : LinearExtent)
deriving DecidableEq

namespace Extent

def numSectors : Extent → BitVec 64
  | zero sectors => sectors
  | linear extent => extent.numSectors

def setNumSectors (sectors : BitVec 64) : Extent → Extent
  | zero _ => zero sectors
  | linear extent => linear { extent with numSectors := sectors }

def asLinearExtent : Extent → Option LinearExtent
  | zero _ => none
  | linear extent => some extent

end Extent

structure Partition where
  name : Name
  groupName : Name
  extents : List Extent
  attributes : BitVec 32
  size : BitVec 64
deriving DecidableEq

namespace Partition

/-- The constructor: no extents yet. -/
def new (name groupName : Name) (attributes : BitVec 32) : Partition :=
  ⟨name, groupName, [], attributes, 0⟩

/-- The list part of `AddExtent`. -/
def appendExtent (extents : List Extent) (extent : Extent) : List Extent :=
  match extents.getLast?, extent with
  | some (.linear previous), .linear next =>
    if previous.continuedBy next then extents.dropLast ++ [.linear (previous.merge next)]
    else extents ++ [extent]
  | _, _ => extents ++ [extent]

variable (p : Partition)

def addExtent (extent : Extent) : Partition :=
  { p with
    size := p.size + extent.numSectors * sectorSize
    extents := appendExtent p.extents extent }

def removeExtents : Partition := { p with size := 0, extents := [] }

/-- The loop of `ShrinkTo` over the extents from last to first. `none` is `back()` on an
empty vector. -/
def shrinkLoop : List Extent → BitVec 64 → BitVec 64 → Option (List Extent × BitVec 64)
  | [], toRemove, size => if toRemove = 0 then some ([], size) else none
  | extent :: rest, toRemove, size =>
    if toRemove = 0 then some (extent :: rest, size)
    else if toRemove < extent.numSectors then
      some (extent.setNumSectors (extent.numSectors - toRemove) :: rest,
        size - toRemove * sectorSize)
    else
      shrinkLoop rest (toRemove - extent.numSectors) (size - extent.numSectors * sectorSize)

def shrinkTo (alignedSize : BitVec 64) : Option Partition :=
  if alignedSize = 0 then some p.removeExtents
  else
    (shrinkLoop p.extents.reverse ((p.size - alignedSize) / sectorSize) p.size).map
      fun (extents, size) => { p with extents := extents.reverse, size := size }

/-- A copy of all extents, one `AddExtent` after the other, cut to the given size. -/
def getBeginningExtents (alignedSize : BitVec 64) : Option Partition :=
  (p.extents.foldl addExtent (new p.name p.groupName p.attributes)).shrinkTo alignedSize

def linearExtents : List LinearExtent := p.extents.filterMap Extent.asLinearExtent

def bytesOnDisk : BitVec 64 :=
  (p.linearExtents.foldl (fun sectors extent => sectors + extent.numSectors) 0) * sectorSize

end Partition

end Aosp.Liblp
