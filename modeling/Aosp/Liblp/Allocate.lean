import Aosp.Liblp.Builder

namespace Aosp.Liblp.MetadataBuilder

open Fallible (demand index)

variable (b : MetadataBuilder) (properties : Properties) (partition : Partition)

/-- The gap `ExtentsToFreeList` finds between two neighbours of a sorted list, if any. -/
def freeGap (previous current : Interval) : Option Interval := do
  let device ← b.blockDevices[current.deviceIndex.toNat]?
  let aligned ← alignSector device previous.stop
  if current.start ≤ aligned then none
  else some ⟨current.deviceIndex, aligned, current.start⟩

def extentsToFreeList (b : MetadataBuilder) : List Interval → List Interval
  | previous :: current :: rest =>
    (b.freeGap previous current).toList ++ b.extentsToFreeList (current :: rest)
  | _ => []

variable (device : LpMetadataBlockDevice)

def lastSector : BitVec 64 := device.size / sectorSize

/-- The intervals `GetFreeRegions` collects for the device at position `i`, with the two empty
ones that stand for its ends. Their `uint32_t` index is the truncated loop counter. -/
def deviceExtents (i : Nat) : List Interval :=
  (b.linearExtents.filter fun extent => extent.deviceIndex.toNat = i).map LinearExtent.asInterval
    ++ [⟨BitVec.ofNat 32 i, device.firstLogicalSector, device.firstLogicalSector⟩,
      ⟨BitVec.ofNat 32 i, lastSector device, lastSector device⟩]

def deviceFreeRegions (i : Nat) : List Interval :=
  b.extentsToFreeList ((b.deviceExtents device i).insertionSort Interval.Le)

def getFreeRegions : Except Fault (List Interval) := do
  demand .checkFailed (b.linearExtents.all fun extent =>
    extent.deviceIndex.toNat < b.blockDevices.length)
  .ok (b.blockDevices.zipIdx.flatMap fun (device, i) => b.deviceFreeRegions device i)

def getBlockDevicePartitionName (b : MetadataBuilder) (i : Nat) : Name :=
  match b.blockDevices[i]? with
  | some device => Liblp.getBlockDevicePartitionName device
  | none => []

/-- `IsABDevice() && ShouldHalveSuper() && GetPartitionSlotSuffix(name) == "_b"`. -/
def allocatesBottomUp (name : Name) : Bool :=
  properties.slotSuffix ≠ [] ∧ b.getBlockDevicePartitionName 0 = defaultPartitionName ∧
    properties.virtualAbEnabled = false ∧ getPartitionSlotSuffix name = suffixB

/-- The sector `PrioritizeSecondHalfOfSuper` splits the super device at. -/
def superMidpoint (super : LpMetadataBlockDevice) : Option (BitVec 64) :=
  let firstSector := super.firstLogicalSector
  alignSector super (firstSector + (lastSector super - firstSector) / 2)

/-- The parts of one region below and above the midpoint. -/
def firstHalf (midpoint : BitVec 64) (region : Interval) : List Interval :=
  if region.deviceIndex ≠ 0 ∨ region.stop ≤ midpoint then [region]
  else if region.start < midpoint ∧ midpoint < region.stop then [{ region with stop := midpoint }]
  else []

def secondHalf (midpoint : BitVec 64) (region : Interval) : List Interval :=
  if region.deviceIndex ≠ 0 ∨ region.stop ≤ midpoint then []
  else if region.start < midpoint ∧ midpoint < region.stop then [{ region with start := midpoint }]
  else [region]

def prioritizeSecondHalfOfSuper (super : LpMetadataBlockDevice) (freeList : List Interval) :
    List Interval :=
  match superMidpoint super with
  | none => freeList
  | some midpoint => freeList.flatMap (secondHalf midpoint) ++ freeList.flatMap (firstHalf midpoint)

def isAnyRegionCovered (regions : List Interval) (candidate : LinearExtent) : Bool :=
  regions.any fun region => candidate.overlapsWith region

def isAnyRegionAllocated (candidate : LinearExtent) : Bool :=
  b.linearExtents.any fun linear => linear.overlapsWith candidate.asInterval

/-- The misaligned tail `ExtendFinalExtent` offers before it looks at what is allocated. -/
def misalignedTail (sectorsNeeded : BitVec 64) : Option LinearExtent := do
  let last ← partition.extents.getLast?
  let extent ← last.asLinearExtent
  let device ← b.blockDevices[extent.deviceIndex.toNat]?
  let nextAlignedSector ← alignSector device extent.endSector
  if extent.endSector = nextAlignedSector then none
  else some ⟨stdMin (nextAlignedSector - extent.endSector) sectorsNeeded, extent.deviceIndex,
    extent.endSector⟩

def extendFinalExtent (freeList : List Interval)
    (sectorsNeeded : BitVec 64) : Option LinearExtent := do
  let newExtent ← b.misalignedTail partition sectorsNeeded
  if b.isAnyRegionAllocated newExtent ∨ isAnyRegionCovered freeList newExtent then none
  else some newExtent

/-- A region with its end rounded down to a whole number of blocks. -/
def roundRegion (sectorsPerBlock : BitVec 64) (region : Interval) : Interval :=
  if region.length % sectorsPerBlock ≠ 0 then
    { region with
      stop := region.start + region.length / sectorsPerBlock * sectorsPerBlock }
  else region

/-- The allocation loop of `GrowPartition`: the sectors still needed, and the new extents. -/
def takeRegions (sectorsPerBlock : BitVec 64) :
    List Interval → BitVec 64 → Except Fault (BitVec 64 × List LinearExtent)
  | [], sectorsNeeded => .ok (sectorsNeeded, [])
  | region :: rest, sectorsNeeded =>
    if sectorsNeeded = 0 then .ok (0, [])
    else
      let rounded := roundRegion sectorsPerBlock region
      if region.length % sectorsPerBlock ≠ 0 ∧ rounded.length = 0 then
        takeRegions sectorsPerBlock rest sectorsNeeded
      else do
        let sectors := stdMin sectorsNeeded rounded.length
        demand .checkFailed (sectors % sectorsPerBlock = 0)
        let (left, extents) ← takeRegions sectorsPerBlock rest (sectorsNeeded - sectors)
        .ok (left, ⟨sectors, rounded.deviceIndex, rounded.start⟩ :: extents)

/-- The regions `GrowPartition` allocates from, in order. -/
def candidateRegions (freeRegionHint : List Interval) : Except Fault (List Interval) := do
  let freeRegions ← b.getFreeRegions
  let freeRegions := if freeRegionHint ≠ [] then Interval.intersectAll freeRegions freeRegionHint
    else freeRegions
  if b.allocatesBottomUp properties partition.name then
    let super ← index .outOfRange b.blockDevices 0
    .ok (prioritizeSecondHalfOfSuper super freeRegions)
  else .ok freeRegions

/-- `GrowPartition`; on `false` the partition is returned as it was. -/
def growPartition (alignedSize : BitVec 64) (freeRegionHint : List Interval) :
    Except Fault (Partition × Bool) := do
  let sectorsNeeded := (alignedSize - partition.size) / sectorSize
  let sectorsPerBlock := b.geometry.logicalBlockSize.setWidth 64 / sectorSize
  let freeRegions ← b.candidateRegions properties partition freeRegionHint
  demand .checkFailed (sectorsPerBlock ≠ 0)
  demand .checkFailed (sectorsNeeded % sectorsPerBlock = 0)
  let tail := (b.extendFinalExtent partition freeRegions sectorsNeeded).toList
  let sectorsNeeded := tail.foldl (fun needed extent => needed - extent.numSectors) sectorsNeeded
  let (left, extents) ← takeRegions sectorsPerBlock freeRegions sectorsNeeded
  if left ≠ 0 then .ok (partition, false)
  else .ok ((tail ++ extents).foldl (fun p extent => p.addExtent (.linear extent)) partition, true)

/-- `ValidatePartitionSizeChange`. -/
def validatePartitionSizeChange (oldSize newSize : BitVec 64) (forceCheck : Bool) :
    Except Fault Bool :=
  match b.findGroup partition.groupName with
  | none => .error .checkFailed
  | some group =>
    if !forceCheck ∧ newSize ≤ oldSize then .ok true
    else
      let spaceNeeded := newSize - oldSize
      let groupSize := b.totalSizeOfGroup group
      .ok !(0 < group.maximumSize ∧ (group.maximumSize ≤ groupSize ∨
        group.maximumSize - groupSize < spaceNeeded))

/-- `ResizePartition`, as the new value of the partition and the result. -/
def resizePartition (requestedSize : BitVec 64) (freeRegionHint : List Interval) :
    Except Fault (Partition × Bool) :=
  match alignTo requestedSize b.geometry.logicalBlockSize with
  | none => .ok (partition, false)
  | some alignedSize => do
      let allowed ← b.validatePartitionSizeChange partition partition.size alignedSize false
      if !allowed then .ok (partition, false)
      else if partition.size < alignedSize then
        b.growPartition properties partition alignedSize freeRegionHint
      else if alignedSize < partition.size then
        match partition.shrinkTo alignedSize with
        | some shrunk => .ok (shrunk, true)
        | none => .error .outOfRange
      else .ok (partition, true)

end Aosp.Liblp.MetadataBuilder
