import Aosp.Liblp.Allocate

/- `Export`, `Init(LpMetadata)`, `ImportPartitions` and the public operations of
`MetadataBuilder` as one step function. -/
namespace Aosp.Liblp

open Fallible (index require)

namespace Extent

/-- `AddTo`: the table entry, or failure for a device the table does not have. -/
def addTo (blockDeviceCount : Nat) : Extent → Option LpMetadataExtent
  | linear extent =>
    if blockDeviceCount ≤ extent.deviceIndex.toNat then none
    else some ⟨extent.numSectors, targetTypeLinear, extent.physicalSector, extent.deviceIndex⟩
  | zero sectors => some ⟨sectors, targetTypeZero, 0, 0⟩

/-- The extent `ImportExtents` makes of a table entry; other target types are skipped. -/
def ofEntry (entry : LpMetadataExtent) : Option Extent :=
  if entry.targetType = targetTypeLinear then
    some (linear ⟨entry.numSectors, entry.targetSource, entry.targetData⟩)
  else if entry.targetType = targetTypeZero then some (zero entry.numSectors)
  else none

end Extent

namespace MetadataBuilder

variable (b : MetadataBuilder) (metadata : LpMetadata)

def validatePartitionGroups : Bool :=
  b.groups.all fun group =>
    group.maximumSize = 0 ∨ ¬ group.maximumSize < b.totalSizeOfGroup group

def exportGroup (group : PartitionGroup) : Option LpMetadataPartitionGroup := do
  require (group.name.length ≤ 36)
  some ⟨strncpy 36 group.name, if b.autoSlotSuffixing ∧ group.name ≠ defaultGroup
    then groupSlotSuffixed else 0, group.maximumSize⟩

/-- The entry `group_indices` holds for a name; a later group of the name replaces it. -/
def groupIndex (groupName : Name) : Option Nat :=
  (b.groups.zipIdx.reverse.find? fun entry => entry.1.name = groupName).map Prod.snd

def exportBlockDevice (device : LpMetadataBlockDevice) : LpMetadataBlockDevice :=
  if b.autoSlotSuffixing then { device with flags := device.flags ||| blockDeviceSlotSuffixed }
  else device

/-- One round of the partition loop of `Export`. Counts and indices are cast to `uint32_t`. -/
def exportPartition (partition : Partition) : Option LpMetadata := do
  require (partition.name.length ≤ 36)
  require (partition.attributes &&& ~~~attributeMask = 0)
  let groupIndex ← b.groupIndex partition.groupName
  let extents ← partition.extents.mapM (Extent.addTo metadata.blockDevices.length)
  let part : LpMetadataPartition :=
    ⟨strncpy 36 partition.name, if b.autoSlotSuffixing
      then partition.attributes ||| attrSlotSuffixed
      else partition.attributes, BitVec.ofNat 32 metadata.extents.length,
      BitVec.ofNat 32 partition.extents.length, BitVec.ofNat 32 groupIndex⟩
  let minorVersion :=
    if partition.attributes &&& attributeMaskV1 ≠ 0 then
      stdMax metadata.header.minorVersion versionForUpdatedAttr
    else metadata.header.minorVersion
  some { metadata with
    header := { metadata.header with minorVersion := minorVersion }
    partitions := metadata.partitions ++ [part]
    extents := metadata.extents ++ extents }

/-- The entry counts `Export` stores last. -/
def countEntries : LpMetadataHeader :=
  { metadata.header with
    partitions := { metadata.header.partitions with
      numEntries := BitVec.ofNat 32 metadata.partitions.length }
    extents := { metadata.header.extents with
      numEntries := BitVec.ofNat 32 metadata.extents.length }
    groups := { metadata.header.groups with
      numEntries := BitVec.ofNat 32 metadata.groups.length }
    blockDevices := { metadata.header.blockDevices with
      numEntries := BitVec.ofNat 32 metadata.blockDevices.length } }

/-- `Export`; `none` is the null pointer. -/
def exportMetadata : Option LpMetadata := do
  require b.validatePartitionGroups
  let groups ← b.groups.mapM b.exportGroup
  let metadata ← b.partitions.foldlM b.exportPartition
    ⟨b.geometry, b.header, [], [], groups, b.blockDevices.map b.exportBlockDevice⟩
  some { metadata with header := countEntries metadata }

def requireExpandedMetadataHeader : MetadataBuilder :=
  if versionForExpandedHeader ≤ b.header.minorVersion then b
  else { b with header := { b.header with
    minorVersion := versionForExpandedHeader
    headerSize := headerSizeV12 } }

def setVirtualABDeviceFlag : MetadataBuilder :=
  let b := b.requireExpandedMetadataHeader
  { b with header := { b.header with flags := b.header.flags ||| headerFlagVirtualABDevice } }

/-- Change the first partition of a name, the one a handle points to. -/
def updateFirst (name : Name) (change : Partition → Except Fault (Partition × Bool)) :
    List Partition → Except Fault (List Partition × Bool)
  | [] => .error .danglingHandle
  | partition :: rest =>
    if partition.name = name then do
      let (changed, result) ← change partition
      .ok (changed :: rest, result)
    else do
      let (rest, result) ← updateFirst name change rest
      .ok (partition :: rest, result)

/-- Run a change through a partition handle. -/
def withPartition (name : Name) (change : Partition → Except Fault (Partition × Bool)) :
    Except Fault (MetadataBuilder × Bool) := do
  let (partitions, result) ← updateFirst name change b.partitions
  .ok ({ b with partitions := partitions }, result)

variable (source : LpMetadataPartition) (partition : Partition)

/-- One round of `ImportExtents`. -/
def importExtent (i : Nat) : Except Fault Partition := do
  let entry ← index .outOfRange metadata.extents (source.firstExtentIndex.toNat + i)
  match Extent.ofEntry entry with
  | some extent => .ok (partition.addExtent extent)
  | none => .ok partition

def importExtents : Except Fault Partition :=
  (List.range source.numExtents.toNat).foldlM (importExtent metadata source) partition

end MetadataBuilder

end Aosp.Liblp
