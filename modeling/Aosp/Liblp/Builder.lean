import Mathlib.Data.List.Sort
import Aosp.Lib.Fallible
import Aosp.Liblp.Extent

/- `MetadataBuilder`: construction, groups, partitions and allocation (`builder.cpp`).
A handle `Partition*` is the name of the partition it points to: names are unique and never
change. Log messages are left out. -/
namespace Aosp.Liblp

open Layout (Fixed)
open Fallible (index require)

/-- Ways in which a call does not return: a failed `CHECK`, an index outside a vector, a
division by zero, a handle to no partition. -/
inductive Fault where
  | checkFailed
  | outOfRange
  | divisionByZero
  | danglingHandle
deriving DecidableEq

/-- `BlockDeviceInfo` of `partition_opener.h`. -/
structure BlockDeviceInfo where
  size : BitVec 64
  alignment : BitVec 32
  alignmentOffset : BitVec 32
  logicalBlockSize : BitVec 32
  partitionName : Name
deriving DecidableEq

structure PartitionGroup where
  name : Name
  maximumSize : BitVec 64
deriving DecidableEq

/-- The system properties allocation depends on: `ro.boot.slot_suffix` and
`ro.virtual_ab.enabled`. -/
structure Properties where
  slotSuffix : Name
  virtualAbEnabled : Bool
deriving DecidableEq

structure MetadataBuilder where
  geometry : LpMetadataGeometry
  header : LpMetadataHeader
  partitions : List Partition
  groups : List PartitionGroup
  blockDevices : List LpMetadataBlockDevice
  autoSlotSuffixing : Bool
deriving DecidableEq

def headerSizeV10 : BitVec 32 := 128
def headerSizeV12 : BitVec 32 := 256

/-- The header the constructor fills in. -/
def initialHeader : LpMetadataHeader where
  magic := headerMagic
  majorVersion := majorVersion
  minorVersion := minorVersionMin
  headerSize := headerSizeV10
  headerChecksum := Fixed.zero 32
  tablesSize := 0
  tablesChecksum := Fixed.zero 32
  partitions := ⟨0, 0, 52⟩
  extents := ⟨0, 0, 24⟩
  groups := ⟨0, 0, 48⟩
  blockDevices := ⟨0, 0, 64⟩
  flags := 0
  reserved := Fixed.zero 124

/-- `AlignSector`: the byte address may wrap, as `sector * LP_SECTOR_SIZE` does. -/
def alignSector (device : LpMetadataBlockDevice) (sector : BitVec 64) : Option (BitVec 64) := do
  let lba := sector * sectorSize
  let out ← alignTo lba device.alignment
  let out ← alignTo out 512
  some (out / sectorSize)

def verifyDeviceProperties (info : BlockDeviceInfo) : Bool :=
  info.logicalBlockSize ≠ 0 ∧ info.logicalBlockSize % 512 = 0 ∧
    info.size % info.logicalBlockSize.setWidth 64 = 0 ∧
    info.alignmentOffset % 512 = 0 ∧ info.alignment % 512 = 0

namespace MetadataBuilder

/-- The constructor. -/
def empty : MetadataBuilder where
  geometry := ⟨geometryMagic, 52, Fixed.zero 32, 0, 0, 0⟩
  header := initialHeader
  partitions := []
  groups := []
  blockDevices := []
  autoSlotSuffixing := false

/-- The first sector after `start`, aligned as `Init` aligns it. -/
def freeAreaStart (start : BitVec 64) (alignment logicalBlockSize : BitVec 32) :
    Option (BitVec 64) :=
  alignTo start (if alignment ≠ 0 then alignment else logicalBlockSize)

/-- One round of the block device loop of `Init`. The state is the common logical block
size (zero before the first round) and the devices so far, the super device first. -/
def initDevice (superPartition : Name) (state : BitVec 32 × List LpMetadataBlockDevice)
    (info : BlockDeviceInfo) : Option (BitVec 32 × List LpMetadataBlockDevice) := do
  require (verifyDeviceProperties info)
  let logicalBlockSize := if state.1 = 0 then info.logicalBlockSize else state.1
  require (logicalBlockSize = info.logicalBlockSize)
  require (info.partitionName.length ≤ 36)
  let start ← freeAreaStart sectorSize info.alignment logicalBlockSize
  let firstLogicalSector := start / sectorSize
  let minimumSize := firstLogicalSector * sectorSize + logicalBlockSize.setWidth 64
  require (minimumSize ≤ info.size)
  let out : LpMetadataBlockDevice :=
    ⟨firstLogicalSector, info.alignment, info.alignmentOffset, info.size,
      strncpy 36 info.partitionName, 0⟩
  some (logicalBlockSize, if info.partitionName = superPartition then out :: state.2
    else state.2 ++ [out])

/-- The second half of `Init`: reserve the metadata area on the super device. -/
def initSuper (super : LpMetadataBlockDevice)
    (metadataMaxSize metadataSlotCount logicalBlockSize : BitVec 32) :
    Option LpMetadataBlockDevice := do
  let totalReserved := getTotalMetadataSize metadataMaxSize metadataSlotCount
  require (totalReserved ≤ super.size)
  let start ← freeAreaStart totalReserved super.alignment logicalBlockSize
  let firstLogicalSector := start / sectorSize
  let minimumDiskSize := firstLogicalSector * sectorSize + logicalBlockSize.setWidth 64
  require (minimumDiskSize ≤ super.size)
  some { super with firstLogicalSector := firstLogicalSector }

variable (b : MetadataBuilder)

def findGroup (groupName : Name) : Option PartitionGroup :=
  b.groups.find? fun group => group.name = groupName

def findPartition (name : Name) : Option Partition :=
  b.partitions.find? fun partition => partition.name = name

def addGroup (groupName : Name) (maximumSize : BitVec 64) : MetadataBuilder × Bool :=
  if (b.findGroup groupName).isSome then (b, false)
  else ({ b with groups := b.groups ++ [⟨groupName, maximumSize⟩] }, true)

/-- `Init(block_devices, super_partition, metadata_max_size, metadata_slot_count)` on a
fresh builder, as `New` calls it; `none` is the null pointer. -/
def new (blockDevices : List BlockDeviceInfo) (superPartition : Name)
    (metadataMaxSize metadataSlotCount : BitVec 32) : Option MetadataBuilder := do
  require (headerSizeV12 ≤ metadataMaxSize)
  require (metadataSlotCount ≠ 0)
  require (blockDevices ≠ [])
  let metadataMaxSize ← alignTo metadataMaxSize 512
  let (logicalBlockSize, devices) ← blockDevices.foldlM (initDevice superPartition) (0, [])
  let super ← devices.head?
  require (getBlockDevicePartitionName super = superPartition)
  let super ← initSuper super metadataMaxSize metadataSlotCount logicalBlockSize
  let (b, added) :=
    { empty with
      blockDevices := super :: devices.tail
      geometry := { empty.geometry with
        metadataMaxSize := metadataMaxSize
        metadataSlotCount := metadataSlotCount
        logicalBlockSize := logicalBlockSize } }.addGroup defaultGroup 0
  require added
  some b

/-- The returned pointer is only observed as being null or not. -/
def addPartition (name groupName : Name) (attributes : BitVec 32) : MetadataBuilder × Bool :=
  if name = [] then (b, false)
  else if (b.findPartition name).isSome then (b, false)
  else if (b.findGroup groupName).isNone then (b, false)
  else ({ b with partitions := b.partitions ++ [Partition.new name groupName attributes] }, true)

def removePartition (name : Name) : MetadataBuilder :=
  { b with partitions := b.partitions.eraseP fun partition => partition.name = name }

def totalSizeOfGroup (group : PartitionGroup) : BitVec 64 :=
  (b.partitions.filter fun partition => partition.groupName = group.name).foldl
    (fun total partition => total + partition.bytesOnDisk) 0

def linearExtents (b : MetadataBuilder) : List LinearExtent :=
  b.partitions.flatMap Partition.linearExtents

end MetadataBuilder

end Aosp.Liblp
