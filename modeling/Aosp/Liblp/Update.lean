import Aosp.Lib.Medium
import Aosp.Liblp.Writer

/- Reading and updating the metadata of a super device: the file functions of `reader.cpp`
and `writer.cpp`. The device is open; `fd` is the medium. -/
namespace Aosp.Liblp

open Layout (Byte Medium Write)
open Fallible (require)

/-- `SeekFile64`: an offset is signed, and a negative one is refused. -/
def seekFile64 (offset : BitVec 64) : Option Nat :=
  if offset.msb then none else some offset.toNat

variable (sha256 : Hash) (fd : Medium) (metadata : LpMetadata) (slotNumber : BitVec 32)

/-- One of the two geometry copies. -/
def readGeometryAt (offset : BitVec 64) : Option LpMetadataGeometry := do
  let address ← seekFile64 offset
  require (address + 4096 ≤ fd.size)
  parseGeometry sha256 (fd.region address 4096)

def readLogicalPartitionGeometry : Option LpMetadataGeometry :=
  (readGeometryAt sha256 fd getPrimaryGeometryOffset).or
    (readGeometryAt sha256 fd getBackupGeometryOffset)

variable (geometry : LpMetadataGeometry)

/-- Seek and `ParseMetadata`. A copy from outside the tables has no defined result; here it
counts as a rejection. -/
def readMetadataAt (offset : Option (BitVec 64)) : Option LpMetadata := do
  let address ← seekFile64 (← offset)
  (parseMetadata sha256 geometry (fd.readFrom address)).toOption

def readPrimaryMetadata (slotNumber : BitVec 32) : Option LpMetadata :=
  readMetadataAt sha256 fd geometry (getPrimaryMetadataOffset geometry slotNumber)

def readBackupMetadata (slotNumber : BitVec 32) : Option LpMetadata :=
  readMetadataAt sha256 fd geometry (getBackupMetadataOffset geometry slotNumber)

section Adjust

variable (slotSuffix : Name)

def adjustPartition (partition : LpMetadataPartition) : Option LpMetadataPartition :=
  if partition.attributes &&& attrSlotSuffixed = 0 then some partition
  else (updatePartitionName partition (getPartitionName partition ++ slotSuffix)).map
    fun renamed => { renamed with attributes := renamed.attributes &&& ~~~attrSlotSuffixed }

def adjustBlockDevice (device : LpMetadataBlockDevice) : Option LpMetadataBlockDevice :=
  if device.flags &&& blockDeviceSlotSuffixed = 0 then some device
  else (updateBlockDevicePartitionName device
    (getBlockDevicePartitionName device ++ slotSuffix)).map
    fun renamed => { renamed with flags := renamed.flags &&& ~~~blockDeviceSlotSuffixed }

def adjustGroup (group : LpMetadataPartitionGroup) : Option LpMetadataPartitionGroup :=
  if group.flags &&& groupSlotSuffixed = 0 then some group
  else (updatePartitionGroupName group (getPartitionGroupName group ++ slotSuffix)).map
    fun renamed => { renamed with flags := renamed.flags &&& ~~~groupSlotSuffixed }

end Adjust

/-- `AdjustMetadataForSlot`; also `none` for a slot number that fails the `CHECK`. -/
def adjustMetadataForSlot : Option LpMetadata := do
  let slotSuffix ← slotSuffixForSlotNumber slotNumber
  let partitions ← metadata.partitions.mapM (adjustPartition slotSuffix)
  let blockDevices ← metadata.blockDevices.mapM (adjustBlockDevice slotSuffix)
  let groups ← metadata.groups.mapM (adjustGroup slotSuffix)
  some { metadata with partitions := partitions, blockDevices := blockDevices, groups := groups }

/-- `ReadMetadata`. -/
def readMetadata : Option LpMetadata := do
  let geometry ← readLogicalPartitionGeometry sha256 fd
  require (slotNumber < geometry.metadataSlotCount)
  let metadata ← (readPrimaryMetadata sha256 fd geometry slotNumber).or
    (readBackupMetadata sha256 fd geometry slotNumber)
  adjustMetadataForSlot metadata slotNumber

/-- The region writes of a call, in order, and what it returns. Every read of
`UpdatePartitionTable` comes before its first write, so they depend on the device it found. -/
structure Outcome where
  writes : List Write
  succeeded : Bool

namespace Outcome

def failure : Outcome := ⟨[], false⟩

def andThen (first second : Outcome) : Outcome :=
  if first.succeeded then ⟨first.writes ++ second.writes, second.succeeded⟩ else first

/-- Both are carried out; `ok &= …`. -/
def both (first second : Outcome) : Outcome :=
  ⟨first.writes ++ second.writes, first.succeeded && second.succeeded⟩

end Outcome

/-- Seek and `WriteFully`, which fails when it would leave the device. -/
def writeRegion (offset : BitVec 64) (bytes : List Byte) : Outcome :=
  match seekFile64 offset with
  | none => .failure
  | some address => ⟨[⟨address, bytes⟩], address + bytes.length ≤ fd.size⟩

/-- `WritePrimaryMetadata` and `WriteBackupMetadata`. -/
def writeMetadataAt (offset : Option (BitVec 64)) (blob : List Byte) : Outcome :=
  match offset with
  | none => .failure
  | some offset =>
    if validateMetadataRegion metadata offset blob.length then writeRegion fd offset blob
    else .failure

variable (blob : List Byte)

def writePrimaryMetadata : Outcome :=
  writeMetadataAt fd metadata (getPrimaryMetadataOffset metadata.geometry slotNumber) blob

def writeBackupMetadata : Outcome :=
  writeMetadataAt fd metadata (getBackupMetadataOffset metadata.geometry slotNumber) blob

def writeMetadata : Outcome :=
  if slotNumber < metadata.geometry.metadataSlotCount then
    (writePrimaryMetadata fd metadata slotNumber blob).andThen
      (writeBackupMetadata fd metadata slotNumber blob)
  else .failure

variable (sizes : DeviceSizes)

variable (fd : Medium) (metadata : LpMetadata)

/-- `FlashPartitionTable`: a failed slot does not stop the loop. `slotSuffix` is the suffix of
the super partition's name. -/
def flashPartitionTable (slotSuffix : Name) : Outcome :=
  match validateAndSerializeMetadata sha256 sizes metadata slotSuffix with
  | none => .failure
  | some metadataBlob =>
    let blob := serializeGeometry sha256 metadata.geometry
    (writeRegion fd 0 (List.replicate partitionReservedBytes.toNat 0)).andThen <|
      (writeRegion fd getPrimaryGeometryOffset blob).andThen <|
      (writeRegion fd getBackupGeometryOffset blob).andThen <|
          (List.range metadata.geometry.metadataSlotCount.toNat).foldl
            (fun ok i => ok.both (writeMetadata fd metadata (BitVec.ofNat 32 i) metadataBlob))
            ⟨[], true⟩

/-- The write that brings the two copies in line. -/
def synchronize
    (slotNumber : BitVec 32) (slotSuffix : Name) (primary backup : Option LpMetadata) : Outcome :=
  let serialized (old : LpMetadata) (write : List Byte → Outcome) : Outcome :=
    match validateAndSerializeMetadata sha256 sizes old slotSuffix with
    | none => .failure
    | some oldBlob => write oldBlob
  match primary, backup with
  | some old, none => serialized old (writeBackupMetadata fd metadata slotNumber)
  | some old, some other =>
    if compareMetadata old other then ⟨[], true⟩
    else serialized old (writeBackupMetadata fd metadata slotNumber)
  | none, some old => serialized old (writePrimaryMetadata fd metadata slotNumber)
  | none, none => ⟨[], true⟩

/-- `UpdatePartitionTable`. -/
def updatePartitionTable (slotNumber : BitVec 32) : Outcome :=
  match slotSuffixForSlotNumber slotNumber with
  | none => .failure
  | some slotSuffix =>
  match validateAndSerializeMetadata sha256 sizes metadata slotSuffix with
  | none => .failure
  | some blob =>
  match readLogicalPartitionGeometry sha256 fd with
  | none => .failure
  | some oldGeometry =>
    if compareGeometry metadata.geometry oldGeometry ∧
        slotNumber < metadata.geometry.metadataSlotCount then
      (synchronize sha256 sizes fd metadata slotNumber slotSuffix
        (readPrimaryMetadata sha256 fd metadata.geometry slotNumber)
        (readBackupMetadata sha256 fd metadata.geometry slotNumber)).andThen
        (writeMetadata fd metadata slotNumber blob)
    else .failure

end Aosp.Liblp
