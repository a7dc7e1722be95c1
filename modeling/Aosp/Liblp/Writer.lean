import Aosp.Liblp.Reader
import Aosp.Liblp.Operations

/- `writer.cpp` up to the blob it stores. -/
namespace Aosp.Liblp

open Layout (Byte Fixed)
open Fallible (require)

variable (sha256 : Hash) (metadata : LpMetadata)

/-- The four tables, one after the other. -/
def serializeTables : List Byte :=
  LpMetadataPartition.codec.encodeAll metadata.partitions ++
    (LpMetadataExtent.codec.encodeAll metadata.extents ++
      (LpMetadataPartitionGroup.codec.encodeAll metadata.groups ++
        LpMetadataBlockDevice.codec.encodeAll metadata.blockDevices))

/-- The header with the positions of the tables; sums are taken in `uint32_t`. -/
def placeTables : LpMetadataHeader :=
  let header := metadata.header
  let extentsOffset := BitVec.ofNat 32 (metadata.partitions.length * 52)
  let groupsOffset := extentsOffset + BitVec.ofNat 32 (metadata.extents.length * 24)
  let blockDevicesOffset := groupsOffset + BitVec.ofNat 32 (metadata.groups.length * 48)
  { header with
    partitions := { header.partitions with offset := 0 }
    extents := { header.extents with offset := extentsOffset }
    groups := { header.groups with offset := groupsOffset }
    blockDevices := { header.blockDevices with offset := blockDevicesOffset }
    tablesSize := blockDevicesOffset + BitVec.ofNat 32 (metadata.blockDevices.length * 64) }

/-- The header `SerializeMetadata` stores. -/
def serializedHeader : LpMetadataHeader :=
  let header := { placeTables metadata with tablesChecksum := sha256 (serializeTables metadata) }
  { header with headerChecksum := headerHash sha256 header }

/-- `SerializeMetadata`. -/
def serializeMetadata : List Byte :=
  (LpMetadataHeader.codec.encode (serializedHeader sha256 metadata)).take
      metadata.header.headerSize.toNat ++ serializeTables metadata

/-- `SerializeGeometry`: the structure, padded with zeroes to 4096 bytes. -/
def serializeGeometry (input : LpMetadataGeometry) : List Byte :=
  let blank := { input with checksum := Fixed.zero 32 }
  let geometry := { blank with checksum := sha256 (LpMetadataGeometry.codec.encode blank) }
  LpMetadataGeometry.codec.encode geometry ++ List.replicate (4096 - 52) 0

def compareGeometry (g1 g2 : LpMetadataGeometry) : Bool :=
  g1.metadataMaxSize = g2.metadataMaxSize ∧ g1.metadataSlotCount = g2.metadataSlotCount ∧
    g1.logicalBlockSize = g2.logicalBlockSize

/-- The space both copies of every slot need, as `ValidateAndSerializeMetadata` computes it:
in `uint64_t`, where `GetTotalMetadataSize` stays in `uint32_t`. -/
def totalReserved (geometry : LpMetadataGeometry) : BitVec 64 :=
  let reservedSize := geometrySize.setWidth 64 +
    geometry.metadataMaxSize.setWidth 64 * geometry.metadataSlotCount.setWidth 64
  partitionReservedBytes.setWidth 64 + reservedSize * 2

/-- `GetInfo` of the opener, when the device is there to ask: the host has no such check. -/
abbrev DeviceSizes := Option (Name → Option (BitVec 64))

/-- One round of the block device loop of `ValidateAndSerializeMetadata`. -/
def validateDevice (sizes : DeviceSizes) (slotSuffix : Name) (device : LpMetadataBlockDevice) :
    Option Unit := do
  let suffixed : Bool := device.flags &&& blockDeviceSlotSuffixed ≠ 0
  require (!suffixed || slotSuffix ≠ [])
  let partitionName := getBlockDevicePartitionName device ++ (if suffixed then slotSuffix else [])
  require ((device.firstLogicalSector + 1) * sectorSize ≤ device.size)
  match sizes with
  | none => some ()
  | some getInfo => require (getInfo partitionName = some device.size)

/-- The blob `ValidateAndSerializeMetadata` hands back when it returns `true`. -/
def validateAndSerializeMetadata (sizes : DeviceSizes) (metadata : LpMetadata)
    (slotSuffix : Name) : Option (List Byte) := do
  let blob := serializeMetadata sha256 metadata
  require (blob.length ≤ metadata.geometry.metadataMaxSize.toNat)
  let super ← getMetadataSuperBlockDevice metadata
  require (totalReserved metadata.geometry ≤ super.firstLogicalSector * sectorSize)
  let _ ← metadata.blockDevices.mapM (validateDevice sizes slotSuffix)
  require (metadata.partitions.all fun partition =>
    (partition.firstExtentIndex + partition.numExtents).toNat ≤ metadata.extents.length)
  require (metadata.extents.all fun extent =>
    extent.targetType ≠ targetTypeLinear ∨ (super.firstLogicalSector ≤ extent.targetData ∧
        extent.targetData + extent.numSectors ≤ super.size / sectorSize))
  some blob

/-- `ValidateMetadataRegion`. -/
def validateMetadataRegion (start : BitVec 64) (size : Nat) : Bool :=
  match getMetadataSuperBlockDevice metadata with
  | none => false
  | some super => start + BitVec.ofNat 64 size < super.firstLogicalSector * sectorSize

/-- `CompareMetadata`. -/
def compareMetadata (a b : LpMetadata) : Bool :=
  a.header.headerChecksum = b.header.headerChecksum

end Aosp.Liblp
