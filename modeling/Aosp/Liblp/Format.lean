import Aosp.Lib.Codec

/- `metadata_format.h`: the on-disk structures of the logical partition table. -/
namespace Aosp.Liblp

open Layout (Byte Fixed Codec)

/-- A `std::string`; the NUL byte is an ordinary member of it. -/
abbrev Name := List Byte

def ascii (chars : List Char) : Name := chars.map fun c => BitVec.ofNat 8 c.toNat

def geometryMagic : BitVec 32 := 0x616c4467
def geometrySize : BitVec 32 := 4096
def headerMagic : BitVec 32 := 0x414C5030
def majorVersion : BitVec 16 := 10
def minorVersionMin : BitVec 16 := 0
def minorVersionMax : BitVec 16 := 2
def versionForUpdatedAttr : BitVec 16 := 1
def versionForExpandedHeader : BitVec 16 := 2
def partitionReservedBytes : BitVec 32 := 4096

def attrReadonly : BitVec 32 := 1
def attrSlotSuffixed : BitVec 32 := 2
def attrUpdated : BitVec 32 := 4
def attrDisabled : BitVec 32 := 8
def attributeMaskV0 : BitVec 32 := attrReadonly ||| attrSlotSuffixed
def attributeMaskV1 : BitVec 32 := attrUpdated ||| attrDisabled
def attributeMask : BitVec 32 := attributeMaskV0 ||| attributeMaskV1
def groupSlotSuffixed : BitVec 32 := 1
def blockDeviceSlotSuffixed : BitVec 32 := 1
def headerFlagVirtualABDevice : BitVec 32 := 1

/-- `LP_TARGET_TYPE_LINEAR` and `LP_TARGET_TYPE_ZERO`. -/
def targetTypeLinear : BitVec 32 := 0
def targetTypeZero : BitVec 32 := 1

/-- `LP_METADATA_DEFAULT_PARTITION_NAME`. -/
def defaultPartitionName : Name := ascii ['s', 'u', 'p', 'e', 'r']
/-- `kDefaultGroup`. -/
def defaultGroup : Name := ascii ['d', 'e', 'f', 'a', 'u', 'l', 't']

structure LpMetadataGeometry where
  magic : BitVec 32
  structSize : BitVec 32
  checksum : Fixed 32
  metadataMaxSize : BitVec 32
  metadataSlotCount : BitVec 32
  logicalBlockSize : BitVec 32
deriving DecidableEq

structure LpMetadataTableDescriptor where
  offset : BitVec 32
  numEntries : BitVec 32
  entrySize : BitVec 32
deriving DecidableEq

/-- The header in memory. `flags` and `reserved` are only stored by version 1.2. -/
structure LpMetadataHeader where
  magic : BitVec 32
  majorVersion : BitVec 16
  minorVersion : BitVec 16
  headerSize : BitVec 32
  headerChecksum : Fixed 32
  tablesSize : BitVec 32
  tablesChecksum : Fixed 32
  partitions : LpMetadataTableDescriptor
  extents : LpMetadataTableDescriptor
  groups : LpMetadataTableDescriptor
  blockDevices : LpMetadataTableDescriptor
  flags : BitVec 32
  reserved : Fixed 124
deriving DecidableEq

structure LpMetadataPartition where
  name : Fixed 36
  attributes : BitVec 32
  firstExtentIndex : BitVec 32
  numExtents : BitVec 32
  groupIndex : BitVec 32
deriving DecidableEq

structure LpMetadataExtent where
  numSectors : BitVec 64
  targetType : BitVec 32
  targetData : BitVec 64
  targetSource : BitVec 32
deriving DecidableEq

structure LpMetadataPartitionGroup where
  name : Fixed 36
  flags : BitVec 32
  maximumSize : BitVec 64
deriving DecidableEq

structure LpMetadataBlockDevice where
  firstLogicalSector : BitVec 64
  alignment : BitVec 32
  alignmentOffset : BitVec 32
  size : BitVec 64
  partitionName : Fixed 36
  flags : BitVec 32
deriving DecidableEq

/-- `LpMetadata`: the parsed table. -/
structure LpMetadata where
  geometry : LpMetadataGeometry
  header : LpMetadataHeader
  partitions : List LpMetadataPartition
  extents : List LpMetadataExtent
  groups : List LpMetadataPartitionGroup
  blockDevices : List LpMetadataBlockDevice
deriving DecidableEq

def LpMetadataGeometry.codec : Codec LpMetadataGeometry :=
  (Codec.u32.prod (Codec.u32.prod ((Codec.fixed 32).prod
    (Codec.u32.prod (Codec.u32.prod Codec.u32))))).via
    (fun ⟨magic, structSize, checksum, maxSize, slotCount, blockSize⟩ =>
      ⟨magic, structSize, checksum, maxSize, slotCount, blockSize⟩)
    (fun g => ⟨g.magic, g.structSize, g.checksum, g.metadataMaxSize, g.metadataSlotCount,
      g.logicalBlockSize⟩)
    (fun _ => rfl) (fun _ => rfl)

def LpMetadataTableDescriptor.codec : Codec LpMetadataTableDescriptor :=
  (Codec.u32.prod (Codec.u32.prod Codec.u32)).via
    (fun ⟨offset, numEntries, entrySize⟩ => ⟨offset, numEntries, entrySize⟩)
    (fun d => ⟨d.offset, d.numEntries, d.entrySize⟩)
    (fun _ => rfl) (fun _ => rfl)

/-- The whole structure in memory; a header before version 1.2 stores its first 128 bytes. -/
def LpMetadataHeader.codec : Codec LpMetadataHeader :=
  (Codec.u32.prod (Codec.u16.prod (Codec.u16.prod (Codec.u32.prod ((Codec.fixed 32).prod
    (Codec.u32.prod ((Codec.fixed 32).prod (LpMetadataTableDescriptor.codec.prod
    (LpMetadataTableDescriptor.codec.prod (LpMetadataTableDescriptor.codec.prod
    (LpMetadataTableDescriptor.codec.prod (Codec.u32.prod (Codec.fixed 124))))))))))))).via
    (fun ⟨magic, majorVersion, minorVersion, headerSize, headerChecksum, tablesSize,
        tablesChecksum, partitions, extents, groups, blockDevices, flags, reserved⟩ =>
      ⟨magic, majorVersion, minorVersion, headerSize, headerChecksum, tablesSize, tablesChecksum,
        partitions, extents, groups, blockDevices, flags, reserved⟩)
    (fun h => ⟨h.magic, h.majorVersion, h.minorVersion, h.headerSize, h.headerChecksum,
      h.tablesSize, h.tablesChecksum, h.partitions, h.extents, h.groups, h.blockDevices, h.flags,
      h.reserved⟩)
    (fun _ => rfl) (fun _ => rfl)

def LpMetadataPartition.codec : Codec LpMetadataPartition :=
  ((Codec.fixed 36).prod (Codec.u32.prod (Codec.u32.prod (Codec.u32.prod Codec.u32)))).via
    (fun ⟨name, attributes, firstExtentIndex, numExtents, groupIndex⟩ =>
      ⟨name, attributes, firstExtentIndex, numExtents, groupIndex⟩)
    (fun p => ⟨p.name, p.attributes, p.firstExtentIndex, p.numExtents, p.groupIndex⟩)
    (fun _ => rfl) (fun _ => rfl)

def LpMetadataExtent.codec : Codec LpMetadataExtent :=
  (Codec.u64.prod (Codec.u32.prod (Codec.u64.prod Codec.u32))).via
    (fun ⟨numSectors, targetType, targetData, targetSource⟩ =>
      ⟨numSectors, targetType, targetData, targetSource⟩)
    (fun e => ⟨e.numSectors, e.targetType, e.targetData, e.targetSource⟩)
    (fun _ => rfl) (fun _ => rfl)

def LpMetadataPartitionGroup.codec : Codec LpMetadataPartitionGroup :=
  ((Codec.fixed 36).prod (Codec.u32.prod Codec.u64)).via
    (fun ⟨name, flags, maximumSize⟩ => ⟨name, flags, maximumSize⟩)
    (fun g => ⟨g.name, g.flags, g.maximumSize⟩) (fun _ => rfl) (fun _ => rfl)

def LpMetadataBlockDevice.codec : Codec LpMetadataBlockDevice :=
  (Codec.u64.prod (Codec.u32.prod (Codec.u32.prod
    (Codec.u64.prod ((Codec.fixed 36).prod Codec.u32))))).via
    (fun ⟨firstLogicalSector, alignment, alignmentOffset, size, partitionName, flags⟩ =>
      ⟨firstLogicalSector, alignment, alignmentOffset, size, partitionName, flags⟩)
    (fun d => ⟨d.firstLogicalSector, d.alignment, d.alignmentOffset, d.size,
      d.partitionName, d.flags⟩)
    (fun _ => rfl) (fun _ => rfl)

/- The sizes the source asserts for its packed structures. -/
example : LpMetadataGeometry.codec.size = 52 := rfl
example : LpMetadataHeader.codec.size = 256 := rfl
example : LpMetadataPartition.codec.size = 52 := rfl
example : LpMetadataExtent.codec.size = 24 := rfl
example : LpMetadataPartitionGroup.codec.size = 48 := rfl
example : LpMetadataBlockDevice.codec.size = 64 := rfl

end Aosp.Liblp
