import Aosp.Liblp.Builder

/- `reader.cpp`. A `Reader` is the list of bytes from its position on: the rest of the buffer
for a `MemoryReader`, the rest of the device for a `FileReader`. -/
namespace Aosp.Liblp

open Layout (Byte Fixed Codec)
open Fallible (demand)

/-- SHA-256 is any fixed function. -/
abbrev Hash := List Byte → Fixed 32

/-- Why `ParseMetadata` returns a null pointer, one case for each message. `outOfBounds` is
not one of them: it stands for a `memcpy` from outside the loaded tables. -/
inductive ParseFailure where
  | readFailed
  | invalidMagic
  | incompatibleVersion
  | invalidHeaderSize
  | invalidChecksum
  | invalidTableBounds
  | invalidPartitionEntrySize
  | invalidExtentEntrySize
  | invalidGroupEntrySize
  | invalidTableSize
  | invalidTableChecksum
  | invalidAttribute
  | extentIndexOverflow
  | invalidExtentList
  | invalidGroupIndex
  | invalidBlockDevice
  | noSuperDevice
  | overlapsContents
  | outOfBounds
deriving DecidableEq

/-- `ReadFully`: the bytes read and the reader behind them. -/
def readFully (reader : List Byte) (length : Nat) : Except ParseFailure (List Byte × List Byte) :=
  if reader.length < length then .error .readFailed
  else .ok (reader.take length, reader.drop length)

variable (sha256 : Hash) (header : LpMetadataHeader)

/-- The hash over a header, with its checksum field set to zero. -/
def headerHash : Fixed 32 :=
  sha256 ((LpMetadataHeader.codec.encode { header with headerChecksum := Fixed.zero 32 }).take
    header.headerSize.toNat)

def validateTableBounds (table : LpMetadataTableDescriptor) : Bool :=
  table.offset ≤ header.tablesSize ∧ table.numEntries.setWidth 64 * table.entrySize.setWidth 64 ≤
      (header.tablesSize - table.offset).setWidth 64

def expectedHeaderSize (minorVersion : BitVec 16) : BitVec 32 :=
  if minorVersion < versionForExpandedHeader then headerSizeV10 else headerSizeV12

/-- The tests on a header that is in memory. -/
def validateHeader : Except ParseFailure Unit := do
  demand .invalidChecksum (headerHash sha256 header = header.headerChecksum)
  demand .invalidTableBounds (validateTableBounds header header.partitions ∧
    validateTableBounds header header.extents ∧
      validateTableBounds header header.groups ∧ validateTableBounds header header.blockDevices)
  demand .invalidPartitionEntrySize (header.partitions.entrySize = 52)
  demand .invalidExtentEntrySize (header.extents.entrySize = 24)
  demand .invalidGroupEntrySize (header.groups.entrySize = 48)

/-- `ReadMetadataHeader`: the structure is zeroed before its first 128 bytes are read. -/
def readMetadataHeader (reader : List Byte) :
    Except ParseFailure (LpMetadataHeader × List Byte) := do
  let (first, reader) ← readFully reader 128
  let header := LpMetadataHeader.codec.decode (first ++ List.replicate 128 0)
  demand .invalidMagic (header.magic = headerMagic)
  demand .incompatibleVersion (header.majorVersion = majorVersion ∧
    header.minorVersion ≤ minorVersionMax)
  demand .invalidHeaderSize (header.headerSize = expectedHeaderSize header.minorVersion)
  let remaining := header.headerSize.toNat - 128
  let (second, reader) ← readFully reader remaining
  let header := LpMetadataHeader.codec.decode
    (first ++ (second ++ List.replicate (128 - remaining) 0))
  validateHeader sha256 header
  .ok (header, reader)

/-- The `memcpy` at the cursor of one table loop. -/
def readEntry {α : Type} (c : Codec α) (buffer : List Byte) (table : LpMetadataTableDescriptor)
    (i : Nat) : Except ParseFailure α :=
  match c.copyFrom buffer (table.offset.toNat + i * table.entrySize.toNat) with
  | some entry => .ok entry
  | none => .error .outOfBounds

/-- A table loop: copy each entry and test it. -/
def readTable {α : Type} (c : Codec α) (buffer : List Byte) (table : LpMetadataTableDescriptor)
    (validate : α → Except ParseFailure Unit) : Except ParseFailure (List α) :=
  (List.range table.numEntries.toNat).mapM fun i => do
    let entry ← readEntry c buffer table i
    validate entry
    .ok entry

def validAttributes (minorVersion : BitVec 16) : BitVec 32 :=
  if versionForUpdatedAttr ≤ minorVersion then attributeMaskV0 ||| attributeMaskV1
  else attributeMaskV0

def validatePartition (partition : LpMetadataPartition) : Except ParseFailure Unit := do
  demand .invalidAttribute (partition.attributes &&& ~~~validAttributes header.minorVersion = 0)
  demand .extentIndexOverflow (partition.firstExtentIndex ≤
    partition.firstExtentIndex + partition.numExtents)
  demand .invalidExtentList (partition.firstExtentIndex + partition.numExtents ≤
    header.extents.numEntries)
  demand .invalidGroupIndex (partition.groupIndex < header.groups.numEntries)

def validateExtent (extent : LpMetadataExtent) : Except ParseFailure Unit :=
  demand .invalidBlockDevice
    (extent.targetType ≠ targetTypeLinear ∨ extent.targetSource < header.blockDevices.numEntries)

/-- What `ParseMetadata` has before it reads the block devices. -/
structure PartialParse where
  header : LpMetadataHeader
  buffer : List Byte
  partitions : List LpMetadataPartition
  extents : List LpMetadataExtent
  groups : List LpMetadataPartitionGroup

variable (geometry : LpMetadataGeometry)

/-- `ParseMetadata` up to its last table loop. -/
def parseBeforeDevices (reader : List Byte) : Except ParseFailure PartialParse := do
  let (header, reader) ← readMetadataHeader sha256 reader
  demand .invalidTableSize (header.tablesSize ≤ geometry.metadataMaxSize)
  let (buffer, _) ← readFully reader header.tablesSize.toNat
  demand .invalidTableChecksum (sha256 buffer = header.tablesChecksum)
  let partitions ← readTable LpMetadataPartition.codec buffer header.partitions
    (validatePartition header)
  let extents ← readTable LpMetadataExtent.codec buffer header.extents (validateExtent header)
  let groups ← readTable LpMetadataPartitionGroup.codec buffer header.groups fun _ => .ok ()
  .ok ⟨header, buffer, partitions, extents, groups⟩

/-- The tests of `ParseMetadata` on the super device. -/
def validateSuper (blockDevices : List LpMetadataBlockDevice) : Except ParseFailure Unit :=
  match blockDevices.head? with
  | none => .error .noSuperDevice
  | some super =>
    demand .overlapsContents (getTotalMetadataSize geometry.metadataMaxSize
      geometry.metadataSlotCount ≤ super.firstLogicalSector * sectorSize)

/-- `ParseMetadata`. -/
def parseMetadata (reader : List Byte) : Except ParseFailure LpMetadata := do
  let tables ← parseBeforeDevices sha256 geometry reader
  let blockDevices ← readTable LpMetadataBlockDevice.codec tables.buffer
    tables.header.blockDevices fun _ => .ok ()
  validateSuper geometry blockDevices
  .ok ⟨geometry, tables.header, tables.partitions, tables.extents, tables.groups, blockDevices⟩

/-- `ParseGeometry` of the 4096 bytes at a geometry offset. -/
def parseGeometry (buffer : List Byte) : Option LpMetadataGeometry :=
  let geometry := LpMetadataGeometry.codec.decode (buffer.take 52)
  let blank := { geometry with checksum := Fixed.zero 32 }
  if geometry.magic = geometryMagic ∧ geometry.structSize ≤ 52 ∧
      sha256 ((LpMetadataGeometry.codec.encode blank).take geometry.structSize.toNat) =
      geometry.checksum ∧ geometry.structSize = 52 ∧ geometry.metadataSlotCount ≠ 0 ∧
      geometry.metadataMaxSize % 512 = 0 then some geometry
  else none

end Aosp.Liblp
