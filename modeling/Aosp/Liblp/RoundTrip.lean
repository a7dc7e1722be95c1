import Aosp.Liblp.Writer

namespace Aosp.Liblp

open Fallible List LpMetadataGeometry
open Layout (Byte Fixed Codec)

theorem readFully_eq_ok {reader : List Byte} {length : Nat} {result : List Byte × List Byte} :
    readFully reader length = .ok result ↔
      length ≤ reader.length ∧ result = (reader.take length, reader.drop length) := by
  unfold readFully
  split
  · simp only [reduceCtorEq, false_iff]
    omega
  · simp only [Except.ok.injEq]
    constructor
    · rintro rfl
      exact ⟨by omega, rfl⟩
    · exact fun same => same.2.symm

theorem readFully_append (front back : List Byte) :
    readFully (front ++ back) front.length = .ok (front, back) := by
  rw [readFully_eq_ok]
  exact ⟨by simp, by simp⟩

namespace LpMetadataHeader

variable (header : LpMetadataHeader)

/-- The last 128 bytes hold the fields of version 1.2 and nothing else. -/
theorem encode_split : ∃ front : List Byte, front.length = 128 ∧ ∀ flags reserved,
      codec.encode { header with flags := flags, reserved := reserved } =
        front ++ (Codec.u32.encode flags ++ (Codec.fixed 124).encode reserved) := by
  refine ⟨Codec.u32.encode header.magic ++ (Codec.u16.encode header.majorVersion ++
    (Codec.u16.encode header.minorVersion ++ (Codec.u32.encode header.headerSize ++
    ((Codec.fixed 32).encode header.headerChecksum ++ (Codec.u32.encode header.tablesSize ++
    ((Codec.fixed 32).encode header.tablesChecksum ++
    (LpMetadataTableDescriptor.codec.encode header.partitions ++
    (LpMetadataTableDescriptor.codec.encode header.extents ++
    (LpMetadataTableDescriptor.codec.encode header.groups ++
    LpMetadataTableDescriptor.codec.encode header.blockDevices))))))))), ?_, ?_⟩
  · simp only [length_append, Codec.encode_length]
    rfl
  · intro flags reserved
    simp only [append_assoc]
    rfl

theorem encode_size : (codec.encode header).length = 256 :=
  codec.encode_length header

/-- Zeroes behind the first 128 bytes clear the fields of version 1.2. -/
theorem decode_first : codec.decode ((codec.encode header).take 128 ++ List.replicate 128 0) =
      { header with flags := 0, reserved := Fixed.zero 124 } := by
  obtain ⟨front, size, encoded⟩ := header.encode_split
  have whole := encoded header.flags header.reserved
  have cleared := encoded 0 (Fixed.zero 124)
  have blank : Codec.u32.encode 0 ++ (Codec.fixed 124).encode (Fixed.zero 124) =
    List.replicate 128 0 := by decide
  rw [whole, take_left' size, ← blank, ← cleared, codec.decode_encode]

end LpMetadataHeader

/-- The fields `ReadMetadataHeader` tests before it knows the checksum. A header that stores
128 bytes has nothing in the fields behind them. -/
structure Readable (header : LpMetadataHeader) : Prop where
  magic : header.magic = headerMagic
  major : header.majorVersion = majorVersion
  minor : header.minorVersion ≤ minorVersionMax
  size : header.headerSize = expectedHeaderSize header.minorVersion
  tail : header.headerSize = headerSizeV10 → header.flags = 0 ∧ header.reserved = Fixed.zero 124
  partitionSize : header.partitions.entrySize = 52
  extentSize : header.extents.entrySize = 24
  groupSize : header.groups.entrySize = 48

variable {header : LpMetadataHeader}

theorem Readable.size_cases (readable : Readable header) :
    header.headerSize = headerSizeV10 ∨ header.headerSize = headerSizeV12 := by
  rw [readable.size, expectedHeaderSize]
  split
  · exact .inl rfl
  · exact .inr rfl

theorem readMetadataHeader_encode (sha256 : Hash) (readable : Readable header)
    (valid : validateHeader sha256 header = .ok ()) (rest : List Byte) :
    readMetadataHeader sha256 ((LpMetadataHeader.codec.encode header).take
      header.headerSize.toNat ++ rest) =
      .ok (header, rest) := by
  have total := header.encode_size
  have version : (decide (header.majorVersion = majorVersion ∧
      header.minorVersion ≤ minorVersionMax)) = true :=
    decide_eq_true ⟨readable.major, readable.minor⟩
  have first : (LpMetadataHeader.codec.encode header).take header.headerSize.toNat ++ rest =
      (LpMetadataHeader.codec.encode header).take 128 ++
        (((LpMetadataHeader.codec.encode header).drop 128).take (header.headerSize.toNat - 128) ++
        rest) := by
    have sum : 128 + (header.headerSize.toNat - 128) = header.headerSize.toNat := by
      rcases readable.size_cases with small | large
      · rw [small]; rfl
      · rw [large]; rfl
    rw [← append_assoc, ← take_add, sum]
  have firstSize : ((LpMetadataHeader.codec.encode header).take 128).length = 128 := by
    rw [length_take]; omega
  have read := readFully_append ((LpMetadataHeader.codec.encode header).take 128)
    (((LpMetadataHeader.codec.encode header).drop 128).take (header.headerSize.toNat - 128) ++ rest)
  rw [firstSize] at read
  unfold readMetadataHeader
  rw [first, read]
  simp only [bind, Except.bind, LpMetadataHeader.decode_first, demand, readable.magic, version,
    ← readable.size, decide_true, ↓reduceIte]
  rcases readable.size_cases with small | large
  · have cleared := readable.tail small
    have nothing : header.headerSize.toNat - 128 = 0 := by rw [small]; rfl
    have same : { header with flags := 0, reserved := Fixed.zero 124 } = header := by
      rw [← cleared.1, ← cleared.2]
    have back := readFully_append [] rest
    simp only [nil_append, length_nil] at back
    simp only [nothing, take_zero, nil_append, back, Nat.sub_zero, LpMetadataHeader.decode_first,
      same, valid]
  · have second : ((LpMetadataHeader.codec.encode header).drop 128).take
        (header.headerSize.toNat - 128) = (LpMetadataHeader.codec.encode header).drop 128 := by
      rw [large]
      exact take_of_length_le (by rw [length_drop, total]; decide)
    have secondSize : ((LpMetadataHeader.codec.encode header).drop 128).length =
        header.headerSize.toNat - 128 := by
      rw [length_drop, total, large]; rfl
    have back := readFully_append ((LpMetadataHeader.codec.encode header).drop 128) rest
    rw [secondSize] at back
    have vacant : 128 - (header.headerSize.toNat - 128) = 0 := by rw [large]; rfl
    simp [second, back, vacant, valid]

section Tables

variable {α : Type} {c : Codec α} {buffer : List Byte} {table : LpMetadataTableDescriptor}
  {validate : α → Except ParseFailure Unit}

theorem readEntry_eq_ok {i : Nat} {value : α} :
    readEntry c buffer table i = .ok value ↔
      c.copyFrom buffer (table.offset.toNat + i * table.entrySize.toNat) = some value := by
  unfold readEntry
  cases c.copyFrom buffer (table.offset.toNat + i * table.entrySize.toNat) <;> simp

theorem readTable_eq_ok {values : List α} :
    readTable c buffer table validate = .ok values ↔
      values.length = table.numEntries.toNat ∧ ∀ i value, values[i]? = some value →
        readEntry c buffer table i = .ok value ∧ validate value = .ok () := by
  unfold readTable
  rw [mapM_range_eq_ok]
  simp only [bind_eq_ok, Except.ok.injEq]
  constructor
  · rintro ⟨size, each⟩
    refine ⟨size, fun i value found => ?_⟩
    obtain ⟨_, copied, _, valid, rfl⟩ := each i value found
    exact ⟨copied, valid⟩
  · rintro ⟨size, each⟩
    exact ⟨size, fun i value found =>
      ⟨value, (each i value found).1, (), (each i value found).2, rfl⟩⟩

theorem readTable_encodeAll (front back : List Byte) (values : List α)
    (offset : table.offset.toNat = front.length) (entrySize : table.entrySize.toNat = c.size)
    (count : table.numEntries.toNat = values.length)
    (valid : ∀ value ∈ values, validate value = .ok ()) :
    readTable c (front ++ (c.encodeAll values ++ back)) table validate = .ok values := by
  rw [readTable_eq_ok]
  refine ⟨count.symm, fun i value found => ⟨?_, valid value (mem_of_getElem? found)⟩⟩
  rw [readEntry_eq_ok, offset, entrySize]
  exact c.copyFrom_encodeAll front back values i value found

theorem validateTableBounds_iff (header : LpMetadataHeader) (table : LpMetadataTableDescriptor) :
    validateTableBounds header table = true ↔
      table.offset.toNat + table.numEntries.toNat * table.entrySize.toNat ≤
        header.tablesSize.toNat := by
  have size := table.entrySize.isLt
  have product : table.numEntries.toNat * table.entrySize.toNat < 2 ^ 64 :=
    calc table.numEntries.toNat * table.entrySize.toNat
        ≤ table.numEntries.toNat * 2 ^ 32 := Nat.mul_le_mul_left _ size.le
      _ < 2 ^ 64 := by omega
  simp only [validateTableBounds, decide_eq_true_eq, BitVec.le_def, BitVec.toNat_mul,
    BitVec.toNat_setWidth]
  rw [Nat.mod_eq_of_lt (a := table.numEntries.toNat) (by omega),
    Nat.mod_eq_of_lt (a := table.entrySize.toNat) (by omega)]
  constructor
  · rintro ⟨starts, ends⟩
    rw [BitVec.toNat_sub_of_le starts] at ends
    omega
  · intro bound
    have starts : table.offset ≤ header.tablesSize := by rw [BitVec.le_def]; omega
    rw [BitVec.toNat_sub_of_le starts]
    omega

end Tables

/-- A table whose header and first three tables agree with what the reader tests. -/
structure Storable (metadata : LpMetadata) : Prop extends Readable metadata.header where
  partitionCount : metadata.header.partitions.numEntries.toNat = metadata.partitions.length
  extentCount : metadata.header.extents.numEntries.toNat = metadata.extents.length
  groupCount : metadata.header.groups.numEntries.toNat = metadata.groups.length
  partitions : ∀ partition ∈ metadata.partitions,
    validatePartition metadata.header partition = .ok ()
  extents : ∀ extent ∈ metadata.extents, validateExtent metadata.header extent = .ok ()
  deviceBounds : metadata.header.blockDevices.numEntries.toNat *
    metadata.header.blockDevices.entrySize.toNat ≤ metadata.blockDevices.length * 64

section Serialized

variable {metadata : LpMetadata}

theorem serializeTables_length (metadata : LpMetadata) :
    (serializeTables metadata).length = metadata.partitions.length * 52 +
      (metadata.extents.length * 24 + (metadata.groups.length * 48 + metadata.blockDevices.length *
      64)) := by
  simp only [serializeTables, length_append, Codec.encodeAll_length]
  rfl

theorem serializeMetadata_length (sha256 : Hash) (metadata : LpMetadata) :
    (serializeMetadata sha256 metadata).length =
      min metadata.header.headerSize.toNat 256 + (serializeTables metadata).length := by
  rw [serializeMetadata, length_append, length_take, LpMetadataHeader.encode_size]

/-- Nothing wraps while the tables are smaller than 2³² bytes. -/
theorem placeTables_toNat (small : (serializeTables metadata).length < 2 ^ 32) :
    (placeTables metadata).extents.offset.toNat = metadata.partitions.length * 52 ∧
      (placeTables metadata).groups.offset.toNat =
      metadata.partitions.length * 52 + metadata.extents.length * 24 ∧
      (placeTables metadata).blockDevices.offset.toNat = metadata.partitions.length * 52 +
        metadata.extents.length * 24 + metadata.groups.length * 48 ∧
      (placeTables metadata).tablesSize.toNat = (serializeTables metadata).length := by
  rw [serializeTables_length] at small ⊢
  simp only [placeTables, BitVec.toNat_add, BitVec.toNat_ofNat]
  omega

section

variable (sha256 : Hash)

include sha256

theorem serializedHeader_readable (storable : Storable metadata) :
    Readable (serializedHeader sha256 metadata) where
  magic := storable.magic
  major := storable.major
  minor := storable.minor
  size := storable.size
  tail := storable.tail
  partitionSize := storable.partitionSize
  extentSize := storable.extentSize
  groupSize := storable.groupSize

theorem serializedHeader_valid (storable : Storable metadata)
    (small : (serializeTables metadata).length < 2 ^ 32) :
    validateHeader sha256 (serializedHeader sha256 metadata) = .ok () := by
  obtain ⟨extents, groups, devices, total⟩ := placeTables_toNat small
  have size := serializeTables_length metadata
  have readable := serializedHeader_readable sha256 storable
  have first : (placeTables metadata).partitions.offset.toNat = 0 := rfl
  have bounds : ∀ table, table.offset.toNat + table.numEntries.toNat * table.entrySize.toNat ≤
      (serializeTables metadata).length → validateTableBounds (serializedHeader sha256 metadata)
      table = true := by
    intro table fits
    rw [validateTableBounds_iff]
    exact total ▸ fits
  simp only [validateHeader, bind_eq_ok, demand_eq_ok, decide_eq_true_eq]
  refine ⟨(), rfl, (), ⟨bounds _ ?_, bounds _ ?_, bounds _ ?_, bounds _ ?_⟩, (),
    readable.partitionSize, (), readable.extentSize, readable.groupSize⟩
  · change (placeTables metadata).partitions.offset.toNat +
        metadata.header.partitions.numEntries.toNat * metadata.header.partitions.entrySize.toNat ≤ _
    rw [storable.partitionCount, storable.partitionSize]
    change 0 + metadata.partitions.length * 52 ≤ _
    omega
  · change (placeTables metadata).extents.offset.toNat +
      metadata.header.extents.numEntries.toNat * metadata.header.extents.entrySize.toNat ≤ _
    rw [storable.extentCount, storable.extentSize]
    change _ + metadata.extents.length * 24 ≤ _
    omega
  · change (placeTables metadata).groups.offset.toNat +
      metadata.header.groups.numEntries.toNat * metadata.header.groups.entrySize.toNat ≤ _
    rw [storable.groupCount, storable.groupSize]
    change _ + metadata.groups.length * 48 ≤ _
    omega
  · change (placeTables metadata).blockDevices.offset.toNat +
        metadata.header.blockDevices.numEntries.toNat *
        metadata.header.blockDevices.entrySize.toNat ≤ _
    have := storable.deviceBounds
    omega

section

variable (storable : Storable metadata)

include storable

theorem readPartitions_serialized :
    readTable LpMetadataPartition.codec (serializeTables metadata)
      (serializedHeader sha256 metadata).partitions
      (validatePartition (serializedHeader sha256 metadata)) = .ok metadata.partitions := by
  exact readTable_encodeAll [] _ metadata.partitions rfl
    (congrArg BitVec.toNat storable.partitionSize) storable.partitionCount storable.partitions

section

variable (small : (serializeTables metadata).length < 2 ^ 32)
include small

theorem readExtents_serialized : readTable LpMetadataExtent.codec (serializeTables metadata)
      (serializedHeader sha256 metadata).extents
      (validateExtent (serializedHeader sha256 metadata)) = .ok metadata.extents := by
  refine readTable_encodeAll (LpMetadataPartition.codec.encodeAll metadata.partitions) _
    metadata.extents ?_ (congrArg BitVec.toNat storable.extentSize) storable.extentCount
    storable.extents
  rw [Codec.encodeAll_length]
  exact (placeTables_toNat small).1

theorem readGroups_serialized : readTable LpMetadataPartitionGroup.codec (serializeTables metadata)
      (serializedHeader sha256 metadata).groups (fun _ => .ok ()) = .ok metadata.groups := by
  unfold serializeTables
  rw [← append_assoc]
  refine readTable_encodeAll _ _ metadata.groups ?_
    (congrArg BitVec.toNat storable.groupSize) storable.groupCount fun _ _ => rfl
  rw [length_append, Codec.encodeAll_length, Codec.encodeAll_length]
  exact (placeTables_toNat small).2.1

theorem readMetadataHeader_serializeMetadata (rest : List Byte) :
    readMetadataHeader sha256 (serializeMetadata sha256 metadata ++ rest) =
      .ok (serializedHeader sha256 metadata, serializeTables metadata ++ rest) := by
  rw [serializeMetadata, append_assoc]
  exact readMetadataHeader_encode sha256 (serializedHeader_readable sha256 storable)
    (serializedHeader_valid sha256 storable small) _

end

/-- The first three tables are read back, whatever stands behind the blob. -/
theorem parseBeforeDevices_serializeMetadata (geometry : LpMetadataGeometry)
    (fits : (serializeTables metadata).length ≤ geometry.metadataMaxSize.toNat) (rest : List Byte) :
    parseBeforeDevices sha256 geometry (serializeMetadata sha256 metadata ++ rest) =
      .ok ⟨serializedHeader sha256 metadata, serializeTables metadata, metadata.partitions,
        metadata.extents, metadata.groups⟩ := by
  have small : (serializeTables metadata).length < 2 ^ 32 :=
    lt_of_le_of_lt fits geometry.metadataMaxSize.isLt
  have total : (serializedHeader sha256 metadata).tablesSize.toNat =
      (serializeTables metadata).length := (placeTables_toNat small).2.2.2
  have header := readMetadataHeader_serializeMetadata sha256 storable small rest
  have tables := readFully_append (serializeTables metadata) rest
  rw [← total] at tables
  have allowed : (serializedHeader sha256 metadata).tablesSize ≤ geometry.metadataMaxSize := by
    rw [BitVec.le_def]
    exact total ▸ fits
  have checksum : sha256 (serializeTables metadata) =
    (serializedHeader sha256 metadata).tablesChecksum := rfl
  simp only [parseBeforeDevices, header, tables, allowed, checksum, demand, bind, Except.bind,
    decide_true, ↓reduceIte, readPartitions_serialized sha256 storable,
    readExtents_serialized sha256 storable small, readGroups_serialized sha256 storable small]

end

end

end Serialized

/-- A table that agrees with everything the reader tests. -/
structure WellFormed (metadata : LpMetadata) : Prop extends Storable metadata where
  deviceCount : metadata.header.blockDevices.numEntries.toNat = metadata.blockDevices.length
  deviceSize : metadata.header.blockDevices.entrySize = 64
  fits : (serializeTables metadata).length ≤ metadata.geometry.metadataMaxSize.toNat
  super : validateSuper metadata.geometry metadata.blockDevices = .ok ()

theorem WellFormed.parse_serialize {metadata : LpMetadata} (wellFormed : WellFormed metadata)
    (sha256 : Hash) (rest : List Byte) :
    parseMetadata sha256 metadata.geometry (serializeMetadata sha256 metadata ++ rest) =
      .ok { metadata with header := serializedHeader sha256 metadata } := by
  have small : (serializeTables metadata).length < 2 ^ 32 :=
    lt_of_le_of_lt wellFormed.fits metadata.geometry.metadataMaxSize.isLt
  obtain ⟨-, -, devicesAt, -⟩ := placeTables_toNat small
  have devices : readTable LpMetadataBlockDevice.codec (serializeTables metadata)
      (serializedHeader sha256 metadata).blockDevices (fun _ => .ok ()) =
      .ok metadata.blockDevices := by
    have stored : readTable LpMetadataBlockDevice.codec _
        (serializedHeader sha256 metadata).blockDevices (fun _ => .ok ()) = _ :=
      readTable_encodeAll (LpMetadataPartition.codec.encodeAll metadata.partitions ++
          (LpMetadataExtent.codec.encodeAll metadata.extents ++
            LpMetadataPartitionGroup.codec.encodeAll metadata.groups)) [] metadata.blockDevices
        (by
          simp only [length_append, Codec.encodeAll_length, ← add_assoc]
          exact devicesAt)
        (congrArg BitVec.toNat wellFormed.deviceSize) wellFormed.deviceCount fun _ _ => rfl
    simpa only [serializeTables, append_assoc, append_nil] using stored
  simp only [parseMetadata, bind_eq_ok]
  exact ⟨_, parseBeforeDevices_serializeMetadata sha256 wellFormed.toStorable metadata.geometry
    wellFormed.fits rest, _, devices, (), wellFormed.super, rfl⟩

/-- The geometry as it is stored: with its checksum. -/
def sealedGeometry (sha256 : Hash) (geometry : LpMetadataGeometry) : LpMetadataGeometry :=
  { geometry with checksum := sha256 (LpMetadataGeometry.codec.encode
    { geometry with checksum := Fixed.zero 32 }) }

theorem parseGeometry_serializeGeometry (sha256 : Hash) {geometry : LpMetadataGeometry}
    (magic : geometry.magic = geometryMagic) (structSize : geometry.structSize = 52)
    (slots : geometry.metadataSlotCount ≠ 0) (sectors : geometry.metadataMaxSize % 512 = 0) :
    parseGeometry sha256 (serializeGeometry sha256 geometry) =
      some (sealedGeometry sha256 geometry) := by
  have size : ∀ g : LpMetadataGeometry, (codec.encode g).length = 52 :=
    codec.encode_length
  have decoded : codec.decode ((serializeGeometry sha256 geometry).take 52) =
      sealedGeometry sha256 geometry := by
    rw [serializeGeometry, take_left' (size _), codec.decode_encode]
    rfl
  have small : (52 : BitVec 32) ≤ 52 := BitVec.le_refl _
  have bytes : (52 : BitVec 32).toNat = 52 := rfl
  unfold parseGeometry
  simp only [decoded]
  rw [if_pos]
  simp only [sealedGeometry, magic, structSize, small, bytes, slots, sectors, true_and, ne_eq,
    not_false_eq_true, and_true]
  rw [take_of_length_le (le_of_eq (size _))]

end Aosp.Liblp
