import Aosp.Liblp.RoundTrip

namespace Aosp.Liblp

open Fallible List LpMetadataHeader
open Layout (Byte Fixed)

variable {rest : List Byte} {header : LpMetadataHeader}

/-- What an accepted header says about the input: its fields pass every test, and its stored
bytes are the first bytes of the input. -/
theorem readMetadataHeader_ok {sha256 : Hash} {reader : List Byte}
    (done : readMetadataHeader sha256 reader = .ok (header, rest)) :
    Readable header ∧ validateHeader sha256 header = .ok () ∧
      header.headerSize.toNat ≤ reader.length ∧ rest = reader.drop header.headerSize.toNat ∧
      (LpMetadataHeader.codec.encode header).take header.headerSize.toNat =
      reader.take header.headerSize.toNat := by
  unfold readMetadataHeader at done
  simp only [bind_eq_ok, demand_eq_ok, decide_eq_true_eq, readFully_eq_ok] at done
  obtain ⟨_, ⟨long, rfl⟩, _, magic, _, version, _, size, _, ⟨enough, rfl⟩, _, valid, same⟩ := done
  simp only [Except.ok.injEq, Prod.mk.injEq] at same
  obtain ⟨decoded, rfl⟩ := same
  dsimp only at valid
  generalize blank : codec.decode (reader.take 128 ++ List.replicate 128 0) =
    first at magic version size enough valid decoded ⊢
  -- both stored sizes leave 256 bytes in memory
  obtain ⟨lower, upper⟩ : 128 ≤ first.headerSize.toNat ∧ first.headerSize.toNat ≤ 256 := by
    rw [size, expectedHeaderSize]
    split <;> decide
  have firstSize : (reader.take 128).length = 128 := by
    simp
    omega
  rw [length_drop] at enough
  have memory := codec.encode_decode
    (reader.take 128 ++ ((reader.drop 128).take (first.headerSize.toNat - 128) ++
      List.replicate (128 - (first.headerSize.toNat - 128)) 0)) (by
        simp only [length_append, length_take, length_drop, length_replicate]
        change _ = 256
        omega)
  rw [decoded] at memory valid
  have same : first = { header with flags := 0, reserved := Fixed.zero 124 } := by
    rw [← header.decode_first, memory, take_left' firstSize, blank]
  have sizes : first.headerSize = header.headerSize := by rw [same]
  have tests := valid
  simp only [validateHeader, bind_eq_ok, demand_eq_ok, decide_eq_true_eq] at tests
  obtain ⟨_, _, _, _, _, partitions, _, extents, groups⟩ := tests
  have readable : Readable header := by
    rw [same] at magic version size
    refine ⟨magic, version.1, version.2, size, fun small => ?_, partitions, extents, groups⟩
    have nothing : first.headerSize.toNat - 128 = 0 := by rw [sizes, small]; rfl
    rw [nothing, take_zero] at decoded
    have whole := blank.symm.trans decoded
    rw [same] at whole
    exact ⟨(congrArg flags whole).symm, (congrArg reserved whole).symm⟩
  have sum : 128 + (first.headerSize.toNat - 128) = first.headerSize.toNat := by omega
  refine ⟨readable, valid, by rw [← sizes]; omega, by rw [drop_drop, ← sizes, sum], ?_⟩
  rw [memory, ← sizes, ← append_assoc, ← take_add, sum, take_left']
  simp
  omega

/-- A header is accepted exactly when the input starts with its stored bytes. -/
theorem readMetadataHeader_eq_ok {sha256 : Hash} {reader : List Byte} :
    readMetadataHeader sha256 reader = .ok (header, rest) ↔ Readable header ∧
      validateHeader sha256 header = .ok () ∧
        header.headerSize.toNat ≤ reader.length ∧ rest = reader.drop header.headerSize.toNat ∧
        (LpMetadataHeader.codec.encode header).take header.headerSize.toNat =
        reader.take header.headerSize.toNat := by
  refine ⟨readMetadataHeader_ok, ?_⟩
  rintro ⟨readable, valid, _, rfl, stored⟩
  have read := readMetadataHeader_encode sha256 readable valid (reader.drop header.headerSize.toNat)
  rwa [stored, take_append_drop] at read

/-- What the reader has loaded and tested before the block devices. -/
structure TablesRead (sha256 : Hash) (geometry : LpMetadataGeometry) (reader : List Byte)
    (tables : PartialParse) : Prop where
  header : ∃ rest, readMetadataHeader sha256 reader = .ok (tables.header, rest) ∧
    tables.header.tablesSize.toNat ≤ rest.length ∧
    tables.buffer = rest.take tables.header.tablesSize.toNat
  allowed : tables.header.tablesSize ≤ geometry.metadataMaxSize
  checksum : sha256 tables.buffer = tables.header.tablesChecksum
  partitions : readTable LpMetadataPartition.codec tables.buffer tables.header.partitions
    (validatePartition tables.header) = .ok tables.partitions
  extents : readTable LpMetadataExtent.codec tables.buffer tables.header.extents
    (validateExtent tables.header) = .ok tables.extents
  groups : readTable LpMetadataPartitionGroup.codec tables.buffer tables.header.groups
    (fun _ => .ok ()) = .ok tables.groups

section Accepted

variable {sha256 : Hash} {geometry : LpMetadataGeometry} {reader : List Byte}
  {tables : PartialParse}

theorem parseBeforeDevices_eq_ok : parseBeforeDevices sha256 geometry reader = .ok tables ↔
      TablesRead sha256 geometry reader tables := by
  unfold parseBeforeDevices
  simp only [bind_eq_ok, demand_eq_ok, decide_eq_true_eq, readFully_eq_ok]
  constructor
  · rintro ⟨⟨header, rest⟩, read, _, allowed, _, ⟨long, rfl⟩, _, checksum, partitions, isPartitions,
      extents, isExtents, groups, isGroups, same⟩
    cases same
    exact ⟨⟨rest, read, long, rfl⟩, allowed, checksum, isPartitions, isExtents, isGroups⟩
  · rintro ⟨⟨rest, read, long, buffer⟩, allowed, checksum, partitions, extents, groups⟩
    rw [buffer] at checksum partitions extents groups
    refine ⟨(tables.header, rest), read, (), allowed, _, ⟨long, rfl⟩, (), checksum, _, partitions,
      _, extents, _, groups, ?_⟩
    simp [← buffer]

variable {metadata : LpMetadata}

theorem parseMetadata_eq_ok :
    parseMetadata sha256 geometry reader = .ok metadata ↔
      ∃ tables, TablesRead sha256 geometry reader tables ∧
        readTable LpMetadataBlockDevice.codec tables.buffer tables.header.blockDevices
          (fun _ => .ok ()) = .ok metadata.blockDevices ∧
          validateSuper geometry metadata.blockDevices = .ok () ∧
        metadata = ⟨geometry, tables.header, tables.partitions, tables.extents, tables.groups,
          metadata.blockDevices⟩ := by
  unfold parseMetadata
  simp only [bind_eq_ok, parseBeforeDevices_eq_ok, Except.ok.injEq]
  constructor
  · rintro ⟨tables, read, devices, isDevices, _, super, rfl⟩
    exact ⟨tables, read, isDevices, super, rfl⟩
  · rintro ⟨tables, read, devices, super, same⟩
    exact ⟨tables, read, _, devices, (), super, same.symm⟩

theorem TablesRead.buffer_length (read : TablesRead sha256 geometry reader tables) :
    tables.buffer.length = tables.header.tablesSize.toNat := by
  obtain ⟨rest, _, long, buffer⟩ := read.header
  simp [buffer]
  omega

theorem TablesRead.readable (read : TablesRead sha256 geometry reader tables) :
    Readable tables.header ∧ validateHeader sha256 tables.header = .ok () := by
  obtain ⟨rest, done, _⟩ := read.header
  exact ⟨(readMetadataHeader_ok done).1, (readMetadataHeader_ok done).2.1⟩

/-- An accepted table can be stored again: only the entry size of the block devices was not
tested. -/
theorem parseMetadata_wellFormed (parsed : parseMetadata sha256 geometry reader = .ok metadata)
    (deviceSize : metadata.header.blockDevices.entrySize = 64)
    (fits : (serializeTables metadata).length ≤ geometry.metadataMaxSize.toNat) :
    WellFormed metadata ∧ metadata.geometry = geometry := by
  obtain ⟨tables, read, devices, super, same⟩ := parseMetadata_eq_ok.mp parsed
  obtain ⟨partitionCount, partitions⟩ := readTable_eq_ok.mp read.partitions
  obtain ⟨extentCount, extents⟩ := readTable_eq_ok.mp read.extents
  have groupCount := (readTable_eq_ok.mp read.groups).1
  have deviceCount := (readTable_eq_ok.mp devices).1
  have header : metadata.header = tables.header := by rw [same]
  rw [header] at deviceSize
  rw [same] at fits ⊢
  refine ⟨⟨⟨read.readable.1, partitionCount.symm, extentCount.symm, groupCount.symm,
    fun partition member => ?_, fun extent member => ?_, ?_⟩, deviceCount.symm, deviceSize, fits,
    super⟩, rfl⟩
  · obtain ⟨i, found⟩ := getElem?_of_mem member
    exact (partitions i partition found).2
  · obtain ⟨i, found⟩ := getElem?_of_mem member
    exact (extents i extent found).2
  · rw [deviceSize, ← deviceCount]
    exact le_rfl

/-- A table whose header fits into the front, with the tables it announces. -/
def Contained (sha256 : Hash) (front : List Byte) : Prop :=
  ∀ header rest, readMetadataHeader sha256 front = .ok (header, rest) →
    header.tablesSize.toNat ≤ rest.length

variable {front back : List Byte}

theorem readMetadataHeader_append {rest : List Byte} {header : LpMetadataHeader}
    (long : 256 ≤ front.length) :
    readMetadataHeader sha256 (front ++ back) = .ok (header, rest) ↔
      ∃ inFront, readMetadataHeader sha256 front = .ok (header, inFront) ∧
      rest = inFront ++ back := by
  simp only [readMetadataHeader_eq_ok]
  constructor
  · rintro ⟨readable, valid, _, rfl, stored⟩
    have small : header.headerSize.toNat ≤ front.length := by
      rcases readable.size_cases with size | size
      · rw [size]
        exact le_trans (by decide) long
      · rw [size]
        exact le_trans (by decide) long
    rw [take_append_of_le_length small] at stored
    exact ⟨_, ⟨readable, valid, small, rfl, stored⟩, drop_append_of_le_length small⟩
  · rintro ⟨_, ⟨readable, valid, small, rfl, stored⟩, rfl⟩
    refine ⟨readable, valid, by rw [length_append]; omega,
      (drop_append_of_le_length small).symm, ?_⟩
    rw [take_append_of_le_length small]
    exact stored

theorem tablesRead_append (long : 256 ≤ front.length) (contained : Contained sha256 front) :
    TablesRead sha256 geometry (front ++ back) tables ↔
      TablesRead sha256 geometry front tables := by
  constructor
  · rintro ⟨⟨rest, read, _, buffer⟩, allowed, checksum, partitions, extents, groups⟩
    obtain ⟨inFront, header, rfl⟩ := (readMetadataHeader_append long).mp read
    have fits := contained _ _ header
    rw [take_append_of_le_length fits] at buffer
    exact ⟨⟨inFront, header, fits, buffer⟩, allowed, checksum, partitions, extents, groups⟩
  · rintro ⟨⟨rest, read, fits, buffer⟩, allowed, checksum, partitions, extents, groups⟩
    refine ⟨⟨rest ++ back, (readMetadataHeader_append long).mpr ⟨rest, read, rfl⟩, ?_, ?_⟩, allowed,
      checksum, partitions, extents, groups⟩
    · simp
      omega
    · rw [take_append_of_le_length fits]
      exact buffer

/-- Only two fields of the geometry are read. -/
theorem parseMetadata_geometry {other : LpMetadataGeometry}
    (maxSize : other.metadataMaxSize = geometry.metadataMaxSize)
    (slotCount : other.metadataSlotCount = geometry.metadataSlotCount)
    (parsed : parseMetadata sha256 geometry reader = .ok metadata) :
    parseMetadata sha256 other reader = .ok { metadata with geometry := other } := by
  obtain ⟨tables, read, devices, super, same⟩ := parseMetadata_eq_ok.mp parsed
  refine parseMetadata_eq_ok.mpr ⟨tables, ⟨read.header, maxSize ▸ read.allowed, read.checksum,
    read.partitions, read.extents, read.groups⟩, devices, ?_, by rw [same]⟩
  unfold validateSuper at super ⊢
  rw [maxSize, slotCount]
  exact super

/-- The bytes the header hash is taken over. -/
def hashedHeader (header : LpMetadataHeader) : List Byte :=
  (LpMetadataHeader.codec.encode { header with headerChecksum := Fixed.zero 32 }).take
    header.headerSize.toNat

/-- The two byte strings whose checksums an input carries, once it passes its tests. -/
def hashedContents (sha256 : Hash) (geometry : LpMetadataGeometry) (reader : List Byte) :
    List (List Byte) :=
  match parseBeforeDevices sha256 geometry reader with
  | .ok tables => [hashedHeader tables.header, tables.buffer]
  | .error _ => []

/-- No two of the contents share a checksum. -/
def Distinguishes (sha256 : Hash) (contents : List (List Byte)) : Prop :=
  ∀ x ∈ contents, ∀ y ∈ contents, sha256 x = sha256 y → x = y

/-- A stand-in hash that tells contents of different length apart. -/
def lengthHash : Hash := fun bytes => Fixed.ofList 32 (Layout.leBytes 32 bytes.length)

theorem readTable_unique {α : Type} {c : Layout.Codec α} {buffer : List Byte}
    {table : LpMetadataTableDescriptor} {validate validate' : α → Except ParseFailure Unit}
    {values values' : List α} (first : readTable c buffer table validate = .ok values)
    (second : readTable c buffer table validate' = .ok values') :
    values = values' := by
  obtain ⟨count, each⟩ := readTable_eq_ok.mp first
  obtain ⟨count', each'⟩ := readTable_eq_ok.mp second
  apply ext_getElem (count.trans count'.symm)
  intro i inside inside'
  have here := (each i _ (List.getElem?_eq_getElem inside)).1
  have there := (each' i _ (List.getElem?_eq_getElem inside')).1
  exact Except.ok.inj (here.symm.trans there)

theorem hashedHeader_injective {first second : LpMetadataHeader} (readable : Readable first)
    (readable' : Readable second) (same : hashedHeader first = hashedHeader second) :
    { first with headerChecksum := Fixed.zero 32, flags := 0, reserved := Fixed.zero 124 } =
      { second with headerChecksum := Fixed.zero 32, flags := 0, reserved := Fixed.zero 124 } := by
  have enough : ∀ header : LpMetadataHeader, Readable header → 128 ≤ header.headerSize.toNat := by
    intro header isReadable
    rcases isReadable.size_cases with size | size
    · rw [size]; decide
    · rw [size]; decide
  have front := congrArg (List.take 128) same
  simp only [hashedHeader, take_take, min_eq_left (enough first readable),
    min_eq_left (enough second readable')] at front
  have left := decode_first { first with headerChecksum := Fixed.zero 32 }
  have right := decode_first { second with headerChecksum := Fixed.zero 32 }
  rw [front, right] at left
  exact left.symm

/-- Two accepted inputs with the same header checksum hold the same tables, when the hash
tells their contents apart. -/
theorem parseMetadata_distinguished {other : List Byte} {p q : LpMetadata}
    (first : parseMetadata sha256 geometry reader = .ok p)
    (second : parseMetadata sha256 geometry other = .ok q)
    (hash : Distinguishes sha256 (hashedContents sha256 geometry reader ++
      hashedContents sha256 geometry other))
    (same : p.header.headerChecksum = q.header.headerChecksum) :
    p.partitions = q.partitions ∧ p.extents = q.extents ∧ p.groups = q.groups ∧
      p.blockDevices = q.blockDevices := by
  obtain ⟨tables, read, devices, _, isP⟩ := parseMetadata_eq_ok.mp first
  obtain ⟨tables', read', devices', _, isQ⟩ := parseMetadata_eq_ok.mp second
  unfold hashedContents at hash
  rw [parseBeforeDevices_eq_ok.mpr read, parseBeforeDevices_eq_ok.mpr read'] at hash
  have checksum : ∀ {tables : PartialParse} {input : List Byte},
      TablesRead sha256 geometry input tables →
        sha256 (hashedHeader tables.header) = tables.header.headerChecksum := by
    intro tables input isRead
    have valid := isRead.readable.2
    simp only [validateHeader, bind_eq_ok, demand_eq_ok, decide_eq_true_eq] at valid
    obtain ⟨_, matching, _⟩ := valid
    exact matching
  rw [isP, isQ] at same
  have headers := hash (hashedHeader tables.header) (by simp)
    (hashedHeader tables'.header) (by simp) ((checksum read).trans
    (same.trans (checksum read').symm))
  have fields := hashedHeader_injective read.readable.1 read'.readable.1 headers
  simp only [mk.injEq] at fields
  obtain ⟨_, _, _, _, _, _, tablesChecksum, partitionsAt, extentsAt, groupsAt, devicesAt, _⟩ :=
    fields
  have buffers := hash tables.buffer (by simp) tables'.buffer (by simp)
    (read.checksum.trans (tablesChecksum.trans read'.checksum.symm))
  have partitions := read.partitions
  have extents := read.extents
  have groups := read.groups
  rw [buffers, partitionsAt] at partitions
  rw [buffers, extentsAt] at extents
  rw [buffers, groupsAt] at groups
  rw [buffers, devicesAt] at devices
  rw [isP, isQ]
  exact ⟨readTable_unique partitions read'.partitions, readTable_unique extents read'.extents,
    readTable_unique groups read'.groups, readTable_unique devices devices'⟩

end Accepted

end Aosp.Liblp
