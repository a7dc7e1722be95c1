import Aosp.Liblp.Accepted
import Aosp.Liblp.Edits

namespace Aosp.Liblp

open Fallible List
open Layout (Byte Fixed Codec)

section Loops

variable {α : Type} {c : Codec α} {buffer : List Byte} {table : LpMetadataTableDescriptor}
  {validate : α → Except ParseFailure Unit}

theorem readEntry_eq_error {i : Nat} {failure : ParseFailure} :
    readEntry c buffer table i = .error failure ↔
      failure = .outOfBounds ∧ buffer.length < table.offset.toNat + i * table.entrySize.toNat +
      c.size := by
  have inside := c.copyFrom_isSome buffer (table.offset.toNat + i * table.entrySize.toNat)
  unfold readEntry
  cases copied : c.copyFrom buffer (table.offset.toNat + i * table.entrySize.toNat) with
  | some entry =>
    rw [copied] at inside
    simp only [reduceCtorEq, false_iff, not_and, not_lt]
    exact fun _ => inside.mp rfl
  | none =>
    rw [copied] at inside
    simp only [Except.error.injEq, eq_comm, iff_self_and]
    intro _
    by_contra covered
    exact absurd (inside.mpr (by omega)) (by simp)

/-- A loop that copies from outside the tables does so in one of its rounds. -/
theorem readTable_outOfBounds (quiet : ∀ entry, validate entry ≠ .error .outOfBounds)
    (failed : readTable c buffer table validate = .error .outOfBounds) :
    ∃ i < table.numEntries.toNat,
      buffer.length < table.offset.toNat + i * table.entrySize.toNat + c.size := by
  obtain ⟨i, member, round⟩ := mapM_eq_error _ _ _ failed
  simp only [bind_eq_error, reduceCtorEq, and_false, exists_false, or_false] at round
  rcases round with copy | ⟨entry, _, test⟩
  · exact ⟨i, mem_range.mp member, (readEntry_eq_error.mp copy).2⟩
  · exact absurd test (quiet entry)

/-- Bounds on whole entries keep every copy inside when the entry is the structure. -/
theorem readTable_inside (quiet : ∀ entry, validate entry ≠ .error .outOfBounds)
    (bounds : table.offset.toNat + table.numEntries.toNat * table.entrySize.toNat ≤ buffer.length)
    (entrySize : table.entrySize.toNat = c.size) :
    readTable c buffer table validate ≠ .error .outOfBounds := by
  intro failed
  obtain ⟨i, inRange, outside⟩ := readTable_outOfBounds quiet failed
  have next : i * table.entrySize.toNat + table.entrySize.toNat ≤
      table.numEntries.toNat * table.entrySize.toNat := by
    rw [← Nat.succ_mul]
    exact Nat.mul_le_mul_right _ inRange
  omega

end Loops

theorem demand_inside {failure : ParseFailure} (other : failure ≠ .outOfBounds) (test : Bool) :
    demand failure test ≠ .error .outOfBounds := by
  cases test <;> simp [demand, other]

variable (sha256 : Hash) (reader : List Byte) (header : LpMetadataHeader)

theorem readFully_inside (length : Nat) : readFully reader length ≠ .error .outOfBounds := by
  unfold readFully
  split <;> simp

theorem bind_inside {α β : Type} {value : Except ParseFailure α}
    {next : α → Except ParseFailure β} (first : value ≠ .error .outOfBounds)
    (second : ∀ input, value = .ok input → next input ≠ .error .outOfBounds) :
    value >>= next ≠ .error .outOfBounds := by
  rw [ne_eq, bind_eq_error]
  rintro (failed | ⟨input, reached, failed⟩)
  · exact first failed
  · exact second input reached failed

theorem validateHeader_inside : validateHeader sha256 header ≠ .error .outOfBounds :=
  bind_inside (demand_inside (by decide) _) fun _ _ =>
    bind_inside (demand_inside (by decide) _) fun _ _ =>
      bind_inside (demand_inside (by decide) _) fun _ _ =>
        bind_inside (demand_inside (by decide) _) fun _ _ => demand_inside (by decide) _

theorem readMetadataHeader_inside : readMetadataHeader sha256 reader ≠ .error .outOfBounds :=
  bind_inside (readFully_inside _ _) fun _ _ =>
    bind_inside (demand_inside (by decide) _) fun _ _ =>
      bind_inside (demand_inside (by decide) _) fun _ _ =>
        bind_inside (demand_inside (by decide) _) fun _ _ =>
          bind_inside (readFully_inside _ _) fun _ _ =>
            bind_inside (validateHeader_inside _ _) fun _ _ => by simp

theorem validatePartition_inside (partition : LpMetadataPartition) :
    validatePartition header partition ≠ .error .outOfBounds :=
  bind_inside (demand_inside (by decide) _) fun _ _ =>
    bind_inside (demand_inside (by decide) _) fun _ _ =>
      bind_inside (demand_inside (by decide) _) fun _ _ => demand_inside (by decide) _

variable {header}

/-- The first three loops stay inside whatever the descriptors say. -/
theorem parseBeforeDevices_inside (geometry : LpMetadataGeometry) (reader : List Byte) :
    parseBeforeDevices sha256 geometry reader ≠ .error .outOfBounds := by
  refine bind_inside (readMetadataHeader_inside _ _) ?_
  rintro ⟨header, rest⟩ read
  obtain ⟨readable, valid, -⟩ := readMetadataHeader_ok read
  simp only [validateHeader, bind_eq_ok, demand_eq_ok, decide_eq_true_eq,
    validateTableBounds_iff] at valid
  obtain ⟨_, _, _, ⟨partitions, extents, groups, devices⟩, _⟩ := valid
  refine bind_inside (demand_inside (by decide) _) fun _ _ =>
    bind_inside (readFully_inside _ _) ?_
  rintro ⟨buffer, _⟩ loaded
  obtain ⟨long, same⟩ := readFully_eq_ok.mp loaded
  cases same
  have size : (rest.take header.tablesSize.toNat).length = header.tablesSize.toNat := by
    simp
    omega
  refine bind_inside (demand_inside (by decide) _) fun _ _ => ?_
  refine bind_inside (readTable_inside (validatePartition_inside header) ?_
    (congrArg BitVec.toNat readable.partitionSize)) fun _ _ => ?_
  · rw [size]
    exact partitions
  refine bind_inside (readTable_inside (fun _ => demand_inside (by decide) _) ?_
    (congrArg BitVec.toNat readable.extentSize)) fun _ _ => ?_
  · rw [size]
    exact extents
  refine bind_inside (readTable_inside (fun _ => by simp) ?_
    (congrArg BitVec.toNat readable.groupSize)) fun _ _ => by simp
  rw [size]
  exact groups

/-- The last block device the descriptor announces lies inside the loaded tables. The entry
size of this table is the only one the reader does not compare with the structure. -/
def DevicesInside (header : LpMetadataHeader) : Prop :=
  header.blockDevices.numEntries.toNat = 0 ∨
    header.blockDevices.offset.toNat + (header.blockDevices.numEntries.toNat - 1) *
      header.blockDevices.entrySize.toNat + 64 ≤ header.tablesSize.toNat

instance (header : LpMetadataHeader) : Decidable (DevicesInside header) :=
  inferInstanceAs (Decidable (_ ∨ _))

section Devices

variable {sha256} {geometry : LpMetadataGeometry} {reader}
  {tables : PartialParse}

/-- The device loop leaves the buffer exactly when the last entry does. -/
theorem TablesRead.devices_outOfBounds (read : TablesRead sha256 geometry reader tables) :
    readTable LpMetadataBlockDevice.codec tables.buffer tables.header.blockDevices
        (fun _ => .ok ()) = .error .outOfBounds ↔ ¬ DevicesInside tables.header := by
  have size := read.buffer_length
  have structSize : LpMetadataBlockDevice.codec.size = 64 := rfl
  unfold DevicesInside
  constructor
  · intro failed
    obtain ⟨i, inRange, outside⟩ := readTable_outOfBounds (fun _ => by simp) failed
    have before : i * tables.header.blockDevices.entrySize.toNat ≤
        (tables.header.blockDevices.numEntries.toNat - 1) *
        tables.header.blockDevices.entrySize.toNat :=
      Nat.mul_le_mul_right _ (by omega)
    omega
  · intro outside
    cases loop : readTable LpMetadataBlockDevice.codec tables.buffer tables.header.blockDevices
      (fun _ => .ok ()) with
    | error failure =>
      -- a loop without tests can only fail in a copy
      obtain ⟨i, _, round⟩ := mapM_eq_error _ _ _ loop
      simp only [bind_eq_error, reduceCtorEq, and_false, exists_false, or_false,
        readEntry_eq_error] at round
      rw [round.1]
    | ok devices =>
      obtain ⟨count, each⟩ := readTable_eq_ok.mp loop
      have present : tables.header.blockDevices.numEntries.toNat - 1 < devices.length := by omega
      have last := (each _ _ (List.getElem?_eq_getElem present)).1
      have inside := (Codec.copyFrom_isSome _ _ _).mp
        (Option.isSome_of_eq_some (readEntry_eq_ok.mp last))
      omega

/-- `ParseMetadata` reads outside its buffer exactly in the device loop. -/
theorem parseMetadata_outOfBounds : parseMetadata sha256 geometry reader = .error .outOfBounds ↔
      ∃ tables, TablesRead sha256 geometry reader tables ∧ ¬ DevicesInside tables.header := by
  unfold parseMetadata
  rw [bind_eq_error]
  constructor
  · rintro (early | ⟨tables, read, failed⟩)
    · exact absurd early (parseBeforeDevices_inside _ _ _)
    · rw [parseBeforeDevices_eq_ok] at read
      rw [bind_eq_error] at failed
      rcases failed with loop | ⟨devices, _, later⟩
      · exact ⟨tables, read, read.devices_outOfBounds.mp loop⟩
      · refine absurd later (bind_inside ?_ fun _ _ => by simp)
        unfold validateSuper
        split
        · simp
        · exact demand_inside (by decide) _
  · rintro ⟨tables, read, outside⟩
    refine .inr ⟨tables, parseBeforeDevices_eq_ok.mpr read, ?_⟩
    rw [bind_eq_error]
    exact .inl (read.devices_outOfBounds.mpr outside)

end Devices

/-- Every index of a table points into the table it is for. -/
structure Indexed (metadata : LpMetadata) : Prop where
  extents : ∀ partition ∈ metadata.partitions,
    partition.firstExtentIndex.toNat + partition.numExtents.toNat ≤ metadata.extents.length
  groups : ∀ partition ∈ metadata.partitions, partition.groupIndex.toNat < metadata.groups.length
  devices : ∀ extent ∈ metadata.extents, extent.targetType = targetTypeLinear →
    extent.targetSource.toNat < metadata.blockDevices.length

theorem validatePartition_indices {partition : LpMetadataPartition}
    (valid : validatePartition header partition = .ok ()) :
    partition.firstExtentIndex.toNat + partition.numExtents.toNat ≤
      header.extents.numEntries.toNat ∧
      partition.groupIndex.toNat < header.groups.numEntries.toNat := by
  simp only [validatePartition, bind_eq_ok, demand_eq_ok, decide_eq_true_eq,
    BitVec.le_def, BitVec.lt_def, BitVec.toNat_add] at valid
  omega

theorem parseMetadata_indexed {sha256 : Hash} {geometry : LpMetadataGeometry} {reader : List Byte}
    {metadata : LpMetadata} (parsed : parseMetadata sha256 geometry reader = .ok metadata) :
    Indexed metadata := by
  obtain ⟨tables, read, devices, _, same⟩ := parseMetadata_eq_ok.mp parsed
  have deviceCount := (readTable_eq_ok.mp devices).1
  obtain ⟨_, partitions⟩ := readTable_eq_ok.mp read.partitions
  obtain ⟨extentCount, extents⟩ := readTable_eq_ok.mp read.extents
  have groupCount := (readTable_eq_ok.mp read.groups).1
  rw [same]
  refine ⟨fun partition member => ?_, fun partition member => ?_, fun extent member linear => ?_⟩
  · obtain ⟨i, found⟩ := getElem?_of_mem member
    exact extentCount ▸ (validatePartition_indices (partitions i partition found).2).1
  · obtain ⟨i, found⟩ := getElem?_of_mem member
    exact groupCount ▸ (validatePartition_indices (partitions i partition found).2).2
  · obtain ⟨i, found⟩ := getElem?_of_mem member
    have valid := (extents i extent found).2
    simp only [validateExtent, demand_eq_ok, decide_eq_true_eq, BitVec.lt_def] at valid
    rw [← deviceCount] at valid
    exact valid.resolve_left fun other => other linear

namespace MetadataBuilder

theorem withPartition_total {b : MetadataBuilder} {name : Name} {partition changed : Partition}
    (change : Partition → Except Fault (Partition × Bool)) {result : Bool}
    (found : b.findPartition name = some partition)
    (applied : change partition = .ok (changed, result)) :
    ∃ after, b.withPartition name change = .ok (after, result) := by
  have updated : ∃ after, updateFirst name change b.partitions = .ok (after, result) := by
    unfold findPartition at found
    generalize b.partitions = partitions at found
    induction partitions with
    | nil => cases found
    | cons first rest ih =>
      rw [updateFirst]
      by_cases named : first.name = name
      · rw [find?_cons_of_pos (by simpa using named)] at found
        cases found
        rw [if_pos named, applied]
        exact ⟨_, rfl⟩
      · rw [find?_cons_of_neg (by simpa using named)] at found
        obtain ⟨after, later⟩ := ih found
        rw [if_neg named, later]
        exact ⟨_, rfl⟩
  obtain ⟨after, updated⟩ := updated
  refine ⟨{ b with partitions := after }, ?_⟩
  rw [withPartition, updated]
  rfl

variable {metadata : LpMetadata}

theorem importExtents_total {source : LpMetadataPartition}
    (inside : source.firstExtentIndex.toNat + source.numExtents.toNat ≤ metadata.extents.length)
    (partition : Partition) :
    ∃ filled, importExtents metadata source partition = .ok filled := by
  refine foldlM_ok_total _ _ (fun state i member => ?_) partition
  have inRange := mem_range.mp member
  have found : metadata.extents[source.firstExtentIndex.toNat + i]? =
      some (metadata.extents.get ⟨source.firstExtentIndex.toNat + i, by omega⟩) :=
    List.getElem?_eq_getElem _
  unfold importExtent
  rw [(index_eq_ok _ _ _ _).mpr found]
  dsimp only [bind, Except.bind]
  split
  · exact ⟨_, rfl⟩
  · exact ⟨_, rfl⟩

/-- `Init(LpMetadata)` on an indexed table returns; it may refuse names. -/
theorem importAll_total (indexed : Indexed metadata) (sources : List LpMetadataPartition)
    (known : ∀ source ∈ sources, source ∈ metadata.partitions) (b : MetadataBuilder) :
    ∃ result, importAll metadata sources b = .ok result := by
  induction sources generalizing b with
  | nil => exact ⟨some b, rfl⟩
  | cons source rest ih =>
    have member := known source mem_cons_self
    have found : metadata.groups[source.groupIndex.toNat]? =
        some (metadata.groups.get ⟨source.groupIndex.toNat, indexed.groups source member⟩) :=
      List.getElem?_eq_getElem _
    generalize metadata.groups.get ⟨_, _⟩ = group at found
    rw [importAll, (index_eq_ok _ _ _ _).mpr found]
    dsimp only [bind, Except.bind]
    cases added : (b.addPartition (getPartitionName source) (getPartitionGroupName group)
      source.attributes).2 with
    | false => exact ⟨none, by simp⟩
    | true =>
      obtain ⟨filled, imported⟩ := importExtents_total (indexed.extents source member)
        (Partition.new (getPartitionName source) (getPartitionGroupName group) source.attributes)
      obtain ⟨after, stored⟩ := withPartition_total
        (fun partition => do .ok (← importExtents metadata source partition, true))
        (findPartition_addPartition added) (by rw [imported]; rfl)
      obtain ⟨result, later⟩ := ih (fun other inRest =>
        known other (mem_cons_of_mem _ inRest)) after
      refine ⟨result, ?_⟩
      simp only [bind, Except.bind] at stored
      simp [stored, later]

end MetadataBuilder

/-- `ParseMetadata` copies from inside the tables it loaded, and everything it returns can be
indexed by `MetadataBuilder::New`, exactly when no input gets to a device table whose last
entry ends behind the tables. -/
theorem parseMetadata_inside_iff (sha256 : Hash) (geometry : LpMetadataGeometry)
    (reader : List Byte) :
    (parseMetadata sha256 geometry reader ≠ .error .outOfBounds ∧
        ∀ metadata, parseMetadata sha256 geometry reader = .ok metadata →
          Indexed metadata ∧ ∀ fault, MetadataBuilder.newFromMetadata metadata ≠ .error fault) ↔
      ∀ tables, parseBeforeDevices sha256 geometry reader = .ok tables →
      DevicesInside tables.header := by
  constructor
  · rintro ⟨inside, _⟩ tables read
    by_contra outside
    exact inside (parseMetadata_outOfBounds.mpr ⟨tables, parseBeforeDevices_eq_ok.mp read, outside⟩)
  · intro devices
    refine ⟨fun failed => ?_, fun metadata parsed => ?_⟩
    · obtain ⟨tables, read, outside⟩ := parseMetadata_outOfBounds.mp failed
      exact outside (devices tables (parseBeforeDevices_eq_ok.mpr read))
    · have indexed := parseMetadata_indexed parsed
      refine ⟨indexed, fun fault => ?_⟩
      unfold MetadataBuilder.newFromMetadata
      split
      · simp
      · obtain ⟨result, done⟩ := MetadataBuilder.importAll_total indexed metadata.partitions
          (fun _ => id) ‹_›
        rw [done]
        simp

/-- One block device under a descriptor of two entries of one byte each. -/
def shortDevices : LpMetadata where
  geometry := ⟨geometryMagic, 52, Fixed.zero 32, 512, 1, 4096⟩
  header := { initialHeader with blockDevices := ⟨0, 2, 1⟩ }
  partitions := []
  extents := []
  groups := []
  blockDevices := [⟨32, 0, 0, 65536, strncpy 36 defaultPartitionName, 0⟩]

theorem shortDevices_storable : Storable shortDevices where
  magic := rfl
  major := rfl
  minor := by decide
  size := rfl
  tail := fun _ => ⟨rfl, rfl⟩
  partitionSize := rfl
  extentSize := rfl
  groupSize := rfl
  partitionCount := rfl
  extentCount := rfl
  groupCount := rfl
  partitions := forall_mem_nil _
  extents := forall_mem_nil _
  deviceBounds := by decide

/-- The second device is copied from the byte behind the first one's start, and ends one byte
behind the 64 bytes of tables. -/
theorem parseMetadata_shortDevices (sha256 : Hash) :
    parseMetadata sha256 shortDevices.geometry (serializeMetadata sha256 shortDevices) =
      .error .outOfBounds := by
  have fits : (serializeTables shortDevices).length ≤
      shortDevices.geometry.metadataMaxSize.toNat := by
    decide
  have read := parseBeforeDevices_serializeMetadata sha256 shortDevices_storable
    shortDevices.geometry fits []
  rw [append_nil, parseBeforeDevices_eq_ok] at read
  refine parseMetadata_outOfBounds.mpr ⟨_, read, ?_⟩
  -- the checksums are no part of the bounds
  change ¬ DevicesInside (placeTables shortDevices)
  decide

theorem parseMetadata_leaves_tables :
    parseMetadata lengthHash shortDevices.geometry (serializeMetadata lengthHash shortDevices) =
      .error .outOfBounds :=
  parseMetadata_shortDevices lengthHash

end Aosp.Liblp
