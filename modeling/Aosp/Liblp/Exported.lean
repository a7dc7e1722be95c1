import Aosp.Liblp.Edits
import Aosp.Liblp.Disjointness
import Aosp.Liblp.RoundTrip

namespace Aosp.Liblp

open BitVec Fallible List
open Layout (Fixed)

namespace MetadataBuilder

/-- The builders a program can hold: from `New` in any of its forms, by any calls. -/
inductive Reachable : MetadataBuilder → Prop
  | created {blockDevices : List BlockDeviceInfo} {superPartition : Name}
      {metadataMaxSize metadataSlotCount : BitVec 32} {b : MetadataBuilder}
      (done : new blockDevices superPartition metadataMaxSize metadataSlotCount = some b) :
      Reachable b
  | imported {metadata : LpMetadata} {b : MetadataBuilder}
      (done : newFromMetadata metadata = .ok (some b)) : Reachable b
  | opened {metadata : LpMetadata} {getInfo : Name → Option BlockDeviceInfo} {b : MetadataBuilder}
      (done : newWithOpener metadata getInfo = .ok (some b)) : Reachable b
  | applied {b after : MetadataBuilder} {op : Op} {result : Bool} (before : Reachable b)
      (done : b.apply op = .ok (after, result)) : Reachable after

variable {metadata : LpMetadata} {b : MetadataBuilder}

theorem importGroups_edits (done : importGroups metadata = some b) :
    (importStart metadata).Edits b := by
  refine foldlM_some_invariant _ (fun b => (importStart metadata).Edits b) _ ?_ _ b ?_ done
  · intro state group next _ reached step
    unfold importGroup at step
    dsimp only at step
    split at step
    · cases step
      exact reached.trans (addGroup_edits state _ _)
    · cases step
  · split
    · exact .head (.expandHeader (importStart metadata))
        (.single (.setFlags _ (requireExpandedMetadataHeader_minor _)))
    · exact .refl

variable {after : MetadataBuilder}

theorem importAll_edits {sources : List LpMetadataPartition}
    (done : importAll metadata sources b = .ok (some after)) :
    b.Edits after := by
  induction sources generalizing b with
  | nil =>
    cases done
    exact .refl
  | cons source rest ih =>
    rw [importAll, bind_eq_ok] at done
    obtain ⟨group, _, done⟩ := done
    have added := addPartition_edits b (getPartitionName source) (getPartitionGroupName group)
      source.attributes
    dsimp only at done
    split at done
    · cases done
    · rw [bind_eq_ok] at done
      obtain ⟨⟨filled, _⟩, stored, done⟩ := done
      have step := withPartition_edits stored fun p changed _ change => by
        rw [bind_eq_ok] at change
        obtain ⟨_, imported, change⟩ := change
        cases change
        exact importExtents_edits imported
      exact added.trans (step.trans (ih done))

theorem newFromMetadata_edits (done : newFromMetadata metadata = .ok (some b)) :
    (importStart metadata).Edits b := by
  unfold newFromMetadata at done
  split at done
  · cases done
  · rename_i groups found
    exact (importGroups_edits found).trans (importAll_edits done)

theorem refreshDevices_edits {getInfo : Name → Option BlockDeviceInfo}
    (done : b.refreshDevices getInfo = .ok after) :
    b.Edits after := by
  refine foldlM_ok_invariant _ (fun state => b.Edits state) _ ?_ b after .refl done
  intro state i next _ reached step
  split at step
  · cases step
    exact reached
  · rw [bind_eq_ok] at step
    obtain ⟨⟨middle, _⟩, updated, step⟩ := step
    cases step
    exact reached.trans (updateBlockDeviceAt_edits updated)

/-- The header the constructor makes, or its expanded form with some flags. -/
def Versioned (header : LpMetadataHeader) : Prop :=
  header = initialHeader ∨ ∃ flags, header = { initialHeader with
    minorVersion := versionForExpandedHeader
    headerSize := headerSizeV12
    flags := flags }

theorem Edit.versioned (edit : b.Edit after) (versioned : Versioned b.header) :
    Versioned after.header := by
  cases edit with
  | expandHeader =>
    unfold requireExpandedMetadataHeader
    split
    · exact versioned
    · rename_i old
      rcases versioned with initial | ⟨flags, expanded⟩
      · exact .inr ⟨0, by rw [initial]; rfl⟩
      · rw [expanded] at old
        exact absurd (BitVec.le_refl _) old
  | setFlags flags expanded =>
    rcases versioned with initial | ⟨old, header⟩
    · rw [initial] at expanded
      exact absurd expanded (by decide)
    · exact .inr ⟨flags, by rw [header]⟩
  | _ => exact versioned

variable {kept : MetadataBuilder → Prop}

theorem Edits.invariant (edit : ∀ b after, Edit b after → kept b → kept after)
    (edits : b.Edits after) (start : kept b) :
    kept after := by
  induction edits with
  | refl => exact start
  | tail _ last ih => exact edit _ _ last ih

/-- An invariant of all builders a program can hold: it holds of the builders `New` starts
from and is kept by every edit. -/
theorem Reachable.invariant {kept : MetadataBuilder → Prop}
    (created : ∀ b, b.header = initialHeader → b.partitions = [] → kept b)
    (edit : ∀ b after, Edit b after → kept b → kept after)
    (suffixed : ∀ b, kept b → kept { b with autoSlotSuffixing := true }) {b : MetadataBuilder}
    (reachable : Reachable b) :
    kept b := by
  induction reachable with
  | created done =>
    obtain ⟨_, _, _, _, _, _, _, _, _, _, _, rfl⟩ := new_eq_some done
    exact created _ rfl rfl
  | imported done =>
    exact (newFromMetadata_edits done).invariant edit (created _ rfl rfl)
  | opened done =>
    unfold newWithOpener at done
    rw [bind_eq_ok] at done
    obtain ⟨found, imported, done⟩ := done
    cases found with
    | none => cases done
    | some b =>
      simp only [bind_eq_ok] at done
      obtain ⟨refreshed, updated, done⟩ := done
      cases done
      have start := (newFromMetadata_edits imported).invariant edit (created _ rfl rfl)
      exact (refreshDevices_edits updated).invariant edit start
  | @applied b after op result _ done ih =>
    by_cases auto : op = .setAutoSlotSuffixing
    · subst auto
      cases done
      exact suffixed b ih
    · exact (apply_edits auto done).invariant edit ih

theorem Reachable.versioned (reachable : Reachable b) : Versioned b.header :=
  reachable.invariant (fun _ initial _ => .inl initial) (fun _ _ edit => edit.versioned)
    fun _ versioned => versioned

/-- An entry `Export` made, when the extent table had `extents` entries and the header the
version `minorVersion`. Positions are cut to 32 bits. -/
structure ExportedEntry (groups extents : Nat) (minorVersion : BitVec 16)
    (entry : LpMetadataPartition) : Prop where
  attributes : entry.attributes &&& ~~~attributeMask = 0
  updated : entry.attributes &&& attributeMaskV1 ≠ 0 → versionForUpdatedAttr ≤ minorVersion
  position : ∃ first count, entry.firstExtentIndex = BitVec.ofNat 32 first ∧
    entry.numExtents = BitVec.ofNat 32 count ∧ first + count ≤ extents
  group : ∃ i, entry.groupIndex = BitVec.ofNat 32 i ∧ i < groups

variable {extents : Nat} {minorVersion : BitVec 16} {entry : LpMetadataPartition}

theorem ExportedEntry.mono {groups more : Nat} {later : BitVec 16}
    (exported : ExportedEntry groups extents minorVersion entry) (longer : extents ≤ more)
    (newer : minorVersion ≤ later) :
    ExportedEntry groups more later entry where
  attributes := exported.attributes
  updated set := BitVec.le_trans (exported.updated set) newer
  position := by
    obtain ⟨first, count, firstEq, countEq, bound⟩ := exported.position
    exact ⟨first, count, firstEq, countEq, by omega⟩
  group := exported.group

/-- The state of `Export` inside its partition loop. -/
structure Exporting (b : MetadataBuilder) (groups : List LpMetadataPartitionGroup)
    (metadata : LpMetadata) : Prop where
  geometry : metadata.geometry = b.geometry
  groups : metadata.groups = groups
  devices : metadata.blockDevices = b.blockDevices.map b.exportBlockDevice
  header : metadata.header = b.header ∨ b.header.minorVersion < versionForUpdatedAttr ∧
    metadata.header = { b.header with minorVersion := versionForUpdatedAttr }
  partitions : ∀ entry ∈ metadata.partitions,
    ExportedEntry b.groups.length metadata.extents.length metadata.header.minorVersion entry
  extents : ∀ entry ∈ metadata.extents, entry.targetType ≠ targetTypeLinear ∨
    entry.targetSource.toNat < b.blockDevices.length

theorem groupIndex_name {groupName : Name} {i : Nat} (found : b.groupIndex groupName = some i) :
    ∃ group, b.groups[i]? = some group ∧ group.name = groupName := by
  unfold groupIndex at found
  rw [Option.map_eq_some_iff] at found
  obtain ⟨⟨group, j⟩, isFound, rfl⟩ := found
  have member := mem_reverse.mp (mem_of_find?_eq_some isFound)
  exact ⟨group, mk_mem_zipIdx_iff_getElem?.mp member, by simpa using find?_some isFound⟩

theorem addTo_source {count : Nat} {extent : Extent} {entry : LpMetadataExtent}
    (added : extent.addTo count = some entry) :
    entry.targetType ≠ targetTypeLinear ∨ entry.targetSource.toNat < count := by
  cases extent with
  | zero sectors =>
    cases added
    exact .inl (show targetTypeZero ≠ targetTypeLinear by decide)
  | linear extent =>
    simp only [Extent.addTo] at added
    split at added
    · cases added
    · rename_i known
      cases added
      exact .inr (not_le.mp known)

theorem exportedAttributes {attributes : BitVec 32} (auto : Bool)
    (allowed : attributes &&& ~~~attributeMask = 0) :
    (if auto then attributes ||| attrSlotSuffixed else attributes) &&& ~~~attributeMask = 0 ∧
      ((if auto then attributes ||| attrSlotSuffixed else attributes) &&& attributeMaskV1 ≠ 0 →
        attributes &&& attributeMaskV1 ≠ 0) := by
  have outside : attrSlotSuffixed &&& ~~~attributeMask = 0 := by decide
  have old : attrSlotSuffixed &&& attributeMaskV1 = 0 := by decide
  split
  · rw [and_or_distrib_right, and_or_distrib_right, allowed, old]
    exact ⟨by decide, fun set => by simpa using set⟩
  · exact ⟨allowed, id⟩

variable {groups : List LpMetadataPartitionGroup}

theorem Exporting.bump (exporting : b.Exporting groups metadata) :
    stdMax metadata.header.minorVersion versionForUpdatedAttr = metadata.header.minorVersion ∧
        versionForUpdatedAttr ≤ metadata.header.minorVersion ∨
      stdMax metadata.header.minorVersion versionForUpdatedAttr = versionForUpdatedAttr ∧
        metadata.header = b.header ∧ b.header.minorVersion < versionForUpdatedAttr := by
  by_cases old : metadata.header.minorVersion < versionForUpdatedAttr
  · right
    refine ⟨by simp [stdMax, old], ?_⟩
    rcases exporting.header with same | ⟨_, bumped⟩
    · exact ⟨same, same ▸ old⟩
    · rw [bumped] at old
      exact absurd old (BitVec.lt_irrefl _)
  · left
    exact ⟨by simp [stdMax, old], BitVec.not_lt.mp old⟩

theorem Exporting.step {next : LpMetadata} {partition : Partition}
    (exporting : b.Exporting groups metadata)
    (done : b.exportPartition metadata partition = some next) :
    b.Exporting groups next := by
  unfold exportPartition at done
  simp only [Option.bind_eq_bind, Option.bind_eq_some_iff, require_eq_some,
    decide_eq_true_eq] at done
  obtain ⟨_, _, _, allowed, i, grouped, extents, added, done⟩ := done
  have count : partition.extents.length = extents.length :=
    ((mapM_eq_some _ _ _).mp added).length_eq
  obtain ⟨attributes, updates⟩ := exportedAttributes b.autoSlotSuffixing allowed
  cases done
  -- the version only grows, and covers the new entry
  have versions : ∃ minorVersion, (if partition.attributes &&& attributeMaskV1 ≠ 0 then
        stdMax metadata.header.minorVersion versionForUpdatedAttr
      else metadata.header.minorVersion) = minorVersion ∧
      metadata.header.minorVersion ≤ minorVersion ∧
      (partition.attributes &&& attributeMaskV1 ≠ 0 → versionForUpdatedAttr ≤ minorVersion) ∧
      ({ metadata.header with minorVersion := minorVersion } = b.header ∨
        b.header.minorVersion < versionForUpdatedAttr ∧
        { metadata.header with minorVersion := minorVersion } =
            { b.header with minorVersion := versionForUpdatedAttr }) := by
    by_cases set : partition.attributes &&& attributeMaskV1 ≠ 0
    · rw [if_pos set]
      rcases exporting.bump with ⟨same, new⟩ | ⟨bumped, header, old⟩
      · exact ⟨_, same, BitVec.le_refl _, fun _ => new, exporting.header⟩
      · exact ⟨_, bumped, header ▸ BitVec.le_of_lt old, fun _ =>
          BitVec.le_refl _, .inr ⟨old, by rw [header]⟩⟩
    · rw [if_neg set]
      exact ⟨_, rfl, BitVec.le_refl _, fun contrary => absurd contrary set, exporting.header⟩
  obtain ⟨minorVersion, version, newer, covers, header⟩ := versions
  rw [version]
  refine ⟨exporting.geometry, exporting.groups, exporting.devices, header, ?_, ?_⟩
  · intro entry member
    rcases mem_append.mp member with old | new
    · exact (exporting.partitions entry old).mono (by simp) newer
    · cases mem_singleton.mp new
      obtain ⟨group, here, -⟩ := groupIndex_name grouped
      refine ⟨attributes, fun set => covers (updates set), ⟨_, _, rfl, rfl, ?_⟩,
        ⟨i, rfl, (List.getElem?_eq_some_iff.mp here).1⟩⟩
      simp [count]
  · intro entry member
    rcases mem_append.mp member with old | new
    · exact exporting.extents entry old
    · obtain ⟨extent, _, made⟩ := mem_of_mapM_eq_some _ added new
      have source := addTo_source made
      rwa [exporting.devices, length_map] at source

variable {m : LpMetadata}

theorem exportMetadata_eq_some (exported : b.exportMetadata = some m) :
    ∃ groups metadata, b.groups.mapM b.exportGroup = some groups ∧
      b.partitions.foldlM b.exportPartition
        ⟨b.geometry, b.header, [], [], groups, b.blockDevices.map b.exportBlockDevice⟩ =
        some metadata ∧
      b.validatePartitionGroups = true ∧ m = { metadata with header := countEntries metadata } := by
  unfold exportMetadata at exported
  simp only [Option.bind_eq_bind, Option.bind_eq_some_iff, require_eq_some] at exported
  obtain ⟨_, valid, groups, found, metadata, looped, same⟩ := exported
  cases same
  exact ⟨groups, metadata, found, looped, valid, rfl⟩

theorem exporting_of_loop
    (looped : b.partitions.foldlM b.exportPartition ⟨b.geometry, b.header, [], [], groups,
      b.blockDevices.map b.exportBlockDevice⟩ = some metadata) :
    b.Exporting groups metadata := by
  refine foldlM_some_invariant _ (b.Exporting groups) _ ?_ _ metadata ?_ looped
  · intro state partition next _ exporting step
    exact exporting.step step
  · exact ⟨rfl, rfl, rfl, .inl rfl, nofun, nofun⟩

theorem ExportedEntry.validAttributes {groups : Nat}
    (exported : ExportedEntry groups extents minorVersion entry) :
    entry.attributes &&& ~~~validAttributes minorVersion = 0 := by
  unfold Liblp.validAttributes
  split
  · exact exported.attributes
  · rename_i old
    have clear : entry.attributes &&& attributeMaskV1 = 0 := by
      by_contra set
      exact old (exported.updated set)
    have masks : ~~~attributeMaskV0 = ~~~attributeMask ||| attributeMaskV1 := by decide
    rw [masks, and_or_distrib_left, exported.attributes, clear]
    decide

/-- With fewer than 2³² entries the reader's tests of a partition hold. -/
theorem ExportedEntry.valid {header : LpMetadataHeader} {groups : Nat}
    (exported : ExportedEntry groups extents header.minorVersion entry)
    (extentCount : header.extents.numEntries.toNat = extents)
    (groupCount : header.groups.numEntries.toNat = groups) :
    validatePartition header entry = .ok () := by
  obtain ⟨first, count, firstEq, countEq, bound⟩ := exported.position
  obtain ⟨i, groupEq, inside⟩ := exported.group
  have sum : (entry.firstExtentIndex + entry.numExtents).toNat = first + count := by
    rw [firstEq, countEq, toNat_add, toNat_ofNat, toNat_ofNat]
    omega
  have start : entry.firstExtentIndex.toNat = first := by
    simp [firstEq]
    omega
  have index : entry.groupIndex.toNat = i := by
    simp [groupEq]
    omega
  simp only [validatePartition, bind_eq_ok, demand_eq_ok, decide_eq_true_eq, le_def, lt_def]
  exact ⟨(), exported.validAttributes, (), by omega, (), by omega, by omega⟩

/-- The header versions a table has: 10.0 and 10.1 with 128 bytes, 10.2 with 256. -/
theorem Versioned.readable (versioned : Versioned b.header)
    (exporting : b.Exporting groups metadata) :
    Readable (countEntries metadata) ∧ (countEntries metadata).blockDevices.entrySize = 64 := by
  have parts : metadata.header = initialHeader ∨
      metadata.header = { initialHeader with minorVersion := versionForUpdatedAttr } ∨
      ∃ flags, metadata.header = { initialHeader with
        minorVersion := versionForExpandedHeader, headerSize := headerSizeV12, flags :=
          flags } := by
    rcases exporting.header with same | ⟨old, bumped⟩
    · rcases versioned with initial | ⟨flags, expanded⟩
      · exact .inl (same.trans initial)
      · exact .inr (.inr ⟨flags, same.trans expanded⟩)
    · rcases versioned with initial | ⟨flags, expanded⟩
      · exact .inr (.inl (by rw [bumped, initial]))
      · have newer : ¬ versionForExpandedHeader < versionForUpdatedAttr := by decide
        rw [expanded] at old
        exact absurd old newer
  have oldest : minorVersionMin ≤ minorVersionMax := by decide
  have middle : versionForUpdatedAttr ≤ minorVersionMax := by decide
  have newest : versionForExpandedHeader ≤ minorVersionMax := by decide
  have large : ¬ headerSizeV12 = headerSizeV10 := by decide
  unfold countEntries
  rcases parts with header | header | ⟨flags, header⟩
  · rw [header]
    exact ⟨⟨rfl, rfl, oldest, rfl, fun _ => ⟨rfl, rfl⟩, rfl, rfl, rfl⟩, rfl⟩
  · rw [header]
    exact ⟨⟨rfl, rfl, middle, rfl, fun _ => ⟨rfl, rfl⟩, rfl, rfl, rfl⟩, rfl⟩
  · rw [header]
    exact ⟨⟨rfl, rfl, newest, rfl, fun small => absurd small large, rfl, rfl, rfl⟩, rfl⟩

variable {super : LpMetadataBlockDevice}

/-- The reader's reserved-space test is weaker than the writer's: it compares the same sum
modulo 2³². -/
theorem validateSuper_of_reserved {geometry : LpMetadataGeometry}
    {blockDevices : List LpMetadataBlockDevice}
    (first : blockDevices.head? = some super)
    (reserved : totalReserved geometry ≤ super.firstLogicalSector * sectorSize) :
    validateSuper geometry blockDevices = .ok () := by
  have narrow : (getTotalMetadataSize geometry.metadataMaxSize geometry.metadataSlotCount).toNat ≤
      (totalReserved geometry).toNat := by
    simp only [getTotalMetadataSize, totalReserved, toNat_setWidth, toNat_add, toNat_mul]
    rw [Nat.mod_eq_of_lt (a := geometry.metadataMaxSize.toNat) (by omega),
      Nat.mod_eq_of_lt (a := geometry.metadataSlotCount.toNat) (by omega)]
    generalize geometry.metadataMaxSize.toNat * geometry.metadataSlotCount.toNat = product
    change (4096 + (4096 + product % 2 ^ 32) % 2 ^ 32 * 2 % 2 ^ 32) % 2 ^ 32 % 2 ^ 64 ≤
      (4096 + (4096 + product % 2 ^ 64) % 2 ^ 64 * 2 % 2 ^ 64) % 2 ^ 64
    omega
  rw [le_def] at reserved
  simp only [validateSuper, first, demand_eq_ok, decide_eq_true_eq, le_def]
  omega

/-- Everything `Export` returns passes the reader's tests, when it fits its area. -/
theorem wellFormed_export (reachable : Reachable b) (exported : b.exportMetadata = some m)
    (tables : (serializeTables m).length ≤ m.geometry.metadataMaxSize.toNat)
    (super : validateSuper m.geometry m.blockDevices = .ok ()) :
    WellFormed m := by
  obtain ⟨groups, metadata, made, looped, _, rfl⟩ := exportMetadata_eq_some exported
  have exporting := exporting_of_loop looped
  obtain ⟨readable, deviceSize⟩ := reachable.versioned.readable exporting
  have groupCount : metadata.groups.length = b.groups.length := by
    rw [exporting.groups]
    exact (((mapM_eq_some _ _ _).mp made).length_eq).symm
  have deviceCount : metadata.blockDevices.length = b.blockDevices.length := by
    simp [exporting.devices]
  change (serializeTables metadata).length ≤ metadata.geometry.metadataMaxSize.toNat at tables
  have total := serializeTables_length metadata
  -- the blob is smaller than 2³² bytes, so no count is cut
  have whole : ∀ count, count ≤ (serializeTables metadata).length →
      (BitVec.ofNat 32 count).toNat = count := by
    intro count small
    rw [toNat_ofNat, Nat.mod_eq_of_lt (by omega)]
  have extentCount : (countEntries metadata).extents.numEntries.toNat = metadata.extents.length :=
    whole _ (by omega)
  have groupEntries : (countEntries metadata).groups.numEntries.toNat = b.groups.length :=
    groupCount ▸ whole _ (by omega)
  have devices : (countEntries metadata).blockDevices.numEntries.toNat =
      metadata.blockDevices.length := whole _ (by omega)
  refine ⟨⟨readable, whole _ (by omega), extentCount, whole _ (by omega), ?_, ?_, ?_⟩, devices,
    deviceSize, tables, super⟩
  · intro partition member
    have entry : ExportedEntry b.groups.length metadata.extents.length
        (countEntries metadata).minorVersion partition := exporting.partitions partition member
    exact entry.valid extentCount groupEntries
  · intro extent member
    simp only [validateExtent, demand_eq_ok, decide_eq_true_eq, lt_def]
    rw [devices, deviceCount]
    exact exporting.extents extent member
  · rw [devices, deviceSize]
    exact le_rfl

theorem export_wellFormed (sha256 : Hash) (reachable : Reachable b)
    (exported : b.exportMetadata = some m)
    (fits : (serializeMetadata sha256 m).length ≤ m.geometry.metadataMaxSize.toNat)
    (first : getMetadataSuperBlockDevice m = some super)
    (reserved : totalReserved m.geometry ≤ super.firstLogicalSector * sectorSize) :
    WellFormed m := by
  rw [serializeMetadata, length_append] at fits
  exact wellFormed_export reachable exported ((Nat.le_add_left _ _).trans fits)
    (validateSuper_of_reserved first reserved)

theorem Reachable.run {ops : List Op} (reachable : Reachable b) (ran : b.run ops = .ok after) :
    Reachable after :=
  run_invariant Reachable (fun _ => True)
    (fun _ _ _ _ _ before done => .applied before done) (fun _ _ => trivial) reachable ran

/-- Decoding undoes encoding for every table a builder exports. -/
theorem export_parse_serialize (sha256 : Hash) {b : MetadataBuilder} {m : LpMetadata}
    (reachable : Reachable b) (exported : b.exportMetadata = some m)
    (fits : (serializeMetadata sha256 m).length ≤ m.geometry.metadataMaxSize.toNat)
    {super : LpMetadataBlockDevice} (first : getMetadataSuperBlockDevice m = some super)
    (reserved : totalReserved m.geometry ≤ super.firstLogicalSector * sectorSize) :
    ∃ parsed, parseMetadata sha256 m.geometry (serializeMetadata sha256 m) = .ok parsed ∧
      parsed.partitions = m.partitions ∧ parsed.extents = m.extents ∧
      parsed.groups = m.groups ∧ parsed.blockDevices = m.blockDevices ∧
      parsed.header.majorVersion = m.header.majorVersion ∧
      parsed.header.minorVersion = m.header.minorVersion ∧
      parsed.header.flags = m.header.flags := by
  have wellFormed := export_wellFormed sha256 reachable exported fits first reserved
  have parsed := wellFormed.parse_serialize sha256 []
  rw [append_nil] at parsed
  exact ⟨_, parsed, rfl, rfl, rfl, rfl, rfl, rfl, rfl⟩

theorem export_parse_serialize_uneven :
    ∃ b m parsed, unevenBuilder.run (sizeTo [2101248] ++ [.setVirtualABDeviceFlag]) = .ok b ∧
      b.exportMetadata = some m ∧ m.extents = [⟨4104, targetTypeLinear, 2048, 0⟩] ∧
      m.header.flags = headerFlagVirtualABDevice ∧ parseMetadata (fun _ => Fixed.zero 32) m.geometry
        (serializeMetadata (fun _ => Fixed.zero 32) m) = .ok parsed ∧
      parsed.extents = m.extents ∧ parsed.header.flags = m.header.flags := by
  have ran : ∃ b m super, unevenBuilder.run (sizeTo [2101248] ++ [.setVirtualABDeviceFlag]) =
      .ok b ∧ b.exportMetadata = some m ∧ m.extents = [⟨4104, targetTypeLinear, 2048, 0⟩] ∧
      m.header.flags = headerFlagVirtualABDevice ∧
      m.partitions.length = 1 ∧ m.groups.length = 1 ∧ m.blockDevices = [super] ∧
      m.geometry.metadataMaxSize = 65536 ∧
      totalReserved m.geometry ≤ super.firstLogicalSector * sectorSize :=
    ⟨_, _, _, rfl, rfl, rfl, rfl, rfl, rfl, rfl, rfl, by decide⟩
  obtain ⟨b, m, super, ran, exported, extents, flags, partitions, groups, devices, maxSize,
    reserved⟩ := ran
  have fits : (serializeMetadata (fun _ => Fixed.zero 32) m).length ≤
      m.geometry.metadataMaxSize.toNat := by
    rw [serializeMetadata_length, serializeTables_length, partitions, groups, devices, extents,
      maxSize, length_singleton, length_singleton]
    exact (Nat.add_le_add_right (min_le_right _ _) _).trans (by decide)
  have first : getMetadataSuperBlockDevice m = some super := by
    simp [getMetadataSuperBlockDevice, devices]
  obtain ⟨parsed, accepted, _, sameExtents, _, _, _, _, sameFlags⟩ :=
    export_parse_serialize _ (Reachable.run (.created new_unevenSuper) ran) exported fits first
      reserved
  exact ⟨b, m, parsed, ran, exported, extents, flags, accepted, sameExtents, sameFlags⟩

end MetadataBuilder

end Aosp.Liblp
