import Aosp.Liblp.Tidy

namespace Aosp.Liblp

open Fallible List Partition
open Layout (Byte)

/-- The names of a builder are C strings. -/
structure MetadataBuilder.PlainNames (b : MetadataBuilder) : Prop where
  partitions : ∀ p ∈ b.partitions, 0 ∉ p.name
  groups : ∀ g ∈ b.groups, 0 ∉ g.name

theorem Extent.ofEntry_addTo {count : Nat} {extent : Extent} {entry : LpMetadataExtent}
    (added : extent.addTo count = some entry) :
    Extent.ofEntry entry = some extent := by
  cases extent with
  | zero sectors =>
    cases added
    rfl
  | linear extent =>
    simp only [Extent.addTo] at added
    split at added <;> cases added
    rfl

namespace MetadataBuilder

/-- The entry of a partition, in a table with these extents and groups. -/
structure EntryOf (extents : List LpMetadataExtent) (groups : List PartitionGroup)
    (p : Partition) (entry : LpMetadataPartition) : Prop where
  name : entry.name = strncpy 36 p.name
  short : p.name.length ≤ 36
  attributes : entry.attributes = p.attributes
  group : ∃ i group, entry.groupIndex = BitVec.ofNat 32 i ∧ groups[i]? = some group ∧
    group.name = p.groupName
  extents : ∃ first, entry.firstExtentIndex = BitVec.ofNat 32 first ∧
    entry.numExtents = BitVec.ofNat 32 p.extents.length ∧
    first + p.extents.length ≤ extents.length ∧
    ∀ i extent, p.extents[i]? = some extent →
      ∃ stored, extents[first + i]? = some stored ∧ Extent.ofEntry stored = some extent

variable {groups : List PartitionGroup} {p : Partition} {entry : LpMetadataPartition}

theorem EntryOf.mono {extents : List LpMetadataExtent} (entryOf : EntryOf extents groups p entry)
    (more : List LpMetadataExtent) :
    EntryOf (extents ++ more) groups p entry := by
  obtain ⟨first, firstEq, count, bound, stored⟩ := entryOf.extents
  refine ⟨entryOf.name, entryOf.short, entryOf.attributes, entryOf.group, first, firstEq, count,
    by rw [length_append]; omega, fun i extent found => ?_⟩
  obtain ⟨here, isStored, same⟩ := stored i extent found
  have inside := (List.getElem?_eq_some_iff.mp isStored).1
  exact ⟨here, by rw [getElem?_append_left inside, isStored], same⟩

variable {b : MetadataBuilder} {i : Nat}

variable {metadata : LpMetadata}

/-- One round of `Export` stores its partition behind the ones before it. -/
theorem exportPartition_entryOf (plain : b.autoSlotSuffixing = false) {next : LpMetadata}
    {partition : Partition} (done : b.exportPartition metadata partition = some next) :
    ∃ entry more, next.partitions = metadata.partitions ++ [entry] ∧
      next.extents = metadata.extents ++ more ∧
      EntryOf next.extents b.groups partition entry := by
  unfold exportPartition at done
  simp only [Option.bind_eq_bind, Option.bind_eq_some_iff, require_eq_some,
    decide_eq_true_eq] at done
  obtain ⟨_, short, _, allowed, i, grouped, extents, added, done⟩ := done
  cases done
  obtain ⟨group, known, named⟩ := groupIndex_name grouped
  rw [mapM_eq_some] at added
  refine ⟨_, extents, rfl, rfl, ⟨rfl, short, by rw [plain]; rfl, ⟨i, group, rfl, known, named⟩,
    metadata.extents.length, rfl, rfl, ?_, fun j extent found => ?_⟩⟩
  · simp [added.length_eq]
  · obtain ⟨inside, rfl⟩ := List.getElem?_eq_some_iff.mp found
    have inTable : j < extents.length := added.length_eq ▸ inside
    refine ⟨extents.get ⟨j, inTable⟩, ?_, ?_⟩
    · rw [getElem?_append_right (Nat.le_add_right _ _), Nat.add_sub_cancel_left]
      exact List.getElem?_eq_getElem inTable
    · exact Extent.ofEntry_addTo ((forall₂_iff_get.mp added).2 j inside inTable)

theorem export_entries (plain : b.autoSlotSuffixing = false)
    {groups : List LpMetadataPartitionGroup} {devices : List LpMetadataBlockDevice}
    (looped : b.partitions.foldlM b.exportPartition ⟨b.geometry, b.header, [], [], groups,
      devices⟩ = some metadata) :
    List.Forall₂ (EntryOf metadata.extents b.groups) b.partitions metadata.partitions := by
  refine foldlM_some_done _
    (fun done state => List.Forall₂ (EntryOf state.extents b.groups) done state.partitions) ?_
    [] b.partitions _ metadata .nil looped
  intro done state partition next entries step
  obtain ⟨entry, more, partitions, extents, entryOf⟩ := exportPartition_entryOf plain step
  rw [partitions]
  refine rel_append (entries.imp fun p old entryOfOld => ?_) (.cons entryOf .nil)
  rw [extents]
  exact entryOfOld.mono more

theorem appendExtent_next {extents : List Extent} {extent : Extent}
    (unmerged : Partition.Unmerged extents) (found : extents[i]? = some extent) :
    Partition.appendExtent (extents.take i) extent = extents.take (i + 1) := by
  have next : extents.take (i + 1) = extents.take i ++ [extent] := by
    rw [take_add_one, found, Option.toList_some]
  rcases appendExtent_cases (extents.take i) extent with
    ⟨_, appended⟩ | ⟨kept, previous, following, split, rfl, continued, _⟩
  · rw [next, appended]
  · -- the two would be neighbours that continue each other
    have chain : Partition.Unmerged (extents.take (i + 1)) := unmerged.take _
    rw [next, split] at chain
    obtain ⟨_, _, joint⟩ := isChain_append.mp chain
    exact absurd continued (joint (.linear previous) (by simp) (.linear following) rfl)

/-- `ImportExtents` rebuilds the partition an entry was made of. -/
theorem importExtents_entryOf (entryOf : EntryOf metadata.extents groups p entry) (tidy : p.Tidy)
    (few : metadata.extents.length < 2 ^ 32) :
    importExtents metadata entry (Partition.new p.name p.groupName p.attributes) = .ok p := by
  obtain ⟨first, firstEq, countEq, bound, stored⟩ := entryOf.extents
  have start : entry.firstExtentIndex.toNat = first := by
    rw [firstEq, BitVec.toNat_ofNat, Nat.mod_eq_of_lt (by omega)]
  have count : entry.numExtents.toNat = p.extents.length := by
    rw [countEq, BitVec.toNat_ofNat, Nat.mod_eq_of_lt (by omega)]
  -- after `n` rounds the first `n` extents are back
  have rounds : ∀ n ≤ p.extents.length, (List.range n).foldlM (importExtent metadata entry)
        (Partition.new p.name p.groupName p.attributes) =
      .ok { p with
        extents := p.extents.take n
        size := Partition.totalSize (p.extents.take n) } := by
    intro n
    induction n with
    | zero => exact fun _ => rfl
    | succ n ih =>
      intro inside
      have found : p.extents[n]? = some (p.extents.get ⟨n, inside⟩) :=
        List.getElem?_eq_getElem inside
      generalize p.extents.get ⟨n, inside⟩ = extent at found
      obtain ⟨here, isStored, isExtent⟩ := stored n extent found
      have size : Partition.totalSize (p.extents.take n) + extent.numSectors * sectorSize =
          Partition.totalSize (p.extents.take (n + 1)) := by
        rw [← appendExtent_next tidy.unmerged found, Partition.totalSize_appendExtent]
      rw [range_succ, foldlM_append, ih (Nat.le_of_succ_le inside)]
      simp only [foldlM_cons, foldlM_nil, bind, Except.bind, importExtent, start,
        (index_eq_ok _ _ _ _).mpr isStored, isExtent, Partition.addExtent, size,
        appendExtent_next tidy.unmerged found, pure, Except.pure]
  rw [importExtents, count, rounds _ le_rfl, take_length, ← tidy.sized]

theorem exportGroup_eq_some {group : PartitionGroup} {entry : LpMetadataPartitionGroup}
    (exported : b.exportGroup group = some entry) (plain : 0 ∉ group.name) :
    getPartitionGroupName entry = group.name ∧ entry.maximumSize = group.maximumSize := by
  unfold exportGroup at exported
  simp only [Option.bind_eq_bind, Option.bind_eq_some_iff, require_eq_some,
    decide_eq_true_eq] at exported
  obtain ⟨_, short, exported⟩ := exported
  cases exported
  exact ⟨nameFromFixedArray_strncpy 36 group.name short plain, rfl⟩

theorem importGroup_loop {entries : List LpMetadataPartitionGroup}
    (exported : List.Forall₂ (fun group entry => b.exportGroup group = some entry) groups entries)
    (plain : ∀ group ∈ groups, 0 ∉ group.name) (start : MetadataBuilder)
    (distinct : ((start.groups ++ groups).map PartitionGroup.name).Nodup) :
    entries.foldlM importGroup start = some { start with groups := start.groups ++ groups } := by
  induction exported generalizing start with
  | nil =>
    simp
  | @cons group entry rest others here _ ih =>
    obtain ⟨name, maximumSize⟩ := exportGroup_eq_some here (plain group mem_cons_self)
    have fresh : start.findGroup group.name = none := by
      rw [findGroup, find?_eq_none]
      intro other member
      rw [decide_eq_true_eq]
      intro same
      rw [map_append, nodup_append] at distinct
      exact distinct.2.2 other.name (mem_map_of_mem member) group.name
        (mem_map_of_mem mem_cons_self) same
    have step : importGroup start entry = some { start with groups :=
      start.groups ++ [group] } := by
      simp [importGroup, addGroup, name, maximumSize, fresh]
    have later := ih (fun other inRest => plain other (mem_cons_of_mem _ inRest))
      { start with groups := start.groups ++ [group] }
      (by rwa [append_assoc])
    rw [foldlM_cons, step]
    simp only [append_assoc] at later
    exact later

/-- The header an import starts with is the one the table was exported under. -/
theorem importHeader (versioned : Versioned b.header)
    {groups : List LpMetadataPartitionGroup} (exporting : b.Exporting groups metadata) :
    (if versionForExpandedHeader ≤ metadata.header.minorVersion then
        let start := (importStart metadata).requireExpandedMetadataHeader
        { start with header := { start.header with flags := metadata.header.flags } }
      else importStart metadata) = { importStart metadata with header := b.header } := by
  have old : ¬ versionForExpandedHeader ≤ minorVersionMin := by decide
  have middle : ¬ versionForExpandedHeader ≤ versionForUpdatedAttr := by decide
  rcases versioned with initial | ⟨flags, expanded⟩
  · have low : ¬ versionForExpandedHeader ≤ metadata.header.minorVersion := by
      rcases exporting.header with same | ⟨_, bumped⟩
      · rw [same, initial]
        exact old
      · rw [bumped]
        exact middle
    rw [if_neg low, initial]
    rfl
  · have newer : ¬ versionForExpandedHeader < versionForUpdatedAttr := by decide
    have same : metadata.header = b.header := by
      rcases exporting.header with same | ⟨contrary, _⟩
      · exact same
      · rw [expanded] at contrary
        exact absurd contrary newer
    rw [same, expanded]
    rfl

theorem updateFirst_append {name : Name} (change : Partition → Except Fault (Partition × Bool))
    {front : List Partition} (others : ∀ other ∈ front, other.name ≠ name) (p : Partition)
    (named : p.name = name) :
    updateFirst name change (front ++ [p]) = (change p).map fun changed =>
      (front ++ [changed.1], changed.2) := by
  induction front with
  | nil =>
    rw [nil_append, updateFirst, if_pos named]
    cases change p <;> rfl
  | cons first rest ih =>
    have later := ih fun other member => others other (mem_cons_of_mem _ member)
    rw [cons_append, updateFirst, if_neg (others first mem_cons_self), later]
    cases change p <;> rfl

theorem importAll_exported (few : metadata.extents.length < 2 ^ 32)
    (fewGroups : b.groups.length < 2 ^ 32)
    (groupNames : ∀ (i : Nat) (group : PartitionGroup), b.groups[i]? = some group →
      ∃ entry, metadata.groups[i]? = some entry ∧ getPartitionGroupName entry = group.name)
    {partitions : List Partition} {entries : List LpMetadataPartition}
    (exported : List.Forall₂ (EntryOf metadata.extents b.groups) partitions entries)
    (plain : ∀ p ∈ partitions, 0 ∉ p.name) (tidy : ∀ p ∈ partitions, p.Tidy)
    (done : List Partition) (distinct : ((done ++ partitions).map Partition.name).Nodup) :
    importAll metadata entries { b with partitions := done } =
      .ok (some { b with partitions := done ++ partitions }) := by
  induction exported generalizing done with
  | nil =>
    rw [append_nil]
    rfl
  | @cons p entry rest others here _ ih =>
    have pTidy := tidy p mem_cons_self
    have name : getPartitionName entry = p.name := by
      rw [getPartitionName, here.name, nameFromFixedArray_strncpy 36 p.name here.short
        (plain p mem_cons_self)]
    obtain ⟨i, group, groupEq, known, groupName⟩ := here.group
    have small : i < 2 ^ 32 := (List.getElem?_eq_some_iff.mp known).1.trans fewGroups
    obtain ⟨stored, isStored, storedName⟩ := groupNames i group known
    have index : entry.groupIndex.toNat = i := by
      rw [groupEq, BitVec.toNat_ofNat, Nat.mod_eq_of_lt small]
    have others : ∀ other ∈ done, other.name ≠ p.name := by
      intro other member same
      rw [map_append, nodup_append] at distinct
      exact distinct.2.2 other.name (mem_map_of_mem member) p.name
        (mem_map_of_mem mem_cons_self) same
    have fresh : findPartition { b with partitions := done } p.name = none := by
      rw [findPartition, find?_eq_none]
      exact fun other member => by simpa using others other member
    have grouped : (findGroup { b with partitions := done } p.groupName).isNone = false := by
      rw [← groupName, Option.isNone_eq_false_iff, findGroup, find?_isSome]
      exact ⟨group, mem_of_getElem? known, by simp⟩
    have added : addPartition { b with partitions := done } p.name p.groupName p.attributes =
        ({ b with partitions := done ++ [Partition.new p.name p.groupName p.attributes] },
        true) := by
      simp [addPartition, pTidy.named, fresh, grouped]
    have filled : withPartition { b with partitions :=
      done ++ [Partition.new p.name p.groupName p.attributes] } p.name
        (fun partition => do .ok (← importExtents metadata entry partition, true)) =
          .ok ({ b with partitions := done ++ [p] }, true) := by
      have extents := importExtents_entryOf here pTidy few
      have updated := updateFirst_append
        (fun partition => do .ok (← importExtents metadata entry partition, true)) others
        (Partition.new p.name p.groupName p.attributes) rfl
      rw [withPartition, updated]
      simp only [extents, bind, Except.bind, Except.map]
    have later := ih (fun q inRest => plain q (mem_cons_of_mem _ inRest))
      (fun q inRest => tidy q (mem_cons_of_mem _ inRest)) (done ++ [p])
      (by rwa [append_assoc])
    rw [importAll, index, (index_eq_ok _ _ _ _).mpr isStored]
    simp only [bind, Except.bind, name, storedName, groupName, here.attributes, added,
      Bool.not_true, Bool.false_eq_true, ↓reduceIte] at filled later ⊢
    rw [filled]
    simpa only [append_assoc, singleton_append] using later

/-- `New(metadata)` on the table of a tidy builder returns that builder. -/
theorem newFromMetadata_export {m : LpMetadata} (tidy : b.Tidy) (plain : b.PlainNames)
    (exported : b.exportMetadata = some m) (few : m.extents.length < 2 ^ 32)
    (fewGroups : m.groups.length < 2 ^ 32) :
    newFromMetadata m = .ok (some b) := by
  obtain ⟨groups, metadata, made, looped, _, rfl⟩ := exportMetadata_eq_some exported
  have exporting := exporting_of_loop looped
  have entries := export_entries tidy.plain looped
  rw [mapM_eq_some] at made
  have devices : metadata.blockDevices = b.blockDevices := by
    have same : b.exportBlockDevice = id := by
      funext device
      simp [exportBlockDevice, tidy.plain]
    rw [exporting.devices, same, map_id]
  have start : importStart metadata = { b with header := initialHeader, partitions := [], groups :=
    [] } := by
    simp [importStart, exporting.geometry, devices, empty, tidy.plain]
  have groupCount : b.groups.length = metadata.groups.length := by
    rw [exporting.groups]
    exact made.length_eq
  have header := importHeader tidy.header exporting
  have imported : importGroups { metadata with header := countEntries metadata } =
      some { b with partitions := [] } := by
    have loop := importGroup_loop made plain.groups { importStart metadata with header := b.header }
      (by simpa [start] using tidy.groupNames)
    rw [← exporting.groups] at loop
    refine (congrArg (metadata.groups.foldlM importGroup) header).trans (loop.trans ?_)
    rw [start]
    rfl
  have groupNames : ∀ (i : Nat) (group : PartitionGroup), b.groups[i]? = some group →
      ∃ entry, metadata.groups[i]? = some entry ∧ getPartitionGroupName entry = group.name := by
    intro i group found
    obtain ⟨inside, rfl⟩ := List.getElem?_eq_some_iff.mp found
    have inTable : i < metadata.groups.length := groupCount ▸ inside
    rw [exporting.groups] at inTable ⊢
    refine ⟨_, List.getElem?_eq_getElem inTable, ?_⟩
    exact (exportGroup_eq_some ((forall₂_iff_get.mp made).2 i inside inTable)
      (plain.groups _ (getElem_mem _))).1
  have partitions := importAll_exported few (groupCount ▸ fewGroups) groupNames entries
    plain.partitions tidy.partitions [] tidy.partitionNames
  rw [newFromMetadata, imported]
  exact partitions

/-- Import undoes export. -/
theorem import_export {blockDevices : List BlockDeviceInfo} {superPartition : Name}
    {metadataMaxSize metadataSlotCount : BitVec 32} {start b : MetadataBuilder} {ops : List Op}
    {m : LpMetadata}
    (created : new blockDevices superPartition metadataMaxSize metadataSlotCount = some start)
    (unsuffixed : ∀ op ∈ ops, op ≠ .setAutoSlotSuffixing) (ran : start.run ops = .ok b)
    (exported : b.exportMetadata = some m) (names : b.PlainNames)
    (few : m.extents.length < 2 ^ 32) (fewGroups : m.groups.length < 2 ^ 32) :
    ∃ imported, newFromMetadata m = .ok (some imported) ∧ imported.exportMetadata = some m := by
  have tidy := run_tidy created unsuffixed ran
  exact ⟨b, newFromMetadata_export tidy names exported few fewGroups, exported⟩

theorem import_export_uneven :
    ∃ b m imported, unevenBuilder.run (sizeTo [2101248] ++ [.setVirtualABDeviceFlag]) = .ok b ∧
      b.exportMetadata = some m ∧ m.extents = [⟨4104, targetTypeLinear, 2048, 0⟩] ∧
      newFromMetadata m = .ok (some imported) ∧ imported.exportMetadata = some m := by
  have ran : ∃ b m, unevenBuilder.run (sizeTo [2101248] ++ [.setVirtualABDeviceFlag]) = .ok b ∧
      b.exportMetadata = some m ∧ m.extents = [⟨4104, targetTypeLinear, 2048, 0⟩] ∧
      m.groups.length = 1 ∧ b.partitions.map name = [ascii ['a']] ∧
      b.groups.map PartitionGroup.name = [defaultGroup] :=
    ⟨_, _, rfl, rfl, rfl, rfl, rfl, rfl⟩
  obtain ⟨b, m, ran, exported, extents, groups, partitionNames, groupNames⟩ := ran
  have names : b.PlainNames := by
    constructor
    · intro p member
      have named := mem_map_of_mem (f := name) member
      rw [partitionNames, mem_singleton] at named
      rw [named]
      decide
    · intro group member
      have named := mem_map_of_mem (f := PartitionGroup.name) member
      rw [groupNames, mem_singleton] at named
      rw [named]
      decide
  obtain ⟨imported, isImported, same⟩ := import_export new_unevenSuper (by decide) ran exported
    names (by rw [extents]; decide) (by rw [groups]; decide)
  exact ⟨b, m, imported, ran, exported, extents, isImported, same⟩

theorem importAll_header (m : LpMetadata) (header : LpMetadataHeader)
    (sources : List LpMetadataPartition) (b : MetadataBuilder) :
    importAll { m with header := header } sources b = importAll m sources b := by
  induction sources generalizing b with
  | nil => rfl
  | cons source rest ih =>
    simp only [importAll, ih]
    rfl

/-- A table that has been written and read again imports as the builder it was exported from. -/
theorem import_parse_serialize (sha256 : Hash) {blockDevices : List BlockDeviceInfo}
    {superPartition : Name} {metadataMaxSize metadataSlotCount : BitVec 32}
    {start b : MetadataBuilder} {m : LpMetadata}
    (created : new blockDevices superPartition metadataMaxSize metadataSlotCount = some start)
    (ops : List Op) (unsuffixed : ∀ op ∈ ops, op ≠ .setAutoSlotSuffixing)
    (ran : start.run ops = .ok b) (plain : b.PlainNames) (exported : b.exportMetadata = some m)
    (fits : (serializeTables m).length ≤ m.geometry.metadataMaxSize.toNat)
    (super : validateSuper m.geometry m.blockDevices = .ok ()) :
    ∃ parsed, parseMetadata sha256 m.geometry (serializeMetadata sha256 m) = .ok parsed ∧
      newFromMetadata parsed = .ok (some b) := by
  have wellFormed := wellFormed_export (.run (.created created) ran) exported fits super
  have parsed := wellFormed.parse_serialize sha256 []
  rw [append_nil] at parsed
  have total := serializeTables_length m
  have small := lt_of_le_of_lt wellFormed.fits m.geometry.metadataMaxSize.isLt
  have imported := newFromMetadata_export (run_tidy created unsuffixed ran) plain exported
    (by omega) (by omega)
  refine ⟨_, parsed, ?_⟩
  rw [← imported, newFromMetadata, newFromMetadata]
  simp only [importAll_header]
  rfl

theorem import_parse_serialize_uneven :
    ∃ b m parsed, unevenBuilder.run (sizeTo [4096]) = .ok b ∧
    b.exportMetadata = some m ∧ m.extents ≠ [] ∧
    parseMetadata (fun _ => Layout.Fixed.zero 32) m.geometry
      (serializeMetadata (fun _ => Layout.Fixed.zero 32) m) = .ok parsed ∧
      newFromMetadata parsed = .ok (some b) := by
  have ran : unevenBuilder.run (sizeTo [4096]) = .ok _ := rfl
  obtain ⟨parsed, back⟩ := import_parse_serialize (fun _ => Layout.Fixed.zero 32) new_unevenSuper _
    (by decide) ran ⟨by decide, by decide⟩ rfl (by decide +kernel) rfl
  exact ⟨_, _, parsed, ran, rfl, cons_ne_nil _ _, back⟩

variable (count : Nat)

/-- One partition and `count` zero extents of one sector. -/
def zeroExtents : List Op :=
  .addPartition (ascii ['a']) defaultGroup 0 ::
    List.replicate count (.addExtent (ascii ['a']) (.zero 1))

/-- The builder with that partition; its size does not reach the table. -/
def stretched (size : BitVec 64) : MetadataBuilder :=
  { unevenBuilder with
    partitions := [⟨ascii ['a'], defaultGroup, List.replicate count (.zero 1), 0, size⟩] }

theorem run_zeroExtents :
    ∃ size, unevenBuilder.run (zeroExtents count) = .ok (stretched count size) := by
  have step : ∀ before size, (stretched before size).apply (.addExtent (ascii ['a']) (.zero 1)) =
      .ok (stretched (before + 1) (size + 1 * sectorSize), true) := by
    intro before size
    have appended : appendExtent (List.replicate before (.zero 1)) (.zero 1) =
        List.replicate (before + 1) (.zero 1) := by
      rw [replicate_succ', appendExtent]
      simp
    simp only [apply, withPartition, updateFirst, stretched, ↓reduceIte, bind, Except.bind,
      addExtent, appended, Extent.numSectors]
  have rest : ∀ before size, ∃ final, (stretched before size).run
      (List.replicate count (.addExtent (ascii ['a']) (.zero 1))) =
      .ok (stretched (before + count) final) := by
    induction count with
    | zero => exact fun before size => ⟨size, rfl⟩
    | succ count ih =>
      intro before size
      obtain ⟨final, later⟩ := ih (before + 1) (size + 1 * sectorSize)
      refine ⟨final, ?_⟩
      rw [replicate_succ, run, foldlM_cons, step, Nat.add_right_comm] at *
      exact later
  obtain ⟨final, later⟩ := rest 0 0
  refine ⟨final, ?_⟩
  rw [Nat.zero_add] at later
  exact later

/-- The table of a builder whose partition has `count` extents, given the entries. -/
def stretchedTable (extents : List LpMetadataExtent) : LpMetadata where
  geometry := unevenBuilder.geometry
  header := { initialHeader with
    partitions := ⟨0, 1, 52⟩
    extents := ⟨0, BitVec.ofNat 32 count, 24⟩
    groups := ⟨0, 1, 48⟩
    blockDevices := ⟨0, 1, 64⟩ }
  partitions := [⟨strncpy 36 (ascii ['a']), 0, 0, BitVec.ofNat 32 count, 0⟩]
  extents := extents
  groups := [⟨strncpy 36 defaultGroup, 0, 0⟩]
  blockDevices := unevenBuilder.blockDevices

theorem export_stretched (size : BitVec 64) :
    (stretched count size).exportMetadata =
      some (stretchedTable count (List.replicate count ⟨1, targetTypeZero, 0, 0⟩)) := by
  have entries : (List.replicate count (Extent.zero 1)).mapM (Extent.addTo 1) =
      some (List.replicate count ⟨1, targetTypeZero, 0, 0⟩) := by
    rw [mapM_eq_some]
    induction count with
    | zero => exact .nil
    | succ count ih => exact .cons rfl ih
  have groups : (stretched count size).groups.mapM (stretched count size).exportGroup =
      some [⟨strncpy 36 defaultGroup, 0, 0⟩] := rfl
  have valid : (stretched count size).validatePartitionGroups = true := rfl
  have devices : (stretched count size).blockDevices.map (stretched count size).exportBlockDevice =
      unevenBuilder.blockDevices := rfl
  have group : (stretched count size).groupIndex defaultGroup = some 0 := rfl
  -- the one round of the partition loop
  have loop : (stretched count size).partitions.foldlM (stretched count size).exportPartition
      ⟨(stretched count size).geometry, (stretched count size).header, [], [],
        [⟨strncpy 36 defaultGroup, 0, 0⟩], unevenBuilder.blockDevices⟩ =
      some { stretchedTable count (List.replicate count ⟨1, targetTypeZero, 0, 0⟩) with
        header := unevenBuilder.header } := by
    have one : unevenBuilder.blockDevices.length = 1 := rfl
    have plain : (stretched count size).autoSlotSuffixing = false := rfl
    have short : (ascii ['a']).length ≤ 36 := by decide
    have allowed : (0 : BitVec 32) &&& ~~~attributeMask = 0 := by decide
    have old : (0 : BitVec 32) &&& attributeMaskV1 = 0 := by decide
    change [Partition.mk _ _ _ _ _].foldlM _ _ = _
    simp only [foldlM_cons, exportPartition, allowed, one, entries, length_replicate]
    rfl
  simp only [exportMetadata, groups, devices, loop,
    Option.bind_eq_bind, Option.bind_some, countEntries, stretchedTable, length_replicate]
  rfl

/-- With 2³² extents the count in the entry is zero, and the import finds none of them. -/
theorem import_drops_extents :
    ∃ b m, unevenBuilder.run (zeroExtents (2 ^ 32)) = .ok b ∧ b.exportMetadata = some m ∧
      b.PlainNames ∧ m.extents.length = 2 ^ 32 ∧ ∃ imported again,
      newFromMetadata m = .ok (some imported) ∧
        imported.exportMetadata = some again ∧ again.extents = [] := by
  obtain ⟨count, isCount⟩ : ∃ count : Nat, count = 2 ^ 32 := ⟨_, rfl⟩
  have wraps : BitVec.ofNat 32 count = 0 := by rw [isCount]; decide
  obtain ⟨size, ran⟩ := run_zeroExtents count
  have exported := export_stretched count size
  have bare : ∀ extents, newFromMetadata (stretchedTable count extents) =
      .ok (some (stretched 0 0)) := by
    intro extents
    have same : stretchedTable count extents = stretchedTable 0 extents := by
      simp only [stretchedTable, wraps]
      rfl
    rw [same]
    rfl
  rw [← isCount]
  refine ⟨stretched count size, _, ran, exported, ⟨?_, ?_⟩, length_replicate, stretched 0 0,
    _, bare _, export_stretched 0 0, rfl⟩
  · intro p member
    rw [mem_singleton.mp member]
    exact (by decide : (0 : Byte) ∉ ascii ['a'])
  · intro group member
    rw [mem_singleton.mp member]
    decide

end MetadataBuilder

end Aosp.Liblp
