import Aosp.Liblp.Exported
import Aosp.Liblp.Flash

namespace Aosp.Liblp

open Fallible List
open Layout (Byte Fixed Medium Write)
open Mirror (Side Store)

variable {sha256 : Hash} {sizes : DeviceSizes} {geometry : LpMetadataGeometry} {fd : Medium}
  {slot : BitVec 32} {metadata : LpMetadata}

/-- The writes of a call carry out a front of `plan`, all of it when the call succeeds. -/
structure CarriesOut (sha256 : Hash) (geometry : LpMetadataGeometry) (slot : BitVec 32)
    (outcome : Outcome) (plan : List (Side × Tables)) : Prop where
  targets : ∃ done, List.Forall₂ (Stores sha256 geometry slot) outcome.writes done ∧
    done <+: plan ∧ (outcome.succeeded = true → done = plan)

theorem CarriesOut.failure (plan : List (Side × Tables)) :
    CarriesOut sha256 geometry slot .failure plan :=
  ⟨[], .nil, nil_prefix, fun contrary => by cases contrary⟩

theorem CarriesOut.andThen {first second : Outcome} {plan rest : List (Side × Tables)}
    (carriesFirst : CarriesOut sha256 geometry slot first plan)
    (carriesSecond : CarriesOut sha256 geometry slot second rest) :
    CarriesOut sha256 geometry slot (first.andThen second) (plan ++ rest) := by
  obtain ⟨done, stores, part, whole⟩ := carriesFirst.targets
  obtain ⟨behind, storesBehind, partBehind, wholeBehind⟩ := carriesSecond.targets
  unfold Outcome.andThen
  split
  · rename_i succeeded
    rw [whole succeeded] at stores
    refine ⟨plan ++ behind, rel_append stores storesBehind,
      (prefix_append_right_inj plan).mpr partBehind, fun succeeded => ?_⟩
    rw [wholeBehind succeeded]
  · rename_i failed
    exact ⟨done, stores, part.trans (prefix_append plan rest), fun succeeded =>
      absurd succeeded failed⟩

variable {side : Side} {m : LpMetadata}

section

variable (wellFormed : WellFormed m) (sameGeometry : m.geometry = geometry)
  (fits : (serializeMetadata sha256 m).length ≤ geometry.metadataMaxSize.toNat)

include wellFormed sameGeometry fits

/-- Writing a blob that holds a well-formed table to one copy. -/
theorem writeMetadataAt_carriesOut {offset : BitVec 64}
    (at_ : seekFile64 offset = some (row geometry (copyId slot side)).start) :
    CarriesOut sha256 geometry slot
      (writeMetadataAt fd metadata (some offset) (serializeMetadata sha256 m))
      [(side, m.tables)] := by
  unfold writeMetadataAt
  dsimp only
  split
  · rw [writeRegion, at_]
    exact ⟨_, .cons ⟨rfl, fits, m, wellFormed, sameGeometry, rfl, rfl⟩ .nil, prefix_rfl,
      fun _ => rfl⟩
  · exact .failure _

theorem Mounted.write_carriesOut (mounted : Mounted geometry fd)
    (inRange : slot.toNat < geometry.metadataSlotCount.toNat)
    (target : metadata.geometry = geometry) :
    CarriesOut sha256 geometry slot
        (writePrimaryMetadata fd metadata slot (serializeMetadata sha256 m))
        [(.primary, m.tables)] ∧
      CarriesOut sha256 geometry slot (writeBackupMetadata fd metadata slot
      (serializeMetadata sha256 m))
        [(.backup, m.tables)] := by
  obtain ⟨⟨first, isFirst, firstAt⟩, ⟨second, isSecond, secondAt⟩⟩ := mounted.fit.offset inRange
  unfold writePrimaryMetadata writeBackupMetadata
  rw [target, isFirst, isSecond]
  exact ⟨writeMetadataAt_carriesOut wellFormed sameGeometry fits firstAt,
    writeMetadataAt_carriesOut wellFormed sameGeometry fits secondAt⟩

end

theorem SizesFit.copyOf_parsed (fit : SizesFit geometry)
    (inRange : slot.toNat < geometry.metadataSlotCount.toNat)
    (copy : copyOf sha256 geometry fd slot side = some m) :
    parseMetadata sha256 geometry (fd.readFrom (row geometry (copyId slot side)).start) =
      .ok m := by
  rw [fit.copyOf_eq inRange, copyAt] at copy
  cases result : parseMetadata sha256 geometry (fd.readFrom (row geometry (copyId slot side)).start)
    with
  | error failure =>
    rw [result] at copy
    cases copy
  | ok other =>
    rw [result] at copy
    cases copy
    rfl

/-- What the repair step relies on: accepted copies of the slot store their block devices as
the structure, and equal checksums stand for equal tables. -/
structure Repairable (sha256 : Hash) (geometry : LpMetadataGeometry) (fd : Medium)
    (slot : BitVec 32) : Prop where
  deviceSize : ∀ side m, copyOf sha256 geometry fd slot side = some m →
    m.header.blockDevices.entrySize = 64
  distinguished : ∀ p q, copyOf sha256 geometry fd slot .primary = some p →
    copyOf sha256 geometry fd slot .backup = some q →
    p.header.headerChecksum = q.header.headerChecksum → p.tables = q.tables

/-- `AdjustMetadataForSlot` on the tables alone. -/
def adjustTables (slot : BitVec 32) (tables : Tables) : Option Tables := do
  let slotSuffix ← slotSuffixForSlotNumber slot
  let partitions ← tables.partitions.mapM (adjustPartition slotSuffix)
  let blockDevices ← tables.blockDevices.mapM (adjustBlockDevice slotSuffix)
  let groups ← tables.groups.mapM (adjustGroup slotSuffix)
  some { tables with partitions := partitions, blockDevices := blockDevices, groups := groups }

theorem adjustMetadataForSlot_tables (m : LpMetadata) (slot : BitVec 32) :
    (adjustMetadataForSlot m slot).map LpMetadata.tables = adjustTables slot m.tables := by
  unfold adjustMetadataForSlot adjustTables
  simp only [Option.bind_eq_bind, Option.map_bind, Function.comp_def]
  rfl

theorem readMetadata_tables (stored : readLogicalPartitionGeometry sha256 fd = some geometry)
    (inRange : slot < geometry.metadataSlotCount) :
    (readMetadata sha256 fd slot).map LpMetadata.tables =
      (view sha256 geometry fd slot).read.bind (adjustTables slot) := by
  simp only [readMetadata, stored, inRange,
    Option.bind_eq_bind, Option.bind_some, view, copyOf]
  cases readPrimaryMetadata sha256 fd geometry slot with
  | some m => exact adjustMetadataForSlot_tables m slot
  | none =>
    cases readBackupMetadata sha256 fd geometry slot with
    | some m => exact adjustMetadataForSlot_tables m slot
    | none => rfl

theorem readLogicalPartitionGeometry_sectors
    (stored : readLogicalPartitionGeometry sha256 fd = some geometry) :
    geometry.metadataMaxSize.toNat % 512 = 0 := by
  have parsed : ∃ buffer, parseGeometry sha256 buffer = some geometry := by
    unfold readLogicalPartitionGeometry readGeometryAt at stored
    rcases Option.or_eq_some_iff.mp stored with primary | ⟨_, backup⟩
    · simp only [Option.bind_eq_bind, Option.bind_eq_some_iff] at primary
      obtain ⟨_, _, _, _, primary⟩ := primary
      exact ⟨_, primary⟩
    · simp only [Option.bind_eq_bind, Option.bind_eq_some_iff] at backup
      obtain ⟨_, _, _, _, backup⟩ := backup
      exact ⟨_, backup⟩
  obtain ⟨buffer, parsed⟩ := parsed
  unfold parseGeometry at parsed
  dsimp only at parsed
  split at parsed
  · rename_i tests
    cases parsed
    have sectors := congrArg BitVec.toNat tests.2.2.2.2.2
    rwa [BitVec.toNat_umod] at sectors
  · cases parsed

theorem forall₂_left {α β : Type} {relation : α → β → Prop} {left : List α} {right : List β}
    (related : List.Forall₂ relation left right) {a : α} (member : a ∈ left) :
    ∃ b, relation a b := by
  induction related with
  | nil => cases member
  | @cons x y _ _ here _ ih =>
    rcases mem_cons.mp member with rfl | later
    · exact ⟨y, here⟩
    · exact ih later

section

variable {fd' : Medium} (mounted : Mounted geometry fd)
  (inRange : slot.toNat < geometry.metadataSlotCount.toNat)

include mounted inRange

/-- The repair step brings the copies in line, or gives up before it writes. -/
theorem Mounted.synchronize_carriesOut (sizes : DeviceSizes)
    (target : metadata.geometry = geometry) (repairable : Repairable sha256 geometry fd slot)
    (readable : (view sha256 geometry fd slot).read.isSome) (slotSuffix : Name) :
    ∃ plan, (view sha256 geometry fd slot).Repair plan ∧ CarriesOut sha256 geometry slot
        (synchronize sha256 sizes fd metadata slot slotSuffix
          (copyOf sha256 geometry fd slot .primary) (copyOf sha256 geometry fd slot .backup))
          plan := by
  -- a copy that can be serialised is well formed and fits
  have serialized : ∀ side old, copyOf sha256 geometry fd slot side = some old →
      ∀ blob, validateAndSerializeMetadata sha256 sizes old slotSuffix = some blob →
        blob = serializeMetadata sha256 old ∧ WellFormed old ∧ old.geometry = geometry ∧
          (serializeMetadata sha256 old).length ≤ geometry.metadataMaxSize.toNat := by
    intro side old copy blob valid
    obtain ⟨rfl, fits, -⟩ := validateAndSerializeMetadata_eq_some.mp valid
    have parsed := mounted.fit.copyOf_parsed inRange copy
    have ofGeometry : old.geometry = geometry := by
      obtain ⟨_, _, _, _, whole⟩ := parseMetadata_eq_ok.mp parsed
      rw [whole]
    rw [ofGeometry] at fits
    have tables : (serializeTables old).length ≤ geometry.metadataMaxSize.toNat := by
      rw [serializeMetadata_length] at fits
      omega
    exact ⟨rfl, (parseMetadata_wellFormed parsed (repairable.deviceSize side old copy) tables).1,
      ofGeometry, fits⟩
  -- the primary copy goes to the backup side
  have toBackup : ∀ old, copyOf sha256 geometry fd slot .primary = some old →
      ∀ blob, validateAndSerializeMetadata sha256 sizes old slotSuffix = some blob →
        CarriesOut sha256 geometry slot (writeBackupMetadata fd metadata slot blob)
        [(.backup, old.tables)] := by
    intro old copy blob valid
    obtain ⟨rfl, wellFormed, sameGeometry, fits⟩ := serialized .primary old copy blob valid
    exact (mounted.write_carriesOut wellFormed sameGeometry fits inRange target).2
  unfold synchronize
  cases primary : copyOf sha256 geometry fd slot .primary with
  | some old =>
    have present : (view sha256 geometry fd slot).primary = some old.tables := by
      simp [view, primary]
    cases backup : copyOf sha256 geometry fd slot .backup with
    | none =>
      refine ⟨_, .backup present, ?_⟩
      dsimp only
      split
      · exact .failure _
      · exact toBackup old primary _ ‹_›
    | some second =>
      dsimp only
      split
      · rename_i equal
        have same := repairable.distinguished old second primary backup
          (by simpa [compareMetadata] using equal)
        refine ⟨[], .agree ?_, [], .nil, prefix_rfl, fun _ => rfl⟩
        simp [view, primary, backup, same]
      · refine ⟨_, .backup present, ?_⟩
        split
        · exact .failure _
        · exact toBackup old primary _ ‹_›
  | none =>
    have damaged : (view sha256 geometry fd slot).primary = none := by
      simp [view, primary]
    cases backup : copyOf sha256 geometry fd slot .backup with
    | none =>
      simp [Store.read, view, primary, backup] at readable
    | some old =>
      have present : (view sha256 geometry fd slot).backup = some old.tables := by
        simp [view, backup]
      refine ⟨_, .primary damaged present, ?_⟩
      dsimp only
      cases valid : validateAndSerializeMetadata sha256 sizes old slotSuffix with
      | none => exact .failure _
      | some blob =>
        obtain ⟨rfl, wellFormed, sameGeometry, fits⟩ := serialized .backup old backup blob valid
        exact (mounted.write_carriesOut wellFormed sameGeometry fits inRange target).1

section

variable {w : Write} {target : Side × Tables} (stores : Stores sha256 geometry slot w target)

include stores

theorem Stores.inside : w.stop ≤ fd.size := by
  have stop := mounted.fit.stop_le (mounted.fit.area_copyId inRange target.1)
  have fits := stores.fits
  have room := mounted.room
  rw [Area.stop, row_copyId_length] at stop
  rw [Write.stop, stores.address]
  omega

/-- Writes to copies leave the geometry alone. -/
theorem Stores.geometry_frame (differs : fd.DiffersAt w fd') :
    readLogicalPartitionGeometry sha256 fd' = readLogicalPartitionGeometry sha256 fd := by
  have primaryAt : area geometry .primaryGeometry = some ⟨4096, 4096⟩ := rfl
  have backupAt : area geometry .backupGeometry = some ⟨8192, 4096⟩ := rfl
  have primary := stores.frame mounted inRange differs primaryAt (by
    cases target.1 <;> simp [copyId])
  have backup := stores.frame mounted inRange differs backupAt (by
    cases target.1 <;> simp [copyId])
  have first : seekFile64 getPrimaryGeometryOffset = some 4096 := by decide
  have second : seekFile64 getBackupGeometryOffset = some 8192 := by decide
  simp [readLogicalPartitionGeometry, readGeometryAt, first, second, primary, backup, differs.size]

end

/-- What is left of the device wherever the call is stopped: the geometry and the copies of
all other slots. -/
theorem interrupted_frame {torn : Medium → Write → Prop}
    (contained : ∀ other side, other.toNat < geometry.metadataSlotCount.toNat →
      ContainedAt sha256 geometry fd (copyId other side))
    {writes : List Write} {targets : List (Side × Tables)}
    (stores : List.Forall₂ (Stores sha256 geometry slot) writes targets)
    (stopped : Medium.Interrupted torn fd writes fd') :
    readLogicalPartitionGeometry sha256 fd' = readLogicalPartitionGeometry sha256 fd ∧
      ∀ other, other ≠ slot → other.toNat < geometry.metadataSlotCount.toNat → ∀ side,
        copyOf sha256 geometry fd' other side = copyOf sha256 geometry fd other side := by
  have kept := stopped.invariant (fun state => Mounted geometry state ∧
    readLogicalPartitionGeometry sha256 state = readLogicalPartitionGeometry sha256 fd ∧
      ∀ other, other ≠ slot → other.toNat < geometry.metadataSlotCount.toNat → ∀ side,
        copyOf sha256 geometry state other side = copyOf sha256 geometry fd other side ∧
          ContainedAt sha256 geometry state (copyId other side)) ?_
    ⟨mounted, rfl, fun other _ known side => ⟨rfl, contained other side known⟩⟩
  · exact ⟨kept.2.1, fun other different known side => (kept.2.2 other different known side).1⟩
  · rintro w member before after ⟨here, geometryKept, copies⟩ differs
    obtain ⟨target, first⟩ := forall₂_left stores member
    refine ⟨here.differs differs, (first.geometry_frame here inRange differs).trans geometryKept,
      fun other different known side => ?_⟩
    obtain ⟨same, inside⟩ := copies other different known side
    have apart : copyId slot target.1 ≠ copyId other side := by
      obtain ⟨here, _⟩ := target
      cases here <;> cases side <;> simp [copyId, Ne.symm different]
    obtain ⟨unchanged, stillInside⟩ := first.copyOf_frame here inRange differs known apart inside
    exact ⟨unchanged.trans same, stillInside⟩

end

/-- What a device must be like for an update of a slot to be atomic: no offset wraps, there
is room for all copies, no copy's tables leave their area, the accepted copies of the slot
store block devices as the structure, and the hash tells the contents of the two apart. -/
structure Updatable (sha256 : Hash) (geometry : LpMetadataGeometry) (fd : Medium)
    (slot : BitVec 32) : Prop where
  fit : SizesFit geometry
  room : 12288 + 2 * (geometry.metadataMaxSize.toNat * geometry.metadataSlotCount.toNat) ≤ fd.size
  contained : ∀ other side, other.toNat < geometry.metadataSlotCount.toNat →
    ContainedAt sha256 geometry fd (copyId other side)
  deviceSize : ∀ side m, copyOf sha256 geometry fd slot side = some m →
    m.header.blockDevices.entrySize = 64
  hash : Distinguishes sha256
    (hashedContents sha256 geometry (fd.readFrom (row geometry (copyId slot .primary)).start) ++
      hashedContents sha256 geometry (fd.readFrom (row geometry (copyId slot .backup)).start))

theorem Updatable.repairable (updatable : Updatable sha256 geometry fd slot)
    (inRange : slot.toNat < geometry.metadataSlotCount.toNat) :
    Repairable sha256 geometry fd slot where
  deviceSize := updatable.deviceSize
  distinguished p q copyP copyQ checksum := by
    obtain ⟨partitions, extents, groups, devices⟩ := parseMetadata_distinguished
      (updatable.fit.copyOf_parsed inRange copyP) (updatable.fit.copyOf_parsed inRange copyQ)
      updatable.hash checksum
    simp [LpMetadata.tables, partitions, extents, groups, devices]

variable {other : LpMetadataGeometry}

/-- Reading a device that still has its geometry, with the tables a copy of it holds. -/
theorem SameLayout.readMetadata_eq (same : SameLayout geometry other) {tables : Tables}
    (stored : readLogicalPartitionGeometry sha256 fd = some geometry)
    (inRange : slot < geometry.metadataSlotCount)
    (read : (view sha256 other fd slot).read = some tables) :
    (readMetadata sha256 fd slot).map LpMetadata.tables = adjustTables slot tables := by
  rw [readMetadata_tables stored inRange, ← same.view_eq, read, Option.bind_some]

theorem SameLayout.contained (same : SameLayout geometry other)
    (contained : ∀ slot side, slot.toNat < geometry.metadataSlotCount.toNat →
      ContainedAt sha256 geometry fd (copyId slot side))
    (slot : BitVec 32) (side : Side) (known : slot.toNat < other.metadataSlotCount.toNat) :
    ContainedAt sha256 other fd (copyId slot side) := by
  unfold ContainedAt
  rw [same.row_eq, same.maxSize]
  exact contained slot side (same.slotCount ▸ known)

section

variable (stored : readLogicalPartitionGeometry sha256 fd = some geometry)
  (fit : SizesFit geometry)
  (room : 12288 + 2 * (geometry.metadataMaxSize.toNat * geometry.metadataSlotCount.toNat) ≤ fd.size)
  (repairable : Repairable sha256 geometry fd slot)
  (readable : (view sha256 geometry fd slot).read.isSome) (wellFormed : WellFormed metadata)

include stored fit room repairable readable wellFormed

/-- The writes of a call on a mounted device, and what it set out to do. -/
theorem updatePartitionTable_carriesOut :
    updatePartitionTable sha256 sizes fd metadata slot = .failure ∨
      SameLayout geometry metadata.geometry ∧ Mounted metadata.geometry fd ∧
      slot.toNat < metadata.geometry.metadataSlotCount.toNat ∧
      ∃ repair, (view sha256 metadata.geometry fd slot).Repair repair ∧
      CarriesOut sha256 metadata.geometry slot
          (updatePartitionTable sha256 sizes fd metadata slot)
          (repair ++ [(.primary, metadata.tables), (.backup, metadata.tables)]) := by
  unfold updatePartitionTable
  split
  · exact .inl rfl
  rename_i slotSuffix _
  split
  · exact .inl rfl
  rename_i blob valid
  rw [stored]
  dsimp only
  split
  swap
  · exact .inl rfl
  rename_i accepted
  right
  obtain ⟨compared, inRange⟩ := accepted
  obtain ⟨rfl, fits, -⟩ := validateAndSerializeMetadata_eq_some.mp valid
  have same : SameLayout geometry metadata.geometry := by
    simp only [compareGeometry, decide_eq_true_eq] at compared
    exact ⟨compared.1, compared.2.1⟩
  have inSlots : slot.toNat < metadata.geometry.metadataSlotCount.toNat := inRange
  -- a blob is at least a header, so the copy size is a positive number of sectors
  have long : 256 ≤ metadata.geometry.metadataMaxSize.toNat := by
    have sectors := readLogicalPartitionGeometry_sectors stored
    have header : 128 ≤ metadata.header.headerSize.toNat := by
      rcases wellFormed.toReadable.size_cases with size | size
      · rw [size]; decide
      · rw [size]; decide
    rw [← same.maxSize] at sectors
    rw [serializeMetadata_length] at fits
    omega
  have mounted : Mounted metadata.geometry fd := by
    refine ⟨?_, long, ?_⟩
    · unfold SizesFit at fit ⊢
      rw [same.maxSize, same.slotCount]
      exact fit
    · rw [same.maxSize, same.slotCount]
      exact room
  have repairableHere : Repairable sha256 metadata.geometry fd slot := by
    constructor
    · intro side m copy
      rw [same.copyOf_eq, Option.map_eq_some_iff] at copy
      obtain ⟨original, isCopy, rfl⟩ := copy
      exact repairable.deviceSize side original isCopy
    · intro p q copyP copyQ checksum
      rw [same.copyOf_eq, Option.map_eq_some_iff] at copyP copyQ
      obtain ⟨originalP, isP, rfl⟩ := copyP
      obtain ⟨originalQ, isQ, rfl⟩ := copyQ
      exact repairable.distinguished originalP originalQ isP isQ checksum
  obtain ⟨repair, repairs, carries⟩ := mounted.synchronize_carriesOut inSlots sizes rfl
    repairableHere (by rw [same.view_eq]; exact readable) slotSuffix
  obtain ⟨primary, backup⟩ := mounted.write_carriesOut wellFormed rfl fits inSlots rfl
  refine ⟨same, mounted, inSlots, repair, repairs, carries.andThen ?_⟩
  rw [writeMetadata, if_pos inRange]
  exact primary.andThen backup

/-- After a call that returned `true` the slot reads as the new tables, if these can be
adjusted to the slot. -/
theorem updatePartitionTable_succeeded (inRange : slot < geometry.metadataSlotCount)
    (contained : ∀ other side, other.toNat < geometry.metadataSlotCount.toNat →
      ContainedAt sha256 geometry fd (copyId other side))
    (succeeded : (updatePartitionTable sha256 sizes fd metadata slot).succeeded = true) :
    (readMetadata sha256
        (fd.writeAll (updatePartitionTable sha256 sizes fd metadata slot).writes) slot).map
      LpMetadata.tables = adjustTables slot metadata.tables := by
  rcases updatePartitionTable_carriesOut stored fit room repairable readable
      wellFormed with failed | ⟨same, mounted, inSlots, repair, _, carries⟩
  · rw [failed] at succeeded
    cases succeeded
  obtain ⟨done, stores, _, whole⟩ := carries.targets
  have containedHere := same.contained contained
  have all := Medium.interrupted_writeAll (Rejected sha256 geometry)
    fun w member => (forall₂_left stores member).choose_spec.inside mounted inSlots
  obtain ⟨geometryKept, _⟩ := interrupted_frame mounted inSlots containedHere stores all
  rw [stored] at geometryKept
  apply same.readMetadata_eq geometryKept inRange
  rw [view_writeAll mounted inSlots (fun side => containedHere slot side inSlots) stores,
    whole succeeded]
  exact Store.read_setAll _ repair metadata.tables

end

/-- Crash atomicity of `UpdatePartitionTable`. -/
theorem updatePartitionTable_crash_atomic {sha256 : Hash} (sizes : DeviceSizes) {fd : Medium}
    {geometry : LpMetadataGeometry} {slot : BitVec 32} {old metadata new : LpMetadata}
    (stored : readLogicalPartitionGeometry sha256 fd = some geometry)
    (readable : readMetadata sha256 fd slot = some old)
    (updatable : Updatable sha256 geometry fd slot) (wellFormed : WellFormed metadata)
    (named : adjustMetadataForSlot metadata slot = some new) :
    (∀ fd', Medium.Interrupted (Rejected sha256 geometry) fd
        (updatePartitionTable sha256 sizes fd metadata slot).writes fd' →
      ((readMetadata sha256 fd' slot).map LpMetadata.tables = some old.tables ∨
          (readMetadata sha256 fd' slot).map LpMetadata.tables = some new.tables) ∧
        ∀ other, other ≠ slot → other < geometry.metadataSlotCount →
        readPrimaryMetadata sha256 fd' geometry other =
              readPrimaryMetadata sha256 fd geometry other ∧
              readBackupMetadata sha256 fd' geometry other =
              readBackupMetadata sha256 fd geometry other) ∧
      ((updatePartitionTable sha256 sizes fd metadata slot).succeeded = true → (readMetadata sha256
            (fd.writeAll (updatePartitionTable sha256 sizes fd metadata slot).writes) slot).map
          LpMetadata.tables = some new.tables) := by
  have inRange : slot < geometry.metadataSlotCount := by
    unfold readMetadata at readable
    simp only [stored, Option.bind_eq_bind, Option.bind_some, Option.bind_eq_some_iff,
      require_eq_some, decide_eq_true_eq] at readable
    obtain ⟨_, known, _⟩ := readable
    exact known
  -- the readable tables before the call, and the two results they can be adjusted to
  obtain ⟨before, isBefore, adjusted⟩ : ∃ before, (view sha256 geometry fd slot).read =
      some before ∧ adjustTables slot before = some old.tables := by
    have tables := readMetadata_tables stored inRange
    rw [readable] at tables
    exact Option.bind_eq_some_iff.mp tables.symm
  have adjustedNew : adjustTables slot metadata.tables = some new.tables := by
    simp [← adjustMetadataForSlot_tables, named]
  have read : (view sha256 geometry fd slot).read.isSome := by
    rw [isBefore]
    rfl
  refine ⟨?_, fun succeeded => ?_⟩
  swap
  · rw [updatePartitionTable_succeeded stored updatable.fit updatable.room
      (updatable.repairable inRange) read wellFormed inRange updatable.contained succeeded,
      adjustedNew]
  rcases updatePartitionTable_carriesOut stored updatable.fit updatable.room
      (updatable.repairable inRange) read wellFormed with
    failed | ⟨same, mounted, inSlots, repair, repairs, carries⟩
  · intro fd' stopped
    rw [failed] at stopped
    rw [Medium.interrupted_nil stopped]
    exact ⟨.inl (by simp [readable]), fun _ _ _ => ⟨rfl, rfl⟩⟩
  obtain ⟨done, stores, part, _⟩ := carries.targets
  have contained := same.contained updatable.contained
  intro fd' stopped
  obtain ⟨geometryKept, copies⟩ := interrupted_frame mounted inSlots contained stores stopped
  rw [stored] at geometryKept
  refine ⟨?_, fun other different known => ?_⟩
  · have rejected : ∀ state w, Rejected sha256 geometry state w →
        Rejected sha256 metadata.geometry state w := by
      intro state w lost
      unfold Rejected at lost ⊢
      simp [same.copyAt_eq, lost]
    have simulated := interrupted_view mounted inSlots (fun side => contained slot side inSlots)
      stores (stopped.mono rejected)
    have updates : (view sha256 metadata.geometry fd slot).Updates metadata.tables done :=
      ⟨repair, repairs, part⟩
    rcases updates.interrupted (by rw [same.view_eq]; exact isBefore) simulated with kept | reached
    · exact .inl ((same.readMetadata_eq geometryKept inRange kept).trans adjusted)
    · exact .inr ((same.readMetadata_eq geometryKept inRange reached).trans adjustedNew)
  · have unchanged : ∀ side, copyOf sha256 geometry fd' other side =
        copyOf sha256 geometry fd other side := by
      intro side
      rw [same.symm.copyOf_eq, copies other different (same.slotCount ▸ known) side,
        ← same.symm.copyOf_eq]
    exact ⟨unchanged .primary, unchanged .backup⟩

section Flashed

variable {new : LpMetadata}

section

variable (flashable : Flashable sha256 fd metadata)

include flashable

theorem Flashable.room :
    12288 + 2 * ((sealedGeometry sha256 metadata.geometry).metadataMaxSize.toNat *
      (sealedGeometry sha256 metadata.geometry).metadataSlotCount.toNat) ≤
      (flashedDevice sha256 fd metadata).size := by
  rw [flashedDevice, writeAll_size]
  exact flashable.mounted.room

section

variable (inRange : slot.toNat < metadata.geometry.metadataSlotCount.toNat)

include inRange

theorem Flashable.view : Liblp.view sha256 (sealedGeometry sha256 metadata.geometry)
      (flashedDevice sha256 fd metadata) slot = ⟨some metadata.tables, some metadata.tables⟩ := by
  unfold Liblp.view
  rw [(flashable.copyOf inRange .primary).1, (flashable.copyOf inRange .backup).1]
  rfl

theorem Flashable.deviceSize (side : Side) (m : LpMetadata)
    (copy : Liblp.copyOf sha256 (sealedGeometry sha256 metadata.geometry)
      (flashedDevice sha256 fd metadata) slot side = some m) :
    m.header.blockDevices.entrySize = 64 := by
  rw [(flashable.copyOf inRange side).1] at copy
  cases copy
  exact flashable.wellFormed.deviceSize

/-- The two copies of a flashed slot are the same table, whatever the hash. -/
theorem Flashable.repairable :
    Repairable sha256 (sealedGeometry sha256 metadata.geometry) (flashedDevice sha256 fd metadata)
      slot where
  deviceSize := flashable.deviceSize inRange
  distinguished p q copyP copyQ _ := by
    rw [(flashable.copyOf inRange .primary).1] at copyP
    rw [(flashable.copyOf inRange .backup).1] at copyQ
    cases copyP
    cases copyQ
    rfl

end

theorem Flashable.update_succeeds {slotSuffix : Name}
    (suffix : slotSuffixForSlotNumber slot = some slotSuffix)
    (inRange : slot.toNat < metadata.geometry.metadataSlotCount.toNat) {blob : List Byte}
    (valid : validateAndSerializeMetadata sha256 sizes new slotSuffix = some blob)
    (same : new.geometry = metadata.geometry)
    (shorter : (serializeMetadata sha256 new).length < metadata.geometry.metadataMaxSize.toNat) :
    (updatePartitionTable sha256 sizes (flashedDevice sha256 fd metadata) new slot).succeeded =
      true := by
  obtain ⟨rfl, -, super, first, reserved, -⟩ := validateAndSerializeMetadata_eq_some.mp valid
  have layout : SameLayout (sealedGeometry sha256 metadata.geometry) new.geometry := by
    rw [same]
    exact ⟨rfl, rfl⟩
  have copies : ∀ side, Liblp.copyOf sha256 new.geometry (flashedDevice sha256 fd metadata) slot
      side = some { storedMetadata sha256 (withSealed sha256 metadata) with
        geometry := new.geometry } := by
    intro side
    rw [layout.copyOf_eq, (flashable.copyOf inRange side).1]
    rfl
  have primary : readPrimaryMetadata sha256 _ _ _ = _ := copies .primary
  have backup : readBackupMetadata sha256 _ _ _ = _ := copies .backup
  have compared : compareGeometry new.geometry (sealedGeometry sha256 metadata.geometry) =
      true := by
    rw [same]
    simp [compareGeometry, sealedGeometry]
  have mounted : Mounted new.geometry (flashedDevice sha256 fd metadata) := by
    rw [same]
    exact ⟨flashable.mounted.fit, flashable.mounted.long, flashable.room⟩
  have known : slot < new.geometry.metadataSlotCount := by
    rw [same]
    exact inRange
  have written := mounted.writeMetadata_eq known first reserved (same ▸ shorter)
  simp [updatePartitionTable, suffix, valid, flashable.geometry, compared, known, primary, backup,
    synchronize, compareMetadata, Outcome.andThen, written]

/-- A flashed device can be updated in every slot, when the hash tells the header from the
tables. -/
theorem Flashable.updatable (inRange : slot.toNat < metadata.geometry.metadataSlotCount.toNat)
    (hash : Distinguishes sha256 [hashedHeader (serializedHeader sha256 metadata),
      serializeTables metadata]) :
    Updatable sha256 (sealedGeometry sha256 metadata.geometry) (flashedDevice sha256 fd metadata)
      slot := by
  have contents : ∀ side, hashedContents sha256 (sealedGeometry sha256 metadata.geometry)
      ((flashedDevice sha256 fd metadata).readFrom
        (row (sealedGeometry sha256 metadata.geometry) (copyId slot side)).start) =
      [hashedHeader (serializedHeader sha256 metadata), serializeTables metadata] := by
    intro side
    obtain ⟨rest, held⟩ := flashable.readFrom inRange side
    rw [row_sealedGeometry, held, hashedContents,
      parseBeforeDevices_serializeMetadata sha256 flashable.wellFormed.toStorable
        (sealedGeometry sha256 metadata.geometry) flashable.wellFormed.fits]
  refine ⟨flashable.mounted.fit, flashable.room,
    fun other side known => (flashable.copyOf known side).2, flashable.deviceSize inRange, ?_⟩
  rw [contents, contents]
  intro x memberX y memberY
  rw [mem_append, or_self] at memberX memberY
  exact hash x memberX y memberY

end

end Flashed

section FlashedUneven

open MetadataBuilder

/-- An erased device of the size of `unevenSuper`. -/
def unevenDevice : Medium := ⟨3153920, fun _ => 0⟩

/-- What a builder on `unevenSuper` exports after some calls. -/
def unevenTable (ops : List Op) : Option LpMetadata :=
  (unevenBuilder.run ops).toOption.bind exportMetadata

/-- One partition with one extent. -/
def plainTable : LpMetadata := (unevenTable (sizeTo [2101248])).get (by decide)

/-- A name that fills its field. -/
def longName : Name := List.replicate 36 97

/-- Names that are to be completed when the table is read. -/
def suffixedTable : LpMetadata :=
  (unevenTable [.addPartition longName defaultGroup 0, .setAutoSlotSuffixing]).get (by decide)

variable {ops : List Op}

theorem unevenTable_eq_some (made : unevenTable ops = some m) :
    ∃ b, Reachable b ∧ b.exportMetadata = some m := by
  unfold unevenTable at made
  cases ran : unevenBuilder.run ops with
  | error fault =>
    rw [ran] at made
    cases made
  | ok b =>
    rw [ran] at made
    exact ⟨b, Reachable.run (.created new_unevenSuper) ran, made⟩

/-- A table of at most one entry of each kind is far shorter than its area. -/
theorem serializeMetadata_short (sha256 : Hash) (partitions : m.partitions.length ≤ 1)
    (extents : m.extents.length ≤ 1) (groups : m.groups.length ≤ 1)
    (devices : m.blockDevices.length ≤ 1) :
    (serializeMetadata sha256 m).length < 65536 := by
  rw [serializeMetadata_length, serializeTables_length]
  omega

theorem unevenTable_wellFormed (made : unevenTable ops = some m)
    (short : (serializeMetadata (fun _ => Fixed.zero 32) m).length ≤
      m.geometry.metadataMaxSize.toNat)
    (first : ∃ super, getMetadataSuperBlockDevice m = some super ∧
      totalReserved m.geometry ≤ super.firstLogicalSector * sectorSize) :
    WellFormed m := by
  obtain ⟨b, reachable, exported⟩ := unevenTable_eq_some made
  obtain ⟨super, isFirst, reserved⟩ := first
  exact export_wellFormed _ reachable exported short isFirst reserved

theorem plainTable_short (sha256 : Hash) : (serializeMetadata sha256 plainTable).length < 65536 :=
  serializeMetadata_short sha256 (by decide) (by decide) (by decide) (by decide)

theorem suffixedTable_short (sha256 : Hash) :
    (serializeMetadata sha256 suffixedTable).length < 65536 :=
  serializeMetadata_short sha256 (by decide) (by decide) (by decide) (by decide)

theorem plainTable_wellFormed : WellFormed plainTable :=
  unevenTable_wellFormed (Option.some_get _).symm (le_of_lt (plainTable_short _))
    ⟨_, rfl, by decide⟩

theorem suffixedTable_wellFormed : WellFormed suffixedTable :=
  unevenTable_wellFormed (Option.some_get _).symm (le_of_lt (suffixedTable_short _))
    ⟨_, rfl, by decide⟩

theorem plainTable_flashable (sha256 : Hash) : Flashable sha256 unevenDevice plainTable where
  mounted := ⟨by decide, by decide, by decide⟩
  wellFormed := plainTable_wellFormed
  shorter := plainTable_short sha256
  magic := rfl
  structSize := rfl
  slots := by decide
  sectors := by decide

/-- A table whose suffixed name does not fit is stored, and the slot can no longer be read. -/
theorem updatePartitionTable_loses_slot :
    ∃ fd, fd = unevenDevice.writeAll
        (flashPartitionTable lengthHash none unevenDevice plainTable []).writes ∧
      (readMetadata lengthHash fd 0).map LpMetadata.tables = some plainTable.tables ∧
      (updatePartitionTable lengthHash none fd suffixedTable 0).succeeded = true ∧
      readMetadata lengthHash
        (fd.writeAll (updatePartitionTable lengthHash none fd suffixedTable 0).writes) 0 =
        none := by
  have flashable := plainTable_flashable lengthHash
  have inRange : (0 : BitVec 32).toNat < plainTable.geometry.metadataSlotCount.toNat := by decide
  have known : (0 : BitVec 32) <
    (sealedGeometry lengthHash plainTable.geometry).metadataSlotCount := inRange
  have short := suffixedTable_short lengthHash
  have succeeded : (updatePartitionTable lengthHash none _ suffixedTable 0).succeeded = true :=
    flashable.update_succeeds rfl inRange (validateAndSerializeMetadata_eq_some.mpr
      ⟨rfl, le_of_lt short, _, rfl, by decide, by decide, by decide, by decide⟩) rfl short
  have stored := flashable.view inRange
  refine ⟨flashedDevice lengthHash unevenDevice plainTable, ?_, ?_, succeeded, ?_⟩
  · rw [flashable.flash_eq (validateAndSerializeMetadata_eq_some.mpr
      ⟨rfl, le_of_lt (plainTable_short lengthHash), _, rfl,
      by decide, by decide, by decide, by decide⟩), flashedDevice]
  · rw [readMetadata_tables flashable.geometry known, stored]
    rfl
  · have read := updatePartitionTable_succeeded flashable.geometry flashable.mounted.fit
      flashable.room (flashable.repairable inRange) (by rw [stored]; rfl)
      suffixedTable_wellFormed known (fun other side known =>
      (flashable.copyOf known side).2) succeeded
    have lost : adjustTables 0 suffixedTable.tables = none := by decide
    rw [lost, Option.map_eq_none_iff] at read
    exact read

theorem plainTable_distinguished : Distinguishes lengthHash
    [hashedHeader (serializedHeader lengthHash plainTable), serializeTables plainTable] := by
  have apart : (Fixed.ofList 32 (Layout.leBytes 32 128)) ≠
      Fixed.ofList 32 (Layout.leBytes 32 188) := by
    decide
  intro x memberX y memberY same
  simp only [mem_cons, not_mem_nil, or_false] at memberX memberY
  rcases memberX with rfl | rfl <;> rcases memberY with rfl | rfl
  · rfl
  · exact absurd same apart
  · exact absurd same.symm apart
  · rfl

/-- The same partition with a smaller size. -/
def smallerTable : LpMetadata := (unevenTable (sizeTo [1048576])).get (by decide)

theorem smallerTable_short (sha256 : Hash) :
    (serializeMetadata sha256 smallerTable).length < 65536 :=
  serializeMetadata_short sha256 (by decide) (by decide) (by decide) (by decide)

theorem smallerTable_wellFormed : WellFormed smallerTable :=
  unevenTable_wellFormed (Option.some_get _).symm (le_of_lt (smallerTable_short _))
    ⟨_, rfl, by decide⟩

theorem updatePartitionTable_crash_atomic_flashed : plainTable.tables ≠ smallerTable.tables ∧
      (updatePartitionTable lengthHash none (flashedDevice lengthHash unevenDevice plainTable)
        smallerTable 0).succeeded = true ∧ ∀ fd', Medium.Interrupted
          (Rejected lengthHash (sealedGeometry lengthHash plainTable.geometry))
          (flashedDevice lengthHash unevenDevice plainTable)
          (updatePartitionTable lengthHash none (flashedDevice lengthHash unevenDevice plainTable)
            smallerTable 0).writes fd' →
        (readMetadata lengthHash fd' 0).map LpMetadata.tables = some plainTable.tables ∨
          (readMetadata lengthHash fd' 0).map LpMetadata.tables = some smallerTable.tables := by
  have flashable := plainTable_flashable lengthHash
  have inRange : (0 : BitVec 32).toNat < plainTable.geometry.metadataSlotCount.toNat := by decide
  have short := smallerTable_short lengthHash
  have read : (readMetadata lengthHash (flashedDevice lengthHash unevenDevice plainTable) 0).map
      LpMetadata.tables = _ := readMetadata_tables flashable.geometry inRange
  rw [flashable.view inRange] at read
  obtain ⟨old, readable, tables⟩ := Option.map_eq_some_iff.mp
    (read.trans (show _ = some plainTable.tables by decide))
  have named : adjustMetadataForSlot smallerTable 0 = some smallerTable := by decide
  refine ⟨by decide, flashable.update_succeeds rfl inRange (validateAndSerializeMetadata_eq_some.mpr
    ⟨rfl, le_of_lt short, _, rfl, by decide, by decide, by decide, by decide⟩) rfl short,
    fun fd' stopped => ?_⟩
  rw [← tables]
  exact ((updatePartitionTable_crash_atomic none flashable.geometry readable
    (flashable.updatable inRange plainTable_distinguished) smallerTable_wellFormed named).1 fd'
    stopped).1

end FlashedUneven

end Aosp.Liblp
