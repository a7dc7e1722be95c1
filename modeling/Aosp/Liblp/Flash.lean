import Aosp.Liblp.MirroredCopies

namespace Aosp.Liblp

open List
open Layout (Byte Medium Write)
open Mirror (Side)

section WriteMetadata

variable {fd : Medium} {metadata : LpMetadata} {slot : BitVec 32} {super : LpMetadataBlockDevice}

variable {offset : BitVec 64}

theorem seekFile64_eq_some {address : Nat} (found : seekFile64 offset = some address) :
    offset.toNat = address := by
  unfold seekFile64 at found
  split at found
  · cases found
  · exact Option.some.inj found

theorem SizesFit.totalReserved_toNat {geometry : LpMetadataGeometry} (fit : SizesFit geometry) :
    (totalReserved geometry).toNat =
      12288 + 2 * (geometry.metadataMaxSize.toNat * geometry.metadataSlotCount.toNat) := by
  unfold SizesFit at fit
  simp only [totalReserved, BitVec.toNat_setWidth, BitVec.toNat_add, BitVec.toNat_mul]
  rw [Nat.mod_eq_of_lt (a := geometry.metadataMaxSize.toNat) (by omega),
    Nat.mod_eq_of_lt (a := geometry.metadataSlotCount.toNat) (by omega)]
  generalize geometry.metadataMaxSize.toNat * geometry.metadataSlotCount.toNat = product at *
  change (4096 + (4096 + product % 2 ^ 64) % 2 ^ 64 * 2 % 2 ^ 64) % 2 ^ 64 = _
  omega

variable {blob : List Byte}

section

variable (mounted : Mounted metadata.geometry fd)
  (inRange : slot.toNat < metadata.geometry.metadataSlotCount.toNat)
  (first : getMetadataSuperBlockDevice metadata = some super)
  (reserved : totalReserved metadata.geometry ≤ super.firstLogicalSector * sectorSize)
  (shorter : blob.length < metadata.geometry.metadataMaxSize.toNat)

include mounted inRange first reserved shorter

theorem Mounted.writeMetadataAt_eq (side : Side)
    (at_ : seekFile64 offset = some (row metadata.geometry (copyId slot side)).start) :
    writeMetadataAt fd metadata (some offset) blob =
      ⟨[⟨(row metadata.geometry (copyId slot side)).start, blob⟩], true⟩ := by
  have stop := mounted.fit.stop_le (mounted.fit.area_copyId inRange side)
  have room := mounted.room
  have address := seekFile64_eq_some at_
  rw [Area.stop, row_copyId_length] at stop
  rw [BitVec.le_def, mounted.fit.totalReserved_toNat] at reserved
  have valid : validateMetadataRegion metadata offset blob.length = true := by
    simp only [validateMetadataRegion, first, decide_eq_true_eq, BitVec.lt_def, BitVec.toNat_add,
      BitVec.toNat_ofNat]
    omega
  have inside : (row metadata.geometry (copyId slot side)).start + blob.length ≤ fd.size := by omega
  simp [writeMetadataAt, valid, writeRegion, at_, inside]

theorem Mounted.writeMetadata_eq :
    writeMetadata fd metadata slot blob =
      ⟨[⟨(row metadata.geometry (.primaryMetadata slot)).start, blob⟩,
        ⟨(row metadata.geometry (.backupMetadata slot)).start, blob⟩], true⟩ := by
  obtain ⟨⟨primary, isPrimary, primaryAt⟩, ⟨backup, isBackup, backupAt⟩⟩ :=
    mounted.fit.offset inRange
  have known : slot < metadata.geometry.metadataSlotCount := inRange
  rw [writeMetadata, if_pos known, writePrimaryMetadata, writeBackupMetadata, isPrimary, isBackup,
    mounted.writeMetadataAt_eq inRange first reserved shorter .primary primaryAt,
    mounted.writeMetadataAt_eq inRange first reserved shorter .backup backupAt]
  rfl

end

end WriteMetadata

section Flash

variable {sha256 : Hash} {sizes : DeviceSizes} {fd : Medium} {metadata : LpMetadata}
  {slotSuffix : Name}

/-- What a flash puts in an area. -/
def flashedBytes (sha256 : Hash) (metadata : LpMetadata) : AreaId → List Byte
  | .reserved => List.replicate 4096 0
  | .primaryGeometry | .backupGeometry => serializeGeometry sha256 metadata.geometry
  | .primaryMetadata _ | .backupMetadata _ => serializeMetadata sha256 metadata

def flashWrite (sha256 : Hash) (metadata : LpMetadata) (i : AreaId) : Write :=
  ⟨(row metadata.geometry i).start, flashedBytes sha256 metadata i⟩

def slotAreas (i : Nat) : List AreaId :=
  [.primaryMetadata (BitVec.ofNat 32 i), .backupMetadata (BitVec.ofNat 32 i)]

/-- The areas of a device, in the order a flash fills them. -/
def areaIds (geometry : LpMetadataGeometry) : List AreaId :=
  [.reserved, .primaryGeometry, .backupGeometry] ++
    (List.range geometry.metadataSlotCount.toNat).flatMap slotAreas

theorem SizesFit.mem_areaIds {geometry : LpMetadataGeometry} (fit : SizesFit geometry)
    (i : AreaId) :
    i ∈ areaIds geometry ↔ area geometry i = some (row geometry i) := by
  simp only [areaIds, slotAreas, mem_append, mem_flatMap, mem_range, mem_cons,
    not_mem_nil, or_false]
  constructor
  · rintro ((rfl | rfl | rfl) | ⟨slot, inRange, rfl | rfl⟩)
    · rfl
    · rfl
    · rfl
    all_goals
      have known : (BitVec.ofNat 32 slot).toNat < geometry.metadataSlotCount.toNat := by
        rw [BitVec.toNat_ofNat, Nat.mod_eq_of_lt (by omega)]
        exact inRange
    · exact fit.area_copyId known .primary
    · exact fit.area_copyId known .backup
  · intro found
    have inRange := area_inRange found
    cases i with
    | primaryMetadata slot =>
      refine .inr ⟨slot.toNat, inRange slot (.inl rfl), .inl ?_⟩
      rw [BitVec.ofNat_toNat, BitVec.setWidth_eq]
    | backupMetadata slot =>
      refine .inr ⟨slot.toNat, inRange slot (.inr rfl), .inr ?_⟩
      rw [BitVec.ofNat_toNat, BitVec.setWidth_eq]
    | reserved => exact .inl (.inl rfl)
    | primaryGeometry => exact .inl (.inr (.inl rfl))
    | backupGeometry => exact .inl (.inr (.inr rfl))

/-- A table that fits a device and can be told from its geometry copies. -/
structure Flashable (sha256 : Hash) (fd : Medium) (metadata : LpMetadata) : Prop where
  mounted : Mounted metadata.geometry fd
  wellFormed : WellFormed metadata
  shorter : (serializeMetadata sha256 metadata).length < metadata.geometry.metadataMaxSize.toNat
  magic : metadata.geometry.magic = geometryMagic
  structSize : metadata.geometry.structSize = 52
  slots : metadata.geometry.metadataSlotCount ≠ 0
  sectors : metadata.geometry.metadataMaxSize % 512 = 0

theorem foldl_both {steps : List Nat} {step : Nat → Outcome} {writes : Nat → List Write}
    (each : ∀ i ∈ steps, step i = ⟨writes i, true⟩) (start : Outcome) :
    steps.foldl (fun ok i => ok.both (step i)) start =
      ⟨start.writes ++ steps.flatMap writes, start.succeeded⟩ := by
  induction steps generalizing start with
  | nil =>
    simp
  | cons i later ih =>
    rw [foldl_cons, ih fun j member => each j (mem_cons_of_mem _ member), each i mem_cons_self]
    simp [Outcome.both]

variable {blob : List Byte}

theorem validateAndSerializeMetadata_eq_some :
    validateAndSerializeMetadata sha256 sizes metadata slotSuffix = some blob ↔
      blob = serializeMetadata sha256 metadata ∧
      blob.length ≤ metadata.geometry.metadataMaxSize.toNat ∧
        ∃ super, getMetadataSuperBlockDevice metadata = some super ∧
          totalReserved metadata.geometry ≤ super.firstLogicalSector * sectorSize ∧
          (metadata.blockDevices.mapM (validateDevice sizes slotSuffix)).isSome ∧
          (∀ partition ∈ metadata.partitions,
            (partition.firstExtentIndex + partition.numExtents).toNat ≤ metadata.extents.length) ∧
          ∀ extent ∈ metadata.extents, extent.targetType = targetTypeLinear →
          super.firstLogicalSector ≤ extent.targetData ∧
            extent.targetData + extent.numSectors ≤ super.size / sectorSize := by
  unfold validateAndSerializeMetadata
  simp only [Option.bind_eq_bind, Option.bind_eq_some_iff, Fallible.require_eq_some,
    decide_eq_true_eq, all_eq_true, Option.isSome_iff_exists, or_iff_not_imp_left, not_not,
    Option.some.injEq]
  constructor
  · rintro ⟨_, fits, super, first, _, reserved, units, devices, _, partitions, _, extents, rfl⟩
    exact ⟨rfl, fits, super, first, reserved, ⟨units, devices⟩, partitions, extents⟩
  · rintro ⟨rfl, fits, super, first, reserved, ⟨units, devices⟩, partitions, extents⟩
    exact ⟨(), fits, super, first, (), reserved, units, devices, (), partitions, (), extents, rfl⟩

theorem serializeGeometry_length (sha256 : Hash) (geometry : LpMetadataGeometry) :
    (serializeGeometry sha256 geometry).length = 4096 := by
  rw [serializeGeometry, length_append, LpMetadataGeometry.codec.encode_length, length_replicate]
  rfl

section

variable (flashable : Flashable sha256 fd metadata)

include flashable

theorem Flashable.flash_eq
    (valid : validateAndSerializeMetadata sha256 sizes metadata slotSuffix = some blob) :
    flashPartitionTable sha256 sizes fd metadata slotSuffix =
      ⟨(areaIds metadata.geometry).map (flashWrite sha256 metadata), true⟩ := by
  obtain ⟨rfl, -, super, first, reserved, -⟩ := validateAndSerializeMetadata_eq_some.mp valid
  have room := flashable.mounted.room
  have size := serializeGeometry_length sha256 metadata.geometry
  have slots : ∀ i ∈ List.range metadata.geometry.metadataSlotCount.toNat,
      writeMetadata fd metadata (BitVec.ofNat 32 i) (serializeMetadata sha256 metadata) =
        ⟨(slotAreas i).map (flashWrite sha256 metadata), true⟩ := by
    intro i member
    have inRange := mem_range.mp member
    have known : (BitVec.ofNat 32 i).toNat < metadata.geometry.metadataSlotCount.toNat := by
      rw [BitVec.toNat_ofNat, Nat.mod_eq_of_lt (by omega)]
      exact inRange
    rw [flashable.mounted.writeMetadata_eq known first reserved flashable.shorter]
    rfl
  have start : seekFile64 0 = some 0 := by decide
  have primary : seekFile64 getPrimaryGeometryOffset = some 4096 := by decide
  have backup : seekFile64 getBackupGeometryOffset = some 8192 := by decide
  have reservedBytes : partitionReservedBytes.toNat = 4096 := rfl
  simp only [flashPartitionTable, valid, foldl_both slots, writeRegion, start, primary, backup,
    size, reservedBytes, length_replicate,
    show 0 + 4096 ≤ fd.size by omega, show 4096 + 4096 ≤ fd.size by omega,
    show 8192 + 4096 ≤ fd.size by omega]
  rw [areaIds, map_append, map_flatMap]
  rfl

/-- The device after a flash. -/
def flashedDevice (sha256 : Hash) (fd : Medium) (metadata : LpMetadata) : Medium :=
  fd.writeAll ((areaIds metadata.geometry).map (flashWrite sha256 metadata))

theorem Flashable.covers (i : AreaId) {a : Nat}
    (covered : (flashWrite sha256 metadata i).Covers a) :
    (row metadata.geometry i).Covers a := by
  obtain ⟨low, high⟩ := covered
  have shorter := flashable.shorter
  have size : (serializeGeometry sha256 metadata.geometry).length = 4096 :=
    serializeGeometry_length sha256 metadata.geometry
  refine ⟨low, lt_of_lt_of_le high ?_⟩
  apply Nat.add_le_add_left
  cases i with
  | reserved => exact le_of_eq (length_replicate ..)
  | primaryGeometry => exact le_of_eq size
  | backupGeometry => exact le_of_eq size
  | primaryMetadata slot => exact le_of_lt shorter
  | backupMetadata slot => exact le_of_lt shorter

/-- Every area holds what the flash put there: no other write reaches it. -/
theorem Flashable.region {i : AreaId}
    (found : area metadata.geometry i = some (row metadata.geometry i)) :
    (flashedDevice sha256 fd metadata).region (row metadata.geometry i).start
      (flashedBytes sha256 metadata i).length = flashedBytes sha256 metadata i := by
  have fit := flashable.mounted.fit
  have here : i ∈ areaIds metadata.geometry := (fit.mem_areaIds i).mpr found
  have once : ∀ v ∈ (areaIds metadata.geometry).map (flashWrite sha256 metadata), v =
      flashWrite sha256 metadata i ∨ ∀ a, (flashWrite sha256 metadata i).Covers a →
      ¬ v.Covers a := by
    intro v member
    obtain ⟨j, there, rfl⟩ := mem_map.mp member
    by_cases same : j = i
    · exact .inl (by rw [same])
    · right
      intro a inI inJ
      exact fit.disjoint same ((fit.mem_areaIds j).mp there) found a
        ⟨flashable.covers j inJ, flashable.covers i inI⟩
  exact Medium.region_writeAll once (.inr (mem_map_of_mem here))

end

theorem writeAll_size (fd : Medium) (writes : List Write) :
    (fd.writeAll writes).size = fd.size := by
  induction writes generalizing fd with
  | nil => rfl
  | cons w later ih => exact ih (fd.write w)

theorem Flashable.geometry (flashable : Flashable sha256 fd metadata) :
    readLogicalPartitionGeometry sha256 (flashedDevice sha256 fd metadata) =
      some (sealedGeometry sha256 metadata.geometry) := by
  have room := flashable.mounted.room
  have stored := flashable.region (i := .primaryGeometry) rfl
  change (flashedDevice sha256 fd metadata).region 4096
      (serializeGeometry sha256 metadata.geometry).length =
      serializeGeometry sha256 metadata.geometry at stored
  rw [serializeGeometry_length] at stored
  have seek : seekFile64 getPrimaryGeometryOffset = some 4096 := by decide
  have inside : 4096 + 4096 ≤ (flashedDevice sha256 fd metadata).size := by
    rw [flashedDevice, writeAll_size]
    omega
  simp [readLogicalPartitionGeometry, readGeometryAt, seek, Fallible.require, inside, stored,
    parseGeometry_serializeGeometry sha256 flashable.magic flashable.structSize flashable.slots
    flashable.sectors]

/-- The table with the geometry that was stored beside it. -/
def withSealed (sha256 : Hash) (metadata : LpMetadata) : LpMetadata :=
  { metadata with geometry := sealedGeometry sha256 metadata.geometry }

variable {slot : BitVec 32}

theorem Flashable.readFrom (flashable : Flashable sha256 fd metadata)
    (inRange : slot.toNat < metadata.geometry.metadataSlotCount.toNat) (side : Side) :
    ∃ rest, (flashedDevice sha256 fd metadata).readFrom
      (row metadata.geometry (copyId slot side)).start =
      serializeMetadata sha256 metadata ++ rest := by
  have found := flashable.mounted.fit.area_copyId inRange side
  have stop := flashable.mounted.fit.stop_le found
  have shorter := flashable.shorter
  have room := flashable.mounted.room
  rw [Area.stop, row_copyId_length] at stop
  have inside : (row metadata.geometry (copyId slot side)).start +
      (serializeMetadata sha256 metadata).length ≤ (flashedDevice sha256 fd metadata).size := by
    rw [flashedDevice, writeAll_size]
    omega
  have held := flashable.region found
  rw [Medium.readFrom_split _ inside]
  refine ⟨_, congrArg (· ++ _) ?_⟩
  cases side <;> exact held

theorem row_sealedGeometry (geometry : LpMetadataGeometry) (i : AreaId) :
    row (sealedGeometry sha256 geometry) i = row geometry i := by
  cases i <;> rfl

theorem Flashable.copyOf (flashable : Flashable sha256 fd metadata)
    (inRange : slot.toNat < metadata.geometry.metadataSlotCount.toNat) (side : Side) :
    Liblp.copyOf sha256 (sealedGeometry sha256 metadata.geometry) (flashedDevice sha256 fd metadata)
      slot side =
          some (storedMetadata sha256 (withSealed sha256 metadata)) ∧
      ContainedAt sha256 (sealedGeometry sha256 metadata.geometry)
        (flashedDevice sha256 fd metadata) (copyId slot side) := by
  have mounted : Mounted (sealedGeometry sha256 metadata.geometry)
      (flashedDevice sha256 fd metadata) := by
    refine ⟨flashable.mounted.fit, flashable.mounted.long, ?_⟩
    rw [flashedDevice, writeAll_size]
    exact flashable.mounted.room
  have wellFormed : WellFormed (withSealed sha256 metadata) := { flashable.wellFormed with }
  apply mounted.copyOf_blob inRange wellFormed rfl (le_of_lt flashable.shorter)
  have held := flashable.region (flashable.mounted.fit.area_copyId inRange side)
  cases side <;> exact held

end Flash

end Aosp.Liblp
