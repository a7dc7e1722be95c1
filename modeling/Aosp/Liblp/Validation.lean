import Aosp.Liblp.Flash
import Aosp.Liblp.Exported
import Aosp.Liblp.ReaderBounds

namespace Aosp.Liblp

open BitVec Fallible
open Layout (Fixed)

variable (m : LpMetadata)

/-- An extent between the first sector and the end of the device its `target_source` names. -/
def InsideDevice (extent : LpMetadataExtent) : Prop :=
  ∃ device ∈ m.blockDevices[extent.targetSource.toNat]?, device.firstLogicalSector.toNat ≤
    extent.targetData.toNat ∧ extent.targetData.toNat + extent.numSectors.toNat ≤
    device.size.toNat / 512

/-- What an accepted table should be, over unbounded numbers. -/
def Bounded : Prop :=
  (∀ partition ∈ m.partitions, partition.firstExtentIndex.toNat + partition.numExtents.toNat ≤
    m.extents.length ∧ partition.groupIndex.toNat < m.groups.length) ∧
    ∀ extent ∈ m.extents, extent.targetType = targetTypeLinear → InsideDevice m extent

/-- What the validator takes for granted: no sum is cut, no group is missing, and the extents that
are not on the super device are inside the device they are on. -/
def Presumed : Prop :=
  (∀ partition ∈ m.partitions, partition.firstExtentIndex.toNat +
    partition.numExtents.toNat < 2 ^ 32 ∧ partition.groupIndex.toNat < m.groups.length) ∧
    ∀ extent ∈ m.extents, extent.targetType = targetTypeLinear →
      extent.targetData.toNat + extent.numSectors.toNat < 2 ^ 64 ∧
      (extent.targetSource ≠ 0 → InsideDevice m extent)

/-- The entry of a device that is there, with the size it has. -/
def Matches (sizes : DeviceSizes) (slotSuffix : Name) (device : LpMetadataBlockDevice) : Prop :=
  let suffixed : Bool := device.flags &&& blockDeviceSlotSuffixed ≠ 0
  (suffixed → slotSuffix ≠ []) ∧ ∀ getInfo ∈ sizes,
    getInfo (getBlockDevicePartitionName device ++ (if suffixed then slotSuffix else [])) =
    some device.size

/-- Every device has a sector for extents, the super device leaves room for the metadata, and no
extent is outside the sectors of the super device. -/
def OnSuper : Prop :=
  (∀ device ∈ m.blockDevices, (device.firstLogicalSector + 1) * sectorSize ≤ device.size) ∧
    ∃ super ∈ getMetadataSuperBlockDevice m, totalReserved m.geometry ≤
    super.firstLogicalSector * sectorSize ∧
    ∀ extent ∈ m.extents, extent.targetType = targetTypeLinear →
    super.firstLogicalSector ≤ extent.targetData ∧
      extent.targetData + extent.numSectors ≤ super.size / sectorSize

variable {sha256 : Hash} {sizes : DeviceSizes} {m} {slotSuffix : Name}

theorem serialized_few
    (fits : (serializeMetadata sha256 m).length ≤ m.geometry.metadataMaxSize.toNat) :
    m.extents.length < 2 ^ 32 := by
  rw [serializeMetadata_length, serializeTables_length] at fits
  omega

theorem bounded_iff (accepted : (validateAndSerializeMetadata sha256 sizes m slotSuffix).isSome) :
    Bounded m ↔ Presumed m := by
  obtain ⟨blob, valid⟩ := Option.isSome_iff_exists.mp accepted
  obtain ⟨rfl, fits, super, first, -, -, partitions, extents⟩ :=
    validateAndSerializeMetadata_eq_some.mp valid
  have few := serialized_few fits
  constructor
  · rintro ⟨ranges, inside⟩
    refine ⟨fun partition member => ?_, fun extent member linear =>
      ⟨?_, fun _ => inside extent member linear⟩⟩
    · obtain ⟨range, group⟩ := ranges partition member
      exact ⟨by omega, group⟩
    · obtain ⟨device, -, -, high⟩ := inside extent member linear
      omega
  · rintro ⟨ranges, inside⟩
    refine ⟨fun partition member => ?_, fun extent member linear => ?_⟩
    · obtain ⟨whole, group⟩ := ranges partition member
      have range := partitions partition member
      rw [toNat_add, Nat.mod_eq_of_lt whole] at range
      exact ⟨range, group⟩
    · obtain ⟨whole, elsewhere⟩ := inside extent member linear
      by_cases onSuper : extent.targetSource = 0
      · obtain ⟨low, high⟩ := extents extent member linear
        rw [le_def, toNat_add, Nat.mod_eq_of_lt whole] at high
        exact ⟨super, by rw [onSuper]; exact List.head?_eq_getElem?.symm.trans first, low, high⟩
      · exact elsewhere onSuper

open MetadataBuilder (Reachable)

theorem Matches.validateDevice_isSome {device : LpMetadataBlockDevice}
    (matching : Matches sizes slotSuffix device) :
    (validateDevice sizes slotSuffix device).isSome ↔
      (device.firstLogicalSector + 1) * sectorSize ≤ device.size := by
  obtain ⟨known, sized⟩ := matching
  simp only [validateDevice, Option.isSome_iff_exists, Option.bind_eq_bind, Option.bind_eq_some_iff,
    require_eq_some]
  constructor
  · rintro ⟨_, _, _, _, room, _⟩
    exact of_decide_eq_true room
  · intro room
    refine ⟨(), (), ?_, (), decide_eq_true room, ?_⟩
    · rw [Bool.or_eq_true, Bool.not_eq_true', decide_eq_true_eq, ← Bool.not_eq_true]
      exact not_or_of_imp known
    · cases sizes with
      | none => rfl
      | some getInfo => exact (require_eq_some _ _).mpr (decide_eq_true (sized getInfo rfl))

/-- Of a table that `Export` returned for these devices, only the extents are tested against the
super device. -/
theorem exported_accepted_iff {b : MetadataBuilder} (reachable : Reachable b)
    (exported : b.exportMetadata = some m)
    (fits : (serializeMetadata sha256 m).length ≤ m.geometry.metadataMaxSize.toNat)
    (matching : ∀ device ∈ m.blockDevices, Matches sizes slotSuffix device) :
    (validateAndSerializeMetadata sha256 sizes m slotSuffix).isSome ↔ OnSuper m := by
  have devices : (m.blockDevices.mapM (validateDevice sizes slotSuffix)).isSome ↔
      ∀ device ∈ m.blockDevices, (device.firstLogicalSector + 1) * sectorSize ≤ device.size := by
    rw [mapM_isSome]
    exact forall₂_congr fun device member => (matching device member).validateDevice_isSome
  rw [Option.isSome_iff_exists, OnSuper, ← devices]
  constructor
  · rintro ⟨blob, valid⟩
    obtain ⟨-, -, super, first, reserved, passed, -, extents⟩ :=
      validateAndSerializeMetadata_eq_some.mp valid
    exact ⟨passed, super, first, reserved, extents⟩
  · rintro ⟨passed, super, first, reserved, extents⟩
    have wellFormed := MetadataBuilder.export_wellFormed sha256 reachable exported fits
      first reserved
    refine ⟨_, validateAndSerializeMetadata_eq_some.mpr
      ⟨rfl, fits, super, first, reserved, passed, fun partition member => ?_, extents⟩⟩
    have range := (validatePartition_indices (wellFormed.partitions partition member)).1
    rw [wellFormed.extentCount] at range
    exact (Nat.mod_le _ _).trans range

/-- The validator is exact for the tables it presumes nothing wrong about, and for the exports that
stay on the super device. -/
theorem validateAndSerializeMetadata_exact (sha256 : Hash) (sizes : DeviceSizes) (m : LpMetadata)
    (slotSuffix : Name)
    (fits : (serializeMetadata sha256 m).length ≤ m.geometry.metadataMaxSize.toNat) :
    ((validateAndSerializeMetadata sha256 sizes m slotSuffix).isSome → (Bounded m ↔ Presumed m)) ∧
      ∀ b, Reachable b → b.exportMetadata = some m →
      (∀ device ∈ m.blockDevices, Matches sizes slotSuffix device) →
        ((validateAndSerializeMetadata sha256 sizes m slotSuffix).isSome ↔ OnSuper m) :=
  ⟨bounded_iff, fun _ reachable exported matching =>
    exported_accepted_iff reachable exported fits matching⟩

/-- A builder with two devices and one partition: eight sectors of a device, from one sector on. -/
def placedAt (device : Name) (sector : BitVec 64) : Except Fault MetadataBuilder :=
  (MetadataBuilder.withPlainDevices 1).run
    [.addPartition (ascii ['a']) defaultGroup 0, .addLinearExtent (ascii ['a']) device 8 sector]

theorem validateAndSerializeMetadata_exact_placed :
    ∃ b m, placedAt defaultPartitionName 2048 = .ok b ∧
    b.exportMetadata = some m ∧ OnSuper m ∧ (Bounded m ↔ Presumed m) ∧ Presumed m := by
  have ran : ∃ b m, placedAt defaultPartitionName 2048 = .ok b ∧ b.exportMetadata = some m ∧
      OnSuper m ∧ Presumed m ∧
      (serializeMetadata (fun _ => Fixed.zero 32) m).length ≤ m.geometry.metadataMaxSize.toNat ∧
      ∀ device ∈ m.blockDevices, Matches none [] device :=
    ⟨_, _, rfl, rfl, by unfold OnSuper; decide +kernel, by
      unfold Presumed InsideDevice; decide +kernel, by
      decide +kernel, by unfold Matches; decide +kernel⟩
  obtain ⟨b, m, placed, exported, onSuper, presumed, fits, matching⟩ := ran
  obtain ⟨sound, complete⟩ := validateAndSerializeMetadata_exact _ none m [] fits
  have accepted := (complete b (.run (.created (MetadataBuilder.new_plainDevices 1)) placed)
    exported matching).mpr onSuper
  exact ⟨b, m, placed, exported, onSuper, sound accepted, presumed⟩

/-- An extent behind the end of its device is accepted, and one inside it is refused. -/
theorem validateAndSerializeMetadata_wrong_device :
    (∃ b m, placedAt (ascii ['b']) 2048 = .ok b ∧ b.exportMetadata = some m ∧ ¬ Bounded m ∧
      (validateAndSerializeMetadata (fun _ => Fixed.zero 32) none m []).isSome) ∧
    ∃ b m, placedAt (ascii ['b']) 8 = .ok b ∧ b.exportMetadata = some m ∧ Bounded m ∧
      (∀ device ∈ m.blockDevices, Matches none [] device) ∧
      (serializeMetadata (fun _ => Fixed.zero 32) m).length ≤ m.geometry.metadataMaxSize.toNat ∧
      validateAndSerializeMetadata (fun _ => Fixed.zero 32) none m [] = none := by
  unfold Bounded InsideDevice Matches
  exact ⟨⟨_, _, rfl, rfl, by decide +kernel, by decide +kernel⟩, _, _, rfl,
    rfl, by decide +kernel, by decide +kernel, by decide +kernel, by decide +kernel⟩

end Aosp.Liblp
