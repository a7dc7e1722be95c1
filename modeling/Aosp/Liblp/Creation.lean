import Mathlib.Data.List.Induction
import Aosp.Liblp.FreeRegions

namespace Aosp.Liblp.MetadataBuilder

open BitVec Fallible List

/-- A device with at least one sector for extents. -/
def Roomy (device : LpMetadataBlockDevice) : Prop :=
  device.firstLogicalSector.toNat < (lastSector device).toNat

theorem toNat_lt_of_ne_zero {w : Nat} {value : BitVec w} (nonzero : value ≠ 0) : 0 < value.toNat :=
  Nat.pos_of_ne_zero fun zero => nonzero (eq_of_toNat_eq (by simpa using zero))

variable {info : BlockDeviceInfo}

variable {blockSize : BitVec 32}

theorem blockSize_ge (nonzero : blockSize ≠ 0) (aligned : blockSize % 512 = 0) :
    512 ≤ blockSize.toNat := by
  have positive := toNat_lt_of_ne_zero nonzero
  have multiple := congrArg BitVec.toNat aligned
  change blockSize.toNat % 512 = 0 at multiple
  omega

variable {start aligned : BitVec 64} {alignment logicalBlockSize : BitVec 32}

theorem freeAreaStart_toNat
    (found : freeAreaStart start alignment logicalBlockSize = some aligned) :
    aligned.toNat =
      roundUp start.toNat (if alignment ≠ 0 then alignment else logicalBlockSize).toNat :=
  alignTo_toNat (by decide) found

theorem freeAreaStart_lt (found : freeAreaStart start alignment logicalBlockSize = some aligned)
    (nonzero : logicalBlockSize ≠ 0) :
    aligned.toNat < start.toNat + 2 ^ 32 := by
  rw [freeAreaStart_toNat found]
  have unit : (if alignment ≠ 0 then alignment else logicalBlockSize) ≠ 0 := by
    split <;> assumption
  have bound := roundUp_lt_add start.toNat _ (toNat_lt_of_ne_zero unit)
  omega

/-- The minimum-size tests of `Init` leave one block behind the first sector. -/
theorem roomy_of_minimum {size : BitVec 64} (low : start.toNat < 2 ^ 34)
    (block : 512 ≤ blockSize.toNat)
    (fits : start / sectorSize * sectorSize + blockSize.setWidth 64 ≤ size) :
    (start / sectorSize).toNat < (size / sectorSize).toNat := by
  have sector : sectorSize.toNat = 512 := rfl
  rw [le_def, toNat_add, toNat_mul, toNat_udiv, toNat_setWidth,
    sector] at fits
  rw [toNat_udiv, toNat_udiv, sector]
  omega

variable {superPartition : Name} {state after : BitVec 32 × List LpMetadataBlockDevice}

/-- Everything one round of the device loop establishes. -/
theorem initDevice_eq_some (done : initDevice superPartition state info = some after) :
    ∃ start, verifyDeviceProperties info ∧ after.1 = info.logicalBlockSize ∧
      info.partitionName.length ≤ 36 ∧
      freeAreaStart sectorSize info.alignment info.logicalBlockSize = some start ∧
      start / sectorSize * sectorSize + info.logicalBlockSize.setWidth 64 ≤ info.size ∧
      after.2 = let out : LpMetadataBlockDevice :=
          ⟨start / sectorSize, info.alignment, info.alignmentOffset, info.size,
          strncpy 36 info.partitionName, 0⟩
        if info.partitionName = superPartition then out :: state.2 else state.2 ++ [out] := by
  unfold initDevice at done
  simp only [Option.bind_eq_bind, Option.bind_eq_some_iff, require_eq_some, exists_const,
    decide_eq_true_eq, Option.some.injEq] at done
  obtain ⟨verified, same, short, start, found, fits, rfl⟩ := done
  rw [same] at found fits
  exact ⟨start, verified, same, short, found, fits, rfl⟩

theorem initDevice_roomy (done : initDevice superPartition state info = some after) :
    ∃ device, Roomy device ∧ after.2.Perm (device :: state.2) ∧ after.1 ≠ 0 ∧
      after.1 % 512 = 0 := by
  obtain ⟨start, verified, size, _, found, fits, devices⟩ := initDevice_eq_some done
  rw [verifyDeviceProperties, decide_eq_true_eq] at verified
  obtain ⟨nonzero, aligned, _⟩ := verified
  have low := freeAreaStart_lt found nonzero
  rw [show sectorSize.toNat = 512 from rfl] at low
  refine ⟨⟨start / sectorSize, info.alignment, info.alignmentOffset, info.size,
    strncpy 36 info.partitionName, 0⟩, ?_, ?_, ?_, ?_⟩
  · exact roomy_of_minimum (by omega) (blockSize_ge nonzero aligned) fits
  · rw [devices]
    split
    · exact List.Perm.refl _
    · exact perm_append_singleton _ _
  · rw [size]
    exact nonzero
  · rw [size]
    exact aligned

/-- The devices after the loop: one roomy device for each description. -/
structure Initialised (blockDevices : List BlockDeviceInfo)
    (state : BitVec 32 × List LpMetadataBlockDevice) : Prop where
  length : state.2.length = blockDevices.length
  roomy : ∀ device ∈ state.2, Roomy device
  blockSize : blockDevices ≠ [] → state.1 ≠ 0 ∧ state.1 % 512 = 0

variable {blockDevices : List BlockDeviceInfo}

theorem initDevices (done : blockDevices.foldlM (initDevice superPartition) (0, []) = some state) :
    Initialised blockDevices state := by
  induction blockDevices using List.reverseRecOn generalizing state with
  | nil =>
    cases done
    exact ⟨rfl, nofun, fun nothing => absurd rfl nothing⟩
  | append_singleton front info ih =>
    rw [foldlM_append, Option.bind_eq_bind, Option.bind_eq_some_iff] at done
    obtain ⟨middle, first, done⟩ := done
    rw [foldlM_cons, Option.bind_eq_bind, Option.bind_eq_some_iff] at done
    obtain ⟨after, last, done⟩ := done
    cases done
    obtain ⟨device, roomy, perm, nonzero, aligned⟩ := initDevice_roomy last
    have before := ih first
    refine ⟨?_, ?_, fun _ => ⟨nonzero, aligned⟩⟩
    · simp [perm.length_eq, before.length]
    · intro other member
      rcases mem_cons.mp (perm.mem_iff.mp member) with rfl | member
      · exact roomy
      · exact before.roomy other member

variable {super : LpMetadataBlockDevice} {metadataMaxSize metadataSlotCount : BitVec 32}

/-- The reserved area of the super device, as `Init` computes it. -/
theorem initSuper_eq_some {after : LpMetadataBlockDevice}
    (done : initSuper super metadataMaxSize metadataSlotCount logicalBlockSize = some after) :
    ∃ start, freeAreaStart (getTotalMetadataSize metadataMaxSize metadataSlotCount) super.alignment
        logicalBlockSize = some start ∧
      start / sectorSize * sectorSize + logicalBlockSize.setWidth 64 ≤ super.size ∧
      after = { super with firstLogicalSector := start / sectorSize } := by
  unfold initSuper at done
  simp only [Option.bind_eq_bind, Option.bind_eq_some_iff, require_eq_some, exists_const,
    decide_eq_true_eq, Option.some.injEq] at done
  obtain ⟨_, start, found, fits, rfl⟩ := done
  exact ⟨start, found, fits, rfl⟩

variable {b : MetadataBuilder}

section

variable (created : new blockDevices superPartition metadataMaxSize metadataSlotCount = some b)

include created

/-- All that a successful `New(block_devices, …)` establishes. -/
theorem new_eq_some :
    ∃ maxSize logicalBlockSize super devices reserved,
      headerSizeV12 ≤ metadataMaxSize ∧ metadataSlotCount ≠ 0 ∧ blockDevices ≠ [] ∧
      alignTo metadataMaxSize 512 = some maxSize ∧
      blockDevices.foldlM (initDevice superPartition) (0, []) =
      some (logicalBlockSize, super :: devices) ∧
      initSuper super maxSize metadataSlotCount logicalBlockSize = some reserved ∧
      b = { empty with
        blockDevices := reserved :: devices
        groups := [⟨defaultGroup, 0⟩]
        geometry := { empty.geometry with
          metadataMaxSize := maxSize
          metadataSlotCount := metadataSlotCount
          logicalBlockSize := logicalBlockSize } } := by
  unfold new at created
  simp only [Option.bind_eq_bind, Option.bind_eq_some_iff, require_eq_some, exists_const,
    decide_eq_true_eq, Option.some.injEq] at created
  obtain ⟨large, slots, given, maxSize, rounded, ⟨logicalBlockSize, all⟩, loop, super, head, _,
    reserved, superDone, _, rfl⟩ := created
  obtain ⟨devices, rfl⟩ := head?_eq_some_iff.mp head
  exact ⟨maxSize, logicalBlockSize, super, devices, reserved, large, slots, given, rounded, loop,
    superDone, rfl⟩

theorem new_roomy :
    b.blockDevices.length = blockDevices.length ∧ (∀ device ∈ b.blockDevices, Roomy device) ∧
      b.partitions = [] := by
  obtain ⟨maxSize, logicalBlockSize, super, devices, reserved, _, _, given, _, loop, superDone,
    rfl⟩ := new_eq_some created
  have state := initDevices loop
  obtain ⟨nonzero, aligned⟩ := state.blockSize given
  refine ⟨state.length, ?_, rfl⟩
  intro device member
  rcases mem_cons.mp member with rfl | member
  · obtain ⟨start, found, fits, rfl⟩ := initSuper_eq_some superDone
    have low := freeAreaStart_lt found nonzero
    rw [getTotalMetadataSize, toNat_setWidth] at low
    exact roomy_of_minimum (by omega) (blockSize_ge nonzero aligned) fits
  · exact state.roomy device (mem_cons_of_mem _ member)

theorem new_disjoint (few : blockDevices.length ≤ 2 ^ 32) : b.Disjoint := by
  obtain ⟨length, roomy, nothing⟩ := new_roomy created
  have noExtents : b.linearExtents = [] := by simp [linearExtents, nothing]
  refine ⟨⟨?_, roomy, ?_⟩, ?_⟩
  · rw [length]
    exact few
  · rw [noExtents]
    exact nofun
  · rw [noExtents]
    exact List.Pairwise.nil

end

end Aosp.Liblp.MetadataBuilder
