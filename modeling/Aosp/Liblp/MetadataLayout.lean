import Aosp.Liblp.Disjointness

/- The byte ranges at the start of the super device: reserved block, two geometry copies, and
a primary and a backup metadata copy for each slot. The sizes are computed partly in 32 and
partly in 64 bits. -/
namespace Aosp.Liblp

open BitVec Option

/-- The areas the metadata of one super device is kept in. -/
inductive AreaId where
  | reserved
  | primaryGeometry
  | backupGeometry
  | primaryMetadata (slot : BitVec 32)
  | backupMetadata (slot : BitVec 32)
deriving DecidableEq

/-- A range of bytes of the device. -/
structure Area where
  start : Nat
  length : Nat
deriving DecidableEq

namespace Area

def stop (a : Area) : Nat := a.start + a.length

def Covers (a : Area) (byte : Nat) : Prop := a.start ≤ byte ∧ byte < a.stop

def Disjoint (a c : Area) : Prop := ∀ byte, ¬ (a.Covers byte ∧ c.Covers byte)

end Area

/-- Where the source reads and writes an area; `none` for a slot the geometry does not have. -/
def area (geometry : LpMetadataGeometry) : AreaId → Option Area
  | .reserved => some ⟨0, partitionReservedBytes.toNat⟩
  | .primaryGeometry => some ⟨getPrimaryGeometryOffset.toNat, geometrySize.toNat⟩
  | .backupGeometry => some ⟨getBackupGeometryOffset.toNat, geometrySize.toNat⟩
  | .primaryMetadata slot => (getPrimaryMetadataOffset geometry slot).map fun offset =>
    ⟨offset.toNat, geometry.metadataMaxSize.toNat⟩
  | .backupMetadata slot => (getBackupMetadataOffset geometry slot).map fun offset =>
    ⟨offset.toNat, geometry.metadataMaxSize.toNat⟩

/-- No two areas share a byte, and all end in front of the first logical sector. -/
structure AreasSeparate (geometry : LpMetadataGeometry) (super : LpMetadataBlockDevice) :
    Prop where
  disjoint : ∀ i j a c, i ≠ j → area geometry i = some a → area geometry j = some c → a.Disjoint c
  inFront : ∀ i a, area geometry i = some a → a.stop ≤ super.firstLogicalSector.toNat * 512

variable {geometry : LpMetadataGeometry} {slot : BitVec 32}

theorem area_primaryMetadata (inRange : slot.toNat < geometry.metadataSlotCount.toNat) :
    area geometry (.primaryMetadata slot) = some
      ⟨(12288 + geometry.metadataMaxSize.toNat * slot.toNat) % 2 ^ 32,
        geometry.metadataMaxSize.toNat⟩ := by
  have known : slot < geometry.metadataSlotCount := inRange
  simp only [area, getPrimaryMetadataOffset, known, ↓reduceIte, map_some, toNat_setWidth, toNat_add,
    toNat_mul]
  generalize geometry.metadataMaxSize.toNat * slot.toNat = product
  change some (Area.mk ((12288 + product % 2 ^ 32) % 2 ^ 32 % 2 ^ 64) _) = _
  rw [Nat.add_mod_mod, Nat.mod_eq_of_lt (by omega)]

theorem area_backupMetadata (inRange : slot.toNat < geometry.metadataSlotCount.toNat) :
    area geometry (.backupMetadata slot) =
      some ⟨(12288 + geometry.metadataMaxSize.toNat * geometry.metadataSlotCount.toNat +
          geometry.metadataMaxSize.toNat * slot.toNat % 2 ^ 32) % 2 ^ 64,
          geometry.metadataMaxSize.toNat⟩ := by
  have known : slot < geometry.metadataSlotCount := inRange
  simp only [area, getBackupMetadataOffset, known, ↓reduceIte, map_some, toNat_setWidth, toNat_add,
    toNat_mul]
  rw [Nat.mod_eq_of_lt (a := geometry.metadataMaxSize.toNat) (by omega),
    Nat.mod_eq_of_lt (a := geometry.metadataSlotCount.toNat) (by omega)]
  generalize geometry.metadataMaxSize.toNat * slot.toNat = product
  generalize geometry.metadataMaxSize.toNat * geometry.metadataSlotCount.toNat = total
  change some (Area.mk (((12288 + total % 2 ^ 64) % 2 ^ 64 + product % 2 ^ 32 % 2 ^ 64) %
      2 ^ 64) _) = _
  congr 2
  omega

theorem area_inRange {i : AreaId} {a : Area} (found : area geometry i = some a) :
    ∀ slot, i = .primaryMetadata slot ∨ i = .backupMetadata slot →
      slot.toNat < geometry.metadataSlotCount.toNat := by
  rintro slot (rfl | rfl)
  · simp only [area, getPrimaryMetadataOffset] at found
    split at found
    · assumption
    · cases found
  · simp only [area, getBackupMetadataOffset] at found
    split at found
    · assumption
    · cases found

theorem getTotalMetadataSize_toNat (metadataMaxSize maxSlots : BitVec 32) :
    (getTotalMetadataSize metadataMaxSize maxSlots).toNat =
      (12288 + 2 * (metadataMaxSize.toNat * maxSlots.toNat)) % 2 ^ 32 := by
  simp only [getTotalMetadataSize, toNat_setWidth, toNat_add, toNat_mul]
  generalize metadataMaxSize.toNat * maxSlots.toNat = product
  change (4096 + (4096 + product % 2 ^ 32) % 2 ^ 32 * 2 % 2 ^ 32) % 2 ^ 32 % 2 ^ 64 = _
  omega

/-- The 32-bit sizes do not wrap. -/
def SizesFit (geometry : LpMetadataGeometry) : Prop :=
  12288 + 2 * (geometry.metadataMaxSize.toNat * geometry.metadataSlotCount.toNat) < 2 ^ 32

instance (geometry : LpMetadataGeometry) : Decidable (SizesFit geometry) :=
  inferInstanceAs (Decidable (_ < _))

/-- A slot's copies lie in the two halves behind the geometry when nothing wraps. -/
theorem SizesFit.areas (fit : SizesFit geometry)
    (inRange : slot.toNat < geometry.metadataSlotCount.toNat) :
    area geometry (.primaryMetadata slot) =
        some ⟨12288 + geometry.metadataMaxSize.toNat * slot.toNat, geometry.metadataMaxSize.toNat⟩ ∧
      area geometry (.backupMetadata slot) =
        some ⟨12288 + geometry.metadataMaxSize.toNat * geometry.metadataSlotCount.toNat +
          geometry.metadataMaxSize.toNat * slot.toNat, geometry.metadataMaxSize.toNat⟩ ∧
      geometry.metadataMaxSize.toNat * slot.toNat + geometry.metadataMaxSize.toNat ≤
        geometry.metadataMaxSize.toNat * geometry.metadataSlotCount.toNat := by
  have next : geometry.metadataMaxSize.toNat * slot.toNat + geometry.metadataMaxSize.toNat ≤
      geometry.metadataMaxSize.toNat * geometry.metadataSlotCount.toNat := by
    exact Nat.mul_le_mul_left _ inRange
  unfold SizesFit at fit
  rw [area_primaryMetadata inRange, area_backupMetadata inRange]
  refine ⟨?_, ?_, next⟩
  · rw [Nat.mod_eq_of_lt (by omega)]
  · rw [Nat.mod_eq_of_lt (by omega), Nat.mod_eq_of_lt (by omega)]

/-- The areas in the order they have on the device when nothing wraps. -/
def row (geometry : LpMetadataGeometry) : AreaId → Area
  | .reserved => ⟨0, 4096⟩
  | .primaryGeometry => ⟨4096, 4096⟩
  | .backupGeometry => ⟨8192, 4096⟩
  | .primaryMetadata slot =>
    ⟨12288 + geometry.metadataMaxSize.toNat * slot.toNat, geometry.metadataMaxSize.toNat⟩
  | .backupMetadata slot =>
    ⟨12288 + geometry.metadataMaxSize.toNat * geometry.metadataSlotCount.toNat +
      geometry.metadataMaxSize.toNat * slot.toNat, geometry.metadataMaxSize.toNat⟩

variable {i : AreaId} {a : Area}

theorem SizesFit.area_eq_row (fit : SizesFit geometry) (found : area geometry i = some a) :
    a = row geometry i := by
  cases i with
  | primaryMetadata slot =>
    have inRange := area_inRange found slot (.inl rfl)
    rw [(fit.areas inRange).1] at found
    exact (some.inj found).symm
  | backupMetadata slot =>
    have inRange := area_inRange found slot (.inr rfl)
    rw [(fit.areas inRange).2.1] at found
    exact (some.inj found).symm
  | _ => exact (some.inj found).symm

theorem copies_apart (size : Nat) (slot other : BitVec 32) (different : slot ≠ other) :
    size * slot.toNat + size ≤ size * other.toNat ∨
      size * other.toNat + size ≤ size * slot.toNat := by
  rcases lt_or_gt_of_ne (fun same => different (eq_of_toNat_eq same)) with less | greater
  · left
    exact Nat.mul_le_mul_left size less
  · right
    exact Nat.mul_le_mul_left size greater

variable {j : AreaId}

theorem row_disjoint (different : i ≠ j)
    (inRange : ∀ slot, i = .primaryMetadata slot ∨ j = .primaryMetadata slot →
      geometry.metadataMaxSize.toNat * slot.toNat + geometry.metadataMaxSize.toNat ≤
        geometry.metadataMaxSize.toNat * geometry.metadataSlotCount.toNat) :
    (row geometry i).Disjoint (row geometry j) := by
  rintro byte ⟨⟨lowI, highI⟩, ⟨lowJ, highJ⟩⟩
  cases i <;> cases j <;> simp only [row, Area.stop] at lowI highI lowJ highJ <;> try omega
  · exact different rfl
  · exact different rfl
  · exact different rfl
  · rename_i slot other
    have := copies_apart geometry.metadataMaxSize.toNat slot other fun same =>
      different (by rw [same])
    omega
  · rename_i slot other
    have := inRange slot (.inl rfl)
    omega
  · rename_i slot other
    have := inRange other (.inr rfl)
    omega
  · rename_i slot other
    have := copies_apart geometry.metadataMaxSize.toNat slot other fun same =>
      different (by rw [same])
    omega

theorem SizesFit.disjoint (fit : SizesFit geometry) {c : Area} (different : i ≠ j)
    (foundI : area geometry i = some a) (foundJ : area geometry j = some c) :
    a.Disjoint c := by
  rw [fit.area_eq_row foundI, fit.area_eq_row foundJ]
  apply row_disjoint different
  rintro slot (primary | primary)
  · exact (fit.areas (area_inRange foundI slot (.inl primary))).2.2
  · exact (fit.areas (area_inRange foundJ slot (.inl primary))).2.2

theorem SizesFit.stop_le (fit : SizesFit geometry) (found : area geometry i = some a) :
    a.stop ≤ 12288 + 2 * (geometry.metadataMaxSize.toNat * geometry.metadataSlotCount.toNat) := by
  have inRange := area_inRange found
  rw [fit.area_eq_row found]
  cases i with
  | primaryMetadata slot =>
    have := (fit.areas (inRange slot (.inl rfl))).2.2
    simp only [row, Area.stop]
    omega
  | backupMetadata slot =>
    have := (fit.areas (inRange slot (.inr rfl))).2.2
    simp only [row, Area.stop]
    omega
  | _ =>
    simp only [row, Area.stop]
    omega

variable {super : LpMetadataBlockDevice}

/-- Without a wrap the areas are separate as soon as the reserved total is in front. -/
theorem SizesFit.separate (fit : SizesFit geometry)
    (reserved : 12288 + 2 * (geometry.metadataMaxSize.toNat * geometry.metadataSlotCount.toNat) ≤
      super.firstLogicalSector.toNat * 512) :
    AreasSeparate geometry super where
  disjoint _ _ _ _ different foundI foundJ := fit.disjoint different foundI foundJ
  inFront _ _ found := (fit.stop_le found).trans reserved

section

variable (separate : AreasSeparate geometry super) (positive : 0 < geometry.metadataMaxSize.toNat)
include separate positive

/-- The primary copy of the first slot whose offset wraps lands on the reserved bytes, a
geometry copy or the first slot. -/
theorem AreasSeparate.primary_fit (last : Nat) (inRange : last < geometry.metadataSlotCount.toNat) :
    12288 + geometry.metadataMaxSize.toNat * last < 2 ^ 32 := by
  induction last with
  | zero => omega
  | succ last ih =>
    have zeroSlot : (0 : BitVec 32).toNat = 0 := rfl
    have wrappedSlot : (BitVec.ofNat 32 (last + 1)).toNat = last + 1 := by
      rw [toNat_ofNat, Nat.mod_eq_of_lt (by omega)]
    have different : BitVec.ofNat 32 (last + 1) ≠ 0 := fun zero => by
      rw [zero] at wrappedSlot
      omega
    have present : (BitVec.ofNat 32 (last + 1)).toNat < geometry.metadataSlotCount.toNat := by
      omega
    have firstPresent : (0 : BitVec 32).toNat < geometry.metadataSlotCount.toNat := by omega
    have here := area_primaryMetadata present
    have first := area_primaryMetadata firstPresent
    rw [wrappedSlot, Nat.mul_succ] at here
    rw [zeroSlot] at first
    rw [Nat.mul_succ]
    generalize geometry.metadataMaxSize.toNat * last = product at *
    by_contra wraps
    have offset : (12288 + (product + geometry.metadataMaxSize.toNat)) % 2 ^ 32 =
        12288 + product + geometry.metadataMaxSize.toNat - 2 ^ 32 := by omega
    rw [offset] at here
    generalize shift : 12288 + product + geometry.metadataMaxSize.toNat - 2 ^ 32 = start at here
    by_cases reaches : 12288 < start + geometry.metadataMaxSize.toNat
    · refine separate.disjoint _ _ _ _ ?_ here first (max start 12288) ⟨⟨?_, ?_⟩, ⟨?_, ?_⟩⟩
      · simpa using different
      all_goals simp only [Area.stop]; omega
    · have covered : Area.Covers ⟨start, geometry.metadataMaxSize.toNat⟩ start :=
        ⟨le_rfl, by simp [Area.stop]; omega⟩
      rcases lt_or_ge start 4096 with onReserved | behind
      · exact separate.disjoint _ .reserved _ _ (by simp) here rfl start
          ⟨covered, Nat.zero_le _, by change start < 4096; omega⟩
      · rcases lt_or_ge start 8192 with onPrimary | behind
        · exact separate.disjoint _ .primaryGeometry _ _ (by simp) here rfl start
            ⟨covered, by change 4096 ≤ start; omega, by change start < 8192; omega⟩
        · exact separate.disjoint _ .backupGeometry _ _ (by simp) here rfl start
            ⟨covered, by change 8192 ≤ start; omega, by change start < 12288; omega⟩

/-- With no wrapped primary copy the last backup copy ends at the unwrapped total. -/
theorem AreasSeparate.fit (slots : 0 < geometry.metadataSlotCount.toNat)
    (bound : super.firstLogicalSector.toNat * 512 <
      (12288 + 2 * (geometry.metadataMaxSize.toNat * geometry.metadataSlotCount.toNat)) %
      2 ^ 32 + 2 ^ 32) :
    SizesFit geometry := by
  obtain ⟨last, count⟩ : ∃ last, geometry.metadataSlotCount.toNat = last + 1 :=
    ⟨geometry.metadataSlotCount.toNat - 1, by omega⟩
  have lastSlot : (BitVec.ofNat 32 last).toNat = last := by
    rw [toNat_ofNat, Nat.mod_eq_of_lt (by omega)]
  have present : (BitVec.ofNat 32 last).toNat < geometry.metadataSlotCount.toNat := by omega
  have primary := separate.primary_fit positive last (by omega)
  have backup := separate.inFront _ _ (area_backupMetadata present)
  have expand : geometry.metadataMaxSize.toNat * (last + 1) =
      geometry.metadataMaxSize.toNat * last + geometry.metadataMaxSize.toNat := Nat.mul_succ _ _
  unfold SizesFit
  rw [lastSlot, count] at backup
  rw [count] at bound ⊢
  generalize geometry.metadataMaxSize.toNat * last = product at *
  have small : product % 2 ^ 32 = product := Nat.mod_eq_of_lt (by omega)
  simp only [Area.stop] at backup
  omega

end

namespace MetadataBuilder

/-- The metadata areas of a builder's super device. -/
def MetadataSeparate (b : MetadataBuilder) : Prop :=
  ∃ super, b.blockDevices.head? = some super ∧ AreasSeparate b.geometry super

/-- `Init` keeps the metadata areas apart and in front of the first logical sector exactly
when the total of all copies is below 2³² bytes. -/
theorem new_areas_separate_iff {blockDevices : List BlockDeviceInfo} {superPartition : Name}
    {metadataMaxSize metadataSlotCount : BitVec 32} {b : MetadataBuilder}
    (created : new blockDevices superPartition metadataMaxSize metadataSlotCount = some b) :
    b.MetadataSeparate ↔
      12288 + 2 * (b.geometry.metadataMaxSize.toNat * b.geometry.metadataSlotCount.toNat) <
      2 ^ 32 := by
  obtain ⟨maxSize, logicalBlockSize, super, devices, reserved, large, slots, given, rounded, loop,
    superDone, rfl⟩ := new_eq_some created
  obtain ⟨nonzero, aligned⟩ := (initDevices loop).blockSize given
  obtain ⟨start, found, _, rfl⟩ := initSuper_eq_some superDone
  have total := getTotalMetadataSize_toNat maxSize metadataSlotCount
  have upper := freeAreaStart_lt found nonzero
  have lower := freeAreaStart_toNat found
  have above := le_roundUp (getTotalMetadataSize maxSize metadataSlotCount).toNat
    (if super.alignment ≠ 0 then super.alignment else logicalBlockSize).toNat
  have multiple : 512 ∣ maxSize.toNat := by
    rw [alignTo_toNat (by decide) rounded]
    exact dvd_roundUp _ _ (by decide)
  have positive : 0 < maxSize.toNat := by
    have grows := le_roundUp metadataMaxSize.toNat 512
    have isLarge : 256 ≤ metadataMaxSize.toNat := large
    have same := alignTo_toNat (by decide) rounded
    change maxSize.toNat = roundUp metadataMaxSize.toNat 512 at same
    omega
  have whole : 512 ∣ maxSize.toNat * metadataSlotCount.toNat := Nat.dvd_mul_right_of_dvd multiple _
  have first : (start / sectorSize).toNat = start.toNat / 512 := by
    rfl
  simp only [MetadataSeparate, List.head?_cons, some.injEq, exists_eq_left']
  constructor
  · intro separate
    refine separate.fit positive (toNat_lt_of_ne_zero slots) ?_
    simp only [first]
    omega
  · intro fits
    refine SizesFit.separate ?_ ?_
    · exact fits
    simp only [first]
    omega

theorem new_areas_separate_iff_uneven :
    unevenBuilder.geometry.metadataMaxSize = 65536 ∧ unevenBuilder.MetadataSeparate :=
  ⟨rfl, (new_areas_separate_iff new_unevenSuper).mpr (by decide)⟩

/-- With 65537 slots of 64 KiB, `Init` succeeds on a device of 3 MiB and the primary copies of
the slots 0 and 65536 are the same bytes. -/
theorem new_areas_collide :
    ∃ b, new [unevenSuper] defaultPartitionName 65536 65537 = some b ∧
      area b.geometry (.primaryMetadata 0) = area b.geometry (.primaryMetadata 65536) ∧
      ¬ b.MetadataSeparate := by
  refine ⟨_, rfl, by decide, ?_⟩
  rintro ⟨super, head, separate⟩
  refine separate.disjoint (.primaryMetadata 0) (.primaryMetadata 65536) ⟨12288, 65536⟩
    ⟨12288, 65536⟩ (by decide) (by decide) (by decide) 12288 ⟨⟨le_rfl, ?_⟩, ⟨le_rfl, ?_⟩⟩ <;> decide

end MetadataBuilder

end Aosp.Liblp
