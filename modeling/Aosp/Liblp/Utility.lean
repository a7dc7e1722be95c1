import Mathlib.Data.List.TakeWhile
import Aosp.Liblp.Format

/- `utility.h`, `utility.cpp` and the name helpers of `reader.cpp`. Every integer has the
width the source gives it, so products that wrap in C++ wrap here. -/
namespace Aosp.Liblp

open List
open Layout (Byte Fixed)

/-- `AlignTo`: `none` is the overflow the source reports with `false`. -/
def alignTo {w : Nat} (base : BitVec w) (alignment : BitVec 32) : Option (BitVec w) :=
  if alignment = 0 then some base
  else
    let remainder := base % alignment.setWidth w
    if remainder = 0 then some base
    else
      let toAdd := alignment.setWidth w - remainder
      if BitVec.allOnes w - base < toAdd then none else some (base + toAdd)

variable (base alignment : Nat)

/-- The value `AlignTo` computes, over unbounded numbers. -/
def roundUp : Nat :=
  if alignment = 0 ∨ base % alignment = 0 then base else base + (alignment - base % alignment)

theorem le_roundUp : base ≤ roundUp base alignment := by
  unfold roundUp
  split <;> omega

theorem roundUp_lt_add (positive : 0 < alignment) : roundUp base alignment < base + alignment := by
  unfold roundUp
  split <;> omega

theorem dvd_roundUp (positive : 0 < alignment) : alignment ∣ roundUp base alignment := by
  have split := Nat.div_add_mod base alignment
  have small := Nat.mod_lt base positive
  unfold roundUp
  by_cases exact_ : base % alignment = 0
  · rw [if_pos (.inr exact_)]
    exact Nat.dvd_of_mod_eq_zero exact_
  · rw [if_neg (by omega)]
    refine ⟨base / alignment + 1, ?_⟩
    rw [mul_add]
    omega

/-- What `AlignTo` returns, for the two widths it is instantiated at. -/
theorem alignTo_eq {w : Nat} (wide : 32 ≤ w) (base : BitVec w) (alignment : BitVec 32) :
    alignTo base alignment =
      if roundUp base.toNat alignment.toNat < 2 ^ w
      then some (BitVec.ofNat w (roundUp base.toNat alignment.toNat))
      else none := by
  have baseLt := base.isLt
  have alignLt : alignment.toNat < 2 ^ w := lt_of_lt_of_le alignment.isLt
    (Nat.pow_le_pow_right (by decide) wide)
  have same : (alignment.setWidth w).toNat = alignment.toNat := by
    rw [BitVec.toNat_setWidth, Nat.mod_eq_of_lt alignLt]
  have zero : alignment = 0 ↔ alignment.toNat = 0 := BitVec.toNat_inj.symm
  have remainder : (base % alignment.setWidth w).toNat = base.toNat % alignment.toNat := by
    rw [BitVec.toNat_umod, same]
  have divides : base % alignment.setWidth w = 0 ↔ base.toNat % alignment.toNat = 0 := by
    rw [← remainder, ← BitVec.toNat_inj]
    simp
  simp only [alignTo, zero, divides]
  by_cases aligned : alignment.toNat = 0 ∨ base.toNat % alignment.toNat = 0
  · have stays : roundUp base.toNat alignment.toNat = base.toNat := if_pos aligned
    rw [stays, if_pos baseLt, BitVec.ofNat_toNat, BitVec.setWidth_eq]
    rcases aligned with nothing | whole
    · rw [if_pos nothing]
    · rw [if_pos whole, ite_self]
  · have rounded : roundUp base.toNat alignment.toNat =
        base.toNat + (alignment.toNat - base.toNat % alignment.toNat) :=
      if_neg aligned
    obtain ⟨filled, rest⟩ := not_or.mp aligned
    have small := Nat.mod_lt base.toNat (Nat.pos_of_ne_zero filled)
    have toAdd : (alignment.setWidth w - base % alignment.setWidth w).toNat
        = alignment.toNat - base.toNat % alignment.toNat := by
      rw [BitVec.toNat_sub_of_le (by rw [BitVec.le_def]; omega), remainder, same]
    have room : (BitVec.allOnes w - base).toNat = 2 ^ w - 1 - base.toNat := by
      rw [BitVec.toNat_sub_of_le (by rw [BitVec.le_def, BitVec.toNat_allOnes]; omega),
        BitVec.toNat_allOnes]
    simp only [if_neg filled, if_neg rest, BitVec.lt_def, rounded]
    by_cases fits : base.toNat + (alignment.toNat - base.toNat % alignment.toNat) < 2 ^ w
    · rw [if_neg (by omega), if_pos fits, ← toAdd, BitVec.ofNat_add, BitVec.ofNat_toNat,
        BitVec.ofNat_toNat, BitVec.setWidth_eq, BitVec.setWidth_eq]
    · rw [if_pos (by omega), if_neg fits]

theorem alignTo_toNat {w : Nat} (wide : 32 ≤ w) {base out : BitVec w} {alignment : BitVec 32}
    (aligned : alignTo base alignment = some out) :
    out.toNat = roundUp base.toNat alignment.toNat := by
  rw [alignTo_eq wide] at aligned
  split at aligned
  · cases aligned
    rw [BitVec.toNat_ofNat, Nat.mod_eq_of_lt ‹_›]
  · cases aligned

/-- `strncpy` into an array of `n` bytes: stop at the first NUL, zero the rest. -/
def strncpy (n : Nat) (name : Name) : Fixed n := Fixed.ofList n (name.takeWhile (· ≠ 0))

/-- `NameFromFixedArray`. When the last byte is not NUL the whole buffer is the name. -/
def nameFromFixedArray {n : Nat} (name : Fixed n) : Name :=
  if name.bytes.getLast? = some 0 then name.bytes.takeWhile (· ≠ 0) else name.bytes

def getPartitionName (partition : LpMetadataPartition) : Name :=
  nameFromFixedArray partition.name

def getPartitionGroupName (group : LpMetadataPartitionGroup) : Name :=
  nameFromFixedArray group.name

def getBlockDevicePartitionName (device : LpMetadataBlockDevice) : Name :=
  nameFromFixedArray device.partitionName

/-- The name of a C string of at most `n` bytes survives the fixed-width field, also when
it fills the field and no terminator is left. -/
theorem nameFromFixedArray_strncpy (n : Nat) (name : Name) (fits : name.length ≤ n)
    (noNul : 0 ∉ name) :
    nameFromFixedArray (strncpy n name) = name := by
  have whole : name.takeWhile (· ≠ 0) = name := by
    rw [takeWhile_eq_self_iff]
    intro byte member
    simp only [decide_eq_true_eq]
    rintro rfl
    exact noNul member
  have bytes : (strncpy n name).bytes = name ++ List.replicate (n - name.length) 0 := by
    simp only [strncpy, whole, Fixed.ofList, take_of_length_le fits]
  unfold nameFromFixedArray
  rw [bytes]
  rcases Nat.eq_zero_or_pos (n - name.length) with full | padded
  · rw [full, replicate_zero, append_nil, whole, ite_self]
  · obtain ⟨pad, pad_eq⟩ : ∃ pad, n - name.length = pad + 1 := ⟨n - name.length - 1, by omega⟩
    have last : (name ++ List.replicate (pad + 1) (0 : Byte)).getLast? = some 0 := by
      rw [getLast?_append, getLast?_replicate]
      simp
    have stop : (name ++ List.replicate (pad + 1) (0 : Byte)).takeWhile (· ≠ 0) = name := by
      rw [takeWhile_append_of_pos]
      · simp
      · intro byte member
        simp only [decide_eq_true_eq]
        rintro rfl
        exact noNul member
    rw [pad_eq, if_pos last, stop]

def suffixA : Name := ascii ['_', 'a']
def suffixB : Name := ascii ['_', 'b']

def getPartitionSlotSuffix (partitionName : Name) : Name :=
  if partitionName.length ≤ 2 then []
  else
    let suffix := partitionName.drop (partitionName.length - 2)
    if suffix = suffixA ∨ suffix = suffixB then suffix else []

/-- `SlotSuffixForSlotNumber`; `none` is the failed `CHECK`. -/
def slotSuffixForSlotNumber (slotNumber : BitVec 32) : Option Name :=
  if slotNumber = 0 then some suffixA else if slotNumber = 1 then some suffixB else none

/-- The shared body of the three `Update*Name` helpers; `none` is `false`. -/
def updateName (n : Nat) (name : Name) : Option (Fixed n) :=
  if n < name.length then none else some (strncpy n name)

def updateBlockDevicePartitionName (device : LpMetadataBlockDevice) (name : Name) :
    Option LpMetadataBlockDevice :=
  (updateName 36 name).map fun field => { device with partitionName := field }

def updatePartitionGroupName (group : LpMetadataPartitionGroup) (name : Name) :
    Option LpMetadataPartitionGroup :=
  (updateName 36 name).map fun field => { group with name := field }

def updatePartitionName (partition : LpMetadataPartition) (name : Name) :
    Option LpMetadataPartition :=
  (updateName 36 name).map fun field => { partition with name := field }

def getPrimaryGeometryOffset : BitVec 64 := partitionReservedBytes.setWidth 64

def getBackupGeometryOffset : BitVec 64 :=
  getPrimaryGeometryOffset + geometrySize.setWidth 64

/-- The product and the sums are taken in `uint32_t` before the result is widened. -/
def getPrimaryMetadataOffset (geometry : LpMetadataGeometry) (slotNumber : BitVec 32) :
    Option (BitVec 64) :=
  if slotNumber < geometry.metadataSlotCount then
    let offset := partitionReservedBytes + geometrySize * 2 + geometry.metadataMaxSize * slotNumber
    some (offset.setWidth 64)
  else none

/-- The start is computed in `int64_t`; the slot's own product still in `uint32_t`. -/
def getBackupMetadataOffset (geometry : LpMetadataGeometry) (slotNumber : BitVec 32) :
    Option (BitVec 64) :=
  if slotNumber < geometry.metadataSlotCount then
    let start := (partitionReservedBytes + geometrySize * 2).setWidth 64
      + geometry.metadataMaxSize.setWidth 64 * geometry.metadataSlotCount.setWidth 64
    some (start + (geometry.metadataMaxSize * slotNumber).setWidth 64)
  else none

/-- All of it is `uint32_t` arithmetic; only the result is widened. -/
def getTotalMetadataSize (metadataMaxSize maxSlots : BitVec 32) : BitVec 64 :=
  (partitionReservedBytes + (geometrySize + metadataMaxSize * maxSlots) * 2).setWidth 64

def getMetadataSuperBlockDevice (metadata : LpMetadata) : Option LpMetadataBlockDevice :=
  metadata.blockDevices.head?

end Aosp.Liblp
