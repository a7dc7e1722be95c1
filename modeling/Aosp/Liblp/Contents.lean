import Aosp.Liblp.Tidy

namespace Aosp.Liblp

open List
open BitVec (toNat_sub_of_le le_def toNat_add toNat_udiv lt_def)

/-- Where a logical sector of a partition is stored; sectors of zero extents are not. -/
inductive Place where
  | zero
  | physical (deviceIndex : BitVec 32) (sector : BitVec 64)
deriving DecidableEq

namespace Extent

/-- The places of the sectors of one extent, in order. -/
def places : Extent → List Place
  | zero sectors => List.replicate sectors.toNat .zero
  | linear extent => (List.range extent.numSectors.toNat).map fun i =>
    .physical extent.deviceIndex (extent.physicalSector + BitVec.ofNat 64 i)

@[simp] theorem length_places (extent : Extent) :
    extent.places.length = extent.numSectors.toNat := by
  cases extent with
  | zero sectors => exact length_replicate
  | linear extent => rw [places, length_map, length_range, numSectors]

theorem places_setNumSectors (extent : Extent) {sectors : BitVec 64}
    (shorter : sectors.toNat ≤ extent.numSectors.toNat) :
    (extent.setNumSectors sectors).places = extent.places.take sectors.toNat := by
  cases extent with
  | zero old =>
    rw [numSectors] at shorter
    rw [setNumSectors, places, places, take_replicate, min_eq_left shorter]
  | linear extent =>
    rw [numSectors] at shorter
    have range : (List.range extent.numSectors.toNat).take sectors.toNat =
        List.range sectors.toNat := by
      rw [take_range, min_eq_left shorter]
    rw [setNumSectors, places, places, ← map_take, range]

theorem places_merge {previous next : LinearExtent} (continued : previous.continuedBy next)
    (fits : previous.numSectors.toNat + next.numSectors.toNat < 2 ^ 64) :
    (linear (previous.merge next)).places = (linear previous).places ++ (linear next).places := by
  obtain ⟨position, device⟩ := LinearExtent.continuedBy_iff.mp continued
  have sum : (previous.merge next).numSectors.toNat =
      previous.numSectors.toNat + next.numSectors.toNat := by
    rw [LinearExtent.merge, toNat_add, Nat.mod_eq_of_lt fits]
  simp only [places]
  rw [sum, range_add, map_append, map_map]
  congr 1
  apply map_congr_left
  intro i _
  simp only [Function.comp_apply, LinearExtent.merge]
  rw [device, ← position, LinearExtent.endSector, BitVec.ofNat_add, BitVec.ofNat_toNat,
    BitVec.setWidth_eq, BitVec.add_assoc]

end Extent

namespace Partition

/-- The places of all logical sectors of a partition, in order. -/
def layout (p : Partition) : List Place := p.extents.flatMap Extent.places

variable (extents : List Extent)

/-- The sum of the extents' lengths, without the limit of a machine word. -/
def sectorCount : Nat :=
  (extents.map fun extent => extent.numSectors.toNat).sum

theorem length_flatMap_places : (extents.flatMap Extent.places).length = sectorCount extents := by
  simp [sectorCount]

@[simp] theorem length_layout (p : Partition) : p.layout.length = sectorCount p.extents :=
  length_flatMap_places p.extents

/-- `size_` counts the bytes of all sectors modulo 2⁶⁴. -/
theorem totalSize_toNat : (totalSize extents).toNat = 512 * sectorCount extents % 2 ^ 64 := by
  induction extents with
  | nil => rfl
  | cons extent rest ih =>
    have unit : sectorSize.toNat = 512 := rfl
    rw [← singleton_append, totalSize_append, totalSize_singleton, toNat_add, ih,
      BitVec.toNat_mul, unit]
    simp only [sectorCount, singleton_append, map_cons, sum_cons]
    omega

variable {p : Partition}

theorem Tidy.size_toNat (tidy : p.Tidy) (fits : 512 * sectorCount p.extents < 2 ^ 64) :
    p.size.toNat = 512 * sectorCount p.extents := by
  rw [tidy.sized, totalSize_toNat, Nat.mod_eq_of_lt fits]

theorem layout_addExtent {extent : Extent}
    (fits : sectorCount p.extents + extent.numSectors.toNat < 2 ^ 64) :
    (p.addExtent extent).layout = p.layout ++ extent.places := by
  have extents : (p.addExtent extent).extents = appendExtent p.extents extent := rfl
  rw [layout, layout, extents]
  rcases appendExtent_cases p.extents extent with
    ⟨_, appended⟩ | ⟨kept, previous, next, old, rfl, continued, merged⟩
  · rw [appended, flatMap_append, flatMap_singleton]
  · rw [old] at fits
    simp only [sectorCount, map_append, map_cons, sum_append, sum_cons, Extent.numSectors] at fits
    rw [merged, old, flatMap_append, flatMap_append, flatMap_singleton,
      flatMap_singleton, Extent.places_merge continued (by omega), append_assoc]

theorem edits_tidy {q : Partition} (edited : Relation.ReflTransGen Edit p q) (tidy : p.Tidy) :
    q.Tidy ∧ q.name = p.name := by
  induction edited with
  | refl => exact ⟨tidy, rfl⟩
  | tail _ last ih => exact ⟨(last.tidy ih.1).1, (last.tidy ih.1).2.trans ih.2⟩

theorem tidy_foldl_addExtent (tidy : p.Tidy) (extents : List Extent) :
    (extents.foldl addExtent p).Tidy := by
  induction extents generalizing p with
  | nil => exact tidy
  | cons extent rest ih => exact ih ((Edit.addExtent p extent).tidy tidy).1

theorem sectorCount_cons (extent : Extent) (rest : List Extent) :
    sectorCount (extent :: rest) = extent.numSectors.toNat + sectorCount rest := by
  rw [sectorCount, map_cons, sum_cons, sectorCount]

/-- One `AddExtent` after the other, as `GrowPartition` and `GetBeginningExtents` call it. -/
theorem layout_foldl_addExtent (p : Partition) (extents : List Extent)
    (fits : sectorCount p.extents + sectorCount extents < 2 ^ 64) :
    (extents.foldl addExtent p).layout = p.layout ++ extents.flatMap Extent.places := by
  induction extents generalizing p with
  | nil => rw [foldl_nil, flatMap_nil, append_nil]
  | cons extent rest ih =>
    have total := sectorCount_cons extent rest
    have first : (p.addExtent extent).layout = p.layout ++ extent.places :=
      layout_addExtent (by omega)
    have count : sectorCount (p.addExtent extent).extents =
        sectorCount p.extents + extent.numSectors.toNat := by
      rw [← length_layout, first, length_append, length_layout, Extent.length_places]
    rw [foldl_cons, ih _ (by omega), first, flatMap_cons, append_assoc]

/-- The loop of `ShrinkTo` takes the sectors off the end and never runs out of extents. -/
theorem shrinkLoop_layout (reversed : List Extent) (toRemove size : BitVec 64)
    (enough : toRemove.toNat ≤ sectorCount reversed) :
    ∃ after final, shrinkLoop reversed toRemove size = some (after, final) ∧
      after.reverse.flatMap Extent.places =
        (reversed.reverse.flatMap Extent.places).take (sectorCount reversed - toRemove.toNat) := by
  induction reversed generalizing toRemove size with
  | nil =>
    have nothing : toRemove = 0 := BitVec.eq_of_toNat_eq (Nat.le_zero.mp enough)
    exact ⟨[], size, by rw [shrinkLoop, if_pos nothing], take_nil.symm⟩
  | cons extent rest ih =>
    have total := sectorCount_cons extent rest
    have front : (rest.reverse.flatMap Extent.places).length = sectorCount rest := by
      simp [sectorCount]
    rw [shrinkLoop, reverse_cons, flatMap_append, flatMap_singleton]
    by_cases vacant : toRemove = 0
    · refine ⟨_, _, if_pos vacant, ?_⟩
      rw [vacant, reverse_cons, flatMap_append, flatMap_singleton, take_of_length_le]
      rw [length_append, Extent.length_places]
      change _ ≤ _ - 0
      omega
    rw [if_neg vacant]
    by_cases partly : toRemove < extent.numSectors
    · -- the last extent is cut
      have less := BitVec.lt_def.mp partly
      have left : (extent.numSectors - toRemove).toNat = extent.numSectors.toNat - toRemove.toNat :=
        toNat_sub_of_le (by rw [le_def]; omega)
      refine ⟨_, _, if_pos partly, ?_⟩
      rw [reverse_cons, flatMap_append, flatMap_singleton,
        Extent.places_setNumSectors _ (by omega), take_append,
        take_of_length_le (show (rest.reverse.flatMap Extent.places).length ≤ _ by omega)]
      congr 2
      omega
    · -- the last extent is dropped
      have whole := BitVec.not_lt.mp partly
      have left := toNat_sub_of_le whole
      rw [le_def] at whole
      rw [if_neg partly]
      have fewer : (toRemove - extent.numSectors).toNat ≤ sectorCount rest := by omega
      obtain ⟨after, final, done, taken⟩ := ih _ (size - extent.numSectors * sectorSize) fewer
      refine ⟨after, final, done, ?_⟩
      rw [taken, take_append, front,
        show sectorCount (extent :: rest) - toRemove.toNat - sectorCount rest = 0 by
        omega, take_zero, append_nil]
      congr 1
      omega

variable {alignedSize : BitVec 64}

section

variable (tidy : p.Tidy) (fits : 512 * sectorCount p.extents < 2 ^ 64)
  (smaller : alignedSize ≤ p.size) (aligned : 512 ∣ alignedSize.toNat)

include tidy fits smaller aligned

theorem shrinkTo_layout :
    ∃ q, p.shrinkTo alignedSize = some q ∧ q.layout = p.layout.take (alignedSize.toNat / 512) := by
  have size := tidy.size_toNat fits
  have unit : sectorSize.toNat = 512 := rfl
  have difference := toNat_sub_of_le smaller
  rw [le_def] at smaller
  unfold shrinkTo
  split
  · rename_i nothing
    exact ⟨_, rfl, by rw [nothing]; rfl⟩
  · have removed : ((p.size - alignedSize) / sectorSize).toNat =
        sectorCount p.extents - alignedSize.toNat / 512 := by
      rw [toNat_udiv, unit]
      omega
    have count : sectorCount p.extents.reverse = sectorCount p.extents := by
      simp [sectorCount]
    obtain ⟨after, final, done, taken⟩ := shrinkLoop_layout p.extents.reverse
      ((p.size - alignedSize) / sectorSize) p.size (by omega)
    refine ⟨_, by rw [done]; rfl, ?_⟩
    rw [reverse_reverse] at taken
    rw [layout, taken]
    congr 1
    omega

theorem getBeginningExtents_layout :
    ∃ q, p.getBeginningExtents alignedSize = some q ∧ q.size = alignedSize ∧
      q.layout = p.layout.take (alignedSize.toNat / 512) := by
  have copied : (p.extents.foldl addExtent (new p.name p.groupName p.attributes)).Tidy :=
    tidy_foldl_addExtent (.new tidy.named _ _) p.extents
  have start : sectorCount (new p.name p.groupName p.attributes).extents = 0 := rfl
  have same : (p.extents.foldl addExtent (new p.name p.groupName p.attributes)).layout =
      p.layout := layout_foldl_addExtent _ _ (by omega)
  have count := congrArg List.length same
  rw [length_layout, length_layout] at count
  have size := tidy.size_toNat fits
  have copiedSize := copied.size_toNat (by omega)
  rw [le_def] at smaller
  obtain ⟨q, done, taken⟩ := shrinkTo_layout copied (by omega)
    (show alignedSize ≤ _ by rw [le_def]; omega) aligned
  rw [same] at taken
  refine ⟨q, done, ?_, taken⟩
  have length := congrArg List.length taken
  rw [length_layout, length_take, length_layout] at length
  have shrunk := ((Edit.shrinkTo done).tidy copied).1.size_toNat (by omega)
  apply BitVec.eq_of_toNat_eq
  omega

end

end Partition

namespace MetadataBuilder

open Partition (sectorCount)

variable {needed : BitVec 64}

theorem takeRegions_total {sectorsPerBlock left : BitVec 64} {regions : List Interval}
    {extents : List LinearExtent}
    (taken : takeRegions sectorsPerBlock regions needed = .ok (left, extents)) :
    left.toNat + sectorCount (extents.map .linear) = needed.toNat := by
  induction regions generalizing needed extents with
  | nil =>
    cases taken
    rfl
  | cons region rest ih =>
    rw [takeRegions] at taken
    split at taken
    · rename_i nothing
      cases taken
      rw [nothing]
      rfl
    dsimp only at taken
    split at taken
    · exact ih taken
    · simp only [Fallible.bind_eq_ok] at taken
      obtain ⟨_, _, ⟨_, others⟩, later, same⟩ := taken
      cases same
      have remaining := ih later
      have least : stdMin needed (roundRegion sectorsPerBlock region).length ≤ needed := by
        rw [le_def, stdMin_toNat]
        omega
      rw [toNat_sub_of_le least] at remaining
      rw [le_def] at least
      simp only [sectorCount, map_cons, sum_cons, Extent.numSectors] at remaining ⊢
      omega

variable {b : MetadataBuilder} {partition : Partition}

theorem extendFinalExtent_total {candidates : List Interval} {tail : List LinearExtent}
    (found : tail = (b.extendFinalExtent partition candidates needed).toList) :
    (tail.foldl (fun needed extent => needed - extent.numSectors) needed).toNat +
      sectorCount (tail.map .linear) = needed.toNat := by
  cases offered : b.extendFinalExtent partition candidates needed with
  | none =>
    rw [found, offered]
    rfl
  | some extent =>
    obtain ⟨_, _, _, _, _, _, _, _, rfl⟩ := misalignedTail_some (extendFinalExtent_some offered).1
    rw [found, offered]
    simp only [Option.toList_some, foldl_cons, foldl_nil, map_cons,
      map_nil, sectorCount, sum_cons, sum_nil, Extent.numSectors]
    rw [toNat_sub_of_le] <;> simp only [le_def, stdMin_toNat] <;> omega

variable {properties : Properties} {changed : Partition} {alignedSize : BitVec 64}
  {hint : List Interval}

theorem growPartition_layout (tidy : partition.Tidy)
    (fits : 512 * sectorCount partition.extents < 2 ^ 64) (larger : partition.size < alignedSize)
    (aligned : 512 ∣ alignedSize.toNat)
    (grown : b.growPartition properties partition alignedSize hint = .ok (changed, true)) :
    partition.layout <+: changed.layout ∧ 512 * sectorCount changed.extents = alignedSize.toNat ∧
      changed.Tidy := by
  obtain ⟨candidates, tail, extents, _, _, offered, taken, rfl⟩ := growPartition_true grown
  have size := tidy.size_toNat fits
  have first := extendFinalExtent_total offered
  have second := (zero_add _).symm.trans (takeRegions_total taken)
  have unit : sectorSize.toNat = 512 := rfl
  rw [toNat_udiv, toNat_sub_of_le (BitVec.le_of_lt larger), unit] at first
  rw [lt_def] at larger
  have all : extendAll partition (tail ++ extents) =
      ((tail ++ extents).map Extent.linear).foldl Partition.addExtent partition := by
    rw [foldl_map, extendAll]
  have total : sectorCount ((tail ++ extents).map Extent.linear) =
      sectorCount (tail.map .linear) + sectorCount (extents.map .linear) := by
    simp [sectorCount]
  have layout := Partition.layout_foldl_addExtent partition ((tail ++ extents).map Extent.linear)
    (by omega)
  have count := congrArg List.length layout
  rw [length_append, Partition.length_layout, Partition.length_layout,
    Partition.length_flatMap_places] at count
  rw [all]
  refine ⟨⟨_, layout.symm⟩, ?_, Partition.tidy_foldl_addExtent tidy _⟩
  omega

/-- `after` has this size, and the sectors it shares with `before` are where they were. -/
structure Resized (before after : Partition) (size : Nat) : Prop where
  size : after.size.toNat = size
  counted : after.size.toNat = 512 * sectorCount after.extents
  kept : ∀ sector, 512 * sector < min before.size.toNat after.size.toNat →
    after.layout[sector]? = before.layout[sector]?

/-- Blocks are whole sectors. -/
def Sectored (b : MetadataBuilder) : Prop :=
  b.geometry.logicalBlockSize ≠ 0 ∧ b.geometry.logicalBlockSize % 512 = 0

variable {requestedSize : BitVec 64}

theorem Sectored.aligned (sectored : b.Sectored)
    (aligned : alignTo requestedSize b.geometry.logicalBlockSize = some alignedSize) :
    alignedSize.toNat = roundUp requestedSize.toNat b.geometry.logicalBlockSize.toNat ∧
      512 ∣ alignedSize.toNat := by
  have size := alignTo_toNat (by decide) aligned
  have remainder := congrArg BitVec.toNat sectored.2
  have whole : 512 ∣ b.geometry.logicalBlockSize.toNat := Nat.dvd_of_mod_eq_zero remainder
  refine ⟨size, ?_⟩
  rw [size]
  exact dvd_trans whole (dvd_roundUp _ _ (toNat_lt_of_ne_zero sectored.1))

theorem Sectored.resized (sectored : b.Sectored) (tidy : partition.Tidy)
    (fits : 512 * sectorCount partition.extents < 2 ^ 64)
    (done : b.resizePartition properties partition requestedSize hint = .ok (changed, true)) :
    Resized partition changed (roundUp requestedSize.toNat b.geometry.logicalBlockSize.toNat) := by
  obtain ⟨_, alignedSize, aligned, change⟩ :=
    (resizePartition_eq_ok done).resolve_left fun failed => Bool.noConfusion failed.1
  obtain ⟨rounded, whole⟩ := sectored.aligned aligned
  have size := tidy.size_toNat fits
  rw [← rounded]
  rcases change with ⟨larger, grown⟩ | ⟨smaller, shrunk⟩ | ⟨equal, rfl⟩
  · obtain ⟨⟨_, front⟩, count, after⟩ := growPartition_layout tidy fits larger whole grown
    have counted := after.size_toNat (by omega)
    refine ⟨by omega, counted, fun sector inside => ?_⟩
    rw [← front, getElem?_append_left]
    rw [Partition.length_layout]
    omega
  · obtain ⟨_, done, taken⟩ := Partition.shrinkTo_layout tidy fits (BitVec.le_of_lt smaller) whole
    cases shrunk.symm.trans done
    have count := congrArg List.length taken
    rw [length_take, Partition.length_layout, Partition.length_layout] at count
    have counted := ((Partition.Edit.shrinkTo shrunk).tidy tidy).1.size_toNat (by omega)
    rw [lt_def] at smaller
    refine ⟨by omega, counted, fun sector inside => ?_⟩
    rw [taken, getElem?_take_of_lt (by omega)]
  · rw [equal]
    exact ⟨rfl, size, fun _ _ => rfl⟩

theorem Edit.geometry {after : MetadataBuilder} (edit : b.Edit after) :
    after.geometry = b.geometry := by
  cases edit with
  | expandHeader =>
    unfold requireExpandedMetadataHeader
    split <;> rfl
  | _ => rfl

/-- `New(block_devices, …)` accepts whole sectors only, and no call changes the geometry. -/
theorem run_sectored {blockDevices : List BlockDeviceInfo} {superPartition : Name}
    {metadataMaxSize metadataSlotCount : BitVec 32} {start : MetadataBuilder} {ops : List Op}
    (created : new blockDevices superPartition metadataMaxSize metadataSlotCount = some start)
    (ran : start.run ops = .ok b) :
    b.Sectored := by
  refine run_invariant Sectored (fun _ => True) ?_ (fun _ _ => trivial) ?_ ran
  · intro b op after result _ sectored done
    by_cases auto : op = .setAutoSlotSuffixing
    · subst auto
      cases done
      exact sectored
    · refine (apply_edits auto done).invariant ?_ sectored
      intro b after edit sectored
      rw [Sectored, edit.geometry]
      exact sectored
  · obtain ⟨_, _, _, _, _, _, _, given, _, loop, _, rfl⟩ := new_eq_some created
    exact (initDevices loop).blockSize given

/-- A successful `ResizePartition` gives the partition the rounded size and moves no sector it
keeps, a failed one changes nothing, and `GetBeginningExtents` describes a front of the
partition. -/
theorem resizePartition_keeps_contents {b : MetadataBuilder} (reachable : Reachable b)
    (sectored : b.Sectored) {name : Name} {p : Partition} (found : b.findPartition name = some p)
    (fits : 512 * sectorCount p.extents < 2 ^ 64) :
    (∀ properties requestedSize hint after result,
      b.apply (.resizePartition properties name requestedSize hint) = .ok (after, result) →
      (result = true →
          (∃ q, after.findPartition name = some q ∧
            Resized p q (roundUp requestedSize.toNat b.geometry.logicalBlockSize.toNat)) ∧
          ∀ other, other ≠ name → after.findPartition other = b.findPartition other) ∧
          (result = false → after = b)) ∧
      ∀ n ≤ p.size, 512 ∣ n.toNat → ∃ q, p.getBeginningExtents n = some q ∧ q.size = n ∧
          q.layout = p.layout.take (n.toNat / 512) := by
  have tidy := reachable.partitions_tidy p (mem_of_find?_eq_some found)
  refine ⟨?_, fun n smaller whole => Partition.getBeginningExtents_layout tidy fits smaller whole⟩
  intro properties requestedSize hint after result done
  obtain ⟨front, partition, changed, back, split, first, rfl, resized, rfl⟩ :=
    withPartition_eq_ok done
  rw [findPartition_split split first, Option.some.injEq] at found
  subst found
  have sameName := (Partition.edits_tidy (resizePartition_edits resized) tidy).2
  refine ⟨?_, ?_⟩
  · intro succeeded
    rw [succeeded] at resized
    refine ⟨⟨changed, ?_, sectored.resized tidy fits resized⟩, ?_⟩
    · rw [← sameName] at first ⊢
      exact findPartition_split rfl first
    · intro other different
      rw [findPartition, findPartition, split, find?_append, find?_append,
        find?_cons_of_neg (by simpa [sameName] using different.symm),
        find?_cons_of_neg (by simpa using different.symm)]
  · intro failed
    rcases resizePartition_eq_ok resized with ⟨_, rfl⟩ | ⟨succeeded, _⟩
    · rw [← split]
    · rw [failed] at succeeded
      cases succeeded

theorem resizePartition_keeps_contents_uneven :
    ∃ b p after q, unevenBuilder.run (sizeTo [2101248]) = .ok b ∧
      b.findPartition (ascii ['a']) = some p ∧ 512 * sectorCount p.extents < 2 ^ 64 ∧
      b.apply (.resizePartition ⟨[], false⟩ (ascii ['a']) 1000000 []) = .ok (after, true) ∧
      after.findPartition (ascii ['a']) = some q ∧ Resized p q 1003520 := by
  have ran : ∃ b p after, unevenBuilder.run (sizeTo [2101248]) = .ok b ∧
      b.findPartition (ascii ['a']) = some p ∧ 512 * sectorCount p.extents < 2 ^ 64 ∧
      b.geometry.logicalBlockSize = 4096 ∧
      b.apply (.resizePartition ⟨[], false⟩ (ascii ['a']) 1000000 []) = .ok (after, true) :=
    ⟨_, _, _, rfl, rfl, by decide, rfl, rfl⟩
  obtain ⟨b, p, after, ran, found, fits, blockSize, done⟩ := ran
  obtain ⟨resizes, _⟩ := resizePartition_keeps_contents (.run (.created new_unevenSuper) ran)
    (run_sectored new_unevenSuper ran) found fits
  obtain ⟨⟨q, stored, resized⟩, _⟩ := (resizes _ _ _ _ _ done).1 rfl
  rw [blockSize] at resized
  exact ⟨b, p, after, q, ran, found, fits, done, stored, resized⟩

/-- An extent of 2⁵⁵ sectors leaves the cached size at zero, and a resize to zero then keeps all
of them. A cut inside a sector keeps the whole sector. -/
theorem resizePartition_misses_sectors :
    (∃ b after p, unevenBuilder.run [.addPartition (ascii ['a']) defaultGroup 0,
        .addLinearExtent (ascii ['a']) defaultPartitionName 36028797018963968 2048] = .ok b ∧
      b.apply (.resizePartition ⟨[], false⟩ (ascii ['a']) 0 []) = .ok (after, true) ∧
      after.findPartition (ascii ['a']) = some p ∧ p.size = 0 ∧ sectorCount p.extents = 2 ^ 55) ∧
    ∃ b p q, unevenBuilder.run (sizeTo [2101248]) = .ok b ∧
      b.findPartition (ascii ['a']) = some p ∧ (1 : BitVec 64) ≤ p.size ∧
      p.getBeginningExtents 1 = some q ∧ q.size = 512 ∧ sectorCount q.extents = 1 :=
  ⟨⟨_, _, _, rfl, rfl, rfl, rfl, rfl⟩, _, _, _, rfl, rfl, by decide, rfl, rfl, rfl⟩

end MetadataBuilder

end Aosp.Liblp
