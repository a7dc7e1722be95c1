import Aosp.Liblp.GrowStep

namespace Aosp.Liblp

open List
open BitVec (ofNat)
open LinearExtent (Keeps Apart)

instance : Std.Symm LinearExtent.Apart := ⟨fun _ _ apart => apart.symm⟩

/-- Extents that start on their devices and do not share a sector. -/
structure Room (devices : List LpMetadataBlockDevice) (extents : List LinearExtent) : Prop where
  placed : ∀ e ∈ extents, ∃ device, e.Placed devices device
  apart : extents.Pairwise Apart

namespace Room

variable {devices : List LpMetadataBlockDevice} {extents : List LinearExtent}

theorem perm (room : Room devices extents) {others : List LinearExtent}
    (same : extents.Perm others) :
    Room devices others where
  placed e member := room.placed e (same.mem_iff.mpr member)
  apart := (same.pairwise_iff fun {_ _} apart => apart.symm).mp room.apart

theorem cons (room : Room devices extents) {e : LinearExtent}
    (placed : ∃ device, e.Placed devices device) (apart : ∀ x ∈ extents, e.Apart x) :
    Room devices (e :: extents) where
  placed x member := by
    rcases mem_cons.mp member with rfl | member
    · exact placed
    · exact room.placed x member
  apart := pairwise_cons.mpr ⟨apart, room.apart⟩

theorem of_keeps {before : List LinearExtent} (room : Room devices before)
    (kept : List.SublistForall₂ Keeps extents before) :
    Room devices extents where
  placed e member := by
    obtain ⟨x, inBefore, keeps⟩ := Spans.selection_origin kept member
    obtain ⟨device, placed⟩ := room.placed x inBefore
    exact ⟨device, keeps.placed placed⟩
  apart := Spans.selection_pairwise kept (fun _ _ _ _ first second => first.apart second) room.apart

theorem merge {rest : List LinearExtent} {previous next : LinearExtent}
    (room : Room devices (previous :: rest)) (continued : previous.continuedBy next)
    (fits : next.limit < 2 ^ 55) (apart : ∀ x ∈ rest, next.Apart x) :
    Room devices (previous.merge next :: rest) := by
  have pairwise := pairwise_cons.mp room.apart
  obtain ⟨device, placed⟩ := room.placed previous mem_cons_self
  have others : Room devices rest := ⟨fun e member => room.placed e (mem_cons_of_mem _ member),
    pairwise.2⟩
  refine others.cons ⟨device, placed.merge continued fits⟩ fun x member => ?_
  obtain ⟨_, placedX⟩ := others.placed x member
  exact (Apart.merge placedX.nonempty continued placed.addressable fits (pairwise.1 x member).symm
    (apart x member).symm).symm

end Room

namespace MetadataBuilder

section Growing

variable {devices : List LpMetadataBlockDevice} {front back : List LinearExtent}

variable {p : Partition}

/-- One new extent in free sectors. It has to start on its device only if it stays an extent
of its own. What is apart from the old extents and from the new one is then apart from all. -/
theorem room_addExtent {e : LinearExtent} (room : Room devices (around front back p))
    (fits : e.limit < 2 ^ 55) (placed : ¬ p.ContinuedBy e → ∃ device, e.Placed devices device)
    (apart : ∀ x ∈ around front back p, e.Apart x) :
    Room devices (around front back (p.addExtent (.linear e))) ∧
      ∀ y : LinearExtent, 0 < y.numSectors.toNat → (∀ x ∈ around front back p, y.Apart x) →
        y.Apart e → ∀ x ∈ around front back (p.addExtent (.linear e)), y.Apart x := by
  rcases around_addExtent front back p e with
    ⟨separate, appended⟩ | ⟨previous, rest, before, continued, after⟩
  · refine ⟨(room.cons (placed separate) apart).perm appended.symm, fun y _ old new x member => ?_⟩
    rcases mem_cons.mp (appended.mem_iff.mp member) with rfl | member
    · exact new
    · exact old x member
  · have split := room.perm before
    obtain ⟨_, placedPrevious⟩ := split.placed previous mem_cons_self
    have inOld : ∀ x ∈ previous :: rest, x ∈ around front back p := fun x member =>
      before.mem_iff.mpr member
    refine ⟨(split.merge continued fits fun x member => apart x (inOld x
      (mem_cons_of_mem _ member))).perm after.symm, fun y nonempty old new x member => ?_⟩
    rcases mem_cons.mp (after.mem_iff.mp member) with rfl | member
    · exact Apart.merge nonempty continued placedPrevious.addressable fits
        (old previous (inOld previous mem_cons_self)) new
    · exact old x (inOld x (mem_cons_of_mem _ member))

theorem room_extendAll {extents : List LinearExtent} (room : Room devices (around front back p))
    (placed : ∀ e ∈ extents, ∃ device, e.Placed devices device) (pairwise : extents.Pairwise Apart)
    (apart : ∀ e ∈ extents, ∀ x ∈ around front back p, e.Apart x) :
    Room devices (around front back (extendAll p extents)) := by
  induction extents generalizing p with
  | nil => exact room
  | cons e rest ih =>
    rw [pairwise_cons] at pairwise
    have here := mem_cons_self (a := e) (l := rest)
    obtain ⟨_, placedE⟩ := placed e here
    obtain ⟨next, separate⟩ := room_addExtent room placedE.addressable
      (fun _ => placed e here) (apart e here)
    refine ih next (fun x member => placed x (mem_cons_of_mem _ member)) pairwise.2
      fun y member => ?_
    have later := mem_cons_of_mem e member
    obtain ⟨_, placedY⟩ := placed y later
    exact separate y placedY.nonempty (apart y later) (pairwise.1 y member).symm

end Growing

variable {b : MetadataBuilder} {candidates : List Interval} {e : LinearExtent}

theorem Disjoint.takes_apart (sound : b.Disjoint) {free : List Interval}
    (reported : b.getFreeRegions = .ok free) (carved : Carved free candidates) {c : Interval}
    (member : c ∈ candidates) (takes : Takes e c) :
    ∀ x ∈ b.linearExtents, e.Apart x := by
  obtain ⟨r, reportedR, within⟩ := carved.within c member
  intro x allocated same
  have outOf := sound.getFreeRegions_outOf reported reportedR allocated
    (same.symm.trans (takes.device.trans within.device))
  have start := within.start
  have stop := within.stop
  have limit := takes.inside
  rw [takes.start]
  omega

/-- The new extents of a growth do not meet each other when the hint is disjoint. -/
theorem Disjoint.taken_pairwise (sound : b.Disjoint) {properties : Properties}
    {partition : Partition} {hint : List Interval} {extents : List LinearExtent}
    (disjoint : hint.Pairwise Interval.Disjoint)
    (found : b.candidateRegions properties partition hint = .ok candidates)
    (takes : List.SublistForall₂ Takes extents candidates) :
    extents.Pairwise Apart := by
  have separate := candidateRegions_pairwise found (fun free reported r member =>
      (sound.getFreeRegions_inside reported member).elim fun _ facts => facts.2.nonempty)
    (fun free reported => sound.getFreeRegions_pairwise reported) disjoint
  refine Spans.selection_pairwise takes (fun e f c d takesE takesF apart same => ?_) separate
  have stopE := takesE.inside
  have stopF := takesF.inside
  rw [takesE.start, takesF.start]
  rcases apart (takesE.device.symm.trans (same.trans takesF.device)) with before | after
  · exact .inl (stopE.trans before)
  · exact .inr (stopF.trans after)

variable {after : MetadataBuilder} {op : Op}

section

variable (sound : b.Disjoint)

include sound

theorem Disjoint.grows (grows : b.Grows op after)
    (disjoint : op.freeRegionHint.Pairwise Interval.Disjoint) :
    after.Disjoint := by
  obtain @⟨front, back, partition, changed, properties, requestedSize, alignedSize, hint, split,
    first, aligned, larger, grown⟩ := grows
  obtain ⟨free, candidates, extents, reported, found, carved, takes, rfl⟩ := sound.growth grown
  have pairwise := sound.taken_pairwise disjoint found takes
  have owned : partition ∈ b.partitions := by rw [split]; simp
  have all : b.linearExtents = around (front.flatMap Partition.linearExtents)
    (back.flatMap Partition.linearExtents) partition := linearExtents_split split
  have room : Room b.blockDevices (around (front.flatMap Partition.linearExtents)
      (back.flatMap Partition.linearExtents) partition) :=
    all ▸ ⟨sound.placed, sound.apart⟩
  have placed : ∀ e ∈ extents, ∃ device, e.Placed b.blockDevices device := fun e member => by
    obtain ⟨c, inCandidates, takesC⟩ := Spans.selection_origin takes member
    obtain ⟨device, placed, _⟩ := sound.takes_placed reported carved inCandidates takesC
    exact ⟨device, placed⟩
  have apart : ∀ e ∈ extents, ∀ x ∈ around (front.flatMap Partition.linearExtents)
      (back.flatMap Partition.linearExtents) partition, e.Apart x := fun e member => by
    obtain ⟨c, inCandidates, takesC⟩ := Spans.selection_origin takes member
    rw [← all]
    exact sound.takes_apart reported carved inCandidates takesC
  suffices grownRoom : Room b.blockDevices (around _ _
      (extendAll partition ((b.extendFinalExtent partition candidates
        ((alignedSize - partition.size) / sectorSize)).toList ++ extents))) by
    refine ⟨⟨sound.few, sound.roomy, ?_⟩, ?_⟩ <;> rw [linearExtents_around]
    · exact grownRoom.placed
    · exact grownRoom.apart
  cases extension : b.extendFinalExtent partition candidates
    ((alignedSize - partition.size) / sectorSize) with
  | none =>
    exact room_extendAll room placed pairwise apart
  | some tail =>
    -- the tail is merged into the last extent before the other extents are added
    change Room _ (around _ _ (extendAll (partition.addExtent (.linear tail)) extents))
    have freeTail := sound.freeTail owned extension
    obtain ⟨next, separate⟩ := room_addExtent room freeTail.addressable
      (fun separate => absurd freeTail.continues separate) (all ▸ freeTail.apart)
    refine room_extendAll next placed pairwise fun e member => ?_
    obtain ⟨c, inCandidates, takesC⟩ := Spans.selection_origin takes member
    refine separate e takesC.nonempty (apart e member) fun same => ?_
    have outOf := freeTail.uncovered c inCandidates (same.symm.trans takesC.device)
    have inside := takesC.inside
    rw [takesC.start]
    omega

theorem Disjoint.frees (frees : b.Frees after) : after.Disjoint := by
  have room : Room b.blockDevices after.linearExtents :=
    Room.of_keeps ⟨sound.placed, sound.apart⟩ frees.extents
  refine ⟨⟨?_, ?_, ?_⟩, room.apart⟩ <;> rw [frees.devices]
  · exact sound.few
  · exact sound.roomy
  · exact room.placed

theorem Disjoint.apply {result : Bool} (sizing : op.sizing)
    (hint : op.freeRegionHint.Pairwise Interval.Disjoint)
    (done : b.apply op = .ok (after, result)) :
    after.Disjoint := by
  rcases apply_sizing sizing done with ⟨frees, _⟩ | ⟨_, grows⟩
  · exact sound.frees frees
  · exact sound.grows grows hint

theorem Disjoint.run {ops : List Op}
    (sizing : ∀ op ∈ ops, op.sizing ∧ op.freeRegionHint.Pairwise Interval.Disjoint)
    (ran : b.run ops = .ok after) :
    after.Disjoint :=
  run_invariant MetadataBuilder.Disjoint _
    (fun _ _ _ _ allowed sound done => sound.apply allowed.1 allowed.2 done) sizing sound ran

end

/-- In every state that sizing calls with disjoint hints reach, with at most 2³² block devices,
no sector belongs to two linear extents, to a free region and an extent, or to two free
regions. -/
theorem run_sectors_disjoint {blockDevices : List BlockDeviceInfo} {superPartition : Name}
    {metadataMaxSize metadataSlotCount : BitVec 32} {fresh b : MetadataBuilder} {ops : List Op}
    (few : blockDevices.length ≤ 2 ^ 32)
    (created : new blockDevices superPartition metadataMaxSize metadataSlotCount = some fresh)
    (sizing : ∀ op ∈ ops, op.sizing ∧ op.freeRegionHint.Pairwise Interval.Disjoint)
    (ran : fresh.run ops = .ok b) :
    b.linearExtents.Pairwise (fun e f => ∀ device sector,
      ¬ (e.Covers device sector ∧ f.Covers device sector)) ∧
      ∃ regions, b.getFreeRegions = .ok regions ∧ regions.Pairwise Interval.Disjoint ∧
        ∀ g ∈ regions, ∀ e ∈ b.linearExtents, ∀ device sector,
        ¬ (g.Covers device sector ∧ e.Covers device sector) := by
  have sound := (new_disjoint created few).run sizing ran
  obtain ⟨regions, reported⟩ : ∃ regions, b.getFreeRegions = .ok regions := by
    refine ⟨_, getFreeRegions_eq_ok.mpr ⟨fun e member => ?_, rfl⟩⟩
    obtain ⟨device, placed⟩ := sound.placed e member
    exact (List.getElem?_eq_some_iff.mp placed.known).1
  refine ⟨sound.apart.imp fun apart => ?_, regions, reported, ?_, ?_⟩
  · rintro device sector ⟨⟨onE, lowE, highE⟩, ⟨onF, lowF, highF⟩⟩
    rcases apart (onE.trans onF.symm) with before | after <;>
      simp only [LinearExtent.limit] at * <;> omega
  · exact (sound.getFreeRegions_pairwise reported).imp fun apart => apart.disjoint
  · rintro g found e allocated device sector ⟨⟨onG, lowG, highG⟩, ⟨onE, lowE, highE⟩⟩
    have outOf := sound.getFreeRegions_outOf reported found allocated (onE.trans onG.symm)
    simp only [LinearExtent.limit] at outOf
    omega

/-- A super device with an alignment of 1 MiB that ends 16 sectors behind an aligned one. -/
def unevenSuper : BlockDeviceInfo := ⟨3153920, 1048576, 0, 4096, defaultPartitionName⟩

/-- Add one partition and give it these sizes in turn. -/
def sizeTo (sizes : List (BitVec 64)) : List Op :=
  .addPartition (ascii ['a']) defaultGroup 0 :: sizes.map fun size =>
    .resizePartition ⟨[], false⟩ (ascii ['a']) size []

theorem sizeTo_sizing (sizes : List (BitVec 64)) :
    ∀ op ∈ sizeTo sizes, op.sizing ∧ op.freeRegionHint.Pairwise Interval.Disjoint := by
  intro op member
  rcases mem_cons.mp member with rfl | member
  · exact ⟨rfl, List.Pairwise.nil⟩
  · obtain ⟨size, _, rfl⟩ := mem_map.mp member
    exact ⟨rfl, List.Pairwise.nil⟩

def unevenBuilder : MetadataBuilder :=
  (new [unevenSuper] defaultPartitionName 65536 2).get (by decide)

theorem new_unevenSuper : new [unevenSuper] defaultPartitionName 65536 2 = some unevenBuilder :=
  (Option.some_get _).symm

theorem run_sectors_disjoint_uneven :
    ∃ b, unevenBuilder.run (sizeTo [2101248]) = .ok b ∧ b.linearExtents = [⟨4104, 0, 2048⟩] ∧
      ∃ regions, b.getFreeRegions = .ok regions ∧ regions.Pairwise Interval.Disjoint := by
  have ran : ∃ b, unevenBuilder.run (sizeTo [2101248]) = .ok b ∧
    b.linearExtents = [⟨4104, 0, 2048⟩] := ⟨_, rfl, rfl⟩
  obtain ⟨b, ran, extents⟩ := ran
  obtain ⟨_, regions, reported, disjoint, _⟩ :=
    run_sectors_disjoint (by decide) new_unevenSuper (sizeTo_sizing [2101248]) ran
  exact ⟨b, ran, extents, regions, reported, disjoint⟩

/-- A small device, and the table entry `Init` makes of it. -/
def plainDevice : BlockDeviceInfo := ⟨16384, 0, 0, 4096, ascii ['b']⟩

def plainEntry : LpMetadataBlockDevice := ⟨8, 0, 0, 16384, strncpy 36 (ascii ['b']), 0⟩

def withPlainDevices (count : Nat) : MetadataBuilder :=
  { unevenBuilder with
    blockDevices := unevenBuilder.blockDevices ++ List.replicate count plainEntry }

theorem initDevice_plain (devices : List LpMetadataBlockDevice) :
    initDevice defaultPartitionName (4096, devices) plainDevice =
      some (4096, devices ++ [plainEntry]) := by
  have verified : verifyDeviceProperties plainDevice = true := by decide
  have size : plainDevice.logicalBlockSize = 4096 := rfl
  have nonzero : ¬ (4096 : BitVec 32) = 0 := by decide
  have short : plainDevice.partitionName.length ≤ 36 := by decide
  have start : freeAreaStart sectorSize plainDevice.alignment 4096 = some 4096 := by decide
  have other : plainDevice.partitionName ≠ defaultPartitionName := by decide
  simp only [initDevice]
  rfl

theorem initDevices_plain (count : Nat) (devices : List LpMetadataBlockDevice) :
    (List.replicate count plainDevice).foldlM (initDevice defaultPartitionName) (4096, devices) =
      some (4096, devices ++ List.replicate count plainEntry) := by
  induction count generalizing devices with
  | zero => rw [replicate_zero, replicate_zero, append_nil]; rfl
  | succ count ih =>
    rw [replicate_succ, foldlM_cons, initDevice_plain]
    change List.foldlM _ (4096, devices ++ [plainEntry]) _ = _
    rw [ih, append_assoc, singleton_append, ← replicate_succ]

/-- The entry of `unevenSuper` before its metadata area is reserved. -/
def unevenEntry : LpMetadataBlockDevice :=
  ⟨2048, 1048576, 0, 3153920, strncpy 36 defaultPartitionName, 0⟩

theorem new_plainDevices (count : Nat) :
    new (unevenSuper :: List.replicate count plainDevice) defaultPartitionName 65536 2 =
      some (withPlainDevices count) := by
  have loop : (unevenSuper :: List.replicate count plainDevice).foldlM
      (initDevice defaultPartitionName) (0, []) =
      some (4096, unevenEntry :: List.replicate count plainEntry) := by
    exact initDevices_plain count [unevenEntry]
  have rounded : alignTo (65536 : BitVec 32) 512 = some 65536 := by decide
  have named : Liblp.getBlockDevicePartitionName unevenEntry = defaultPartitionName := by decide
  have reserved : initSuper unevenEntry 65536 2 4096 = some unevenEntry := by decide
  have devices : withPlainDevices count = { unevenBuilder with
      blockDevices := unevenEntry :: List.replicate count plainEntry } := rfl
  simp only [new, loop, Option.bind_some, Option.bind_eq_bind]
  rfl

theorem deviceFreeRegions_plain {b : MetadataBuilder} (unused : b.linearExtents = []) {i : Nat}
    (known : b.blockDevices[(ofNat 32 i).toNat]? = some plainEntry) :
    b.deviceFreeRegions plainEntry i = [⟨ofNat 32 i, 8, 32⟩] := by
  have gap : b.freeGap ⟨ofNat 32 i, 8, 8⟩ ⟨ofNat 32 i, 32, 32⟩ = some ⟨ofNat 32 i, 8, 32⟩ := by
    simp only [freeGap, known]
    rfl
  have members : (b.deviceExtents plainEntry i).insertionSort Interval.Le =
      [⟨ofNat 32 i, 8, 8⟩, ⟨ofNat 32 i, 32, 32⟩] := by
    rw [deviceExtents, unused]
    rfl
  rw [deviceFreeRegions, members, extentsToFreeList, gap]
  rfl

/-- Past 2³² devices two positions share a `uint32_t` index, so their free space is reported
twice under the first device's number. -/
theorem free_regions_repeat :
    ∃ blockDevices b regions, new blockDevices defaultPartitionName 65536 2 = some b ∧
      b.getFreeRegions = .ok regions ∧ ¬ regions.Pairwise Interval.Disjoint := by
  obtain ⟨count, many⟩ : ∃ count, 2 ^ 32 < count := ⟨2 ^ 32 + 1, Nat.lt_succ_self _⟩
  have unused : (withPlainDevices count).linearExtents = [] := rfl
  refine ⟨_, _, _, new_plainDevices count, getFreeRegions_eq_ok.mpr ⟨?_, rfl⟩, ?_⟩
  · exact nofun
  intro pairwise
  have devices : (withPlainDevices count).blockDevices =
      unevenBuilder.blockDevices ++ List.replicate count plainEntry := rfl
  have length : (withPlainDevices count).blockDevices.length = count + 1 := by
    rw [devices, length_append, length_replicate, add_comm]
    rfl
  have entry : ∀ i, 0 < i → i ≤ count → (withPlainDevices count).blockDevices[i]? =
      some plainEntry := by
    intro i low high
    rw [devices, getElem?_append_right low, getElem?_replicate, if_pos]
    change i - 1 < count
    omega
  have wrapped : ofNat 32 (2 ^ 32 + 1) = ofNat 32 1 := rfl
  have first := deviceFreeRegions_plain unused (i := 1) (entry 1 (by omega) (by omega))
  have again := deviceFreeRegions_plain unused
    (by rw [wrapped]; exact entry 1 (by omega) (by omega))
  have cross := pairwise_iff_getElem.mp (pairwise_flatMap.mp pairwise).2 1 (2 ^ 32 + 1)
    (by rw [length_zipIdx]; omega) (by rw [length_zipIdx]; omega)
    (by omega)
  simp only [getElem_zipIdx, zero_add] at cross
  have known : ∀ i (inside : i < (withPlainDevices count).blockDevices.length), 0 < i →
      (withPlainDevices count).blockDevices[i] = plainEntry := fun i inside low =>
    (List.getElem?_eq_some_iff.mp (entry i low (by omega))).2
  rw [known 1 (by omega) (by omega), known (2 ^ 32 + 1) (by omega) (by omega), first,
    again] at cross
  have same := cross _ mem_cons_self _ mem_cons_self
  exact same 1 8 ⟨⟨rfl, le_rfl, by decide⟩, ⟨rfl, le_rfl, by decide⟩⟩

end MetadataBuilder

end Aosp.Liblp
