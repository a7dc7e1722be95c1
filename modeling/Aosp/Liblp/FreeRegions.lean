import Aosp.Lib.Spans
import Aosp.Liblp.Allocate

namespace Aosp.Liblp

open BitVec Fallible List

/-- The sectors of a device an interval stands for. -/
def Interval.Covers (i : Interval) (device : BitVec 32) (sector : Nat) : Prop :=
  i.deviceIndex = device ∧ i.start.toNat ≤ sector ∧ sector < i.stop.toNat

def Interval.Disjoint (i j : Interval) : Prop :=
  ∀ device sector, ¬ (i.Covers device sector ∧ j.Covers device sector)

namespace LinearExtent

def Covers (e : LinearExtent) (device : BitVec 32) (sector : Nat) : Prop :=
  e.deviceIndex = device ∧ e.physicalSector.toNat ≤ sector ∧
    sector < e.physicalSector.toNat + e.numSectors.toNat

/-- The last sector plus one, without wrapping. -/
def limit (e : LinearExtent) : Nat := e.physicalSector.toNat + e.numSectors.toNat

/-- A nonempty extent that starts inside its device and whose byte addresses fit 64 bits.
It may end behind the device. -/
structure Placed (devices : List LpMetadataBlockDevice) (e : LinearExtent)
    (device : LpMetadataBlockDevice) : Prop where
  known : devices[e.deviceIndex.toNat]? = some device
  first : device.firstLogicalSector.toNat ≤ e.physicalSector.toNat
  last : e.physicalSector.toNat < (MetadataBuilder.lastSector device).toNat
  nonempty : 0 < e.numSectors.toNat
  addressable : e.limit < 2 ^ 55

/-- The sectors of the two extents do not meet. -/
def Apart (e f : LinearExtent) : Prop :=
  e.deviceIndex = f.deviceIndex → e.limit ≤ f.physicalSector.toNat ∨
    f.limit ≤ e.physicalSector.toNat

variable {e : LinearExtent}

theorem Apart.symm {f : LinearExtent} (apart : e.Apart f) : f.Apart e :=
  fun same => (apart same.symm).symm

/-- The extent is outside the region. -/
def OutOf (e : LinearExtent) (g : Interval) : Prop :=
  e.deviceIndex = g.deviceIndex → e.limit ≤ g.start.toNat ∨ g.stop.toNat ≤ e.physicalSector.toNat

theorem endSector_toNat (addressable : e.limit < 2 ^ 55) : e.endSector.toNat = e.limit := by
  unfold endSector limit at *
  rw [toNat_add, Nat.mod_eq_of_lt (by omega)]

end LinearExtent

/-- The ranges `[start, stop)` do not meet. -/
def Interval.Apart (i j : Interval) : Prop :=
  i.deviceIndex = j.deviceIndex → i.stop.toNat ≤ j.start.toNat ∨ j.stop.toNat ≤ i.start.toNat

def Interval.Nonempty (i : Interval) : Prop := i.start.toNat < i.stop.toNat

variable {i j : Interval}

theorem Interval.Apart.symm (apart : i.Apart j) : j.Apart i :=
  fun same => (apart same.symm).symm

theorem Interval.Apart.disjoint (apart : i.Apart j) : i.Disjoint j := by
  rintro device sector ⟨⟨onI, lowerI, upperI⟩, ⟨onJ, lowerJ, upperJ⟩⟩
  rcases apart (onI.trans onJ.symm) with before | after <;> omega

theorem Interval.Disjoint.apart (disjoint : i.Disjoint j) (nonemptyI : i.Nonempty)
    (nonemptyJ : j.Nonempty) :
    i.Apart j := by
  intro same
  by_contra meets
  unfold Interval.Nonempty at *
  refine disjoint i.deviceIndex (max i.start.toNat j.start.toNat)
    ⟨⟨rfl, ?_, ?_⟩, ⟨same.symm, ?_, ?_⟩⟩ <;> omega

theorem Interval.Le.total (i j : Interval) : i.Le j ∨ j.Le i := by
  simp only [Interval.Le, le_def, lt_def, ← toNat_inj]
  split <;> split <;> omega

theorem Interval.Le.trans {k : Interval} (first : i.Le j) (second : j.Le k) : i.Le k := by
  simp only [Interval.Le, le_def, lt_def, ← toNat_inj] at *
  split at first <;> split at second <;> split <;> omega

instance : Std.Total Interval.Le := ⟨Interval.Le.total⟩

instance : IsTrans Interval Interval.Le := ⟨fun _ _ _ => Interval.Le.trans⟩

theorem alignSector_le {device : LpMetadataBlockDevice} {sector aligned : BitVec 64}
    (addressable : sector.toNat < 2 ^ 55) (found : alignSector device sector = some aligned) :
    sector.toNat ≤ aligned.toNat ∧ aligned.toNat < 2 ^ 55 := by
  unfold alignSector at found
  simp only [Option.bind_eq_bind, Option.bind_eq_some_iff, Option.some.injEq] at found
  obtain ⟨out, outEq, rounded, roundedEq, rfl⟩ := found
  have lba : (sector * sectorSize).toNat = sector.toNat * 512 := by
    rw [toNat_mul, show sectorSize.toNat = 512 from rfl, Nat.mod_eq_of_lt (by omega)]
  have first := le_roundUp (sector * sectorSize).toNat device.alignment.toNat
  have second := le_roundUp out.toNat (512 : BitVec 32).toNat
  rw [← alignTo_toNat (by decide) outEq] at first
  rw [← alignTo_toNat (by decide) roundedEq] at second
  rw [toNat_udiv, show sectorSize.toNat = 512 from rfl]
  omega

theorem lastSector_lt (device : LpMetadataBlockDevice) :
    (MetadataBuilder.lastSector device).toNat < 2 ^ 55 := by
  rw [MetadataBuilder.lastSector, toNat_udiv, show sectorSize.toNat = 512 from rfl]
  omega

namespace MetadataBuilder

theorem extentsToFreeList_eq (b : MetadataBuilder) (extents : List Interval) :
    b.extentsToFreeList extents = Spans.between b.freeGap extents := by
  induction extents with
  | nil => rfl
  | cons previous rest ih =>
    cases rest with
    | nil => rfl
    | cons current rest => rw [extentsToFreeList, Spans.between, ih]

variable {b : MetadataBuilder} {g : Interval}

theorem freeGap_some {previous current : Interval} (found : b.freeGap previous current = some g) :
    ∃ device aligned, b.blockDevices[current.deviceIndex.toNat]? = some device ∧
      alignSector device previous.stop = some aligned ∧ aligned.toNat < current.start.toNat ∧
      g = ⟨current.deviceIndex, aligned, current.start⟩ := by
  unfold freeGap at found
  simp only [Option.bind_eq_bind, Option.bind_eq_some_iff] at found
  obtain ⟨device, known, aligned, alignedEq, found⟩ := found
  split at found
  · cases found
  · rename_i behind
    cases found
    refine ⟨device, aligned, known, alignedEq, ?_, rfl⟩
    rw [le_def] at behind
    omega

theorem freeGap_fits (b : MetadataBuilder) (members : List Interval)
    (addressable : ∀ i ∈ members, i.stop.toNat < 2 ^ 55) :
    Spans.Fits (·.start.toNat) (·.stop.toNat) b.freeGap members where
  after previous member current g found := by
    obtain ⟨device, aligned, _, alignedEq, _, rfl⟩ := freeGap_some found
    exact (alignSector_le (addressable previous member) alignedEq).1
  upTo previous current g found := by
    obtain ⟨device, aligned, _, _, _, rfl⟩ := freeGap_some found
    rfl
  nonempty previous current g found := by
    obtain ⟨device, aligned, _, _, below, rfl⟩ := freeGap_some found
    exact below

/-- The devices can hold extents, and every extent starts on its device. -/
structure Positioned (b : MetadataBuilder) : Prop where
  few : b.blockDevices.length ≤ 2 ^ 32
  roomy : ∀ device ∈ b.blockDevices, device.firstLogicalSector.toNat < (lastSector device).toNat
  placed : ∀ e ∈ b.linearExtents, ∃ device, e.Placed b.blockDevices device

variable {device : LpMetadataBlockDevice} {i : Nat} {m : Interval}

/-- Bounds every such member meets. -/
structure OnDevice (device : LpMetadataBlockDevice) (i : Nat) (m : Interval) : Prop where
  index : m.deviceIndex = BitVec.ofNat 32 i
  floor : device.firstLogicalSector.toNat ≤ m.start.toNat
  formed : m.start.toNat ≤ m.stop.toNat
  ceiling : m.start.toNat ≤ (lastSector device).toNat
  addressable : m.stop.toNat < 2 ^ 55

variable {e : LinearExtent}

theorem Positioned.asInterval_onDevice (pos : b.Positioned) (allocated : e ∈ b.linearExtents)
    (known : b.blockDevices[e.deviceIndex.toNat]? = some device) :
    OnDevice device e.deviceIndex.toNat e.asInterval := by
  obtain ⟨found, placed⟩ := pos.placed e allocated
  obtain rfl : found = device := Option.some.inj (placed.known.symm.trans known)
  have stop := LinearExtent.endSector_toNat placed.addressable
  have addressable := placed.addressable
  have last := placed.last
  refine ⟨?_, placed.first, ?_, le_of_lt last, ?_⟩
  · simp [LinearExtent.asInterval]
  · simp only [LinearExtent.asInterval, stop, LinearExtent.limit]
    omega
  · simp only [LinearExtent.asInterval, stop]
    exact addressable

section

variable (pos : b.Positioned) (known : b.blockDevices[i]? = some device)

include pos known

theorem Positioned.onDevice (member : m ∈ b.deviceExtents device i) : OnDevice device i m := by
  have room := pos.roomy device (mem_of_getElem? known)
  have last := lastSector_lt device
  -- an extent of the device, or one of its ends
  simp only [deviceExtents, mem_append, mem_map, mem_filter, decide_eq_true_eq,
    mem_cons, not_mem_nil, or_false] at member
  rcases member with ⟨e, ⟨allocated, rfl⟩, rfl⟩ | rfl | rfl
  · exact pos.asInterval_onDevice allocated known
  · exact ⟨rfl, le_rfl, le_rfl, by simp only; omega, by simp only; omega⟩
  · exact ⟨rfl, by simp only; omega, le_rfl, le_rfl, last⟩

/-- A region lies inside the device at position `i`. -/
structure InsideDevice (device : LpMetadataBlockDevice) (i : Nat) (g : Interval) : Prop where
  index : g.deviceIndex = BitVec.ofNat 32 i
  floor : device.firstLogicalSector.toNat ≤ g.start.toNat
  nonempty : g.Nonempty
  ceiling : g.stop.toNat ≤ (lastSector device).toNat

theorem Positioned.fits :
    Spans.Fits (·.start.toNat) (·.stop.toNat) b.freeGap
      ((b.deviceExtents device i).insertionSort Interval.Le) := by
  apply freeGap_fits
  intro m member
  exact (pos.onDevice known ((mem_insertionSort _).mp member)).addressable

theorem Positioned.deviceFreeRegions_inside (found : g ∈ b.deviceFreeRegions device i) :
    InsideDevice device i g := by
  rw [deviceFreeRegions, extentsToFreeList_eq] at found
  have members : ∀ m ∈ (b.deviceExtents device i).insertionSort Interval.Le, OnDevice device i m :=
    fun m member => pos.onDevice known ((mem_insertionSort _).mp member)
  have inside := Spans.between_inside (pos.fits known)
    (fun m member => (members m member).floor) (fun m member => (members m member).formed)
    (fun m member => (members m member).ceiling) found
  obtain ⟨previous, _, current, currentIn, made⟩ := Spans.between_origin found
  obtain ⟨_, _, _, _, _, rfl⟩ := freeGap_some made
  exact ⟨(members current currentIn).index, inside.1, inside.2.1, inside.2.2⟩

end

variable {regions : List Interval}

theorem getFreeRegions_eq_ok : b.getFreeRegions = .ok regions ↔
      (∀ e ∈ b.linearExtents, e.deviceIndex.toNat < b.blockDevices.length) ∧
      regions = b.blockDevices.zipIdx.flatMap fun entry => b.deviceFreeRegions entry.1 entry.2 := by
  unfold getFreeRegions
  rw [bind_eq_ok]
  simp only [demand_eq_ok, all_eq_true, decide_eq_true_eq, Except.ok.injEq, exists_const]
  exact and_congr_right fun _ => eq_comm

theorem Positioned.getFreeRegions_origin (pos : b.Positioned)
    (reported : b.getFreeRegions = .ok regions) (found : g ∈ regions) :
    ∃ device, b.blockDevices[g.deviceIndex.toNat]? = some device ∧
      g ∈ b.deviceFreeRegions device g.deviceIndex.toNat := by
  obtain ⟨_, rfl⟩ := getFreeRegions_eq_ok.mp reported
  obtain ⟨⟨device, i⟩, entry, found⟩ := mem_flatMap.mp found
  have known := mk_mem_zipIdx_iff_getElem?.mp entry
  have short : i < b.blockDevices.length := (List.getElem?_eq_some_iff.mp known).1
  have few := pos.few
  have position : g.deviceIndex.toNat = i := by
    rw [(pos.deviceFreeRegions_inside known found).index, toNat_ofNat, Nat.mod_eq_of_lt (by omega)]
  rw [position]
  exact ⟨device, known, found⟩

theorem Positioned.getFreeRegions_inside (pos : b.Positioned)
    (reported : b.getFreeRegions = .ok regions) (found : g ∈ regions) :
    ∃ device, b.blockDevices[g.deviceIndex.toNat]? = some device ∧
      InsideDevice device g.deviceIndex.toNat g := by
  obtain ⟨device, known, found⟩ := pos.getFreeRegions_origin reported found
  exact ⟨device, known, pos.deviceFreeRegions_inside known found⟩

/-- `Positioned`, and no two extents share a sector. -/
structure Disjoint (b : MetadataBuilder) : Prop extends b.Positioned where
  apart : b.linearExtents.Pairwise LinearExtent.Apart

/-- Sorted neighbours of this kind have increasing ends. -/
def Separated (ceiling : Nat) (i j : Interval) : Prop :=
  i.stop.toNat ≤ j.start.toNat ∨ j.stop.toNat ≤ i.start.toNat ∨ ceiling ≤ i.start.toNat ∨
    ceiling ≤ j.start.toNat

section

variable (sound : b.Disjoint) (known : b.blockDevices[i]? = some device)

include sound known

theorem Disjoint.deviceExtents_separated :
    (b.deviceExtents device i).Pairwise (Separated (lastSector device).toNat) := by
  rw [deviceExtents, pairwise_append]
  refine ⟨?_, ?_, ?_⟩
  · rw [pairwise_map, pairwise_filter]
    refine sound.apart.imp_of_mem ?_
    intro e f allocatedE allocatedF apart onE onF
    rw [decide_eq_true_eq] at onE onF
    obtain ⟨_, placedE⟩ := sound.placed e allocatedE
    obtain ⟨_, placedF⟩ := sound.placed f allocatedF
    have stopE := LinearExtent.endSector_toNat placedE.addressable
    have stopF := LinearExtent.endSector_toNat placedF.addressable
    rcases apart (eq_of_toNat_eq (onE.trans onF.symm)) with before | after
    · exact .inl (stopE.trans_le before)
    · exact .inr (.inl (stopF.trans_le after))
  · simp only [pairwise_cons, mem_singleton, forall_eq, not_mem_nil,
      false_implies, implies_true, List.Pairwise.nil, and_true]
    exact .inr (.inr (.inr le_rfl))
  · intro m allocated stopMark isMark
    have floor := (sound.onDevice known (mem_append_left _ allocated)).floor
    rcases mem_cons.mp isMark with rfl | isMark
    · exact .inr (.inl floor)
    · rw [mem_singleton.mp isMark]
      exact .inr (.inr (.inr le_rfl))

theorem Disjoint.ordered : Spans.Ordered (·.start.toNat) (·.stop.toNat) (lastSector device).toNat
      ((b.deviceExtents device i).insertionSort Interval.Le) := by
  have members : ∀ m ∈ (b.deviceExtents device i).insertionSort Interval.Le, OnDevice device i m :=
    fun m member => sound.onDevice known ((mem_insertionSort _).mp member)
  have sorted := pairwise_insertionSort Interval.Le (b.deviceExtents device i)
  have separated : ((b.deviceExtents device i).insertionSort Interval.Le).Pairwise
      (Separated (lastSector device).toNat) := by
    refine ((perm_insertionSort Interval.Le _).pairwise_iff ?_).mpr
      (sound.deviceExtents_separated known)
    intro i j separated
    unfold Separated at *
    omega
  refine ⟨?_, ?_, fun m member => (members m member).ceiling, fun m member =>
    (members m member).formed⟩
  · refine sorted.imp fun {i j} le => ?_
    simp only [Interval.Le, lt_def, ← toNat_inj] at le
    split at le <;> omega
  · refine (sorted.and separated).imp_of_mem fun {i j} memberI memberJ both => ?_
    obtain ⟨le, separated⟩ := both
    have formed := (members j memberJ).formed
    simp only [Interval.Le, le_def, lt_def] at le
    unfold Separated at separated
    split at le <;> omega

theorem Disjoint.deviceFreeRegions_outOf (found : g ∈ b.deviceFreeRegions device i)
    (allocated : e ∈ b.linearExtents) (here : e.deviceIndex.toNat = i) :
    e.limit ≤ g.start.toNat ∨ g.stop.toNat ≤ e.physicalSector.toNat := by
  rw [deviceFreeRegions, extentsToFreeList_eq] at found
  have member : e.asInterval ∈ (b.deviceExtents device i).insertionSort Interval.Le := by
    rw [mem_insertionSort]
    refine mem_append_left _ (mem_map_of_mem (mem_filter.mpr ⟨allocated, ?_⟩))
    exact decide_eq_true here
  obtain ⟨_, placed⟩ := sound.placed e allocated
  rw [← LinearExtent.endSector_toNat placed.addressable]
  exact Spans.between_apart (sound.fits known) (sound.ordered known) found member

theorem Disjoint.deviceFreeRegions_pairwise :
    (b.deviceFreeRegions device i).Pairwise Interval.Apart := by
  rw [deviceFreeRegions, extentsToFreeList_eq]
  exact (Spans.between_pairwise (sound.fits known) (sound.ordered known)).imp fun before _ =>
    .inl before

end

theorem Disjoint.getFreeRegions_outOf (sound : b.Disjoint)
    (reported : b.getFreeRegions = .ok regions) (found : g ∈ regions)
    (allocated : e ∈ b.linearExtents) :
    e.OutOf g := by
  intro same
  obtain ⟨device, known, found⟩ := sound.getFreeRegions_origin reported found
  exact sound.deviceFreeRegions_outOf known found allocated (by rw [same])

theorem Disjoint.getFreeRegions_pairwise (sound : b.Disjoint)
    (reported : b.getFreeRegions = .ok regions) :
    regions.Pairwise Interval.Apart := by
  obtain ⟨_, rfl⟩ := getFreeRegions_eq_ok.mp reported
  have known : ∀ entry ∈ b.blockDevices.zipIdx, b.blockDevices[entry.2]? = some entry.1 :=
    fun _ member => mk_mem_zipIdx_iff_getElem?.mp member
  have indices : b.blockDevices.zipIdx.Pairwise fun a c => a.2 < c.2 := by
    rw [← pairwise_map, zipIdx_map_snd]
    exact pairwise_lt_range'
  rw [pairwise_flatMap]
  refine ⟨fun entry member => sound.deviceFreeRegions_pairwise (known entry member), ?_⟩
  refine indices.imp_of_mem fun {a c} memberA memberC less g foundG h foundH same => ?_
  -- regions of two positions have different indices, as long as neither was truncated
  have shortC : c.2 < b.blockDevices.length := (List.getElem?_eq_some_iff.mp (known c memberC)).1
  have few := sound.few
  rw [(sound.deviceFreeRegions_inside (known a memberA) foundG).index,
    (sound.deviceFreeRegions_inside (known c memberC) foundH).index] at same
  have equal := congrArg BitVec.toNat same
  rw [toNat_ofNat, toNat_ofNat] at equal
  omega

end MetadataBuilder

end Aosp.Liblp
