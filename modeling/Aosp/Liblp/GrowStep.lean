import Aosp.Liblp.Effects

namespace Aosp.Liblp.MetadataBuilder

open Fallible List LinearExtent

section Growing

variable (front back : List LinearExtent)

/-- All extents, those of the growing partition in the middle. -/
def around (p : Partition) : List LinearExtent := front ++ (p.linearExtents ++ back)

theorem perm_middle (kept : List LinearExtent) (e : LinearExtent) :
    (front ++ (kept ++ [e] ++ back)).Perm (e :: (front ++ (kept ++ back))) := by
  rw [List.append_assoc kept, ← List.append_assoc front, ← List.append_assoc front]
  exact List.perm_middle

/-- `AddExtent` adds one extent, or lengthens the last one. -/
theorem around_addExtent (p : Partition) (e : LinearExtent) :
    ¬ p.ContinuedBy e ∧
        (around front back (p.addExtent (.linear e))).Perm (e :: around front back p) ∨
      ∃ previous rest, (around front back p).Perm (previous :: rest) ∧ previous.continuedBy e ∧
        (around front back (p.addExtent (.linear e))).Perm (previous.merge e :: rest) := by
  unfold around
  by_cases continues : p.ContinuedBy e
  · right
    obtain ⟨kept, previous, last, continued⟩ := continues
    have linear : p.linearExtents = kept.filterMap Extent.asLinearExtent ++ [previous] := by
      simp [Partition.linearExtents, last, Extent.asLinearExtent]
    have merged : (p.addExtent (.linear e)).linearExtents =
        kept.filterMap Extent.asLinearExtent ++ [previous.merge e] := by
      simp [Partition.linearExtents, Partition.addExtent, Partition.appendExtent, last, continued,
        Extent.asLinearExtent]
    rw [linear, merged]
    exact ⟨previous, _, perm_middle front back _ previous, continued,
      perm_middle front back _ (previous.merge e)⟩
  · left
    rw [Partition.linearExtents_addExtent_append continues]
    exact ⟨continues, perm_middle front back p.linearExtents e⟩

variable {front back}

variable {p : Partition} {e : LinearExtent}

theorem forall_addExtent {good : LinearExtent → Prop} (old : ∀ x ∈ around front back p, good x)
    (merged : ∀ x ∈ around front back p, x.continuedBy e → good (x.merge e))
    (added : ¬ p.ContinuedBy e → good e) :
    ∀ x ∈ around front back (p.addExtent (.linear e)), good x := by
  intro x member
  rcases around_addExtent front back p e with
    ⟨separate, appended⟩ | ⟨previous, rest, before, continued, after⟩
  · rcases mem_cons.mp (appended.mem_iff.mp member) with rfl | member
    · exact added separate
    · exact old x member
  · rcases mem_cons.mp (after.mem_iff.mp member) with rfl | member
    · exact merged previous (before.mem_iff.mpr mem_cons_self) continued
    · exact old x (before.mem_iff.mpr (mem_cons_of_mem _ member))

/-- An extent with a property that merging keeps does not get lost. -/
theorem exists_addExtent {bad : LinearExtent → Prop}
    (merged : ∀ x ∈ around front back p, x.continuedBy e → bad x → bad (x.merge e))
    (old : ∃ x ∈ around front back p, bad x) :
    ∃ x ∈ around front back (p.addExtent (.linear e)), bad x := by
  obtain ⟨x, member, isBad⟩ := old
  rcases around_addExtent front back p e with
    ⟨_, appended⟩ | ⟨previous, rest, before, continued, after⟩
  · exact ⟨x, appended.mem_iff.mpr (mem_cons_of_mem _ member), isBad⟩
  · rcases mem_cons.mp (before.mem_iff.mp member) with rfl | inRest
    · exact ⟨x.merge e, after.mem_iff.mpr mem_cons_self, merged x member continued isBad⟩
    · exact ⟨x, after.mem_iff.mpr (mem_cons_of_mem _ inRest), isBad⟩

end Growing

/-- The loop that commits new extents, one `AddExtent` at a time. -/
def extendAll (p : Partition) (extents : List LinearExtent) : Partition :=
  extents.foldl (fun p extent => p.addExtent (.linear extent)) p

variable {b : MetadataBuilder} {properties : Properties} {partition changed : Partition}
  {alignedSize : BitVec 64} {hint : List Interval}

/-- The parts of a successful growth: the tail of the last extent, then sectors of the
regions until none is needed. -/
theorem growPartition_true
    (grown : b.growPartition properties partition alignedSize hint = .ok (changed, true)) :
    ∃ candidates tail extents sectorsPerBlock, b.candidateRegions properties partition hint =
      .ok candidates ∧
      tail = (b.extendFinalExtent partition candidates
      ((alignedSize - partition.size) / sectorSize)).toList ∧
      takeRegions sectorsPerBlock candidates (tail.foldl
      (fun needed extent => needed - extent.numSectors)
        ((alignedSize - partition.size) / sectorSize)) = .ok (0, extents) ∧
      changed = extendAll partition (tail ++ extents) := by
  unfold growPartition at grown
  simp only [bind_eq_ok] at grown
  obtain ⟨candidates, found, _, _, _, _, ⟨left, extents⟩, taken, grown⟩ := grown
  split at grown
  · cases grown
  · rename_i done
    cases grown
    have enough : left = 0 := Decidable.not_not.mp done
    rw [enough] at taken
    exact ⟨candidates, _, extents, _, found, rfl, taken, rfl⟩

variable {sectorsNeeded : BitVec 64} {tail : LinearExtent}

/-- The tail `ExtendFinalExtent` offers continues the last extent up to the next aligned
sector at most. -/
theorem misalignedTail_some (found : b.misalignedTail partition sectorsNeeded = some tail) :
    ∃ kept previous device next, partition.extents = kept ++ [.linear previous] ∧
      b.blockDevices[previous.deviceIndex.toNat]? = some device ∧
      alignSector device previous.endSector = some next ∧ previous.endSector ≠ next ∧
      tail = ⟨stdMin (next - previous.endSector) sectorsNeeded, previous.deviceIndex,
      previous.endSector⟩ := by
  unfold misalignedTail at found
  simp only [Option.bind_eq_bind, Option.bind_eq_some_iff] at found
  obtain ⟨last, lastOf, previous, linear, device, known, next, aligned, found⟩ := found
  obtain ⟨kept, split⟩ := getLast?_eq_some_iff.mp lastOf
  cases last with
  | zero sectors => cases linear
  | linear extent =>
    cases linear
    split at found
    · cases found
    · rename_i misaligned
      cases found
      exact ⟨kept, previous, device, next, split, known, aligned, misaligned, rfl⟩

variable {candidates : List Interval}

theorem extendFinalExtent_eq_some :
    b.extendFinalExtent partition candidates sectorsNeeded = some tail ↔
      b.misalignedTail partition sectorsNeeded = some tail ∧
      ¬ (b.isAnyRegionAllocated tail ∨ isAnyRegionCovered candidates tail) := by
  unfold extendFinalExtent
  rw [Option.bind_eq_bind, Option.bind_eq_some_iff]
  constructor
  · rintro ⟨offered, offer, found⟩
    split at found
    · cases found
    · cases found
      exact ⟨offer, ‹_›⟩
  · rintro ⟨offer, unused⟩
    exact ⟨tail, offer, if_neg unused⟩

theorem extendFinalExtent_some
    (found : b.extendFinalExtent partition candidates sectorsNeeded = some tail) :
    b.misalignedTail partition sectorsNeeded = some tail ∧
      (∀ x ∈ b.linearExtents, x.overlapsWith tail.asInterval = false) ∧
      ∀ c ∈ candidates, tail.overlapsWith c = false := by
  obtain ⟨offer, unused⟩ := extendFinalExtent_eq_some.mp found
  rw [not_or, isAnyRegionAllocated, isAnyRegionCovered] at unused
  simp only [any_eq_true, not_exists, not_and, Bool.not_eq_true] at unused
  exact ⟨offer, unused.1, unused.2⟩

variable {e : LinearExtent}

theorem overlapsWith_eq_false {i : Interval} (addressable : e.limit < 2 ^ 55)
    (free : e.overlapsWith i = false) :
    e.OutOf i := by
  intro same
  rw [overlapsWith, decide_eq_false_iff_not, BitVec.lt_def, BitVec.lt_def,
    endSector_toNat addressable] at free
  have separate : ¬ (e.physicalSector.toNat < i.stop.toNat ∧ i.start.toNat < e.limit) := fun both =>
    free ⟨same, both⟩
  omega

/-- The tail fits 64-bit byte addresses and shares no sector with an extent or a candidate. -/
structure FreeTail (b : MetadataBuilder) (partition : Partition) (candidates : List Interval)
    (tail : LinearExtent) : Prop where
  continues : partition.ContinuedBy tail
  addressable : tail.limit < 2 ^ 55
  apart : ∀ x ∈ b.linearExtents, tail.Apart x
  uncovered : ∀ c ∈ candidates, tail.OutOf c

theorem Positioned.freeTail (pos : b.Positioned) (owned : partition ∈ b.partitions)
    (found : b.extendFinalExtent partition candidates sectorsNeeded = some tail) :
    b.FreeTail partition candidates tail := by
  obtain ⟨offer, unallocated, uncovered⟩ := extendFinalExtent_some found
  obtain ⟨kept, previous, device, next, split, known, aligned, misaligned, rfl⟩ :=
    misalignedTail_some offer
  have inPartition : previous ∈ partition.linearExtents := by
    rw [Partition.linearExtents, mem_filterMap]
    exact ⟨.linear previous, by rw [split]; simp, rfl⟩
  have allocated : previous ∈ b.linearExtents := mem_flatMap.mpr ⟨partition, owned, inPartition⟩
  obtain ⟨_, placed⟩ := pos.placed previous allocated
  have position := endSector_toNat placed.addressable
  have inRange : previous.endSector.toNat < 2 ^ 55 := by
    rw [position]
    exact placed.addressable
  obtain ⟨after, below⟩ := alignSector_le inRange aligned
  have length : (next - previous.endSector).toNat = next.toNat - previous.endSector.toNat :=
    BitVec.toNat_sub_of_le after
  have addressable : limit ⟨stdMin (next - previous.endSector) sectorsNeeded,
      previous.deviceIndex, previous.endSector⟩ < 2 ^ 55 := by
    simp only [limit, stdMin_toNat]
    omega
  refine ⟨⟨kept, previous, split, continuedBy_iff.mpr ⟨rfl, rfl⟩⟩, addressable, ?_, ?_⟩
  · intro x member
    obtain ⟨_, placedX⟩ := pos.placed x member
    have outOf := overlapsWith_eq_false placedX.addressable (unallocated x member)
    intro same
    have apart := outOf same.symm
    simp only [asInterval] at apart
    rw [endSector_toNat addressable] at apart
    exact apart.symm
  · exact fun c member => overlapsWith_eq_false addressable (uncovered c member)

/-- An extent taken from a candidate region lies inside its device. -/
theorem Positioned.takes_placed (pos : b.Positioned) {free : List Interval}
    (reported : b.getFreeRegions = .ok free) (carved : Carved free candidates) {c : Interval}
    (member : c ∈ candidates) (takes : Takes e c) :
    ∃ device, e.Placed b.blockDevices device ∧ e.limit ≤ (lastSector device).toNat := by
  obtain ⟨r, reportedR, within⟩ := carved.within c member
  obtain ⟨device, known, inside⟩ := pos.getFreeRegions_inside reported reportedR
  have nonempty := carved.nonempty c member
  have last := lastSector_lt device
  have floor := inside.floor
  have ceiling := inside.ceiling
  have start := within.start
  have stop := within.stop
  have limit := takes.inside
  unfold Interval.Nonempty at nonempty
  refine ⟨device, ⟨?_, ?_, ?_, takes.nonempty, by omega⟩, by omega⟩
  · rw [takes.device, within.device]
    exact known
  · rw [takes.start]
    omega
  · rw [takes.start]
    omega

theorem linearExtents_around (b : MetadataBuilder) (front back : List Partition) (p : Partition) :
    MetadataBuilder.linearExtents { b with partitions := front ++ p :: back } =
      around (front.flatMap Partition.linearExtents) (back.flatMap Partition.linearExtents) p :=
  linearExtents_split rfl

/-- The candidates of a growth are parts of the free regions, and the new extents are taken
from them. -/
theorem Positioned.growth (pos : b.Positioned)
    (grown : b.growPartition properties partition alignedSize hint = .ok (changed, true)) :
    ∃ free candidates extents,
      b.getFreeRegions = .ok free ∧ b.candidateRegions properties partition hint = .ok candidates ∧
      Carved free candidates ∧ List.SublistForall₂ Takes extents candidates ∧
      changed = extendAll partition ((b.extendFinalExtent partition candidates
        ((alignedSize - partition.size) / sectorSize)).toList ++ extents) := by
  obtain ⟨candidates, _, extents, _, found, rfl, taken, rfl⟩ := growPartition_true grown
  obtain ⟨free, reported, regions, narrowed, ordered⟩ := candidateRegions_eq_ok found
  have carved : Carved free candidates := by
    refine carved_ordered ?_ ordered
    rcases narrowed with ⟨-, rfl⟩ | ⟨-, rfl⟩
    · exact ⟨fun r member => (pos.getFreeRegions_inside reported member).elim fun _ facts =>
        facts.2.nonempty, fun c member => ⟨c, member, Interval.Within.refl c⟩⟩
    · exact (carved_intersectAll free hint).1
  exact ⟨free, candidates, extents, reported, found, carved,
    takeRegions_takes carved.nonempty taken, rfl⟩

end Aosp.Liblp.MetadataBuilder
