import Aosp.Liblp.Contents

namespace Aosp.Liblp

open BitVec List

/-- The place is a sector of one of the intervals. -/
def Place.Hinted (hint : List Interval) : Place → Prop
  | zero => False
  | physical device sector => ∃ i ∈ hint, i.Covers device sector.toNat

theorem Extent.mem_places_linear {e : LinearExtent} {place : Place}
    (addressable : e.limit < 2 ^ 64) (member : place ∈ (linear e).places) :
    ∃ sector : BitVec 64, place = .physical e.deviceIndex sector ∧
      e.physicalSector.toNat ≤ sector.toNat ∧ sector.toNat < e.limit := by
  obtain ⟨i, inside, rfl⟩ := mem_map.mp member
  rw [mem_range] at inside
  unfold LinearExtent.limit at *
  have position : (e.physicalSector + BitVec.ofNat 64 i).toNat = e.physicalSector.toNat + i := by
    rw [toNat_add, toNat_ofNat, Nat.mod_eq_of_lt (by omega), Nat.mod_eq_of_lt (by omega)]
  exact ⟨_, rfl, by omega, by omega⟩

namespace Partition

/-- `AddExtent` adds no other sectors than those of the extent, also where a length wraps. -/
theorem mem_layout_addExtent {p : Partition} {extent : Extent} {place : Place}
    (member : place ∈ (p.addExtent extent).layout) :
    place ∈ p.layout ∨ place ∈ extent.places := by
  have extents : (p.addExtent extent).extents = appendExtent p.extents extent := rfl
  rw [layout, extents] at member
  rcases appendExtent_cases p.extents extent with
    ⟨_, appended⟩ | ⟨kept, previous, next, old, rfl, continued, merged⟩
  · rw [appended, flatMap_append, flatMap_singleton] at member
    exact mem_append.mp member
  rw [merged, flatMap_append, flatMap_singleton] at member
  rw [layout, old, flatMap_append, flatMap_singleton]
  rcases mem_append.mp member with before | joined
  · exact .inl (mem_append_left _ before)
  · obtain ⟨position, device⟩ := LinearExtent.continuedBy_iff.mp continued
    obtain ⟨i, inside, rfl⟩ := mem_map.mp joined
    rw [mem_range, LinearExtent.merge, toNat_add] at inside
    by_cases first : i < previous.numSectors.toNat
    · left
      apply mem_append_right
      exact mem_map.mpr ⟨i, mem_range.mpr first, rfl⟩
    · -- the sector number modulo 2⁶⁴ is that of the added extent
      right
      refine mem_map.mpr ⟨i - previous.numSectors.toNat, mem_range.mpr (by omega), ?_⟩
      have split : i = previous.numSectors.toNat + (i - previous.numSectors.toNat) := by omega
      rw [← device, ← position, LinearExtent.endSector, LinearExtent.merge]
      conv_rhs => rw [split, ofNat_add, ofNat_toNat, setWidth_eq, ← BitVec.add_assoc]

theorem mem_layout_extendAll {p : Partition} {extents : List LinearExtent} {place : Place}
    (member : place ∈ (MetadataBuilder.extendAll p extents).layout) :
    place ∈ p.layout ∨ ∃ e ∈ extents, place ∈ (Extent.linear e).places := by
  induction extents generalizing p with
  | nil => exact .inl member
  | cons e rest ih =>
    rcases ih member with before | ⟨other, among, here⟩
    · apply (mem_layout_addExtent before).imp_right
      exact fun here => ⟨e, mem_cons_self, here⟩
    · exact .inr ⟨other, mem_cons_of_mem _ among, here⟩

theorem CutTo.places_subset {before after : List Extent} (cut : CutTo before after) :
    after.flatMap Extent.places ⊆ before.flatMap Extent.places := by
  cases cut with
  | whole _ dropped split =>
    rw [split, flatMap_append]
    exact subset_append_left _ _
  | cut kept dropped last sectors split positive bound =>
    rw [split, flatMap_append, flatMap_append, flatMap_singleton,
      Extent.places_setNumSectors last bound]
    apply append_subset.mpr
    exact ⟨subset_append_left _ _, fun place member =>
      mem_append_right _ (mem_append_left _ (mem_of_mem_take member))⟩

end Partition

namespace MetadataBuilder

open Partition (sectorCount)

/-- Every sector the partition has gained is in the hint. -/
def GainsHinted (hint : List Interval) (before after : Partition) : Prop :=
  ∀ place ∈ after.layout, place ∉ before.layout → place.Hinted hint

/-- When the partition grows and its last extent ends inside an alignment chunk, the sectors behind
it that the growth needs of this chunk are in the hint, or allocated, or in a region to allocate
from. -/
def TailHinted (b : MetadataBuilder) (properties : Properties) (partition : Partition)
    (requestedSize : BitVec 64) (hint : List Interval) : Prop :=
  ∀ alignedSize candidates tail, alignTo requestedSize b.geometry.logicalBlockSize =
    some alignedSize →
    partition.size < alignedSize → b.candidateRegions properties partition hint = .ok candidates →
    b.misalignedTail partition ((alignedSize - partition.size) / sectorSize) = some tail →
    ¬ (b.isAnyRegionAllocated tail ∨ isAnyRegionCovered candidates tail) →
    ∀ place ∈ (Extent.linear tail).places, place.Hinted hint

variable {b : MetadataBuilder} {properties : Properties} {partition changed : Partition}
  {requestedSize alignedSize : BitVec 64} {hint : List Interval}

theorem growPartition_gains (hinted : hint ≠ [])
    (tailHinted : TailHinted b properties partition requestedSize hint)
    (aligned : alignTo requestedSize b.geometry.logicalBlockSize = some alignedSize)
    (larger : partition.size < alignedSize)
    (grown : b.growPartition properties partition alignedSize hint = .ok (changed, true)) :
    GainsHinted hint partition changed := by
  obtain ⟨candidates, _, extents, _, found, rfl, taken, rfl⟩ := growPartition_true grown
  have carved := candidateRegions_hinted found hinted
  intro place member isNew
  rcases Partition.mem_layout_extendAll member with old | ⟨e, among, here⟩
  · exact absurd old isNew
  rcases mem_append.mp among with isTail | isTaken
  · rw [Option.mem_toList, extendFinalExtent_eq_some] at isTail
    exact tailHinted alignedSize candidates e aligned larger found isTail.1 isTail.2 place here
  · obtain ⟨c, memberC, take⟩ := Spans.selection_origin
      (takeRegions_takes carved.nonempty taken) isTaken
    obtain ⟨i, memberI, within⟩ := carved.within c memberC
    have inside := take.inside
    obtain ⟨sector, rfl, above, below⟩ := Extent.mem_places_linear (by omega) here
    rw [take.start] at above
    exact ⟨i, memberI, within.covers ⟨take.device.symm, above, by omega⟩⟩

/-- The tail is new to a partition whose extents are where they can be, and the growth keeps it. -/
theorem Positioned.tailHinted (pos : b.Positioned) (owned : partition ∈ b.partitions)
    (fits : 512 * sectorCount partition.extents < 2 ^ 64)
    (aligned : alignTo requestedSize b.geometry.logicalBlockSize = some alignedSize)
    (grown : b.growPartition properties partition alignedSize hint = .ok (changed, true))
    (gains : GainsHinted hint partition changed) :
    TailHinted b properties partition requestedSize hint := by
  intro size candidates tail isSize _ found offer unused place here
  cases aligned.symm.trans isSize
  obtain ⟨candidates', tails, extents, _, found', isTails, taken, rfl⟩ := growPartition_true grown
  cases found.symm.trans found'
  have offered := extendFinalExtent_eq_some.mpr ⟨offer, unused⟩
  have free := pos.freeTail owned offered
  have addressable := free.addressable
  obtain ⟨sector, isPlace, above, below⟩ := Extent.mem_places_linear (by omega) here
  apply gains place
  · have first := extendFinalExtent_total isTails
    have second := takeRegions_total taken
    have few : ((alignedSize - partition.size) / sectorSize).toNat < 2 ^ 55 := by
      have unit : sectorSize.toNat = 512 := rfl
      rw [toNat_udiv, unit]
      omega
    have total : sectorCount ((tails ++ extents).map Extent.linear) =
        sectorCount (tails.map .linear) + sectorCount (extents.map .linear) := by
      simp [sectorCount]
    rw [extendAll, ← foldl_map, Partition.layout_foldl_addExtent _ _ (by omega), isTails, offered]
    apply mem_append_right
    exact mem_append_left _ here
  · intro old
    obtain ⟨extent, member, among⟩ := mem_flatMap.mp old
    cases extent with
    | zero sectors =>
      rw [isPlace] at among
      cases eq_of_mem_replicate among
    | linear e =>
      have allocated : e ∈ b.linearExtents :=
        mem_flatMap.mpr ⟨partition, owned, mem_filterMap.mpr ⟨_, member, rfl⟩⟩
      obtain ⟨_, placed⟩ := pos.placed e allocated
      have limit := placed.addressable
      obtain ⟨other, isOther, above', below'⟩ := Extent.mem_places_linear (by omega) among
      obtain ⟨device, same⟩ := Place.physical.inj (isPlace.symm.trans isOther)
      subst same
      have apart := free.apart e allocated device
      omega

/-- Each sector that a successful `ResizePartition` with a hint gains is in the hint if those behind
the last extent are; in a state of sizing calls, only then. -/
theorem resizePartition_obeys_hint (reachable : Reachable b) (hinted : hint ≠ []) {name : Name}
    {after : MetadataBuilder}
    (done : b.apply (.resizePartition properties name requestedSize hint) = .ok (after, true)) :
    ∃ p q, b.findPartition name = some p ∧ after.findPartition name = some q ∧
      (TailHinted b properties p requestedSize hint → GainsHinted hint p q) ∧
      (b.Positioned → 512 * sectorCount p.extents < 2 ^ 64 → GainsHinted hint p q →
        TailHinted b properties p requestedSize hint) := by
  obtain ⟨front, partition, changed, back, split, first, rfl, resized, rfl⟩ :=
    withPartition_eq_ok done
  have owned : partition ∈ b.partitions := by
    rw [split]
    exact mem_append_right _ mem_cons_self
  have sameName := (Partition.edits_tidy (resizePartition_edits resized)
    (reachable.partitions_tidy _ owned)).2
  refine ⟨partition, changed, findPartition_split split first, ?_, ?_⟩
  · rw [← sameName] at first ⊢
    exact findPartition_split rfl first
  -- a partition that does not grow gains nothing
  have shrinks : ∀ size, alignTo requestedSize b.geometry.logicalBlockSize = some size →
      ¬ partition.size < size → TailHinted b properties partition requestedSize hint := by
    intro size aligned notLarger other _ _ isOther larger
    cases aligned.symm.trans isOther
    exact absurd larger notLarger
  rcases resizePartition_eq_ok resized with ⟨failed, -⟩ | ⟨-, size, aligned,
    ⟨larger, grown⟩ | ⟨smaller, shrunk⟩ | ⟨same, rfl⟩⟩
  · cases failed
  · exact ⟨fun tail => growPartition_gains hinted tail aligned larger grown,
      fun pos fits gains => pos.tailHinted owned fits aligned grown gains⟩
  · exact ⟨fun _ place member isNew => absurd
      ((Partition.shrinkTo_cut shrunk).1.places_subset member) isNew,
      fun _ _ _ => shrinks size aligned (BitVec.not_lt.mpr (BitVec.le_of_lt smaller))⟩
  · exact ⟨fun _ place member isNew => absurd member isNew,
      fun _ _ _ => shrinks _ aligned (by rw [same]; exact BitVec.lt_irrefl _)⟩

theorem resizePartition_obeys_hint_uneven :
    ∃ b after p q, unevenBuilder.run (sizeTo [1048576]) = .ok b ∧
    b.apply (.resizePartition ⟨[], false⟩ (ascii ['a']) 1052672 [⟨0, 4096, 6144⟩]) =
    .ok (after, true) ∧
      b.findPartition (ascii ['a']) = some p ∧ after.findPartition (ascii ['a']) = some q ∧
      GainsHinted [⟨0, 4096, 6144⟩] p q := by
  have ran : ∃ b after p, unevenBuilder.run (sizeTo [1048576]) = .ok b ∧
      b.apply (.resizePartition ⟨[], false⟩ (ascii ['a']) 1052672 [⟨0, 4096, 6144⟩]) =
      .ok (after, true) ∧ b.findPartition (ascii ['a']) = some p ∧
      ∀ needed, b.misalignedTail p needed = none :=
    ⟨_, _, _, rfl, rfl, rfl, fun _ => rfl⟩
  obtain ⟨b, after, p, ran, done, found, noTail⟩ := ran
  obtain ⟨p', q, isP, isQ, obeys, -⟩ :=
    resizePartition_obeys_hint (.run (.created new_unevenSuper) ran) (cons_ne_nil _ _) done
  cases found.symm.trans isP
  refine ⟨b, after, p, q, ran, done, found, isQ, obeys ?_⟩
  intro _ _ tail _ _ _ offer
  rw [noTail] at offer
  cases offer

/-- The rest of the chunk behind the last extent is taken first, wherever the hint is. -/
theorem resizePartition_leaves_hint :
    ∃ b after p q, unevenBuilder.run (sizeTo [4096]) = .ok b ∧
    b.apply (.resizePartition ⟨[], false⟩ (ascii ['a']) 8192 [⟨0, 4096, 6144⟩]) =
    .ok (after, true) ∧
      b.findPartition (ascii ['a']) = some p ∧ after.findPartition (ascii ['a']) = some q ∧
      p.extents = [.linear ⟨8, 0, 2048⟩] ∧ q.extents = [.linear ⟨16, 0, 2048⟩] ∧
      ¬ GainsHinted [⟨0, 4096, 6144⟩] p q := by
  refine ⟨_, _, _, _, rfl, rfl, rfl, rfl, rfl, rfl, fun gains => ?_⟩
  obtain ⟨i, member, -, above, -⟩ := gains (.physical 0 2056) (by decide) (by decide)
  cases mem_singleton.mp member
  revert above
  decide

end MetadataBuilder

end Aosp.Liblp
