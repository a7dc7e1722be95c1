import Mathlib.Data.List.Forall2
import Mathlib.Data.List.Pairwise
import Aosp.Liblp.FreeRegions

namespace Aosp.Liblp

open Fallible List

namespace Interval

/-- A part of another interval. -/
structure Within (i j : Interval) : Prop where
  device : i.deviceIndex = j.deviceIndex
  start : j.start.toNat ≤ i.start.toNat
  stop : i.stop.toNat ≤ j.stop.toNat

instance : Std.Symm Apart := ⟨fun _ _ apart => apart.symm⟩

theorem Within.refl (i : Interval) : i.Within i := ⟨rfl, le_rfl, le_rfl⟩

variable {i j k : Interval}

theorem Within.trans (first : i.Within j) (second : j.Within k) : i.Within k :=
  ⟨first.device.trans second.device, second.start.trans first.start, first.stop.trans second.stop⟩

theorem Within.covers (within : i.Within j) {device : BitVec 32} {sector : Nat}
    (covered : i.Covers device sector) :
    j.Covers device sector :=
  ⟨within.device.symm.trans covered.1, within.start.trans covered.2.1,
    covered.2.2.trans_le within.stop⟩

theorem Disjoint.apart_of_within {l : Interval} (disjoint : k.Disjoint l) (nonemptyI : i.Nonempty)
    (nonemptyJ : j.Nonempty) (withinI : i.Within k) (withinJ : j.Within l) :
    i.Apart j := by
  apply Interval.Disjoint.apart _ nonemptyI nonemptyJ
  rintro device sector ⟨coveredI, coveredJ⟩
  exact disjoint device sector ⟨withinI.covers coveredI, withinJ.covers coveredJ⟩

theorem length_eq_zero (i : Interval) : i.length = 0 ↔ i.start = i.stop := by
  rw [length, ← BitVec.toNat_inj, ← BitVec.toNat_inj, BitVec.toNat_sub]
  simp only [BitVec.ofNat_eq_ofNat, BitVec.toNat_ofNat]
  omega

theorem intersect_within {a b : Interval} (kept : (intersect a b).length ≠ 0) :
    (intersect a b).Nonempty ∧ (intersect a b).Within a ∧ (intersect a b).Within b := by
  rw [ne_eq, length_eq_zero, ← BitVec.toNat_inj] at kept
  unfold intersect at *
  by_cases same : a.deviceIndex = b.deviceIndex
  · simp only [same, ne_eq, not_true_eq_false, ↓reduceIte, stdMax_toNat, stdMin_toNat] at kept ⊢
    refine ⟨?_, ⟨same.symm, ?_, ?_⟩, ⟨rfl, ?_, ?_⟩⟩
    all_goals simp only [Nonempty, stdMax_toNat, stdMin_toNat]; omega
  · simp only [same, ne_eq, not_false_eq_true, ↓reduceIte, not_true_eq_false] at kept

variable {a b : List Interval}

theorem mem_intersectAll (member : i ∈ intersectAll a b) :
    ∃ x ∈ a, ∃ y ∈ b, i.Nonempty ∧ i.Within x ∧ i.Within y := by
  simp only [intersectAll, mem_flatMap, mem_filter, mem_map,
    decide_not, Bool.not_eq_true', decide_eq_false_iff_not] at member
  obtain ⟨x, inA, ⟨y, inB, rfl⟩, kept⟩ := member
  exact ⟨x, inA, y, inB, intersect_within kept⟩

theorem intersectAll_pairwise (apartA : a.Pairwise Apart) (disjointB : b.Pairwise Disjoint) :
    (intersectAll a b).Pairwise Apart := by
  rw [intersectAll, pairwise_flatMap]
  refine ⟨fun x _ => ?_, apartA.imp fun {x y} apart => ?_⟩
  · rw [pairwise_filter, pairwise_map]
    refine disjointB.imp fun {y z} disjoint keptY keptZ => ?_
    obtain ⟨nonemptyY, _, withinY⟩ := intersect_within (of_decide_eq_true keptY)
    obtain ⟨nonemptyZ, _, withinZ⟩ := intersect_within (of_decide_eq_true keptZ)
    exact disjoint.apart_of_within nonemptyY nonemptyZ withinY withinZ
  · intro i memberI j memberJ
    simp only [mem_filter, mem_map] at memberI memberJ
    obtain ⟨⟨u, _, rfl⟩, keptI⟩ := memberI
    obtain ⟨⟨v, _, rfl⟩, keptJ⟩ := memberJ
    obtain ⟨nonemptyI, withinI, _⟩ := intersect_within (of_decide_eq_true keptI)
    obtain ⟨nonemptyJ, withinJ, _⟩ := intersect_within (of_decide_eq_true keptJ)
    exact apart.disjoint.apart_of_within nonemptyI nonemptyJ withinI withinJ

end Interval

namespace MetadataBuilder

open Aosp.Liblp.Interval

variable {midpoint : BitVec 64} {region i : Interval}

theorem mem_firstHalf (member : i ∈ firstHalf midpoint region) (nonempty : region.Nonempty) :
    i.Nonempty ∧ i.Within region ∧ (region.deviceIndex = 0 → i.stop.toNat ≤ midpoint.toNat) := by
  unfold firstHalf Interval.Nonempty at *
  simp only [BitVec.lt_def] at member
  split at member
  · rename_i low
    cases mem_singleton.mp member
    refine ⟨nonempty, Within.refl _, fun super => ?_⟩
    rcases low with other | low
    · exact absurd super other
    · exact low
  · split at member
    · cases mem_singleton.mp member
      exact ⟨by simp only; omega, ⟨rfl, le_rfl, by simp only; omega⟩, fun _ => le_rfl⟩
    · cases member

theorem mem_secondHalf (member : i ∈ secondHalf midpoint region) (nonempty : region.Nonempty) :
    i.Nonempty ∧ i.Within region ∧ region.deviceIndex = 0 ∧ midpoint.toNat ≤ i.start.toNat := by
  unfold secondHalf Interval.Nonempty at *
  simp only [BitVec.le_def, BitVec.lt_def] at member
  split at member
  · cases member
  · rename_i high
    rw [not_or, not_not] at high
    split at member
    · cases mem_singleton.mp member
      exact ⟨by simp only; omega, ⟨rfl, by simp only; omega, le_rfl⟩, high.1, le_rfl⟩
    · cases mem_singleton.mp member
      exact ⟨nonempty, Within.refl _, high.1, by omega⟩

variable {super : LpMetadataBlockDevice} {regions : List Interval}

theorem prioritize_pairwise (apart : regions.Pairwise Apart)
    (nonempty : ∀ r ∈ regions, r.Nonempty) :
    (prioritizeSecondHalfOfSuper super regions).Pairwise Apart := by
  unfold prioritizeSecondHalfOfSuper
  split
  · exact apart
  have parts : ∀ r ∈ regions, ∀ s ∈ regions, r = s ∨ r.Apart s := fun r memberR s memberS => by
    by_cases same : r = s
    · exact .inl same
    · exact .inr (apart.forall memberR memberS same)
  rw [pairwise_append, pairwise_flatMap, pairwise_flatMap]
  refine ⟨⟨fun r _ => ?_, ?_⟩, ⟨fun r _ => ?_, ?_⟩, ?_⟩
  · unfold secondHalf
    split
    · exact List.Pairwise.nil
    · split <;> exact pairwise_singleton _ _
  · refine apart.imp_of_mem fun {r s} memberR memberS apart i memberI j memberJ => ?_
    obtain ⟨nonemptyI, withinI, _⟩ := mem_secondHalf memberI (nonempty r memberR)
    obtain ⟨nonemptyJ, withinJ, _⟩ := mem_secondHalf memberJ (nonempty s memberS)
    exact apart.disjoint.apart_of_within nonemptyI nonemptyJ withinI withinJ
  · unfold firstHalf
    split
    · exact pairwise_singleton _ _
    · split
      · exact pairwise_singleton _ _
      · exact List.Pairwise.nil
  · refine apart.imp_of_mem fun {r s} memberR memberS apart i memberI j memberJ => ?_
    obtain ⟨nonemptyI, withinI, _⟩ := mem_firstHalf memberI (nonempty r memberR)
    obtain ⟨nonemptyJ, withinJ, _⟩ := mem_firstHalf memberJ (nonempty s memberS)
    exact apart.disjoint.apart_of_within nonemptyI nonemptyJ withinI withinJ
  · -- an upper part against a lower part: of one region they meet at the midpoint only
    intro i memberI j memberJ
    obtain ⟨r, memberR, memberI⟩ := mem_flatMap.mp memberI
    obtain ⟨s, memberS, memberJ⟩ := mem_flatMap.mp memberJ
    obtain ⟨nonemptyI, withinI, onSuper, above⟩ := mem_secondHalf memberI (nonempty r memberR)
    obtain ⟨nonemptyJ, withinJ, below⟩ := mem_firstHalf memberJ (nonempty s memberS)
    rcases parts r memberR s memberS with rfl | apart
    · exact fun _ => .inr ((below onSuper).trans above)
    · exact apart.disjoint.apart_of_within nonemptyI nonemptyJ withinI withinJ

/-- Every candidate region is a nonempty part of a free region. -/
structure Carved (regions candidates : List Interval) : Prop where
  nonempty : ∀ c ∈ candidates, c.Nonempty
  within : ∀ c ∈ candidates, ∃ r ∈ regions, c.Within r

theorem carved_prioritize {free : List Interval} (carved : Carved free regions) :
    Carved free (prioritizeSecondHalfOfSuper super regions) := by
  unfold prioritizeSecondHalfOfSuper
  split
  · exact carved
  rename_i midpoint _
  have parts : ∀ r ∈ regions, ∀ i : Interval, i.Nonempty ∧ i.Within r → i.Nonempty ∧
      ∃ f ∈ free, i.Within f := by
    rintro r member i ⟨nonempty, within⟩
    obtain ⟨f, memberF, outer⟩ := carved.within r member
    exact ⟨nonempty, f, memberF, within.trans outer⟩
  have all : ∀ i ∈ regions.flatMap (secondHalf midpoint) ++ regions.flatMap (firstHalf midpoint),
      i.Nonempty ∧ ∃ f ∈ free, i.Within f := by
    intro i member
    rcases mem_append.mp member with upper | lower
    · obtain ⟨r, memberR, memberI⟩ := mem_flatMap.mp upper
      obtain ⟨nonempty, within, _⟩ := mem_secondHalf memberI (carved.nonempty r memberR)
      exact parts r memberR i ⟨nonempty, within⟩
    · obtain ⟨r, memberR, memberI⟩ := mem_flatMap.mp lower
      obtain ⟨nonempty, within, _⟩ := mem_firstHalf memberI (carved.nonempty r memberR)
      exact parts r memberR i ⟨nonempty, within⟩
  exact ⟨fun c member => (all c member).1, fun c member => (all c member).2⟩

variable {b : MetadataBuilder} {properties : Properties} {partition : Partition}
  {hint candidates : List Interval}

theorem carved_ordered {free : List Interval} (carved : Carved free regions)
    (ordered : candidates = regions ∨ ∃ super,
      candidates = prioritizeSecondHalfOfSuper super regions) :
    Carved free candidates := by
  rcases ordered with rfl | ⟨super, rfl⟩
  · exact carved
  · exact carved_prioritize carved

theorem carved_intersectAll (free hint : List Interval) :
    Carved free (intersectAll free hint) ∧ Carved hint (intersectAll free hint) := by
  have parts := fun c (member : c ∈ intersectAll free hint) => mem_intersectAll member
  refine ⟨⟨fun c member => ?_, fun c member => ?_⟩, ⟨fun c member => ?_, fun c member => ?_⟩⟩
  all_goals obtain ⟨r, memberR, h, memberH, kept, within, hinted⟩ := parts c member
  · exact kept
  · exact ⟨r, memberR, within⟩
  · exact kept
  · exact ⟨h, memberH, hinted⟩

section

variable (found : b.candidateRegions properties partition hint = .ok candidates)

include found

theorem candidateRegions_eq_ok :
    ∃ free, b.getFreeRegions = .ok free ∧
      ∃ regions, (hint = [] ∧ regions = free ∨ hint ≠ [] ∧ regions = intersectAll free hint) ∧
        (candidates = regions ∨ ∃ super, candidates =
        prioritizeSecondHalfOfSuper super regions) := by
  unfold candidateRegions at found
  rw [bind_eq_ok] at found
  obtain ⟨free, reported, found⟩ := found
  generalize narrowed : (if hint ≠ [] then intersectAll free hint else free) = regions at found
  refine ⟨free, reported, regions, ?_, ?_⟩
  · rw [← narrowed]
    split
    · exact .inr ⟨‹_›, rfl⟩
    · exact .inl ⟨not_not.mp ‹_›, rfl⟩
  · split at found
    · rw [bind_eq_ok] at found
      obtain ⟨super, _, found⟩ := found
      cases found
      exact .inr ⟨super, rfl⟩
    · cases found
      exact .inl rfl

theorem candidateRegions_hinted (hinted : hint ≠ []) : Carved hint candidates := by
  obtain ⟨free, -, regions, narrowed, ordered⟩ := candidateRegions_eq_ok found
  apply carved_ordered _ ordered
  rcases narrowed with ⟨nothing, -⟩ | ⟨-, rfl⟩
  · exact absurd nothing hinted
  · exact (carved_intersectAll free hint).2

theorem candidateRegions_pairwise
    (nonempty : ∀ free, b.getFreeRegions = .ok free → ∀ r ∈ free, r.Nonempty)
    (apart : ∀ free, b.getFreeRegions = .ok free → free.Pairwise Apart)
    (disjoint : hint.Pairwise Interval.Disjoint) :
    candidates.Pairwise Apart := by
  obtain ⟨free, reported, regions, narrowed, ordered⟩ := candidateRegions_eq_ok found
  have both : regions.Pairwise Apart ∧ ∀ r ∈ regions, r.Nonempty := by
    rcases narrowed with ⟨-, rfl⟩ | ⟨-, rfl⟩
    · exact ⟨apart _ reported, nonempty _ reported⟩
    · refine ⟨intersectAll_pairwise (apart free reported) disjoint, fun r member => ?_⟩
      obtain ⟨_, _, _, _, kept, _⟩ := mem_intersectAll member
      exact kept
  rcases ordered with rfl | ⟨super, rfl⟩
  · exact both.1
  · exact prioritize_pairwise both.1 both.2

end

/-- Rounding keeps the start, never adds sectors, and an empty result is skipped. -/
theorem roundRegion_spec (sectorsPerBlock : BitVec 64) (nonempty : region.Nonempty) :
    (roundRegion sectorsPerBlock region).deviceIndex = region.deviceIndex ∧
      (roundRegion sectorsPerBlock region).start = region.start ∧
      region.start.toNat + (roundRegion sectorsPerBlock region).length.toNat ≤ region.stop.toNat ∧
      (¬ (region.length % sectorsPerBlock ≠ 0 ∧ (roundRegion sectorsPerBlock region).length = 0) →
        0 < (roundRegion sectorsPerBlock region).length.toNat) := by
  unfold Interval.Nonempty at nonempty
  have whole : region.length.toNat = region.stop.toNat - region.start.toNat := by
    rw [Interval.length, BitVec.toNat_sub_of_le (by rw [BitVec.le_def]; omega)]
  have positive : ∀ length : BitVec 64, length ≠ 0 → 0 < length.toNat := fun length nonzero =>
    Nat.pos_of_ne_zero fun zero => nonzero (BitVec.eq_of_toNat_eq (by simpa using zero))
  unfold roundRegion
  split
  · rename_i partial_
    have kept : (region.length / sectorsPerBlock * sectorsPerBlock).toNat ≤
        region.length.toNat := by
      exact (Nat.mod_le _ _).trans (Nat.div_mul_le_self _ _)
    have length : Interval.length { region with
        stop := region.start + region.length / sectorsPerBlock * sectorsPerBlock } =
        region.length / sectorsPerBlock * sectorsPerBlock := by
      rw [Interval.length, BitVec.add_comm, BitVec.add_sub_cancel]
    refine ⟨rfl, rfl, ?_, fun taken => ?_⟩
    · rw [length]
      omega
    · exact positive _ fun zero => taken ⟨partial_, zero⟩
  · exact ⟨rfl, rfl, by omega, fun _ => by omega⟩

/-- An extent at the start of a region and no longer than it. -/
structure Takes (e : LinearExtent) (region : Interval) : Prop where
  device : e.deviceIndex = region.deviceIndex
  start : e.physicalSector = region.start
  nonempty : 0 < e.numSectors.toNat
  inside : e.limit ≤ region.stop.toNat

theorem takeRegions_takes {sectorsPerBlock : BitVec 64} {sectorsNeeded left : BitVec 64}
    {extents : List LinearExtent} (nonempty : ∀ r ∈ regions, r.Nonempty)
    (taken : takeRegions sectorsPerBlock regions sectorsNeeded = .ok (left, extents)) :
    List.SublistForall₂ Takes extents regions := by
  induction regions generalizing sectorsNeeded left extents with
  | nil =>
    cases taken
    exact .nil
  | cons region rest ih =>
    have here := nonempty region mem_cons_self
    have later := fun r member => nonempty r (mem_cons_of_mem _ member)
    rw [takeRegions] at taken
    split at taken
    · cases taken
      exact .nil
    rename_i needed
    dsimp only at taken
    split at taken
    · exact .cons_right (ih later taken)
    · rename_i notEmpty
      obtain ⟨device, start, inside, positive⟩ := roundRegion_spec sectorsPerBlock here
      simp only [bind_eq_ok] at taken
      obtain ⟨_, _, ⟨leftOver, others⟩, restTaken, taken⟩ := taken
      cases taken
      refine .cons ⟨device, start, ?_, ?_⟩ (ih later restTaken)
      · have nonzero : 0 < sectorsNeeded.toNat := Nat.pos_of_ne_zero fun zero =>
          needed (BitVec.eq_of_toNat_eq (by simpa using zero))
        have := positive notEmpty
        simp only [stdMin_toNat]
        omega
      · simp only [LinearExtent.limit, start, stdMin_toNat]
        omega

end MetadataBuilder

end Aosp.Liblp
