import Mathlib.Logic.Relation
import Aosp.Liblp.GrowStep

/- Every public call of `MetadataBuilder` as a sequence of small edits, so that an invariant
of all reachable builders needs one case for each kind of edit. -/
namespace Aosp.Liblp

open Fallible
open Relation (ReflTransGen)

/-- The ways in which the extents and attributes of one partition change. -/
inductive Partition.Edit : Partition → Partition → Prop
  | addExtent (p : Partition) (extent : Extent) : Edit p (p.addExtent extent)
  | removeExtents (p : Partition) : Edit p p.removeExtents
  | shrinkTo {p shrunk : Partition} {alignedSize : BitVec 64}
      (done : p.shrinkTo alignedSize = some shrunk) : Edit p shrunk
  | setAttributes (p : Partition) (attributes : BitVec 32) :
    Edit p { p with attributes := attributes }

namespace MetadataBuilder

/-- The ways in which a builder changes, apart from `SetAutoSlotSuffixing`. -/
inductive Edit : MetadataBuilder → MetadataBuilder → Prop
  | addGroup {b : MetadataBuilder} {groupName : Name} (maximumSize : BitVec 64)
    (fresh : b.findGroup groupName = none) : Edit b { b with groups :=
    b.groups ++ [⟨groupName, maximumSize⟩] }
  | setMaximumSize (b : MetadataBuilder) (groupName : Name) (maximumSize : BitVec 64) :
      Edit b { b with groups := setMaximumSize groupName maximumSize b.groups }
  | removeGroup (b : MetadataBuilder) (groupName : Name) :
      Edit b { b with groups := b.groups.eraseP fun group => group.name = groupName }
  | addPartition {b : MetadataBuilder} {name groupName : Name} (attributes : BitVec 32)
      (named : name ≠ []) (fresh : b.findPartition name = none) :
      Edit b { b with partitions := b.partitions ++ [Partition.new name groupName attributes] }
  | removePartition (b : MetadataBuilder) (name : Name) : Edit b (b.removePartition name)
  | changePartition {b : MetadataBuilder} {front back : List Partition} {before after : Partition}
      (split : b.partitions = front ++ before :: back) (edited : before.Edit after) :
      Edit b { b with partitions := front ++ after :: back }
  | moveToGroup {b : MetadataBuilder} {front back : List Partition} {partition : Partition}
      (groupName : Name) (split : b.partitions = front ++ partition :: back) :
      Edit b { b with
        partitions := front ++ { partition with groupName := groupName } :: back }
  | setBlockDevice (b : MetadataBuilder) (i : Nat) (device : LpMetadataBlockDevice) :
      Edit b { b with blockDevices := b.blockDevices.set i device }
  | expandHeader (b : MetadataBuilder) : Edit b b.requireExpandedMetadataHeader
  | setFlags {b : MetadataBuilder} (flags : BitVec 32) (expanded : versionForExpandedHeader ≤
    b.header.minorVersion) : Edit b { b with header := { b.header with flags := flags } }

/-- A builder and one that some edits make of it. -/
abbrev Edits : MetadataBuilder → MetadataBuilder → Prop := ReflTransGen Edit

variable {b : MetadataBuilder}

theorem foldl_edits {α β : Type} {edit : β → β → Prop} {step : β → α → β}
    (each : ∀ b a, edit b (step b a)) (items : List α) (b : β) :
    ReflTransGen edit b (items.foldl step b) := by
  induction items generalizing b with
  | nil => exact .refl
  | cons item rest ih => exact .head (each b item) (ih _)

variable {partition : Partition} {result : Bool}

theorem resizePartition_edits {properties : Properties}
    {changed : Partition} {requestedSize : BitVec 64} {hint : List Interval}
    (done : b.resizePartition properties partition requestedSize hint = .ok (changed, result)) :
    ReflTransGen Partition.Edit partition changed := by
  rcases resizePartition_eq_ok done with ⟨_, rfl⟩ | ⟨_, _, _, grown | ⟨_, shrunk⟩ | ⟨_, rfl⟩⟩
  · exact .refl
  · obtain ⟨_, _, _, _, _, _, _, rfl⟩ := growPartition_true grown.2
    exact foldl_edits (fun p e => .addExtent p (.linear e)) _ partition
  · exact .single (.shrinkTo shrunk)
  · exact .refl

variable {metadata : LpMetadata} {source : LpMetadataPartition}

theorem importExtents_edits {filled : Partition}
    (done : importExtents metadata source partition = .ok filled) :
    ReflTransGen Partition.Edit partition filled := by
  refine foldlM_ok_invariant _ (fun p => ReflTransGen Partition.Edit partition p) _ ?_
    partition filled .refl done
  intro state i next _ reached step
  unfold importExtent at step
  rw [bind_eq_ok] at step
  obtain ⟨entry, _, step⟩ := step
  split at step <;> cases step
  · exact reached.tail (.addExtent state _)
  · exact reached

variable {after : MetadataBuilder} {name : Name}

theorem withPartition_edits {change : Partition → Except Fault (Partition × Bool)}
    (done : b.withPartition name change = .ok (after, result))
    (edits : ∀ partition changed, b.findPartition name = some partition →
      change partition = .ok (changed, result) → ReflTransGen Partition.Edit partition changed) :
    b.Edits after := by
  obtain ⟨front, partition, changed, back, split, first, rfl, applied, rfl⟩ :=
    withPartition_eq_ok done
  have edited := edits partition changed (findPartition_split split first) applied
  clear applied done
  induction edited with
  | refl => rw [← split]
  | tail _ last ih => exact ih.tail (.changePartition rfl last)

theorem addGroup_edits (b : MetadataBuilder) (groupName : Name) (maximumSize : BitVec 64) :
    b.Edits (b.addGroup groupName maximumSize).1 := by
  unfold addGroup
  split
  · exact .refl
  · rename_i absent
    exact .single (.addGroup maximumSize (Option.not_isSome_iff_eq_none.mp absent))

theorem addPartition_edits (b : MetadataBuilder) (name groupName : Name) (attributes : BitVec 32) :
    b.Edits (b.addPartition name groupName attributes).1 := by
  unfold addPartition
  split
  · exact .refl
  rename_i named
  split
  · exact .refl
  rename_i absent
  split
  · exact .refl
  · exact .single (.addPartition attributes named (Option.not_isSome_iff_eq_none.mp absent))

theorem findPartition_addPartition {groupName : Name}
    {attributes : BitVec 32} (added : (b.addPartition name groupName attributes).2 = true) :
    (b.addPartition name groupName attributes).1.findPartition name =
      some (Partition.new name groupName attributes) := by
  unfold addPartition at added ⊢
  split
  · rw [if_pos ‹_›] at added
    cases added
  rw [if_neg ‹_›] at added
  split
  · rw [if_pos ‹_›] at added
    cases added
  rw [if_neg ‹_›] at added
  rename_i absent
  split
  · rw [if_pos ‹_›] at added
    cases added
  · have nothing : b.partitions.find? (fun other => other.name = name) = none :=
      Option.not_isSome_iff_eq_none.mp absent
    rw [findPartition, List.find?_append, nothing, Option.none_or, List.find?_cons_of_pos]
    exact decide_eq_true rfl

theorem fillPartition_edits (found : b.findPartition partition.name = some partition)
    (done : b.fillPartition metadata source partition = .ok (after, result)) :
    b.Edits after := by
  unfold fillPartition at done
  split at done
  · cases done
    exact .refl
  simp only [bind_eq_ok] at done
  obtain ⟨filled, imported, ⟨middle, _⟩, stored, allowed, _, done⟩ := done
  have first : b.Edits middle := by
    refine withPartition_edits stored fun p changed isFound change => ?_
    rw [found, Option.some.injEq] at isFound
    cases change
    exact isFound ▸ importExtents_edits imported
  split at done
  · cases done
    exact first
  · refine first.trans (withPartition_edits done fun p changed _ change => ?_)
    cases change
    exact .single (.removeExtents p)

theorem importPartition_edits (done : b.importPartition metadata source = .ok (after, result)) :
    b.Edits after := by
  unfold importPartition at done
  simp only at done
  split at done
  · rename_i partition found
    have named : partition.name = getPartitionName source := by
      simpa using List.find?_some found
    exact fillPartition_edits (named ▸ found) done
  · rw [bind_eq_ok] at done
    obtain ⟨group, _, done⟩ := done
    have added := addPartition_edits b (getPartitionName source) (getPartitionGroupName group)
      source.attributes
    split at done
    · rename_i success
      exact added.trans (fillPartition_edits (findPartition_addPartition success) done)
    · cases done
      exact added

theorem importNamed_edits {partitionNames : List Name} {sources : List LpMetadataPartition}
    (done : importNamed metadata partitionNames sources b = .ok (after, result)) :
    b.Edits after := by
  induction sources generalizing b with
  | nil =>
    cases done
    exact .refl
  | cons source rest ih =>
    rw [importNamed] at done
    split at done
    · rw [bind_eq_ok] at done
      obtain ⟨⟨middle, imported⟩, first, done⟩ := done
      have step := importPartition_edits first
      dsimp only at done
      split at done
      · exact step.trans (ih done)
      · cases done
        exact step
    · exact ih done

theorem updateBlockDeviceAt_edits {i : Nat} {info : BlockDeviceInfo}
    (done : b.updateBlockDeviceAt i info = .ok (after, result)) :
    b.Edits after := by
  unfold updateBlockDeviceAt at done
  rw [bind_eq_ok] at done
  obtain ⟨device, _, done⟩ := done
  split at done
  · cases done
    exact .refl
  rw [bind_eq_ok] at done
  obtain ⟨_, _, done⟩ := done
  split at done
  · cases done
    exact .refl
  · cases done
    exact .single (.setBlockDevice b i _)

theorem requireExpandedMetadataHeader_minor (b : MetadataBuilder) :
    versionForExpandedHeader ≤ b.requireExpandedMetadataHeader.header.minorVersion := by
  unfold requireExpandedMetadataHeader
  split
  · assumption
  · exact BitVec.le_refl _

/-- Every call but `SetAutoSlotSuffixing` is a sequence of edits. -/
theorem apply_edits {op : Op} (plain : op ≠ .setAutoSlotSuffixing)
    (done : b.apply op = .ok (after, result)) :
    b.Edits after := by
  cases op with
  | addGroup groupName maximumSize =>
    have same : (b.addGroup groupName maximumSize).1 = after :=
      congrArg Prod.fst (Except.ok.inj done)
    exact same ▸ b.addGroup_edits groupName maximumSize
  | addPartition name groupName attributes =>
    have same : (b.addPartition name groupName attributes).1 = after :=
      congrArg Prod.fst (Except.ok.inj done)
    exact same ▸ b.addPartition_edits name groupName attributes
  | removePartition name =>
    cases done
    exact .single (.removePartition b name)
  | removeGroupAndPartitions groupName =>
    cases done
    unfold removeGroupAndPartitions
    split
    · exact .refl
    · exact (foldl_edits Edit.removePartition _ b).tail (.removeGroup _ groupName)
  | changePartitionGroup name groupName =>
    obtain ⟨front, partition, changed, back, split, _, _, change, rfl⟩ := withPartition_eq_ok done
    split at change <;> cases change
    · rw [← split]
    · exact .single (.moveToGroup groupName split)
  | changeGroupSize groupName maximumSize =>
    have same : (b.changeGroupSize groupName maximumSize).1 = after :=
      congrArg Prod.fst (Except.ok.inj done)
    rw [← same]
    unfold changeGroupSize
    split
    · exact .refl
    split
    · exact .refl
    · exact .single (.setMaximumSize b groupName maximumSize)
  | resizePartition properties name requestedSize hint =>
    exact withPartition_edits done fun _ _ _ change => resizePartition_edits change
  | addLinearExtent name blockDevice numSectors physicalSector =>
    refine withPartition_edits done fun p changed _ change => ?_
    split at change <;> cases change
    · exact .refl
    · exact .single (.addExtent p _)
  | addExtent name extent =>
    refine withPartition_edits done fun p changed _ change => ?_
    cases change
    exact .single (.addExtent p extent)
  | removeExtents name =>
    refine withPartition_edits done fun p changed _ change => ?_
    cases change
    exact .single (.removeExtents p)
  | setAttributes name attributes =>
    refine withPartition_edits done fun p changed _ change => ?_
    cases change
    exact .single (.setAttributes p attributes)
  | importPartitions metadata partitionNames =>
    change b.importPartitions metadata partitionNames = _ at done
    unfold importPartitions at done
    split at done
    · cases done
      exact .refl
    split at done
    · cases done
      exact .refl
    · exact importNamed_edits done
  | updateBlockDeviceInfo partitionName info =>
    change b.updateBlockDeviceInfo partitionName info = _ at done
    unfold updateBlockDeviceInfo at done
    split at done
    · cases done
      exact .refl
    · exact updateBlockDeviceAt_edits done
  | setAutoSlotSuffixing => exact absurd rfl plain
  | setVirtualABDeviceFlag =>
    cases done
    exact .head (.expandHeader b) (.single (.setFlags _ b.requireExpandedMetadataHeader_minor))
  | requireExpandedMetadataHeader =>
    cases done
    exact .single (.expandHeader b)

end MetadataBuilder

end Aosp.Liblp
