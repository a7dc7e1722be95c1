import Mathlib.Data.List.Flatten
import Aosp.Liblp.Creation
import Aosp.Liblp.PartitionExtents

namespace Aosp.Liblp

open List
open LinearExtent (Keeps)

namespace Op

/-- The calls that create, size, move and remove partitions and groups. -/
def sizing : Op → Bool
  | addGroup .. | addPartition .. | removePartition .. | removeGroupAndPartitions ..
  | changePartitionGroup .. | changeGroupSize .. | resizePartition .. => true
  | _ => false

def freeRegionHint : Op → List Interval
  | resizePartition _ _ _ hint => hint
  | _ => []

end Op

namespace MetadataBuilder

/-- Extents disappear or are cut; none moves and none is added. -/
structure Frees (b after : MetadataBuilder) : Prop where
  devices : after.blockDevices = b.blockDevices
  extents : List.SublistForall₂ Keeps after.linearExtents b.linearExtents

/-- A resize that succeeded by growing its partition with `GrowPartition`. -/
inductive Grows (b : MetadataBuilder) : Op → MetadataBuilder → Prop
  | resize {front back : List Partition} {partition changed : Partition} {properties : Properties}
      {requestedSize alignedSize : BitVec 64} {hint : List Interval}
      (split : b.partitions = front ++ partition :: back)
      (first : ∀ other ∈ front, other.name ≠ partition.name)
      (aligned : alignTo requestedSize b.geometry.logicalBlockSize = some alignedSize)
      (larger : partition.size < alignedSize)
      (grown : b.growPartition properties partition alignedSize hint = .ok (changed, true)) :
      Grows b (.resizePartition properties partition.name requestedSize hint)
        { b with partitions := front ++ changed :: back }

/-- The call asks for more than the partition has. -/
def Enlarges (b : MetadataBuilder) : Op → Prop
  | .resizePartition _ name requestedSize _ => ∃ partition alignedSize, b.findPartition name =
    some partition ∧ alignTo requestedSize b.geometry.logicalBlockSize = some alignedSize ∧
      partition.size < alignedSize
  | _ => False

variable {b : MetadataBuilder} {front back : List Partition} {partition : Partition}

theorem findPartition_split (split : b.partitions = front ++ partition :: back)
    (first : ∀ other ∈ front, other.name ≠ partition.name) :
    b.findPartition partition.name = some partition := by
  have absent : front.find? (fun other => other.name = partition.name) = none := by
    rw [find?_eq_none]
    intro other member
    rw [decide_eq_true_eq]
    exact first other member
  rw [findPartition, split, find?_append, absent, Option.none_or, find?_cons_of_pos]
  exact decide_eq_true rfl

variable {after : MetadataBuilder}

theorem frees_of_sublist (devices : after.blockDevices = b.blockDevices)
    (fewer : after.partitions.Sublist b.partitions) :
    b.Frees after where
  devices := devices
  extents := by
    apply List.Sublist.sublistForall₂
    exact List.Sublist.flatMap fewer _

theorem Frees.refl (b : MetadataBuilder) : b.Frees b :=
  frees_of_sublist rfl (List.Sublist.refl _)

variable {changed : Partition}

theorem frees_of_cut (split : b.partitions = front ++ partition :: back)
    (cut : List.SublistForall₂ Keeps changed.linearExtents partition.linearExtents) :
    b.Frees { b with partitions := front ++ changed :: back } where
  devices := rfl
  extents := by
    rw [linearExtents_split split, linearExtents_split rfl]
    obtain ⟨middle, keeps, sublist⟩ := sublistForall₂_iff.mp cut
    refine sublistForall₂_iff.mpr ⟨_, rel_append (forall₂_refl _)
      (rel_append keeps (forall₂_refl _)), ?_⟩
    exact (List.Sublist.refl _).append (sublist.append (List.Sublist.refl _))

theorem foldl_removePartition_sublist (names : List Name) (b : MetadataBuilder) :
    (names.foldl removePartition b).partitions.Sublist b.partitions ∧
      (names.foldl removePartition b).blockDevices = b.blockDevices := by
  induction names generalizing b with
  | nil => exact ⟨List.Sublist.refl _, rfl⟩
  | cons name rest ih =>
    obtain ⟨sublist, devices⟩ := ih (b.removePartition name)
    exact ⟨sublist.trans eraseP_sublist, devices⟩

theorem removeGroupAndPartitions_frees (b : MetadataBuilder) (groupName : Name) :
    b.Frees (b.removeGroupAndPartitions groupName) := by
  unfold removeGroupAndPartitions
  split
  · exact Frees.refl b
  · obtain ⟨sublist, devices⟩ := foldl_removePartition_sublist _ b
    exact frees_of_sublist devices sublist

theorem addPartition_frees (b : MetadataBuilder) (name groupName : Name) (attributes : BitVec 32) :
    b.Frees (b.addPartition name groupName attributes).1 := by
  unfold addPartition
  repeat' split
  all_goals try exact Frees.refl b
  refine ⟨rfl, ?_⟩
  simp only [linearExtents, flatMap_append, flatMap_cons, Partition.linearExtents_new, flatMap_nil,
    append_nil]
  exact (List.Sublist.refl _).sublistForall₂

variable {properties : Properties} {hint : List Interval}

variable {requestedSize : BitVec 64} {result : Bool}

section

variable (done : b.resizePartition properties partition requestedSize hint = .ok (changed, result))

include done

/-- What `ResizePartition` can do: hand the partition back, grow it or shrink it. -/
theorem resizePartition_eq_ok :
    (result = false ∧ changed = partition) ∨ result = true ∧ ∃ alignedSize,
        alignTo requestedSize b.geometry.logicalBlockSize = some alignedSize ∧
        (partition.size < alignedSize ∧
            b.growPartition properties partition alignedSize hint = .ok (changed, true) ∨
          alignedSize < partition.size ∧ partition.shrinkTo alignedSize = some changed ∨
          alignedSize = partition.size ∧ changed = partition) := by
  unfold resizePartition at done
  split at done
  · cases done
    exact .inl ⟨rfl, rfl⟩
  rename_i alignedSize aligned
  rw [Fallible.bind_eq_ok] at done
  obtain ⟨allowed, _, done⟩ := done
  split at done
  · cases done
    exact .inl ⟨rfl, rfl⟩
  split at done
  · rename_i larger
    cases result with
    | true => exact .inr ⟨rfl, alignedSize, aligned, .inl ⟨larger, done⟩⟩
    | false =>
      simp only [growPartition, Fallible.bind_eq_ok] at done
      obtain ⟨_, _, _, _, _, _, _, _, done⟩ := done
      split at done <;> cases done
      exact .inl ⟨rfl, rfl⟩
  rename_i notLarger
  split at done
  · rename_i smaller
    split at done
    · rename_i shrunk shrink
      cases done
      exact .inr ⟨rfl, alignedSize, aligned, .inr (.inl ⟨smaller, shrink⟩)⟩
    · cases done
  · rename_i notSmaller
    cases done
    have equal : alignedSize = partition.size :=
      BitVec.le_antisymm (BitVec.not_lt.mp notLarger) (BitVec.not_lt.mp notSmaller)
    exact .inr ⟨rfl, alignedSize, aligned, .inr (.inr ⟨equal, rfl⟩)⟩

/-- A resize cuts its partition, unless it is a successful growth. -/
theorem resizePartition_effect :
    (List.SublistForall₂ Keeps changed.linearExtents partition.linearExtents ∧
      (result = true → ∀ alignedSize,
          alignTo requestedSize b.geometry.logicalBlockSize = some alignedSize →
          ¬ partition.size < alignedSize)) ∨
      result = true ∧ ∃ alignedSize, alignTo requestedSize b.geometry.logicalBlockSize =
      some alignedSize ∧
        partition.size < alignedSize ∧ b.growPartition properties partition alignedSize hint =
        .ok (changed, true) := by
  have unchanged : List.SublistForall₂ Keeps partition.linearExtents partition.linearExtents :=
    (List.Sublist.refl _).sublistForall₂
  rcases resizePartition_eq_ok done with ⟨rfl, rfl⟩ | ⟨rfl, alignedSize, aligned, change⟩
  · exact .inl ⟨unchanged, fun failed => by cases failed⟩
  have only : ¬ partition.size < alignedSize →
      ∀ other, alignTo requestedSize b.geometry.logicalBlockSize = some other →
      ¬ partition.size < other := by
    intro notLarger other found
    rw [aligned, Option.some.injEq] at found
    rwa [← found]
  rcases change with ⟨larger, grown⟩ | ⟨smaller, shrunk⟩ | ⟨equal, rfl⟩
  · exact .inr ⟨rfl, alignedSize, aligned, larger, grown⟩
  · exact .inl ⟨(Partition.shrinkTo_cut shrunk).1.linear, fun _ =>
      only (BitVec.not_lt.mpr (BitVec.le_of_lt smaller))⟩
  · exact .inl ⟨unchanged, fun _ => only (by rw [equal]; exact BitVec.lt_irrefl _)⟩

end

/-- Every sizing call frees sectors or grows one partition. A successful call that frees did
not ask for more. -/
theorem apply_sizing {op : Op} (sizing : op.sizing) (done : b.apply op = .ok (after, result)) :
    b.Frees after ∧ (result = true → ¬ b.Enlarges op) ∨ result = true ∧ b.Grows op after := by
  cases op with
  | addGroup groupName maximumSize =>
    have after_eq := congrArg Prod.fst (Except.ok.inj done)
    simp only [addGroup] at after_eq
    refine .inl ⟨?_, fun _ => id⟩
    split at after_eq <;> subst after_eq
    · exact Frees.refl b
    · exact frees_of_sublist rfl (List.Sublist.refl _)
  | addPartition name groupName attributes =>
    have same : (b.addPartition name groupName attributes).1 = after :=
      congrArg Prod.fst (Except.ok.inj done)
    rw [← same]
    exact .inl ⟨b.addPartition_frees name groupName attributes, fun _ => id⟩
  | removePartition name =>
    cases done
    exact .inl ⟨frees_of_sublist rfl eraseP_sublist, fun _ => id⟩
  | removeGroupAndPartitions groupName =>
    cases done
    exact .inl ⟨b.removeGroupAndPartitions_frees groupName, fun _ => id⟩
  | changePartitionGroup name groupName =>
    obtain ⟨front, partition, changed, back, split, _, _, change, rfl⟩ := withPartition_eq_ok done
    refine .inl ⟨frees_of_cut split ?_, fun _ => id⟩
    have same : changed.extents = partition.extents := by
      split at change <;> cases change <;> rfl
    rw [Partition.linearExtents, same]
    exact (List.Sublist.refl _).sublistForall₂
  | changeGroupSize groupName maximumSize =>
    have after_eq := congrArg Prod.fst (Except.ok.inj done)
    simp only [changeGroupSize] at after_eq
    refine .inl ⟨?_, fun _ => id⟩
    split at after_eq
    · exact after_eq ▸ Frees.refl b
    · split at after_eq <;> subst after_eq
      · exact Frees.refl b
      · exact frees_of_sublist rfl (List.Sublist.refl _)
  | resizePartition properties name requestedSize hint =>
    obtain ⟨front, partition, changed, back, split, first, rfl, change, rfl⟩ :=
      withPartition_eq_ok done
    rcases resizePartition_effect change with
      ⟨cut, notLarger⟩ | ⟨succeeded, alignedSize, aligned, larger, grown⟩
    · refine .inl ⟨frees_of_cut split cut, ?_⟩
      rintro succeeded ⟨found, alignedSize, isFound, aligned, larger⟩
      rw [findPartition_split split first, Option.some.injEq] at isFound
      exact notLarger succeeded alignedSize aligned (isFound ▸ larger)
    · exact .inr ⟨succeeded, .resize split first aligned larger grown⟩
  | _ => cases sizing

end MetadataBuilder

end Aosp.Liblp
