import Mathlib.Data.List.Chain
import Aosp.Liblp.Exported

namespace Aosp.Liblp

open List Option

namespace Extent

/-- `AddExtent` would merge the second extent into the first. -/
def Continues : Extent → Extent → Prop
  | .linear previous, .linear next => previous.continuedBy next
  | _, _ => False

end Extent

namespace Partition

variable (extents : List Extent)

/-- No two neighbours could be merged. -/
def Unmerged : Prop :=
  extents.IsChain fun previous next => ¬ previous.Continues next

/-- The bytes of all extents, modulo 2⁶⁴ as `size_` counts them. -/
def totalSize : BitVec 64 :=
  (extents.map fun extent => extent.numSectors * sectorSize).sum

@[simp] theorem totalSize_append (front back : List Extent) :
    totalSize (front ++ back) = totalSize front + totalSize back := by
  induction front with
  | nil => exact (BitVec.zero_add _).symm
  | cons extent rest ih =>
    simp only [totalSize, cons_append, map_cons, sum_cons] at ih ⊢
    rw [ih, BitVec.add_assoc]

@[simp] theorem totalSize_singleton (extent : Extent) :
    totalSize [extent] = extent.numSectors * sectorSize := BitVec.add_zero _

@[simp] theorem totalSize_reverse : totalSize extents.reverse = totalSize extents := by
  induction extents with
  | nil => rfl
  | cons extent rest ih =>
    rw [reverse_cons, totalSize_append, ih, BitVec.add_comm, ← totalSize_append, singleton_append]

/-- `AddExtent` appends, unless the extent continues the last one; then that one grows. -/
theorem appendExtent_cases (extent : Extent) :
    ((∀ last ∈ extents.getLast?, ¬ last.Continues extent) ∧
      appendExtent extents extent = extents ++ [extent]) ∨
      ∃ kept previous next, extents = kept ++ [.linear previous] ∧ extent = .linear next ∧
        previous.continuedBy next ∧ appendExtent extents extent =
        kept ++ [.linear (previous.merge next)] := by
  rcases eq_nil_or_concat extents with rfl | ⟨kept, last, rfl⟩
  · exact .inl ⟨by simp, by simp [appendExtent]⟩
  rw [concat_eq_append]
  cases last with
  | zero sectors => exact .inl ⟨by simp [Extent.Continues], by simp [appendExtent]⟩
  | linear previous =>
    cases extent with
    | zero sectors => exact .inl ⟨by simp [Extent.Continues], by simp [appendExtent]⟩
    | linear next =>
      by_cases continued : previous.continuedBy next
      · exact .inr ⟨kept, previous, next, rfl, rfl, continued, by simp [appendExtent, continued]⟩
      · exact .inl ⟨by simpa [Extent.Continues] using continued, by simp [appendExtent, continued]⟩

theorem appendExtent_unmerged {extents : List Extent} (unmerged : Unmerged extents)
    (extent : Extent) :
    Unmerged (appendExtent extents extent) := by
  rcases appendExtent_cases extents extent with
    ⟨separate, appended⟩ | ⟨kept, previous, next, rfl, rfl, _, merged⟩
  · rw [appended]
    refine isChain_append.mpr ⟨unmerged, .singleton _, fun last isLast first isFirst => ?_⟩
    simp only [head?_cons, mem_def, some.injEq] at isFirst
    exact isFirst ▸ separate last isLast
  · -- the merged extent starts where the old one did
    rw [merged]
    obtain ⟨front, _, joint⟩ := isChain_append.mp unmerged
    refine isChain_append.mpr ⟨front, .singleton _, fun last isLast first isFirst => ?_⟩
    have before := joint last isLast (.linear previous) rfl
    simp only [head?_cons, mem_def, some.injEq] at isFirst
    subst isFirst
    cases last with
    | zero sectors => exact id
    | linear extent => exact before

theorem totalSize_appendExtent (extent : Extent) :
    totalSize (appendExtent extents extent) =
      totalSize extents + extent.numSectors * sectorSize := by
  rcases appendExtent_cases extents extent with
    ⟨_, appended⟩ | ⟨kept, previous, next, rfl, rfl, _, merged⟩
  · rw [appended, totalSize_append, totalSize_singleton]
  · rw [merged, totalSize_append, totalSize_append, totalSize_singleton, totalSize_singleton]
    simp only [Extent.numSectors, LinearExtent.merge, BitVec.add_mul, BitVec.add_assoc]

variable {after : List Extent}

theorem CutTo.unmerged {before : List Extent} (cut : CutTo before after)
    (unmerged : Unmerged before) :
    Unmerged after := by
  cases cut with
  | whole _ dropped split =>
    rw [split] at unmerged
    exact (isChain_append.mp unmerged).1
  | cut kept dropped last sectors split positive bound =>
    rw [split] at unmerged
    obtain ⟨front, _, joint⟩ := isChain_append.mp unmerged
    refine isChain_append.mpr ⟨front, .singleton _, fun x isLast y isFirst => ?_⟩
    have separate := joint x isLast last rfl
    simp only [head?_cons, mem_def, some.injEq] at isFirst
    subst isFirst
    cases x with
    | zero sectors => exact id
    | linear extent =>
      cases last with
      | zero sectors => exact id
      | linear other => exact separate

theorem shrinkLoop_totalSize {reversed : List Extent} {toRemove size final : BitVec 64}
    (done : shrinkLoop reversed toRemove size = some (after, final)) :
    final - totalSize after = size - totalSize reversed := by
  induction reversed generalizing toRemove size with
  | nil =>
    rw [shrinkLoop] at done
    split at done <;> cases done
    rfl
  | cons extent rest ih =>
    have total : totalSize (extent :: rest) = extent.numSectors * sectorSize + totalSize rest := by
      rw [← singleton_append, totalSize_append, totalSize_singleton]
    rw [shrinkLoop] at done
    split at done
    · cases done
      rfl
    split at done
    · cases done
      have shorter : (extent.setNumSectors (extent.numSectors - toRemove)).numSectors =
          extent.numSectors - toRemove := by cases extent <;> rfl
      rw [← singleton_append, totalSize_append, totalSize_singleton]
      grind
    · grind

/-- The extents cannot be merged further, and the size is theirs. -/
structure Tidy (p : Partition) : Prop where
  named : p.name ≠ []
  unmerged : Unmerged p.extents
  sized : p.size = totalSize p.extents

theorem Tidy.new {name : Name} (named : name ≠ []) (groupName : Name) (attributes : BitVec 32) :
    (new name groupName attributes).Tidy := ⟨named, .nil, rfl⟩

theorem Edit.tidy {p q : Partition} (edit : p.Edit q) (tidy : p.Tidy) :
    q.Tidy ∧ q.name = p.name := by
  cases edit with
  | addExtent extent =>
    refine ⟨⟨tidy.named, appendExtent_unmerged tidy.unmerged extent, ?_⟩, rfl⟩
    rw [Partition.addExtent, totalSize_appendExtent, tidy.sized]
  | removeExtents => exact ⟨⟨tidy.named, .nil, rfl⟩, rfl⟩
  | shrinkTo done =>
    obtain ⟨cut, same⟩ := shrinkTo_cut done
    refine ⟨⟨by rw [same]; exact tidy.named, cut.unmerged tidy.unmerged, ?_⟩, by rw [same]⟩
    unfold Partition.shrinkTo at done
    split at done
    · cases done
      rfl
    · rw [map_eq_some_iff] at done
      obtain ⟨⟨after, size⟩, loop, rfl⟩ := done
      have balance := shrinkLoop_totalSize loop
      rw [tidy.sized, totalSize_reverse] at balance
      rw [totalSize_reverse]
      grind
  | setAttributes => exact ⟨⟨tidy.named, tidy.unmerged, tidy.sized⟩, rfl⟩

end Partition

namespace MetadataBuilder

/-- The invariant behind import and export. -/
structure Tidy (b : MetadataBuilder) : Prop where
  partitionNames : (b.partitions.map Partition.name).Nodup
  partitions : ∀ p ∈ b.partitions, p.Tidy
  groupNames : (b.groups.map PartitionGroup.name).Nodup
  header : Versioned b.header
  plain : b.autoSlotSuffixing = false

theorem setMaximumSize_names (groupName : Name) (maximumSize : BitVec 64)
    (groups : List PartitionGroup) :
    (setMaximumSize groupName maximumSize groups).map PartitionGroup.name =
      groups.map PartitionGroup.name := by
  induction groups with
  | nil => rfl
  | cons group rest ih =>
    rw [setMaximumSize]
    split
    · rfl
    · simp [ih]

theorem nodup_concat_name {α : Type} {name : α → Name} {items : List α} {item : α}
    (distinct : (items.map name).Nodup) (fresh : ∀ other ∈ items, name other ≠ name item) :
    ((items ++ [item]).map name).Nodup := by
  rw [map_append, nodup_append]
  refine ⟨distinct, nodup_singleton _, fun left inItems right isItem => ?_⟩
  obtain ⟨other, member, rfl⟩ := mem_map.mp inItems
  rw [map_singleton, mem_singleton] at isItem
  exact isItem ▸ fresh other member

variable {b : MetadataBuilder} {front back : List Partition} {before after : Partition}

theorem tidy_replace (tidy : ∀ p ∈ b.partitions, p.Tidy)
    (split : b.partitions = front ++ before :: back) (isTidy : after.Tidy) :
    ∀ p ∈ front ++ after :: back, p.Tidy := by
  rw [split, forall_mem_append, forall_mem_cons] at tidy
  rw [forall_mem_append, forall_mem_cons]
  exact ⟨tidy.1, isTidy, tidy.2.2⟩

theorem Edit.partitions_tidy {after : MetadataBuilder} (edit : b.Edit after)
    (tidy : ∀ p ∈ b.partitions, p.Tidy) :
    ∀ p ∈ after.partitions, p.Tidy := by
  cases edit with
  | addPartition attributes named fresh =>
    rw [forall_mem_append, forall_mem_singleton]
    exact ⟨tidy, .new named _ _⟩
  | removePartition name => exact fun p member => tidy p (mem_of_mem_eraseP member)
  | @changePartition front back before changed split edited =>
    have old := tidy before (by rw [split]; simp)
    exact tidy_replace tidy split (edited.tidy old).1
  | @moveToGroup front back partition groupName split =>
    have old := tidy partition (by rw [split]; simp)
    exact tidy_replace tidy split ⟨old.named, old.unmerged, old.sized⟩
  | expandHeader =>
    unfold requireExpandedMetadataHeader
    split <;> exact tidy
  | _ => exact tidy

theorem Reachable.partitions_tidy (reachable : Reachable b) : ∀ p ∈ b.partitions, p.Tidy :=
  reachable.invariant (fun b _ nothing => by rw [nothing]; exact forall_mem_nil _)
    (fun _ _ edit => edit.partitions_tidy) fun _ tidy => tidy

theorem nodup_replace (distinct : (b.partitions.map Partition.name).Nodup)
    (split : b.partitions = front ++ before :: back) (sameName : after.name = before.name) :
    ((front ++ after :: back).map Partition.name).Nodup := by
  rw [split] at distinct
  simpa only [map_append, map_cons, sameName] using distinct

theorem Edit.tidy {after : MetadataBuilder} (edit : b.Edit after) (tidy : b.Tidy) : after.Tidy := by
  have header := edit.versioned tidy.header
  have partitions := edit.partitions_tidy tidy.partitions
  cases edit with
  | @addGroup groupName maximumSize fresh =>
    refine ⟨tidy.partitionNames, partitions, nodup_concat_name tidy.groupNames ?_, header,
      tidy.plain⟩
    intro other member
    simpa using find?_eq_none.mp fresh other member
  | setMaximumSize groupName maximumSize =>
    refine ⟨tidy.partitionNames, partitions, ?_, header, tidy.plain⟩
    rw [setMaximumSize_names]
    exact tidy.groupNames
  | removeGroup =>
    exact ⟨tidy.partitionNames, partitions, tidy.groupNames.sublist (eraseP_sublist.map _), header,
      tidy.plain⟩
  | @addPartition name groupName attributes named fresh =>
    refine ⟨nodup_concat_name tidy.partitionNames ?_, partitions, tidy.groupNames, header,
      tidy.plain⟩
    intro other member
    change other.name ≠ name
    simpa using find?_eq_none.mp fresh other member
  | removePartition name =>
    exact ⟨tidy.partitionNames.sublist (eraseP_sublist.map _), partitions, tidy.groupNames, header,
      tidy.plain⟩
  | @changePartition front back before changed split edited =>
    have old := tidy.partitions before (by rw [split]; simp)
    exact ⟨nodup_replace tidy.partitionNames split (edited.tidy old).2, partitions, tidy.groupNames,
      header, tidy.plain⟩
  | @moveToGroup front back partition groupName split =>
    exact ⟨nodup_replace tidy.partitionNames split rfl, partitions, tidy.groupNames, header,
      tidy.plain⟩
  | setBlockDevice =>
    exact ⟨tidy.partitionNames, partitions, tidy.groupNames, header, tidy.plain⟩
  | expandHeader =>
    have same : b.requireExpandedMetadataHeader.partitions = b.partitions ∧
        b.requireExpandedMetadataHeader.groups = b.groups ∧
        b.requireExpandedMetadataHeader.autoSlotSuffixing = b.autoSlotSuffixing := by
      unfold requireExpandedMetadataHeader
      split <;> exact ⟨rfl, rfl, rfl⟩
    refine ⟨?_, partitions, ?_, header, ?_⟩
    · rw [same.1]; exact tidy.partitionNames
    · rw [same.2.1]; exact tidy.groupNames
    · rw [same.2.2]; exact tidy.plain
  | setFlags =>
    exact ⟨tidy.partitionNames, partitions, tidy.groupNames, header, tidy.plain⟩

/-- Every builder a program gets from `New` without `SetAutoSlotSuffixing` is tidy. -/
theorem run_tidy {blockDevices : List BlockDeviceInfo} {superPartition : Name}
    {metadataMaxSize metadataSlotCount : BitVec 32} {start : MetadataBuilder} {ops : List Op}
    (created : new blockDevices superPartition metadataMaxSize metadataSlotCount = some start)
    (plain : ∀ op ∈ ops, op ≠ .setAutoSlotSuffixing) (ran : start.run ops = .ok b) :
    b.Tidy := by
  refine run_invariant Tidy (· ≠ .setAutoSlotSuffixing) ?_ plain ?_ ran
  · intro b op after result allowed tidy done
    exact (apply_edits allowed done).invariant (fun _ _ edit => edit.tidy) tidy
  · obtain ⟨_, _, _, _, _, _, _, _, _, _, _, rfl⟩ := new_eq_some created
    exact ⟨.nil, forall_mem_nil _, nodup_singleton _, .inl rfl, rfl⟩

end MetadataBuilder

end Aosp.Liblp
