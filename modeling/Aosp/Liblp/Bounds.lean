import Aosp.Liblp.Disjointness

/- When the extents stay on their devices. `ExtendFinalExtent` computes its tail from the
alignment alone, so a device whose end is not aligned can be left. -/
namespace Aosp.Liblp.MetadataBuilder

open List Option
open LinearExtent (Placed)

/-- Every linear extent lies in `[first_logical_sector, size / 512)` of its device. -/
def InBounds (b : MetadataBuilder) : Prop :=
  ∀ e ∈ b.linearExtents, ∃ device, b.blockDevices[e.deviceIndex.toNat]? = some device ∧
    device.firstLogicalSector.toNat ≤ e.physicalSector.toNat ∧
    e.limit ≤ (lastSector device).toNat

/-- The call would grow its partition by a tail that ends behind the device. -/
def Overruns (b : MetadataBuilder) : Op → Prop
  | .resizePartition properties name requestedSize hint =>
    ∃ partition alignedSize candidates tail device, b.findPartition name = some partition ∧
      alignTo requestedSize b.geometry.logicalBlockSize = some alignedSize ∧
      partition.size < alignedSize ∧
      b.candidateRegions properties partition hint = .ok candidates ∧
      b.extendFinalExtent partition candidates ((alignedSize - partition.size) / sectorSize) =
      some tail ∧ b.blockDevices[tail.deviceIndex.toNat]? = some device ∧
      (lastSector device).toNat < tail.limit
  | _ => False

variable {devices : List LpMetadataBlockDevice} {front back : List LinearExtent}

variable {p : Partition}

theorem placed_addExtent {e : LinearExtent}
    (old : ∀ x ∈ around front back p, ∃ device, x.Placed devices device) (fits : e.limit < 2 ^ 55)
    (added : ¬ p.ContinuedBy e → ∃ device, e.Placed devices device) :
    ∀ x ∈ around front back (p.addExtent (.linear e)), ∃ device, x.Placed devices device := by
  refine forall_addExtent old (fun x member continued => ?_) added
  obtain ⟨device, placed⟩ := old x member
  exact ⟨device, placed.merge continued fits⟩

theorem placed_extendAll {extents : List LinearExtent}
    (old : ∀ x ∈ around front back p, ∃ device, x.Placed devices device)
    (added : ∀ e ∈ extents, ∃ device, e.Placed devices device) :
    ∀ x ∈ around front back (extendAll p extents), ∃ device, x.Placed devices device := by
  induction extents generalizing p with
  | nil => exact old
  | cons e rest ih =>
    obtain ⟨device, placed⟩ := added e mem_cons_self
    exact ih (placed_addExtent old placed.addressable fun _ => ⟨device, placed⟩)
      fun x member => added x (mem_cons_of_mem _ member)

variable {b after : MetadataBuilder}

theorem Positioned.frees (pos : b.Positioned) (frees : b.Frees after) : after.Positioned := by
  refine ⟨?_, ?_, ?_⟩ <;> rw [frees.devices]
  · exact pos.few
  · exact pos.roomy
  · intro e member
    obtain ⟨x, before, keeps⟩ := Spans.selection_origin frees.extents member
    obtain ⟨device, placed⟩ := pos.placed x before
    exact ⟨device, keeps.placed placed⟩

theorem InBounds.frees (inside : b.InBounds) (frees : b.Frees after) : after.InBounds := by
  intro e member
  obtain ⟨x, before, keeps⟩ := Spans.selection_origin frees.extents member
  obtain ⟨device, known, first, last⟩ := inside x before
  refine ⟨device, ?_, ?_, keeps.limit.trans last⟩
  · rw [frees.devices, keeps.device]
    exact known
  · rw [keeps.start]
    exact first

variable {op : Op}

theorem Positioned.grows (pos : b.Positioned) (grows : b.Grows op after) : after.Positioned := by
  obtain @⟨front, back, partition, changed, properties, requestedSize, alignedSize, hint, split,
    first, aligned, larger, grown⟩ := grows
  obtain ⟨free, candidates, extents, reported, _, carved, takes, rfl⟩ := pos.growth grown
  have owned : partition ∈ b.partitions := by rw [split]; simp
  have old := pos.placed
  rw [linearExtents_split split] at old
  have placed : ∀ e ∈ extents, ∃ device, e.Placed b.blockDevices device := fun e member => by
    obtain ⟨c, inCandidates, takesC⟩ := Spans.selection_origin takes member
    obtain ⟨device, placed, _⟩ := pos.takes_placed reported carved inCandidates takesC
    exact ⟨device, placed⟩
  refine ⟨pos.few, pos.roomy, ?_⟩
  rw [linearExtents_around]
  cases extension : b.extendFinalExtent partition candidates
    ((alignedSize - partition.size) / sectorSize) with
  | none => exact placed_extendAll old placed
  | some tail =>
    have freeTail := pos.freeTail owned extension
    exact placed_extendAll (p := partition.addExtent (.linear tail))
      (placed_addExtent old freeTail.addressable fun separate =>
        absurd freeTail.continues separate) placed

variable {result : Bool}

theorem Positioned.apply (pos : b.Positioned) (sizing : op.sizing)
    (done : b.apply op = .ok (after, result)) :
    after.Positioned := by
  rcases apply_sizing sizing done with ⟨frees, _⟩ | ⟨_, grows⟩
  · exact pos.frees frees
  · exact pos.grows grows

/-- Placed, and inside the device also at its end. -/
def Contained (devices : List LpMetadataBlockDevice) (e : LinearExtent) : Prop :=
  ∃ device, e.Placed devices device ∧ e.limit ≤ (lastSector device).toNat

theorem contained_addExtent {e : LinearExtent} {device : LpMetadataBlockDevice}
    (old : ∀ x ∈ around front back p, Contained devices x)
    (known : devices[e.deviceIndex.toNat]? = some device)
    (ends : e.limit ≤ (lastSector device).toNat)
    (added : ¬ p.ContinuedBy e → e.Placed devices device) :
    ∀ x ∈ around front back (p.addExtent (.linear e)), Contained devices x := by
  refine forall_addExtent old (fun x member continued => ?_) fun separate =>
    ⟨device, added separate, ends⟩
  obtain ⟨found, placed, _⟩ := old x member
  have same : found = device := by
    have index := (LinearExtent.continuedBy_iff.mp continued).2
    rw [← index, placed.known, some.injEq] at known
    exact known
  have fits := ends.trans_lt (lastSector_lt device)
  refine ⟨device, same ▸ placed.merge continued fits, ?_⟩
  rw [(LinearExtent.merge_limit continued placed.addressable fits).2.1]
  exact ends

variable {extents : List LinearExtent}

theorem contained_extendAll (old : ∀ x ∈ around front back p, Contained devices x)
    (added : ∀ e ∈ extents, Contained devices e) :
    ∀ x ∈ around front back (extendAll p extents), Contained devices x := by
  induction extents generalizing p with
  | nil => exact old
  | cons e rest ih =>
    obtain ⟨device, placed, ends⟩ := added e mem_cons_self
    exact ih (contained_addExtent old placed.known ends fun _ => placed)
      fun x member => added x (mem_cons_of_mem _ member)

/-- An extent that ends behind its device. -/
def Beyond (devices : List LpMetadataBlockDevice) (e : LinearExtent) : Prop :=
  ∃ device, devices[e.deviceIndex.toNat]? = some device ∧ (lastSector device).toNat < e.limit

/-- Once an extent has left its device, further extents do not bring it back. -/
theorem beyond_extendAll (old : ∀ x ∈ around front back p, ∃ device, x.Placed devices device)
    (added : ∀ e ∈ extents, ∃ device, e.Placed devices device)
    (left : ∃ x ∈ around front back p, Beyond devices x) :
    ∃ x ∈ around front back (extendAll p extents), Beyond devices x := by
  induction extents generalizing p with
  | nil => exact left
  | cons e rest ih =>
    obtain ⟨onE, placedE⟩ := added e mem_cons_self
    refine ih (placed_addExtent old placedE.addressable fun _ => ⟨onE, placedE⟩)
      (fun x member => added x (mem_cons_of_mem _ member)) (exists_addExtent ?_ left)
    rintro x member continued ⟨device, known, behind⟩
    obtain ⟨_, placed⟩ := old x member
    have merged := LinearExtent.merge_limit continued placed.addressable placedE.addressable
    have grows : x.limit ≤ e.limit := by
      rw [merged.1, LinearExtent.limit]
      omega
    exact ⟨device, known, by rw [merged.2.1]; omega⟩

theorem InBounds.contained (inside : b.InBounds) (pos : b.Positioned) :
    ∀ x ∈ b.linearExtents, Contained b.blockDevices x := by
  intro x member
  obtain ⟨device, placed⟩ := pos.placed x member
  obtain ⟨found, known, _, ends⟩ := inside x member
  rw [placed.known, some.injEq] at known
  exact ⟨device, placed, known ▸ ends⟩

theorem inBounds_of_contained (contained : ∀ x ∈ b.linearExtents, Contained b.blockDevices x) :
    b.InBounds := by
  intro x member
  obtain ⟨device, placed, ends⟩ := contained x member
  exact ⟨device, placed.known, placed.first, ends⟩

theorem not_inBounds_of_beyond (left : ∃ x ∈ b.linearExtents, Beyond b.blockDevices x) :
    ¬ b.InBounds := by
  intro inside
  obtain ⟨x, member, device, known, behind⟩ := left
  obtain ⟨found, isFound, _, ends⟩ := inside x member
  rw [known, some.injEq] at isFound
  subst isFound
  omega

/-- In a growth, `Overruns` speaks about the tail that is added. -/
theorem overruns_resize_iff {front back : List Partition} {partition : Partition}
    {properties : Properties} {requestedSize alignedSize : BitVec 64}
    {hint candidates : List Interval} (split : b.partitions = front ++ partition :: back)
    (first : ∀ other ∈ front, other.name ≠ partition.name)
    (aligned : alignTo requestedSize b.geometry.logicalBlockSize = some alignedSize)
    (larger : partition.size < alignedSize)
    (found : b.candidateRegions properties partition hint = .ok candidates) :
    b.Overruns (.resizePartition properties partition.name requestedSize hint) ↔
      ∃ tail, b.extendFinalExtent partition candidates
        ((alignedSize - partition.size) / sectorSize) = some tail ∧ Beyond b.blockDevices tail := by
  constructor
  · rintro ⟨other, otherSize, others, tail, device, isFound, isAligned, _, areFound, extension,
      known, behind⟩
    rw [findPartition_split split first, some.injEq] at isFound
    subst isFound
    rw [aligned, some.injEq] at isAligned
    subst isAligned
    rw [found, Except.ok.injEq] at areFound
    subst areFound
    exact ⟨tail, extension, device, known, behind⟩
  · rintro ⟨tail, extension, device, known, behind⟩
    exact ⟨partition, alignedSize, candidates, tail, device, findPartition_split split first,
      aligned, larger, found, extension, known, behind⟩

/-- A successful growth leaves the device exactly when its tail does. -/
theorem Positioned.grows_inBounds (pos : b.Positioned) (inside : b.InBounds)
    (grows : b.Grows op after) :
    after.InBounds ↔ ¬ b.Overruns op := by
  obtain @⟨front, back, partition, changed, properties, requestedSize, alignedSize, hint, split,
    first, aligned, larger, grown⟩ := grows
  obtain ⟨free, candidates, extents, reported, found, carved, takes, rfl⟩ := pos.growth grown
  rw [overruns_resize_iff split first aligned larger found]
  have owned : partition ∈ b.partitions := by rw [split]; simp
  have all : b.linearExtents = around (front.flatMap Partition.linearExtents)
    (back.flatMap Partition.linearExtents) partition := linearExtents_split split
  have old := inside.contained pos
  have placedOld := pos.placed
  rw [all] at old placedOld
  have added : ∀ e ∈ extents, Contained b.blockDevices e := fun e member => by
    obtain ⟨c, inCandidates, takesC⟩ := Spans.selection_origin takes member
    exact pos.takes_placed reported carved inCandidates takesC
  have placedNew : ∀ e ∈ extents, ∃ device, e.Placed b.blockDevices device := fun e member =>
    (added e member).elim fun device both => ⟨device, both.1⟩
  cases extension : b.extendFinalExtent partition candidates
    ((alignedSize - partition.size) / sectorSize) with
  | none =>
    simp only [reduceCtorEq, false_and, exists_false, not_false_eq_true, iff_true]
    apply inBounds_of_contained
    rw [linearExtents_around]
    exact contained_extendAll old added
  | some tail =>
    have freeTail := pos.freeTail owned extension
    have ends : ∃ device, b.blockDevices[tail.deviceIndex.toNat]? = some device := by
      obtain ⟨kept, previous, device, _, _, known, _, _, rfl⟩ :=
        misalignedTail_some (extendFinalExtent_some extension).1
      exact ⟨device, known⟩
    obtain ⟨device, known⟩ := ends
    by_cases fits : tail.limit ≤ (lastSector device).toNat
    · have within : ¬ ∃ other, some tail = some other ∧ Beyond b.blockDevices other := by
        rintro ⟨_, same, found, isFound, behind⟩
        cases same
        rw [known, some.injEq] at isFound
        subst isFound
        omega
      simp only [within, not_false_eq_true, iff_true]
      apply inBounds_of_contained
      rw [linearExtents_around]
      exact contained_extendAll (p := partition.addExtent (.linear tail))
        (contained_addExtent old known fits fun separate =>
        absurd freeTail.continues separate) added
    · have behind : Beyond b.blockDevices tail := ⟨device, known, by omega⟩
      simp only [some.injEq, exists_eq_left', behind, not_true_eq_false, iff_false]
      apply not_inBounds_of_beyond
      rw [linearExtents_around]
      refine beyond_extendAll (p := partition.addExtent (.linear tail))
        (placed_addExtent placedOld freeTail.addressable fun separate =>
          absurd freeTail.continues separate) placedNew ?_
      rcases around_addExtent (front.flatMap Partition.linearExtents)
        (back.flatMap Partition.linearExtents) partition tail with
        ⟨separate, _⟩ | ⟨previous, rest, before, continued, after⟩
      · exact absurd freeTail.continues separate
      · obtain ⟨_, placed⟩ := placedOld previous (before.mem_iff.mpr mem_cons_self)
        refine ⟨previous.merge tail, after.mem_iff.mpr mem_cons_self, device, ?_, ?_⟩
        · rw [← known, ← (LinearExtent.continuedBy_iff.mp continued).2]
          rfl
        · rw [(LinearExtent.merge_limit continued placed.addressable freeTail.addressable).2.1]
          omega

theorem Overruns.enlarges (overruns : b.Overruns op) : b.Enlarges op := by
  cases op with
  | resizePartition properties name requestedSize hint =>
    obtain ⟨partition, alignedSize, _, _, _, found, aligned, larger, _⟩ := overruns
    exact ⟨partition, alignedSize, found, aligned, larger⟩
  | _ => exact overruns

theorem Positioned.apply_inBounds (pos : b.Positioned) (inside : b.InBounds) (sizing : op.sizing)
    (done : b.apply op = .ok (after, result)) :
    after.InBounds ↔ (result = true → ¬ b.Overruns op) := by
  rcases apply_sizing sizing done with ⟨frees, kept⟩ | ⟨succeeded, grows⟩
  · exact iff_of_true (inside.frees frees) fun succeeded overruns =>
      kept succeeded overruns.enlarges
  · rw [pos.grows_inBounds inside grows]
    exact ⟨fun fits _ => fits, fun fits => fits succeeded⟩

theorem Positioned.run {ops : List Op} (pos : b.Positioned) (sizing : ∀ op ∈ ops, op.sizing)
    (ran : b.run ops = .ok after) :
    after.Positioned :=
  run_invariant Positioned (fun op => op.sizing)
    (fun _ _ _ _ allowed pos done => pos.apply allowed done) sizing pos ran

/-- Along a sequence of sizing calls with any hints, every state is in bounds exactly when no
successful call takes a tail behind the end of its device. -/
theorem run_inBounds_iff {blockDevices : List BlockDeviceInfo} {superPartition : Name}
    {metadataMaxSize metadataSlotCount : BitVec 32} {fresh : MetadataBuilder} {ops : List Op}
    (few : blockDevices.length ≤ 2 ^ 32)
    (created : new blockDevices superPartition metadataMaxSize metadataSlotCount = some fresh)
    (sizing : ∀ op ∈ ops, op.sizing) :
    (∀ n b, fresh.run (ops.take n) = .ok b → b.InBounds) ↔
      ∀ n op b after, ops[n]? = some op → fresh.run (ops.take n) = .ok b →
        b.apply op = .ok (after, true) → ¬ b.Overruns op := by
  have start := (new_disjoint created few).toPositioned
  have positioned : ∀ n b, fresh.run (ops.take n) = .ok b → b.Positioned := fun n b ran =>
    start.run (fun op member => sizing op (mem_of_mem_take member)) ran
  constructor
  · intro inside n op b after here ran done
    have next := inside (n + 1) after ((run_take_succ here).mpr ⟨b, true, ran, done⟩)
    exact ((positioned n b ran).apply_inBounds (inside n b ran)
      (sizing op (mem_of_getElem? here)) done).mp next rfl
  · intro fits n
    induction n with
    | zero =>
      intro b ran
      cases ran
      intro e member
      rw [linearExtents, (new_roomy created).2.2, flatMap_nil] at member
      cases member
    | succ n ih =>
      intro after ran
      rcases here : ops[n]? with _ | op
      · have same : ops.take (n + 1) = ops.take n := by
          rw [take_add_one, here, toList_none, append_nil]
        exact ih after (same ▸ ran)
      · obtain ⟨b, result, before, done⟩ := (run_take_succ here).mp ran
        refine ((positioned n b before).apply_inBounds (ih b before)
          (sizing op (mem_of_getElem? here)) done).mpr fun succeeded => ?_
        subst succeeded
        exact fits n op b after here before done

/-- Two resizes on `unevenSuper`: the second one succeeds and ends at sector 8192 of a device
with 6160 sectors. -/
theorem resize_leaves_device :
    ∃ b after, new [unevenSuper] defaultPartitionName 65536 2 = some unevenBuilder ∧
      unevenBuilder.run (sizeTo [2101248]) = .ok b ∧
      b.apply (.resizePartition ⟨[], false⟩ (ascii ['a']) 3145728 []) = .ok (after, true) ∧
      after.linearExtents = [⟨6144, 0, 2048⟩] ∧ ¬ after.InBounds := by
  refine ⟨_, _, new_unevenSuper, rfl, rfl, rfl, ?_⟩
  apply not_inBounds_of_beyond
  exact ⟨_, mem_cons_self, _, rfl, by decide⟩

theorem run_inBounds_iff_uneven : ¬ ∀ n op b after, (sizeTo [2101248, 3145728])[n]? = some op →
      unevenBuilder.run ((sizeTo [2101248, 3145728]).take n) = .ok b →
      b.apply op = .ok (after, true) → ¬ b.Overruns op := by
  rw [← run_inBounds_iff (by decide) new_unevenSuper
    fun op member => (sizeTo_sizing _ op member).1]
  intro inside
  have final : ∃ b, unevenBuilder.run ((sizeTo [2101248, 3145728]).take 3) = .ok b ∧
      b.linearExtents = [⟨6144, 0, 2048⟩] ∧
      b.blockDevices.map (fun device => (lastSector device).toNat) = [6160] := ⟨_, rfl, rfl, rfl⟩
  obtain ⟨b, ran, extents, devices⟩ := final
  obtain ⟨device, known, _, ends⟩ := inside 3 b ran ⟨6144, 0, 2048⟩ (by rw [extents]; simp)
  have last := mem_map_of_mem (f := fun device => (lastSector device).toNat) (mem_of_getElem? known)
  rw [devices, mem_singleton] at last
  rw [last] at ends
  exact absurd ends (by decide)

end Aosp.Liblp.MetadataBuilder
