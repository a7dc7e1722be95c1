import Aosp.Liblp.Growth
import Aosp.Liblp.Operations

namespace Aosp.Liblp

open BitVec Fallible List Extent

namespace LinearExtent

/-- `ShrinkTo` leaves an extent where it is and may cut its end. -/
structure Keeps (after before : LinearExtent) : Prop where
  device : after.deviceIndex = before.deviceIndex
  start : after.physicalSector = before.physicalSector
  shorter : after.numSectors.toNat ≤ before.numSectors.toNat
  nonempty : 0 < before.numSectors.toNat → 0 < after.numSectors.toNat

instance : Std.Refl Keeps := ⟨fun _ => ⟨rfl, rfl, le_rfl, id⟩⟩

instance : IsTrans LinearExtent Keeps := ⟨fun _ _ _ first second =>
  ⟨first.device.trans second.device, first.start.trans second.start,
    first.shorter.trans second.shorter, fun positive => first.nonempty (second.nonempty positive)⟩⟩

theorem Keeps.limit {after before : LinearExtent} (keeps : after.Keeps before) :
    after.limit ≤ before.limit := by
  have := keeps.shorter
  simp only [LinearExtent.limit, keeps.start]
  omega

variable {e e' : LinearExtent}

theorem Keeps.apart {f f' : LinearExtent} (keepsE : e.Keeps e') (keepsF : f.Keeps f')
    (apart : e'.Apart f') :
    e.Apart f := by
  intro same
  have limitE := keepsE.limit
  have limitF := keepsF.limit
  rcases apart (keepsE.device.symm.trans (same.trans keepsF.device)) with before | after
  · rw [keepsF.start]
    exact .inl (limitE.trans before)
  · rw [keepsE.start]
    exact .inr (limitF.trans after)

variable {devices : List LpMetadataBlockDevice} {device : LpMetadataBlockDevice}

theorem Keeps.placed (keeps : e.Keeps e') (placed : e'.Placed devices device) :
    e.Placed devices device where
  known := by rw [keeps.device]; exact placed.known
  first := by rw [keeps.start]; exact placed.first
  last := by rw [keeps.start]; exact placed.last
  nonempty := keeps.nonempty placed.nonempty
  addressable := keeps.limit.trans_lt placed.addressable

variable {previous next : LinearExtent}

theorem continuedBy_iff : previous.continuedBy next ↔
      previous.endSector = next.physicalSector ∧ previous.deviceIndex = next.deviceIndex := by
  rw [continuedBy, decide_eq_true_eq]

theorem merge_limit (continued : previous.continuedBy next)
    (addressable : previous.limit < 2 ^ 55) (fits : next.limit < 2 ^ 55) :
    previous.limit = next.physicalSector.toNat ∧ (previous.merge next).limit = next.limit ∧
      (previous.merge next).numSectors.toNat =
      previous.numSectors.toNat + next.numSectors.toNat := by
  have met := (continuedBy_iff.mp continued).1
  have position : previous.limit = next.physicalSector.toNat := by
    rw [← met, endSector_toNat addressable]
  have sum : (previous.merge next).numSectors.toNat =
      previous.numSectors.toNat + next.numSectors.toNat := by
    simp only [merge, toNat_add]
    simp only [limit] at *
    rw [Nat.mod_eq_of_lt (by omega)]
  refine ⟨position, ?_, sum⟩
  simp only [limit, sum] at *
  simp only [merge]
  omega

theorem Apart.merge {x : LinearExtent} (nonempty : 0 < x.numSectors.toNat)
    (continued : previous.continuedBy next) (addressable : previous.limit < 2 ^ 55)
    (fits : next.limit < 2 ^ 55) (first : x.Apart previous) (second : x.Apart next) :
    x.Apart (previous.merge next) := by
  obtain ⟨position, limit, _⟩ := merge_limit continued addressable fits
  intro same
  have onPrevious : x.deviceIndex = previous.deviceIndex := same
  have onNext := onPrevious.trans (continuedBy_iff.mp continued).2
  have start : (previous.merge next).physicalSector = previous.physicalSector := rfl
  have length : x.limit = x.physicalSector.toNat + x.numSectors.toNat := rfl
  rw [limit]
  rcases first onPrevious with before | after
  · exact Or.inl before
  · rcases second onNext with low | high
    · omega
    · exact .inr high

theorem Placed.merge (placed : previous.Placed devices device)
    (continued : previous.continuedBy next) (fits : next.limit < 2 ^ 55) :
    (previous.merge next).Placed devices device := by
  obtain ⟨_, limit, sum⟩ := merge_limit continued placed.addressable fits
  have nonempty := placed.nonempty
  refine ⟨placed.known, placed.first, placed.last, by omega, by omega⟩

end LinearExtent

namespace Partition

open LinearExtent (Keeps)

@[simp] theorem linearExtents_new (name groupName : Name) (attributes : BitVec 32) :
    (new name groupName attributes).linearExtents = [] := rfl

variable {p : Partition} {next : LinearExtent}

/-- The last extent ends where `next` starts. -/
def ContinuedBy (p : Partition) (next : LinearExtent) : Prop :=
  ∃ kept previous, p.extents = kept ++ [.linear previous] ∧ previous.continuedBy next

theorem linearExtents_addExtent_append (separate : ¬ p.ContinuedBy next) :
    (p.addExtent (.linear next)).linearExtents = p.linearExtents ++ [next] := by
  rcases eq_nil_or_concat p.extents with nothing | ⟨kept, last, split⟩
  · simp [linearExtents, addExtent, appendExtent, nothing, asLinearExtent]
  · rw [concat_eq_append] at split
    cases last with
    | zero sectors =>
      simp only [linearExtents, addExtent, appendExtent, split, getLast?_append,
        getLast?_singleton, Option.some_or, filterMap_append, filterMap_cons, asLinearExtent,
        filterMap_nil]
    | linear previous =>
      have apart : ¬ previous.continuedBy next := fun continued =>
        separate ⟨kept, previous, split, continued⟩
      simp [linearExtents, addExtent, appendExtent, split, apart, asLinearExtent]

/-- What `ShrinkTo` leaves: a front of the extents, the last of them possibly cut. -/
inductive CutTo (before : List Extent) : List Extent → Prop
  | whole (after dropped : List Extent) : before = after ++ dropped → CutTo before after
  | cut (kept dropped : List Extent) (last : Extent) (sectors : BitVec 64) :
      before = kept ++ last :: dropped → 0 < sectors.toNat →
      sectors.toNat ≤ last.numSectors.toNat → CutTo before (kept ++ [last.setNumSectors sectors])

variable {after : List Extent}

theorem shrinkLoop_cut {reversed : List Extent} {toRemove size final : BitVec 64}
    (done : shrinkLoop reversed toRemove size = some (after, final)) :
    CutTo reversed.reverse after.reverse := by
  induction reversed generalizing toRemove size with
  | nil =>
    rw [shrinkLoop] at done
    split at done
    · cases done
      exact .whole _ [] rfl
    · cases done
  | cons extent rest ih =>
    rw [shrinkLoop] at done
    split at done
    · cases done
      exact .whole _ [] (append_nil _).symm
    split at done
    · rename_i enough
      cases done
      rw [reverse_cons, reverse_cons]
      rw [lt_def] at enough
      have left : (extent.numSectors - toRemove).toNat = extent.numSectors.toNat - toRemove.toNat :=
        toNat_sub_of_le (by rw [le_def]; omega)
      exact .cut rest.reverse [] extent _ rfl (by omega) (by omega)
    · have shorter := ih done
      generalize after.reverse = remaining at shorter ⊢
      cases shorter with
      | whole _ dropped split => exact .whole _ (dropped ++ [extent]) (by simp [split])
      | cut kept dropped last sectors split positive bound =>
        exact .cut kept (dropped ++ [extent]) last sectors
          (by simp [split]) positive bound

theorem shrinkTo_cut {shrunk : Partition} {alignedSize : BitVec 64}
    (done : p.shrinkTo alignedSize = some shrunk) :
    CutTo p.extents shrunk.extents ∧ shrunk =
      { p with extents := shrunk.extents, size := shrunk.size } := by
  unfold shrinkTo at done
  split at done
  · cases done
    exact ⟨.whole [] p.extents rfl, rfl⟩
  · rw [Option.map_eq_some_iff] at done
    obtain ⟨⟨after, size⟩, loop, rfl⟩ := done
    refine ⟨?_, rfl⟩
    have cut := shrinkLoop_cut loop
    rwa [reverse_reverse] at cut

theorem CutTo.linear {before : List Extent} (cut : CutTo before after) :
    List.SublistForall₂ Keeps (after.filterMap Extent.asLinearExtent)
      (before.filterMap Extent.asLinearExtent) := by
  cases cut with
  | whole _ dropped split =>
    rw [split, filterMap_append]
    exact (sublist_append_left _ _).sublistForall₂
  | cut kept dropped last sectors split positive bound =>
    rw [split, filterMap_append, filterMap_append]
    cases last with
    | zero sectors =>
      simp only [setNumSectors, asLinearExtent, filterMap_cons, filterMap_nil, append_nil]
      exact (sublist_append_left _ _).sublistForall₂
    | linear extent =>
      rw [sublistForall₂_iff]
      refine ⟨kept.filterMap asLinearExtent ++ [extent],
        rel_append (forall₂_refl _) (.cons ?_ .nil), ?_⟩
      · exact ⟨rfl, rfl, bound, fun _ => positive⟩
      · exact (List.Sublist.refl _).append (singleton_sublist.mpr mem_cons_self)

end Partition

namespace MetadataBuilder

open LinearExtent (Keeps)

variable {name : Name} {change : Partition → Except Fault (Partition × Bool)} {result : Bool}

theorem updateFirst_eq_ok {partitions after : List Partition}
    (done : updateFirst name change partitions = .ok (after, result)) :
    ∃ front partition changed back, partitions = front ++ partition :: back ∧
      (∀ other ∈ front, other.name ≠ name) ∧ partition.name = name ∧
      change partition = .ok (changed, result) ∧ after = front ++ changed :: back := by
  induction partitions generalizing after with
  | nil => cases done
  | cons partition rest ih =>
    rw [updateFirst] at done
    split at done
    · rename_i named
      rw [bind_eq_ok] at done
      obtain ⟨⟨changed, _⟩, applied, done⟩ := done
      cases done
      exact ⟨[], partition, changed, rest, rfl, nofun, named, applied, rfl⟩
    · rename_i other
      rw [bind_eq_ok] at done
      obtain ⟨⟨others, _⟩, later, done⟩ := done
      cases done
      obtain ⟨front, found, changed, back, rfl, before, named, applied, rfl⟩ := ih later
      refine ⟨partition :: front, found, changed, back, rfl, fun q member => ?_, named,
        applied, rfl⟩
      rcases mem_cons.mp member with rfl | member
      · exact other
      · exact before q member

variable {b : MetadataBuilder}

theorem withPartition_eq_ok {after : MetadataBuilder}
        (done : b.withPartition name change = .ok (after, result)) :
    ∃ front partition changed back, b.partitions = front ++ partition :: back ∧
      (∀ other ∈ front, other.name ≠ name) ∧ partition.name = name ∧
      change partition = .ok (changed, result) ∧
      after = { b with partitions := front ++ changed :: back } := by
  unfold withPartition at done
  rw [bind_eq_ok] at done
  obtain ⟨⟨partitions, _⟩, updated, done⟩ := done
  cases done
  obtain ⟨front, partition, changed, back, split, before, named, applied, rfl⟩ :=
    updateFirst_eq_ok updated
  exact ⟨front, partition, changed, back, split, before, named, applied, rfl⟩

theorem linearExtents_split {front back : List Partition}
    {partition : Partition} (split : b.partitions = front ++ partition :: back) :
    b.linearExtents = front.flatMap Partition.linearExtents ++
      (partition.linearExtents ++ back.flatMap Partition.linearExtents) := by
  simp [linearExtents, split]

end MetadataBuilder

end Aosp.Liblp
