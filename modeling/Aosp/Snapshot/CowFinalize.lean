import Aosp.Snapshot.AddedOps

namespace Aosp.Snapshot

open List
open Layout (Byte File Write)

namespace Stream

/-- A stream behind `Finalize`: only the end of the cluster has been written besides. -/
def finished (k : Nat) (s : Stream) : Stream := { s with writes := (s.sealed k).writes }

variable {k : Nat} {s : Stream}

theorem Within.clustered (within : s.Within k) (filled : s.back ≠ []) : k ≠ 0 := by
  intro zero
  rw [Within, if_pos zero] at within
  exact filled within.2

theorem length_image (within : s.Within k) :
    (s.image k).length =
      (if s.back = [] then s.front.length else s.dataPos k) + sizeofCowFooter := by
  rw [image, length_append, length_footer, sealed]
  split
  · rfl
  · rename_i filled
    rw [length_close within (within.clustered filled)]

end Stream

namespace CowWriter

variable {w : CowWriter} {s : Stream}

theorem Stands.unusedClusterSpace (stands : Stands w s) :
    w.unusedClusterSpace = if w.clusterOps = 0 then 0 else (w.clusterOps - s.ops) * 20 := by
  have small := stands.sound.small
  have within := stands.within
  rw [CowWriter.unusedClusterSpace, stands.sound.cluster, stands.ops]
  unfold Stream.Within at within
  rcases Nat.eq_zero_or_pos w.clusterOps with unclustered | clustered
  · rw [if_pos (by omega), if_pos unclustered]
  · rw [if_neg (by omega)] at within
    rw [if_neg (by omega), if_neg (by omega)]
    omega

theorem Stands.clearCluster (stands : Stands w s) (ops : w.opVec = []) (data : w.dataVec = [])
    (fits : w.nextOpPos + w.unusedClusterSpace ≤ w.cowImageSize) :
    Stands w.clearCluster s ∧ w.clearCluster.flushed = w.clearCluster.file ∧ (w.clusterOps ≠ 0 →
      w.clearCluster.flushed.Has (w.nextOpPos + 20) (List.replicate (s.gap w.clusterOps) 0)) := by
  have flushed : w.clearCluster.flushed = w.clearCluster.file := flushed_direct ops data
  have before : w.flushed = w.file := flushed_direct ops data
  have on := stands.on
  have within := stands.within
  have space := stands.unusedClusterSpace
  have queued := stands.queued
  rw [before] at on
  refine ⟨⟨stands.sound, within, stands.count, stands.opPos, stands.dataPos, stands.ops,
    stands.data, stands.inside, stands.bounded, ?_, ?_, stands.writes,
    ⟨queued.direct, queued.ops, queued.data, queued.within, queued.short⟩, stands.logged,
    stands.indices⟩, flushed, fun clustered => ?_⟩
  · rw [flushed]
    refine ⟨on.1.pwrite (.inl ?_), on.2.pwrite (.inr ?_)⟩
    · rw [Nat.zero_add]
      exact Nat.le_of_eq stands.opPos.symm
    · simp only [Write.stop, length_replicate, stands.opPos, space]
      split <;> omega
  · rw [flushed]
    have capacity := stands.sound.capacity
    refine File.size_pwrite_lt (before ▸ stands.size) ?_
    simp
    omega
  · rw [flushed]
    have split : w.unusedClusterSpace = 20 + s.gap w.clusterOps := by
      rw [Stream.Within, if_neg clustered] at within
      rw [space, if_neg clustered, Stream.gap]
      omega
    have parts : List.replicate w.unusedClusterSpace (0 : Byte) = List.replicate 20 0 ++
        List.replicate (s.gap w.clusterOps) 0 := by rw [split, replicate_append_replicate]
    change (w.file.pwrite ⟨w.nextOpPos, List.replicate w.unusedClusterSpace 0⟩).Has _ _
    rw [parts]
    have written := File.has_pwrite w.file
      ⟨w.nextOpPos, List.replicate 20 0 ++ List.replicate (s.gap w.clusterOps) 0⟩
    exact (File.has_append.mp written).2

theorem Stands.writeFooter (stands : Stands w s) (flushed : w.flushed = w.file)
    (fits : w.nextOpPos + sizeofCowFooter ≤ w.cowImageSize) :
    w.writeFooter.file.Has 0 (s.front ++ s.footer) ∧ w.writeFooter.file.size < 2 ^ 63 ∧
      (w.isBlockDevice = false → w.writeFooter.file.size = (s.front ++ s.footer).length) := by
  have front := stands.on.1
  rw [flushed] at front
  have both : (w.file.pwrite ⟨w.nextOpPos, s.footer⟩).Has 0 (s.front ++ s.footer) := by
    rw [File.has_append, Nat.zero_add, ← stands.opPos]
    refine ⟨front.pwrite (.inl ?_), File.has_pwrite _ _⟩
    rw [Nat.zero_add]
    exact Nat.le_of_eq stands.opPos.symm
  have length : (s.front ++ s.footer).length = w.nextOpPos + sizeofCowFooter := by
    rw [length_append, Stream.length_footer, stands.opPos]
  have isFile : w.writeFooter.file = if w.isBlockDevice then w.file.pwrite ⟨w.nextOpPos, s.footer⟩
      else (w.file.pwrite ⟨w.nextOpPos, s.footer⟩).truncate (w.nextOpPos + sizeofCowFooter) := by
    rw [Stream.footer, ← stands.count]
    rfl
  have capacity := stands.sound.capacity
  rw [isFile]
  split
  · refine ⟨both, File.size_pwrite_lt (flushed ▸ stands.size) ?_,
      fun regular => absurd (‹w.isBlockDevice = true›.symm.trans regular) (by decide)⟩
    rw [Stream.length_footer]
    omega
  · exact ⟨both.truncate (by rw [length]; omega), Nat.lt_of_le_of_lt fits capacity,
      fun _ => length.symm⟩

/-- What a successful `Finalize` leaves. -/
structure Finalized (w : CowWriter) (s : Stream) (w' : CowWriter) : Prop where
  stands : Stands w' (s.finished w.clusterOps)
  setup : w'.toCowSetup = w.toCowSetup
  has : w'.file.Has 0 (s.image w.clusterOps)
  small : w'.file.size < 2 ^ 63
  size : w.isBlockDevice = false → w'.file.size = (s.image w.clusterOps).length
  writes : w'.writes.Perm (s.sealed w.clusterOps).writes

theorem flushCluster_empty (ops : w.opVec = []) (data : w.dataVec = []) :
    w.flushCluster = (true, w.flushQueues) := by
  rw [CowWriter.flushCluster, ops, data]
  rfl

/-- `Finalize` with nothing queued. -/
theorem Stands.finish (stands : Stands w s) (ops : w.opVec = []) (data : w.dataVec = [])
    (depth : Nat) :
    ∃ ok w', CowWriter.finish (depth + 1) w = some (ok, w') ∧
      (s.dataPos w.clusterOps + sizeofCowFooter ≤ w.cowImageSize → ok = true) ∧
      (ok = true → Finalized w s w') := by
  have within := stands.within
  have below := Stream.opPos_le within
  have space := stands.unusedClusterSpace
  have opPos := stands.opPos
  by_cases fits : w.nextOpPos + w.unusedClusterSpace ≤ w.cowImageSize
  swap
  · refine ⟨false, w, by simp [CowWriter.finish, ensureSpaceAvailable, fits],
      fun room => absurd ?_ fits, nofun⟩
    unfold Stream.dataPos at room
    split at room <;> simp_all <;> omega
  obtain ⟨cleared, direct, empty⟩ := stands.clearCluster ops data fits
  have isOpen : w.clusterSize ≠ 0 ∧ 0 < w.currentDataSize ↔ s.back ≠ [] := by
    rw [stands.sound.cluster, stands.data, length_pos_iff]
    refine ⟨And.right, fun filled => ⟨?_, filled⟩⟩
    have := within.clustered filled
    omega
  -- the writer behind the last operation, and the footer behind that
  obtain ⟨w₂, ended, stands₂, setup₂, ops₂, data₂⟩ : ∃ w₂,
      (if w.clusterSize ≠ 0 ∧ 0 < w.currentDataSize then
        CowWriter.emitCluster (CowWriter.writeOperation (depth + 1)) w.clearCluster
      else some (true, w.clearCluster)) = some (true, w₂) ∧ Stands w₂ (s.sealed w.clusterOps) ∧
        w₂.toCowSetup = w.toCowSetup ∧ w₂.opVec = [] ∧ w₂.dataVec = [] := by
    unfold Stream.sealed
    by_cases closed : s.back = []
    · rw [if_pos closed, if_neg (fun both => isOpen.mp both closed)]
      exact ⟨_, rfl, cleared, rfl, ops, data⟩
    · rw [if_neg closed, if_pos (isOpen.mpr closed)]
      have clustered := within.clustered closed
      exact cleared.emitCluster depth clustered
        (by rw [cleared.dataPos]; exact stands.inside closed) (empty clustered)
  have last : w₂.nextOpPos + sizeofCowFooter = (s.image w.clusterOps).length := by
    rw [stands₂.opPos, Stream.image, length_append, Stream.length_footer]
  unfold CowWriter.finish ensureSpaceAvailable
  simp only [fits, decide_true, Bool.not_true, Bool.false_eq_true, ↓reduceIte, decide_eq_true_eq,
    ended, Option.map_some, last, setup₂]
  rw [Stream.length_image within]
  by_cases footerFits : (if s.back = [] then s.front.length else s.dataPos w.clusterOps) +
      sizeofCowFooter ≤ w.cowImageSize
  · obtain ⟨w₃, isLast, setup, isFile, isWrites, indices, ops, data, count, nextOp, nextData,
        cluster, size⟩ : ∃ w₃, (if w.clusterSize ≠ 0 ∧ 0 < w.currentDataSize then
          w₂.writeFooter.reposition w else w₂.writeFooter) = w₃ ∧
        w₃.toCowSetup = w.toCowSetup ∧ w₃.file = w₂.writeFooter.file ∧
        w₃.writes = w₂.writes ∧ w₃.indices = w₂.indices ∧ w₃.opVec = [] ∧ w₃.dataVec = [] ∧
        w₃.numOps = w.numOps ∧ w₃.nextOpPos = w.nextOpPos ∧ w₃.nextDataPos = w.nextDataPos ∧
        w₃.currentClusterSize = w.currentClusterSize ∧
        w₃.currentDataSize = w.currentDataSize := by
      by_cases extra : w.clusterSize ≠ 0 ∧ 0 < w.currentDataSize
      · rw [if_pos extra]
        exact ⟨_, rfl, setup₂, rfl, rfl, rfl, ops₂, data₂, rfl, rfl, rfl, rfl, rfl⟩
      · rw [if_neg extra] at ended ⊢
        cases ended
        exact ⟨_, rfl, rfl, rfl, rfl, rfl, ops, data, rfl, rfl, rfl, rfl, rfl⟩
    obtain ⟨has, small, length⟩ := stands₂.writeFooter (flushed_direct ops₂ data₂) (by
      rwa [last, Stream.length_image within, setup₂])
    have writes : w₃.flushQueues.writes.Perm (s.sealed w.clusterOps).writes := by
      have perm := stands₂.writes
      simpa [CowWriter.flushQueues, pwritev, gather, ops, data, ops₂, data₂, isWrites] using perm
    have file : w₃.flushQueues.file = w₂.writeFooter.file := by
      rw [← isFile]
      exact flushed_direct ops data
    have on : s.On w.clusterOps w₂.writeFooter.file := by
      have front := (File.has_append.mp has).1
      unfold Stream.sealed at front
      split at front
      · rename_i closed
        exact ⟨front, closed ▸ File.has_nil _ _⟩
      · rename_i filled
        exact (Stream.On.of_close (within.clustered filled) within ⟨front, File.has_nil _ _⟩).1
    refine ⟨true, w₃.flushQueues, ?_, fun _ => rfl, fun _ => ⟨?_, setup, by rwa [file],
      by rwa [file], ?_, writes⟩⟩
    · simp only [footerFits, decide_true, Bool.not_true, Bool.false_eq_true, ↓reduceIte, isLast,
        flushCluster_empty ops data]
    · have same : w₃.flushQueues.toCowSetup = w.toCowSetup := setup
      refine ⟨?_, ?_, count.trans stands.count, nextOp.trans stands.opPos, ?_,
        cluster.trans stands.ops, size.trans stands.data, ?_, ?_, ?_, ?_, ?_,
        queued_flushQueues _ fun batch => ?_, fun batch => ?_, ?_⟩
      · exact same ▸ stands.sound
      · exact same ▸ within
      · rw [same]
        exact nextData.trans stands.dataPos
      · exact same ▸ stands.inside
      · exact same ▸ stands.bounded
      · rw [same, flushed_direct rfl rfl, file]
        exact on
      · rwa [flushed_direct rfl rfl, file]
      · simpa [CowWriter.flushQueues, pwritev, gather, Stream.finished] using writes
      · exact ((setup ▸ stands.sound).batched batch).1
      · have logged := stands₂.logged (by rw [setup₂, ← same, batch])
        rw [← indices] at logged
        refine le_trans ?_ logged
        unfold Stream.sealed
        split
        · exact le_refl _
        · simp [Stream.finished, Stream.close]
      · have bounded := stands₂.indices
        rw [setup₂, ← indices] at bounded
        rw [same]
        exact bounded
    · intro regular
      rw [file]
      exact length (by rw [setup₂, regular])
  · exact ⟨false, w₂, by simp [footerFits], fun room => absurd (by split <;> omega) footerFits,
      nofun⟩

theorem Stands.finalize (stands : Stands w s) (depth : Nat) :
    ∃ ok w', CowWriter.finalize (depth + 1) w = some (ok, w') ∧
      (s.dataPos w.clusterOps + sizeofCowFooter ≤ w.cowImageSize → ok = true) ∧
      (ok = true → Finalized w s w') := by
  obtain ⟨ok, w', finished, room, result⟩ := stands.flushQueues.finish rfl rfl depth
  refine ⟨ok, w', ?_, room, fun success => ?_⟩
  · rw [CowWriter.finalize, stands.flushCluster_eq]
    exact finished
  · obtain ⟨stands', setup, has, small, size, writes⟩ := result success
    exact ⟨stands', setup, has, small, size, writes⟩

end CowWriter

end Aosp.Snapshot
