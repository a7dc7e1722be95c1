import Aosp.Snapshot.CowStream
import Aosp.Snapshot.CowWriter

/- The writer in step with a stream: whether an operation is written at once or queued, the file
that a flush would leave gets the operation and its data at their positions. -/
namespace Aosp.Snapshot

open List Aosp.Snapshot.Stream CowOperation
open Layout (Byte File Write)

abbrev CowSetup.clusterOps (t : CowSetup) : Nat := t.header.clusterOps.toNat

/-- A cluster whose size can be represented and whose queues can be written at once, and a device a
file offset can reach. -/
structure CowSetup.Sound (t : CowSetup) : Prop where
  cluster : t.clusterSize = t.clusterOps * 20
  small : t.clusterOps * 20 < 2 ^ 32
  several : t.clusterOps ≠ 1
  batched : t.batchWrite = true → t.clusterOps ≠ 0 ∧ t.clusterOps ≤ CowWriter.iovMax
  capacity : t.cowImageSize < 2 ^ 63

/-- What a writer can take: what its stream can hold, and no more data than a buffer of a batch. -/
def CowSetup.Takes (t : CowSetup) (item : Item) : Prop :=
  item.Fits t.clusterOps ∧
    (t.batchWrite = true → item.data.length ≤ t.header.blockSize.toNat * 2)

namespace CowWriter

/-- The file with everything that is queued. -/
def flushed (w : CowWriter) : File := w.flushQueues.file

section Queues

theorem gather_append (address : Nat) (front : List (List Byte)) (bytes : List Byte) :
    gather address (front ++ [bytes]) =
      gather address front ++ [⟨address + front.flatten.length, bytes⟩] := by
  induction front generalizing address with
  | nil => rfl
  | cons first rest ih =>
    rw [cons_append, gather, ih, gather, cons_append, flatten_cons, length_append, add_assoc]

theorem le_of_mem_gather {address : Nat} {buffers : List (List Byte)} {v : Write}
    (member : v ∈ gather address buffers) :
    address ≤ v.address := by
  induction buffers generalizing address with
  | nil => cases member
  | cons bytes rest ih =>
    rcases mem_cons.mp member with rfl | later
    · exact le_refl _
    · exact le_trans (Nat.le_add_right _ _) (ih later)

/-- The queues in step with the positions. They are only used by a writer that batches, and have
room for one more. -/
structure Queued (w : CowWriter) : Prop where
  direct : w.batchWrite = false → w.opVec = [] ∧ w.dataVec = []
  ops : w.batchWrite = true → w.currentOpPos + w.opVec.length * 20 = w.nextOpPos
  data : w.batchWrite = true → w.currentDataPos + w.dataVec.flatten.length = w.nextDataPos
  within : w.dataVec.flatten.length ≤ w.currentDataSize
  short : w.batchWrite = true → w.opVec.length < w.clusterOps ∧ w.dataVec.length < w.clusterOps

variable {w : CowWriter} {op : CowOperation} {data : List Byte}

theorem flushed_direct (ops : w.opVec = []) (data : w.dataVec = []) : w.flushed = w.file := by
  unfold flushed flushQueues pwritev
  rw [ops, data]
  rfl

/-- The writes of an operation at the current positions. -/
def writesOf (w : CowWriter) (op : CowOperation) (data : List Byte) : List Write :=
  ⟨w.nextOpPos, CowOperation.codec.encode op⟩ :: if data = [] then [] else [⟨w.nextDataPos, data⟩]

theorem flushed_store (queued : Queued w)
    (room : w.nextOpPos + 20 + w.currentDataSize ≤ w.nextDataPos) :
    (w.store op data).flushed = w.flushed.pwriteAll (w.writesOf op data) ∧
      (w.store op data).flushQueues.writes.Perm (w.flushQueues.writes ++ w.writesOf op data) := by
  cases batch : w.batchWrite with
  | false =>
    obtain ⟨noOps, noData⟩ := queued.direct batch
    by_cases empty : data = [] <;>
      simp [store, batch, empty, flushed, flushQueues, pwritev, noOps, noData, writesOf, gather,
        File.pwriteAll]
  | true =>
    have within := queued.within
    have dataPos := queued.data batch
    -- the new operation is written in front of the queued data
    have apart : ∀ v ∈ gather w.currentDataPos w.dataVec,
        Write.stop ⟨w.nextOpPos, codec.encode op⟩ ≤ v.address ∨ v.stop ≤ w.nextOpPos := by
      intro v member
      have inside := le_of_mem_gather member
      simp only [Write.stop, length_encode_op]
      omega
    have opPos : w.currentOpPos + (w.opVec.map codec.encode).flatten.length = w.nextOpPos := by
      rw [← queued.ops batch]
      exact congrArg _ (codec.encodeAll_length w.opVec)
    by_cases empty : data = []
    · simp only [store, batch, empty, flushed, flushQueues, pwritev, map_append, map_singleton,
        gather_append, opPos, File.pwriteAll_append, ↓reduceIte]
      refine ⟨File.pwriteAll_comm apart _, ?_⟩
      simp only [append_assoc]
      exact .append_left _ (.append_left _ perm_append_comm)
    · simp only [store, batch, empty, flushed, flushQueues, pwritev, writesOf, map_append,
        map_singleton, gather_append, opPos, dataPos, File.pwriteAll_append, ↓reduceIte]
      constructor
      · exact congrArg (fun file => File.pwrite file ⟨w.nextDataPos, data⟩)
          (File.pwriteAll_comm apart _)
      · simp only [append_assoc, singleton_append]
        exact .append_left _ (.append_left _ perm_middle.symm)

/-- `WriteOperation` up to the end of the cluster, where no write fails. -/
def put (w : CowWriter) (op : CowOperation) (data : List Byte) : CowWriter :=
  let w := (w.store op data).addOperation op
  if w.needsFlush op then w.flushQueues else w

theorem flushed_put (queued : Queued w)
    (room : w.nextOpPos + 20 + w.currentDataSize ≤ w.nextDataPos) :
    (w.put op data).flushed = w.flushed.pwriteAll (w.writesOf op data) ∧
      (w.put op data).flushQueues.writes.Perm (w.flushQueues.writes ++ w.writesOf op data) := by
  have stored : (w.store op data).flushed = _ ∧ _ := flushed_store queued room
  unfold put
  dsimp only
  split
  · simpa [flushed, flushQueues, pwritev, gather, File.pwriteAll, addOperation] using stored
  · exact stored

/-- Apart from the file and the queues, an operation only does what `AddOperation` does. -/
theorem put_fields (w : CowWriter) (op : CowOperation) (data : List Byte) :
    ∃ file writes indices opVec dataVec currentOpPos currentDataPos,
      w.put op data = { w.addOperation op with
        file := file, writes := writes, indices := indices, opVec := opVec, dataVec := dataVec,
        currentOpPos := currentOpPos, currentDataPos := currentDataPos } := by
  have stored : ∃ file writes indices opVec dataVec, w.store op data =
      { w with
        file := file, writes := writes, indices := indices, opVec := opVec,
        dataVec := dataVec } := by
    unfold store
    split
    · exact ⟨_, _, _, _, _, rfl⟩
    · split <;> exact ⟨_, _, _, _, _, rfl⟩
  obtain ⟨file, writes, indices, opVec, dataVec, isStored⟩ := stored
  unfold put
  rw [isStored]
  dsimp only
  split <;> exact ⟨_, _, _, _, _, _, _, rfl⟩

section Full

variable (queued : Queued w)

include queued

variable (op : CowOperation)

theorem Queued.store_short (data : List Byte) (batch : w.batchWrite = true) :
    (w.store op data).opVec.length ≤ w.clusterOps ∧
      (w.store op data).dataVec.length ≤ w.clusterOps := by
  obtain ⟨ops, datas⟩ := queued.short batch
  rw [show w.store op data = _ from if_pos batch]
  refine ⟨by simpa using Nat.succ_le_of_lt ops, ?_⟩
  dsimp only
  split
  · exact datas.le
  · simpa using Nat.succ_le_of_lt datas

/-- One more pair of indices for an operation that is queued, none above the number of buffers. -/
theorem Queued.indices (data : List Byte) :
    ∃ last, (w.put op data).indices = w.indices ++ last ∧
      (w.batchWrite = true → last.length = 1) ∧
      ∀ i ∈ last, i.1 ≤ w.clusterOps ∧ i.2 ≤ w.clusterOps := by
  have same : (w.put op data).indices = (w.store op data).indices := by
    unfold put
    dsimp only
    split <;> rfl
  rw [same]
  cases batch : w.batchWrite with
  | false =>
    refine ⟨[], ?_, nofun, nofun⟩
    by_cases empty : data = [] <;> simp [store, batch, empty, pwritev]
  | true =>
    have short := queued.store_short op data batch
    rw [show w.store op data = _ from if_pos batch] at short ⊢
    refine ⟨_, rfl, fun _ => rfl, fun i member => ?_⟩
    rw [mem_singleton.mp member]
    exact ⟨by simpa using short.1, short.2⟩

/-- With queues that `pwritev` takes, no flush fails. -/
theorem Queued.flush (data : List Byte) (sound : w.Sound) :
    (if ((w.store op data).addOperation op).needsFlush op then
      ((w.store op data).addOperation op).flushCluster
      else (true, (w.store op data).addOperation op)) = (true, w.put op data) := by
  unfold put
  dsimp only
  split
  · rename_i needed
    have batch : w.batchWrite = true := by
      by_contra direct
      have off : ((w.store op data).addOperation op).batchWrite = false := by
        by_cases empty : data = [] <;> simp_all [store, pwritev, addOperation]
      simp [needsFlush, off] at needed
    have most := (sound.batched batch).2
    have short := queued.store_short op data batch
    have ops : ¬ iovMax < ((w.store op data).addOperation op).opVec.length :=
      not_lt.mpr (le_trans short.1 most)
    have datas : ¬ iovMax < ((w.store op data).addOperation op).dataVec.length :=
      not_lt.mpr (le_trans short.2 most)
    rw [flushCluster, if_neg ops, if_neg datas]
  · rfl

theorem Queued.hasBuffer (batch : w.batchWrite = true)
    (fits : data.length ≤ w.header.blockSize.toNat * 2) :
    w.hasBuffer data = true := by
  have short : w.opVec.length < w.header.clusterOps.toNat ∧
    w.dataVec.length < w.header.clusterOps.toNat := queued.short batch
  simp [CowWriter.hasBuffer, short, fits]

end Full

theorem queued_flushQueues (w : CowWriter) (batched : w.batchWrite = true → w.clusterOps ≠ 0) :
    Queued w.flushQueues where
  direct _ := ⟨rfl, rfl⟩
  ops _ := by simp [flushQueues]
  data _ := by simp [flushQueues]
  within := Nat.zero_le _
  short batch := ⟨Nat.pos_of_ne_zero (batched batch), Nat.pos_of_ne_zero (batched batch)⟩

/-- The positions behind an operation that does not end a cluster leave the queues in step. -/
theorem Queued.put (queued : Queued w) (batched : w.batchWrite = true → w.clusterOps ≠ 0)
    (moved : w.batchWrite = true → op.type ≠ .cluster →
      (w.addOperation op).nextOpPos = w.nextOpPos + 20 ∧
      (w.addOperation op).nextDataPos = w.nextDataPos + data.length ∧
      (w.addOperation op).currentDataSize = w.currentDataSize + data.length) :
    Queued (w.put op data) := by
  unfold CowWriter.put needsFlush
  cases batch : w.batchWrite with
  | false =>
    obtain ⟨noOps, noData⟩ := queued.direct batch
    have stored : ((w.store op data).addOperation op).batchWrite = false ∧
        ((w.store op data).addOperation op).opVec = [] ∧
        ((w.store op data).addOperation op).dataVec = [] := by
      by_cases empty : data = [] <;>
        simp [store, batch, empty, pwritev, addOperation, noOps, noData]
    simp only [stored.1]
    refine ⟨fun _ => stored.2, ?_, ?_, ?_, ?_⟩ <;> simp [stored]
  | true =>
    have bytes : (if data = [] then w.dataVec else w.dataVec ++ [data]).flatten.length =
        w.dataVec.flatten.length + data.length := by
      split <;> simp_all
    have count : (if data = [] then w.dataVec else w.dataVec ++ [data]).length ≤
        w.dataVec.length + 1 := by
      split <;> simp
    rw [show w.store op data = _ from if_pos batch]
    dsimp only
    generalize (if data = [] then w.dataVec else w.dataVec ++ [data]) = queue at *
    split
    · exact queued_flushQueues _ fun _ => batched batch
    · rename_i quiet
      simp only [addOperation, batch, Bool.true_and, Bool.or_eq_true, beq_iff_eq,
        decide_eq_true_eq, not_or] at quiet
      obtain ⟨opPos, dataPos, size⟩ := moved batch quiet.2
      have short : w.opVec.length < w.header.clusterOps.toNat ∧
          w.dataVec.length < w.header.clusterOps.toNat := queued.short batch
      have before := queued.ops batch
      have beforeData := queued.data batch
      refine ⟨fun direct => ?_, fun _ => ?_, fun _ => ?_, ?_, fun _ => ⟨?_, ?_⟩⟩
      · exact absurd (batch.symm.trans direct) (by decide)
      · change w.currentOpPos + (w.opVec ++ [op]).length * 20 = (w.addOperation op).nextOpPos
        simp [opPos]
        omega
      · change w.currentDataPos + queue.flatten.length = (w.addOperation op).nextDataPos
        omega
      · change queue.flatten.length ≤ (w.addOperation op).currentDataSize
        rw [bytes, size]
        exact Nat.add_le_add_right queued.within _
      · change (w.opVec ++ [op]).length < w.header.clusterOps.toNat
        rw [length_append, length_singleton] at quiet ⊢
        omega
      · change queue.length < w.header.clusterOps.toNat
        omega

/-- A writer behind a stream. -/
structure Stands (w : CowWriter) (s : Stream) : Prop where
  sound : w.Sound
  within : s.Within w.clusterOps
  count : w.numOps = s.entries.length
  opPos : w.nextOpPos = s.front.length
  dataPos : w.nextDataPos = s.dataPos w.clusterOps
  ops : w.currentClusterSize = s.ops * 20
  data : w.currentDataSize = s.back.length
  inside : s.back ≠ [] → s.dataPos w.clusterOps ≤ w.cowImageSize
  bounded : s.dataPos w.clusterOps ≤ w.cowImageSize + 2 ^ 32
  on : s.On w.clusterOps w.flushed
  size : w.flushed.size < 2 ^ 63
  writes : w.flushQueues.writes.Perm s.writes
  queued : Queued w
  logged : w.batchWrite = true → s.entries.length ≤ w.indices.length
  indices : ∀ i ∈ w.indices, i.1 ≤ w.clusterOps ∧ i.2 ≤ w.clusterOps

variable {w : CowWriter} {s : Stream}

theorem Stands.writesOf (stands : Stands w s) (op : CowOperation) (data : List Byte) :
    s.writesOf w.clusterOps op data = w.writesOf op data := by
  rw [CowWriter.writesOf, stands.opPos, stands.dataPos]
  rfl

theorem Stands.room (stands : Stands w s) :
    w.nextOpPos + 20 + w.currentDataSize ≤ w.nextDataPos := by
  rw [stands.opPos, stands.dataPos, stands.data]
  exact opPos_le stands.within

theorem has_writesOf (room : w.nextOpPos + 20 ≤ w.nextDataPos) (file : File) (op : CowOperation)
    (data : List Byte) :
    (file.pwriteAll (w.writesOf op data)).Has w.nextOpPos (CowOperation.codec.encode op) ∧
      (file.pwriteAll (w.writesOf op data)).Has w.nextDataPos data ∧
      ∀ address bytes, file.Has address bytes → (address + bytes.length ≤ w.nextOpPos ∨
        w.nextOpPos + 20 ≤ address ∧ address + bytes.length ≤ w.nextDataPos) →
        (file.pwriteAll (w.writesOf op data)).Has address bytes := by
  have length := length_encode_op op
  have first : (file.pwrite ⟨w.nextOpPos, codec.encode op⟩).Has w.nextOpPos _ :=
    File.has_pwrite _ _
  have kept : ∀ address bytes, file.Has address bytes → (address + bytes.length ≤ w.nextOpPos ∨
      w.nextOpPos + 20 ≤ address ∧ address + bytes.length ≤ w.nextDataPos) →
      (file.pwrite ⟨w.nextOpPos, codec.encode op⟩).Has address bytes := by
    intro address bytes has apart
    refine has.pwrite ?_
    simp only [Write.stop]
    omega
  unfold writesOf
  split
  · rename_i empty
    rw [empty]
    exact ⟨first, File.has_nil _ _, kept⟩
  · refine ⟨File.Has.pwrite first (.inl ?_), File.has_pwrite _ _, fun address bytes has apart =>
      File.Has.pwrite (kept address bytes has apart) (.inl ?_)⟩
    · rwa [length]
    · dsimp only
      omega

variable {data : List Byte}

/-- One more operation, once the stream behind it is known. -/
theorem Stands.put (stands : Stands w s) {op : CowOperation} {s' : Stream}
    (follows : s.Follows w.clusterOps op s') (count : s'.entries.length = s.entries.length + 1)
    (writes : s'.writes = s.writes ++ s.writesOf w.clusterOps op data)
    (ops : (w.addOperation op).currentClusterSize = s'.ops * 20)
    (size : (w.addOperation op).currentDataSize = s'.back.length)
    (inside : s'.back ≠ [] → s'.dataPos w.clusterOps ≤ w.cowImageSize)
    (on : s'.On w.clusterOps (w.flushed.pwriteAll (w.writesOf op data)))
    (plain : op.type ≠ .cluster → w.clusterOps ≠ 0 → s'.front.length = s.front.length + 20 ∧
      s'.dataPos w.clusterOps = s.dataPos w.clusterOps + data.length ∧
      s'.back.length = s.back.length + data.length) (within : s'.Within w.clusterOps)
    (bounded : s'.dataPos w.clusterOps ≤ w.cowImageSize + 2 ^ 32)
    (space : w.nextDataPos + data.length ≤ w.cowImageSize) :
    Stands (w.put op data) s' ∧ (w.put op data).toCowSetup = w.toCowSetup := by
  have opPos : (w.addOperation op).nextOpPos = s'.front.length := by
    rw [← follows.1, ← stands.opPos]
    rfl
  have dataPos : (w.addOperation op).nextDataPos = s'.dataPos w.clusterOps := by
    rw [← follows.2, ← stands.dataPos]
    rfl
  have flushed : (w.put op data).flushed = _ ∧ _ := flushed_put stands.queued stands.room
  have queued : Queued (w.put op data) := by
    refine stands.queued.put (fun batch => (stands.sound.batched batch).1) fun batch type => ?_
    rw [opPos, dataPos, size, stands.opPos, stands.dataPos, stands.data]
    exact plain type (stands.sound.batched batch).1
  obtain ⟨last, indices, one, bounded'⟩ := stands.queued.indices op data
  obtain ⟨file, log, all, opVec, dataVec, currentOpPos, currentDataPos, isPut⟩ :=
    put_fields w op data
  have setup : (w.put op data).toCowSetup = w.toCowSetup := by
    rw [isPut]
    rfl
  have room := stands.room
  have capacity := stands.sound.capacity
  refine ⟨⟨?_, ?_, ?_, ?_, ?_, ?_, ?_, ?_, ?_, ?_, ?_, ?_, queued, ?_, ?_⟩, setup⟩
  · rw [setup]
    exact stands.sound
  · rw [setup]
    exact within
  · rw [isPut, count, ← stands.count]
    rfl
  · rw [isPut]
    exact opPos
  · rw [isPut]
    exact dataPos
  · rw [isPut]
    exact ops
  · rw [isPut]
    exact size
  · rw [setup]
    exact inside
  · rw [setup]
    exact bounded
  · rw [setup, flushed.1]
    exact on
  · have first := File.size_pwrite_lt stands.size
      (by rw [length_encode_op op]; omega : w.nextOpPos + (codec.encode op).length < 2 ^ 63)
    rw [flushed.1, CowWriter.writesOf]
    split
    · exact first
    · exact File.size_pwrite_lt first (by omega)
  · rw [writes, stands.writesOf]
    exact flushed.2.trans (stands.writes.append_right _)
  · rw [setup, indices, length_append, count]
    exact fun batch => Nat.add_le_add (stands.logged batch) (one batch).ge
  · rw [setup, indices]
    exact fun i member => (mem_append.mp member).elim (stands.indices i) (bounded' i)

variable {item : Item}

section

variable (stands : Stands w s)

include stands

theorem Stands.put_item (roomy : s.Roomy w.clusterOps)
    (fits : item.Fits w.clusterOps) (space : w.nextDataPos + item.data.length ≤ w.cowImageSize) :
    Stands (w.put (item.op w.nextDataPos) item.data)
        (s.add w.clusterOps (item.entry (s.dataPos w.clusterOps))) ∧
      (w.put (item.op w.nextDataPos) item.data).toCowSetup = w.toCowSetup := by
  have capacity := stands.sound.capacity
  have room := stands.room
  have small := stands.sound.small
  obtain ⟨opHas, dataHas, kept⟩ := has_writesOf (w := w) (by omega) w.flushed
    (item.op w.nextDataPos) item.data
  have front := kept _ _ stands.on.1 (.inl (by rw [stands.opPos]; omega))
  have positions := stands.dataPos
  have follows := Stream.follows_add roomy fits (by omega)
  have within := Stream.within_add roomy (item.entry (s.dataPos w.clusterOps))
  have dataPos := Stream.dataPos_add roomy (item.entry (s.dataPos w.clusterOps))
  have back := kept _ _ stands.on.2
  have count : (s.entries ++ [item.entry (s.dataPos w.clusterOps)]).length =
      s.entries.length + 1 := by simp
  have ops := stands.ops
  have size := stands.data
  rw [stands.opPos] at opHas back
  rw [positions] at front back dataHas opHas ⊢
  unfold Stream.Roomy at roomy
  by_cases single : w.clusterOps = 0
  · rw [if_pos single] at roomy dataPos
    have next : s.dataPos w.clusterOps = s.front.length + 20 := by
      rw [Stream.dataPos, if_pos single]
    refine stands.put follows count rfl ?_ ?_ (fun filled => absurd ?_ filled) ⟨?_, ?_⟩
      (fun _ several => absurd single several) within ?_ space
    · simp [addOperation, Item.op, fits.notCluster, single, Stream.add, ops]
    · simp [addOperation, Item.op, fits.notCluster, single, Stream.add, size]
    · simp [Stream.add, single, roomy.2]
    · rw [Stream.add, if_pos single, File.has_append, File.has_append, length_encode_op,
        zero_add, ← next]
      exact ⟨front, opHas, dataHas⟩
    · simp only [Stream.add, single, roomy.2]
      exact File.has_nil _ _
    · rw [dataPos]
      dsimp only [Item.entry]
      omega
  · rw [if_neg single] at roomy dataPos
    have next : s.dataPos w.clusterOps =
        s.front.length + (w.clusterOps - s.ops) * 20 + s.back.length := by
      rw [Stream.dataPos, if_neg single, add_assoc]
    have same : s.front.length + 20 + (w.clusterOps - (s.ops + 1)) * 20 =
      s.front.length + (w.clusterOps - s.ops) * 20 := by omega
    have full : Stream.dataPos w.clusterOps _ = s.dataPos w.clusterOps + item.data.length := dataPos
    refine stands.put follows count rfl ?_ ?_ (fun _ => ?_) ⟨?_, ?_⟩
      (fun _ _ => ⟨?_, full, ?_⟩) within ?_ space
    · simp only [addOperation, Item.op, fits.notCluster, single, ↓reduceIte, ne_eq,
        not_false_eq_true, sizeofCowOperation, Stream.add]
      omega
    · simp only [addOperation, Item.op, fits.notCluster, single, ↓reduceIte, ne_eq,
        not_false_eq_true, length_append, BitVec.toNat_ofNat, Nat.mod_eq_of_lt fits.short,
        Stream.add, Item.entry, size]
    · rwa [full, ← positions]
    · rw [Stream.add, if_neg single, File.has_append, zero_add]
      exact ⟨front, opHas⟩
    · simp only [Stream.add, single, ↓reduceIte, append_nil, File.has_append, length_append,
        length_encode_op, same]
      rw [← next]
      exact ⟨back (by omega), dataHas⟩
    · simp [Stream.add, single]
    · simp [Stream.add, single, Item.entry]
    · omega

theorem Stands.clusterOp (clustered : w.clusterOps ≠ 0) :
    w.clusterOp = s.closing w.clusterOps := by
  have within : s.ops + 1 ≤ w.clusterOps := by
    simpa [Stream.Within, clustered] using stands.within
  have source : BitVec.ofNat 64 w.currentDataSize + BitVec.ofNat 64 w.clusterSize -
      BitVec.ofNat 64 w.currentClusterSize - BitVec.ofNat 64 sizeofCowOperation =
      BitVec.ofNat 64 (s.gap w.clusterOps + s.back.length) := by
    apply BitVec.eq_of_toNat_eq
    rw [stands.data, stands.ops, stands.sound.cluster]
    simp only [BitVec.toNat_sub, BitVec.toNat_add, BitVec.toNat_ofNat, sizeofCowOperation, gap]
    omega
  rw [CowWriter.clusterOp, source]
  rfl

/-- The end of a cluster; where operations are left out the file has to be empty. -/
theorem Stands.put_close (clustered : w.clusterOps ≠ 0) (space : w.nextDataPos ≤ w.cowImageSize)
    (empty : w.flushed.Has (w.nextOpPos + 20) (List.replicate (s.gap w.clusterOps) 0)) :
    Stands (w.put w.clusterOp []) (s.close w.clusterOps) ∧
      (w.put w.clusterOp []).toCowSetup = w.toCowSetup := by
  have capacity := stands.sound.capacity
  have small := stands.sound.small
  have positions := stands.dataPos
  have within : s.ops + 1 ≤ w.clusterOps := by
    simpa [Stream.Within, clustered] using stands.within
  have next : w.nextDataPos = s.front.length + (w.clusterOps - s.ops) * 20 + s.back.length := by
    rw [positions, Stream.dataPos, if_neg clustered, add_assoc]
  have room := stands.room
  have isCluster : (s.closing w.clusterOps).type = .cluster := rfl
  have gap : s.gap w.clusterOps = (w.clusterOps - s.ops - 1) * 20 := rfl
  rw [stands.clusterOp clustered]
  obtain ⟨opHas, -, kept⟩ := has_writesOf (w := w) (by omega) w.flushed (s.closing w.clusterOps) []
  rw [stands.opPos] at empty opHas
  refine stands.put (Stream.follows_close clustered (by omega) stands.within (by omega))
    (by simp [Stream.close]) rfl ?_ ?_ (fun filled => absurd rfl filled) ⟨?_, File.has_nil _ _⟩
    (fun plain => absurd isCluster plain)
    (Stream.roomy_close stands.sound.several clustered).within ?_ space
  · simp [addOperation, isCluster, Stream.close]
  · simp [addOperation, isCluster, Stream.close]
  · have same : s.front.length + 20 + s.gap w.clusterOps =
        s.front.length + (w.clusterOps - s.ops) * 20 := by
      omega
    simp only [Stream.close, File.has_append, length_encode_op, length_replicate, zero_add, same]
    refine ⟨kept _ _ stands.on.1 (.inl ?_), opHas, kept _ _ empty (.inr ?_),
      kept _ _ stands.on.2 (.inr ?_)⟩
    · rw [stands.opPos]
      omega
    · simp [stands.opPos]
      omega
    · rw [stands.opPos]
      omega
  · rw [Stream.dataPos_close stands.within clustered]
    omega

theorem Stands.flushQueues : Stands w.flushQueues s where
  sound := stands.sound
  within := stands.within
  count := stands.count
  opPos := stands.opPos
  dataPos := stands.dataPos
  ops := stands.ops
  data := stands.data
  inside := stands.inside
  bounded := stands.bounded
  on := by
    exact stands.on
  size := by
    exact stands.size
  writes := by simpa [CowWriter.flushQueues, pwritev, gather] using stands.writes
  queued := queued_flushQueues w fun batch => (stands.sound.batched batch).1
  logged := stands.logged
  indices := stands.indices

theorem Stands.clusterFull :
    w.clusterFull = true ↔ w.clusterOps ≠ 0 ∧ w.clusterOps < s.ops + 2 := by
  have cluster := stands.sound.cluster
  have ops := stands.ops
  rw [CowWriter.clusterFull, Bool.and_eq_true, bne_iff_ne, decide_eq_true_iff, sizeofCowOperation]
  omega

/-- With queues that `pwritev` takes, `FlushCluster` succeeds. -/
theorem Stands.flushCluster_eq : w.flushCluster = (true, w.flushQueues) := by
  have most : ¬ iovMax < w.opVec.length ∧ ¬ iovMax < w.dataVec.length := by
    cases batch : w.batchWrite with
    | false =>
      obtain ⟨ops, data⟩ := stands.queued.direct batch
      simp [ops, data]
    | true =>
      have short := stands.queued.short batch
      have most := (stands.sound.batched batch).2
      omega
  rw [flushCluster, if_neg most.1, if_neg most.2]

theorem Stands.writeOperation_eq (depth : Nat) (op : CowOperation)
    (fits : w.batchWrite = true → data.length ≤ w.header.blockSize.toNat * 2) :
    CowWriter.writeOperation (depth + 1) w op data =
      if w.nextDataPos + data.length ≤ w.cowImageSize then
        emitClusterIfNeeded (CowWriter.writeOperation depth) (w.put op data)
      else some (false, w) := by
  have room := stands.room
  have buffered : (w.batchWrite && !w.hasBuffer data) = false := by
    cases batch : w.batchWrite with
    | false => rfl
    | true => rw [stands.queued.hasBuffer batch (fits batch)]; rfl
  have flush := stands.queued.flush op data stands.sound
  rw [CowWriter.writeOperation]
  unfold ensureSpaceAvailable sizeofCowOperation
  by_cases space : w.nextDataPos + data.length ≤ w.cowImageSize
  · have opSpace : w.nextOpPos + 20 ≤ w.cowImageSize := by omega
    simp only [space, opSpace, buffered, flush]
    rfl
  · simp [space]

theorem Stands.emitCluster (depth : Nat) (clustered : w.clusterOps ≠ 0)
    (space : w.nextDataPos ≤ w.cowImageSize)
    (empty : w.flushed.Has (w.nextOpPos + 20) (List.replicate (s.gap w.clusterOps) 0)) :
    ∃ w', CowWriter.emitCluster (CowWriter.writeOperation (depth + 1)) w = some (true, w') ∧
      Stands w' (s.close w.clusterOps) ∧ w'.toCowSetup = w.toCowSetup ∧ w'.opVec = [] ∧
      w'.dataVec = [] := by
  obtain ⟨closed, setup⟩ := stands.put_close clustered space empty
  have several := stands.sound.several
  have notFull : ¬ (w.put w.clusterOp []).clusterFull = true := by
    rw [closed.clusterFull, setup]
    simp only [close]
    omega
  refine ⟨_, ?_, closed, setup, ?_⟩
  · rw [CowWriter.emitCluster, stands.writeOperation_eq depth _ (fun _ => Nat.zero_le _),
      if_pos (by exact space), emitClusterIfNeeded, if_neg notFull]
  · cases batch : w.batchWrite with
    | false => exact closed.queued.direct (by rw [setup, batch])
    | true =>
      unfold CowWriter.put
      rw [show w.store w.clusterOp [] = _ from if_pos batch]
      dsimp only
      rw [if_pos (by simp [needsFlush, addOperation, batch, CowWriter.clusterOp])]
      exact ⟨rfl, rfl⟩

end

/-- `WriteOperation` adds the operation, and the end of the cluster if there is no room for more;
without space for its data it fails. -/
theorem Stands.writeOperation (stands : Stands w s) (depth : Nat) (roomy : s.Roomy w.clusterOps)
    (takes : w.Takes item) :
    if w.nextDataPos + item.data.length ≤ w.cowImageSize then
      ∃ w', CowWriter.writeOperation (depth + 2) w (item.op w.nextDataPos) item.data =
          some (true, w') ∧
        Stands w' (s.push w.clusterOps item) ∧ w'.toCowSetup = w.toCowSetup
    else CowWriter.writeOperation (depth + 2) w (item.op w.nextDataPos) item.data =
      some (false, w) := by
  rw [stands.writeOperation_eq _ _ takes.2]
  split
  · rename_i space
    obtain ⟨added, setup⟩ := stands.put_item roomy takes.1 space
    generalize w.put (item.op w.nextDataPos) item.data = w₁ at added setup ⊢
    unfold emitClusterIfNeeded
    by_cases full : w₁.clusterFull = true
    · rw [if_pos full]
      rw [added.clusterFull, setup] at full
      have dataPos := dataPos_add roomy (item.entry (s.dataPos w.clusterOps))
      rw [if_neg full.1] at dataPos
      have whole : gap w.clusterOps
          (s.add w.clusterOps (item.entry (s.dataPos w.clusterOps))) = 0 := by
        unfold gap
        omega
      obtain ⟨w', closed, stands', setup', -⟩ := added.emitCluster depth
        (by rw [setup]; exact full.1)
        (by rw [added.dataPos, setup, dataPos, ← stands.dataPos]; exact space)
        (by rw [setup, whole]; exact File.has_nil _ _)
      refine ⟨w', closed, ?_, setup'.trans setup⟩
      rw [setup] at stands'
      rwa [push, if_pos full]
    · rw [if_neg full]
      rw [added.clusterFull, setup] at full
      refine ⟨w₁, rfl, ?_, setup⟩
      rwa [push, if_neg full]
  · rfl

end Queues

end CowWriter

end Aosp.Snapshot
