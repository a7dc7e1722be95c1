import Aosp.Snapshot.WriterSteps

namespace Aosp.Snapshot.CowWriter

open BitVec Fallible List Aosp.Snapshot.Stream CowHeader
open Layout (Byte Codec File)

section Items

variable (compress : CowCompressionAlgorithm → List Byte → List Byte) (t : CowSetup)

/-- What is stored for a block. -/
def storedBlock (compression : CowCompressionAlgorithm) (block : List Byte) : List Byte :=
  if compression = .none then block else compress compression block

def blockItem (target : BlockTarget) (data : List Byte) (i : Nat) : Item where
  type := if target.isXor then .xor else .replace
  compression := t.compression.code
  newBlock := target.newBlockStart + BitVec.ofNat 64 i
  source := if target.isXor then
    some ((target.oldBlock + BitVec.ofNat 64 i) * t.header.blockSize.setWidth 64 +
      target.offset.setWidth 64) else none
  data := storedBlock compress t.compression (blockAt data t.header.blockSize.toNat i)

def blockItems (target : BlockTarget) (data : List Byte) : List Item :=
  (List.range (data.length / t.header.blockSize.toNat)).map (blockItem compress t target data)

def copyItem (newBlock oldBlock : BitVec 64) (i : Nat) : Item :=
  ⟨.copy, 0, newBlock + BitVec.ofNat 64 i, some (oldBlock + BitVec.ofNat 64 i), []⟩

def zeroItem (newBlockStart : BitVec 64) (i : Nat) : Item :=
  ⟨.zero, 0, newBlockStart + BitVec.ofNat 64 i, some 0, []⟩

def sequenceItem (words : List (BitVec 32)) : Item :=
  ⟨.sequence, 0, 0, none, (Codec.u32.encodeAll words).take (words.length * 4 % 2 ^ 16)⟩

/-- The operations a call adds. -/
def items : AddCall → List Item
  | .copy newBlock oldBlock numBlocks =>
    (List.range numBlocks.toNat).map (copyItem newBlock oldBlock)
  | .rawBlocks newBlockStart data => blockItems compress t ⟨newBlockStart, 0, 0, false⟩ data
  | .xorBlocks newBlockStart data oldBlock offset =>
    blockItems compress t ⟨newBlockStart.setWidth 64, oldBlock.setWidth 64, offset, true⟩ data
  | .zeroBlocks newBlockStart numBlocks =>
    (List.range numBlocks.toNat).map (zeroItem newBlockStart)
  | .label label => [⟨.label, 0, 0, some label, []⟩]
  | .sequenceData words => (sequencePieces t words).map sequenceItem

/-- Blocks small enough for the length field, also after compression, and for the buffers of a
batch. -/
structure Fits : Prop where
  blockSize : t.header.blockSize.toNat < 2 ^ 16
  compressed : ∀ block, block.length = t.header.blockSize.toNat →
    (compress t.compression block).length < 2 ^ 16
  buffered : t.batchWrite = true → ∀ block, block.length = t.header.blockSize.toNat →
    (compress t.compression block).length ≤ t.header.blockSize.toNat * 2

/-- Only a writer with clusters is asked for sequence data. -/
def Allowed : AddCall → Prop
  | .sequenceData _ => t.clusterOps ≠ 0
  | _ => True

end Items

section Compression

variable {compress : CowCompressionAlgorithm → List Byte → List Byte} {w : CowWriter}

variable {blocks stored : List (List Byte)}

theorem compressWork_eq {compression : CowCompressionAlgorithm}
    (done : compressWork compress compression blocks = some stored) :
    stored = blocks.map (compress compression) := by
  apply mapM_eq_map _ done
  intro block data compressed
  dsimp only at compressed
  split at compressed
  · cases compressed
  · exact (Option.some.inj compressed).symm

theorem flatten_shares (perThread : Nat) {threads : Nat} (positive : threads ≠ 0)
    (blocks : List (List Byte)) :
    (shares perThread threads blocks).flatten = blocks := by
  fun_induction shares with
  | case1 => exact absurd rfl positive
  | case2 => exact append_nil _
  | case3 blocks threads several ih => rw [flatten_cons, ih (by omega), take_append_drop]

/-- However the blocks are shared out, each is compressed by itself. -/
theorem compressBlocks_eq (done : compressBlocks compress w blocks = some stored) :
    stored = blocks.map (compress w.compression) := by
  unfold compressBlocks at done
  dsimp only at done
  generalize (if blocks.length = 1 then 1 else w.numCompressThreads) = threads at done
  split at done
  · exact compressWork_eq done
  · obtain ⟨parts, collected, rfl⟩ := Option.map_eq_some_iff.mp done
    have each := mapM_eq_map (fun _ _ => compressWork_eq) collected
    rw [each, ← map_flatten, flatten_shares _ (by omega)]

theorem round_stored {data : List Byte} {i count : Nat}
    (done : (let blocks := (List.range count).map fun k =>
        blockAt data w.header.blockSize.toNat (i + k)
      if w.compression = .none then some blocks
      else if 1 < w.numCompressThreads then compressBlocks compress w blocks
      else some (blocks.map (compress w.compression))) = some stored) :
    (List.range' i count).zip stored = (List.range' i count).map fun k =>
      (k, storedBlock compress w.compression (blockAt data w.header.blockSize.toNat k)) := by
  have blocks : ((List.range count).map fun k => blockAt data w.header.blockSize.toNat (i + k)) =
      (List.range' i count).map (blockAt data w.header.blockSize.toNat) := by
    rw [range'_eq_map_range, map_map]
    rfl
  rw [blocks] at done
  have same : stored = (List.range' i count).map fun k =>
      storedBlock compress w.compression (blockAt data w.header.blockSize.toNat k) := by
    unfold storedBlock
    split at done
    · rename_i plain
      simp only [if_pos plain]
      exact (Option.some.inj done).symm
    · rename_i packed
      simp only [if_neg packed]
      split at done
      · rw [compressBlocks_eq done, map_map]
        rfl
      · rw [← Option.some.inj done, map_map]
        rfl
  rw [same, map_prod_left_eq_zip]

variable {depth : Nat} {w' : CowWriter} {s : Stream}

/-- A writer that has added items to its stream: all of them, or the first ones. -/
def Added (w : CowWriter) (s : Stream) (items : List Item) (all : Prop) (w' : CowWriter) : Prop :=
  ∃ taken, taken <+: items ∧ (all → taken = items) ∧
    Stands w' (taken.foldl (Stream.push w.clusterOps) s) ∧ w'.toCowSetup = w.toCowSetup

section Added

variable {all all' : Prop} {items front back : List Item} {w'' : CowWriter}

theorem Stands.unchanged (stands : Stands w s) (nothing : all → items = []) :
    Added w s items all w :=
  ⟨[], nil_prefix, fun isAll => (nothing isAll).symm, stands, rfl⟩

theorem Added.whole (added : Added w s items all w') (isAll : all) :
    Stands w' (items.foldl (Stream.push w.clusterOps) s) ∧ w'.toCowSetup = w.toCowSetup := by
  obtain ⟨taken, -, same, result⟩ := added
  rwa [same isAll] at result

theorem Added.stopped (added : Added w s front all w') (notAll : ¬ all') (back : List Item) :
    Added w s (front ++ back) all' w' := by
  obtain ⟨taken, first, -, result⟩ := added
  exact ⟨taken, first.trans (prefix_append _ _), fun isAll => absurd isAll notAll, result⟩

theorem Added.trans (setup : w'.toCowSetup = w.toCowSetup)
    (second : Added w' (front.foldl (Stream.push w.clusterOps) s) back all w'') :
    Added w s (front ++ back) all w'' := by
  obtain ⟨taken, first, same, stands', setup'⟩ := second
  refine ⟨front ++ taken, prefix_append_right_inj front |>.mpr first,
    fun isAll => by rw [same isAll], ?_, setup'.trans setup⟩
  rw [setup] at stands'
  rwa [foldl_append]

end Added

variable {ok : Bool}

theorem Stands.added (stands : Stands w s) (roomy : s.Roomy w.clusterOps) {item : Item}
    (takes : w.Takes item)
    (done : CowWriter.writeOperation (depth + 2) w (item.op w.nextDataPos) item.data =
      some (ok, w')) :
    Added w s [item] (ok = true) w' := by
  have result := stands.writeOperation depth roomy takes
  split at result
  · obtain ⟨w₁, written, result⟩ := result
    cases written.symm.trans done
    exact ⟨[item], prefix_refl _, fun _ => rfl, result⟩
  · cases result.symm.trans done
    exact stands.unchanged nofun

theorem Stands.emitEach {α : Type} {make : CowWriter → α → CowOperation × List Byte}
    {inputs : List α} (stands : Stands w s) (roomy : s.Roomy w.clusterOps) (item : α → Item)
    (makes : ∀ w', w'.toCowSetup = w.toCowSetup →
      ∀ x ∈ inputs, make w' x = ((item x).op w'.nextDataPos, (item x).data))
    (takes : ∀ x ∈ inputs, w.Takes (item x))
    (done : emitEach (depth + 2) make w inputs = some (ok, w')) :
    Added w s (inputs.map item) (ok = true) w' := by
  induction inputs generalizing w s with
  | nil =>
    cases done
    exact stands.unchanged fun _ => rfl
  | cons x rest ih =>
    rw [CowWriter.emitEach, WriterResult.andThen, Option.bind_eq_some_iff,
      makes w rfl x mem_cons_self] at done
    obtain ⟨⟨first, middle⟩, written, later⟩ := done
    have added := stands.added roomy (takes x mem_cons_self) written
    cases first with
    | false =>
      cases later
      exact added.stopped nofun (rest.map item)
    | true =>
      obtain ⟨stands', same⟩ := added.whole rfl
      refine Added.trans same (ih stands' ?_ ?_ ?_ later)
      · rw [same]
        exact roomy_push stands.sound.several roomy _
      · intro w₂ setup y member
        exact makes w₂ (setup.trans same) y (mem_cons_of_mem _ member)
      · intro y member
        rw [same]
        exact takes y (mem_cons_of_mem _ member)

/-- Operations without data, other than the end of a cluster and the footer, can always be taken. -/
theorem takes_bare {t : CowSetup} {item : Item} (notCluster : item.type ≠ .cluster)
    (notFooter : item.type ≠ .footer) (bare : item.data = []) :
    t.Takes item :=
  ⟨⟨notCluster, notFooter, bare ▸ Nat.two_pow_pos 16, fun _ => .inl bare⟩,
    fun _ => bare ▸ Nat.zero_le _⟩

/-- Zero blocks have room if the place for data behind all but the last one is in the file. -/
def ZeroRoom (t : CowSetup) (s : Stream) (items : List Item) : Prop :=
  items ≠ [] → (items.dropLast.foldl (Stream.push t.clusterOps) s).dataPos t.clusterOps ≤
    t.cowImageSize

theorem Stands.emitZeroBlocks_full (stands : Stands w s) (depth : Nat)
    (roomy : s.Roomy w.clusterOps) (full : ¬ w.nextDataPos ≤ w.cowImageSize)
    (newBlockStart : BitVec 64) (inputs : List Nat) :
    CowWriter.emitZeroBlocks (depth + 2) newBlockStart w inputs = some (true, w) := by
  induction inputs with
  | nil => rfl
  | cons i rest ih =>
    have takes : w.Takes (zeroItem newBlockStart i) := takes_bare nofun nofun rfl
    have failed := stands.writeOperation depth roomy takes
    rw [if_neg (by exact full)] at failed
    exact (congrArg (Option.bind · _) failed).trans ih

/-- `EmitZeroBlocks` hides a failure. -/
theorem Stands.emitZeroBlocks {newBlockStart : BitVec 64} {inputs : List Nat}
    (stands : Stands w s) (roomy : s.Roomy w.clusterOps)
    (done : emitZeroBlocks (depth + 2) newBlockStart w inputs = some (ok, w')) :
    Added w s (inputs.map (zeroItem newBlockStart))
      (ZeroRoom w.toCowSetup s (inputs.map (zeroItem newBlockStart))) w' := by
  induction inputs generalizing w s with
  | nil =>
    cases done
    exact stands.unchanged fun _ => rfl
  | cons i rest ih =>
    have takes : w.Takes (zeroItem newBlockStart i) := takes_bare nofun nofun rfl
    have least := dataPos_le_pushes stands.sound.several roomy
      ((i :: rest).map (zeroItem newBlockStart)).dropLast
    rw [CowWriter.emitZeroBlocks, Option.bind_eq_some_iff] at done
    obtain ⟨⟨first, middle⟩, written, later⟩ := done
    have result := stands.writeOperation depth roomy takes
    split at result
    · obtain ⟨w₁, isWritten, stands', same⟩ := result
      cases isWritten.symm.trans written
      obtain ⟨taken, isFirst, whole, rest⟩ := ih stands' (by
        rw [same]
        exact roomy_push stands.sound.several roomy _) later
      obtain ⟨added, same'⟩ := rest
      refine ⟨zeroItem newBlockStart i :: taken, cons_prefix_cons.mpr ⟨rfl, isFirst⟩,
        fun isAll => ?_, ?_, same'.trans same⟩
      · refine congrArg _ (whole fun more => ?_)
        rw [same]
        have room := isAll nofun
        rwa [map_cons, dropLast_cons_of_ne_nil more] at room
      · rwa [same] at added
    · rename_i full
      cases result.symm.trans written
      cases (stands.emitZeroBlocks_full depth roomy full newBlockStart rest).symm.trans later
      refine stands.unchanged fun isAll => absurd ?_ full
      rw [stands.dataPos]
      exact le_trans least (isAll nofun)

theorem length_encodeAll (words : List (BitVec 32)) :
    (Codec.u32.encodeAll words).length = words.length * 4 :=
  Codec.u32.encodeAll_length words

theorem length_sequenceItem (piece : List (BitVec 32)) :
    (sequenceItem piece).data.length = piece.length * 4 % 2 ^ 16 := by
  rw [sequenceItem, length_take, length_encodeAll]
  omega

theorem length_le_of_mem_wordPieces {counts : List Nat} {bound : Nat}
    (least : ∀ count ∈ counts, count ≤ bound) {words piece : List (BitVec 32)}
    (member : piece ∈ wordPieces counts words) :
    piece.length ≤ bound := by
  induction counts generalizing words with
  | nil => cases member
  | cons count rest ih =>
    rcases mem_cons.mp member with rfl | later
    · exact le_trans (length_take_le _ _) (least count mem_cons_self)
    · exact ih (fun other among => least other (mem_cons_of_mem _ among)) later

/-- A piece of sequence data is never longer than a buffer of a batch. -/
theorem sequenceItem_takes {t : CowSetup} (several : t.clusterOps ≠ 0)
    {words piece : List (BitVec 32)} (member : piece ∈ sequencePieces t words) :
    t.Takes (sequenceItem piece) := by
  have length := length_sequenceItem piece
  have short : piece.length ≤ t.header.blockSize.toNat * 2 / 4 :=
    length_le_of_mem_wordPieces (fun _ => Pieces.le_of_mem_sizesFrom _ _) member
  refine ⟨⟨nofun, nofun, ?_, fun single => absurd single several⟩, fun _ => ?_⟩
  · rw [length]
    exact Nat.mod_lt _ (Nat.two_pow_pos 16)
  · rw [length]
    exact le_trans (Nat.mod_le _ _) (by omega)

theorem Stands.emitSequenceData {words : List (BitVec 32)} (stands : Stands w s)
    (roomy : s.Roomy w.clusterOps) (allowed : Allowed w.toCowSetup (.sequenceData words))
    (done : emitSequenceData (depth + 2) w words = some (ok, w')) :
    Added w s (items compress w.toCowSetup (.sequenceData words)) (ok = true) w' := by
  unfold CowWriter.emitSequenceData at done
  rw [WriterResult.andThen, Option.bind_eq_some_iff] at done
  obtain ⟨⟨first, middle⟩, emitted, last⟩ := done
  have added := stands.emitEach roomy sequenceItem (fun w₂ _ piece _ => by
    have length : BitVec.ofNat 16 (sequenceItem piece).data.length =
        BitVec.ofNat 16 (piece.length * 4) := by
      rw [length_sequenceItem]
      exact eq_of_toNat_eq (Nat.mod_mod _ _)
    rw [Item.op, length]
    rfl) (fun piece => sequenceItem_takes allowed) emitted
  cases first with
  | false =>
    cases last
    exact added
  | true =>
    -- behind the loop the words have all been taken
    simp only [↓reduceIte] at last
    split at last
    · cases last
    · cases last
      exact added

variable {target : BlockTarget} {data : List Byte} {i : Nat}

theorem blockItem_takes {t : CowSetup} (fits : Fits compress t)
    (inside : i < data.length / t.header.blockSize.toNat) :
    t.Takes (blockItem compress t target data i) := by
  have whole : (blockAt data t.header.blockSize.toNat i).length = t.header.blockSize.toNat := by
    have enough : (i + 1) * t.header.blockSize.toNat ≤ data.length :=
      Nat.mul_le_of_le_div _ _ _ inside
    rw [Nat.succ_mul] at enough
    simp [blockAt]
    omega
  have type : (blockItem compress t target data i).type = .xor ∨
      (blockItem compress t target data i).type = .replace := by
    unfold blockItem
    split
    · exact .inl rfl
    · exact .inr rfl
  refine ⟨⟨?_, ?_, ?_, fun _ => .inr type.symm⟩, fun batch => ?_⟩
  · rcases type with isXor | isReplace <;> simp [*]
  · rcases type with isXor | isReplace <;> simp [*]
  · unfold blockItem storedBlock
    dsimp only
    split
    · rw [whole]
      exact fits.blockSize
    · exact fits.compressed _ whole
  · unfold blockItem storedBlock
    dsimp only
    split
    · rw [whole]
      omega
    · exact fits.buffered batch _ whole

section

variable (stands : Stands w s) (roomy : s.Roomy w.clusterOps) (fits : Fits compress w.toCowSetup)

include stands roomy fits

theorem Stands.emitRounds {counts : List Nat}
    (inside : i + counts.sum ≤ data.length / w.header.blockSize.toNat)
    (done : emitRounds compress (depth + 2) target data w i counts = some (ok, w')) :
    Added w s ((List.range' i counts.sum).map (blockItem compress w.toCowSetup target data))
      (ok = true) w' := by
  induction counts generalizing w s i with
  | nil =>
    cases done
    exact stands.unchanged fun _ => rfl
  | cons count rest ih =>
    rw [sum_cons] at inside ⊢
    rw [CowWriter.emitRounds] at done
    split at done
    · cases done
      exact stands.unchanged nofun
    · rename_i stored isStored
      split at done
      · cases done
      · rw [round_stored isStored, WriterResult.andThen, Option.bind_eq_some_iff] at done
        obtain ⟨⟨first, middle⟩, round, later⟩ := done
        have added := stands.emitEach roomy
          (fun x => blockItem compress w.toCowSetup target data x.1)
          (fun w₂ setup x member => by
            obtain ⟨k, -, rfl⟩ := mem_map.mp member
            simp only [blockOp, blockItem, setup]
            cases target.isXor <;> rfl)
          (fun x member => by
            obtain ⟨k, among, rfl⟩ := mem_map.mp member
            have below := mem_range'_1.mp among
            exact blockItem_takes fits (by dsimp only; omega)) round
        rw [map_map] at added
        rw [← range'_append_1, map_append]
        cases first with
        | false =>
          cases later
          exact added.stopped nofun _
        | true =>
          obtain ⟨stands', same⟩ := added.whole rfl
          refine Added.trans same ?_
          rw [← same]
          refine ih (by rw [same]; exact stands') ?_ (by rwa [same]) ?_ later
          · rw [same]
            exact roomy_pushes stands.sound.several roomy _
          · rw [same]
            omega

theorem Stands.addBlocks (done : addBlocks compress (depth + 2) target w data = some (ok, w')) :
    Added w s (blockItems compress w.toCowSetup target data) (ok = true) w' := by
  unfold CowWriter.addBlocks emitBlocks at done
  dsimp only at done
  split at done
  · cases done
  · split at done
    · cases done
      exact stands.unchanged nofun
    · split at done
      · cases done
        exact stands.unchanged nofun
      · have all : (Pieces.sizes 1024 (data.length / w.header.blockSize.toNat)).sum =
            data.length / w.header.blockSize.toNat := Pieces.sum_sizes (by decide) _
        have emitted := stands.emitRounds roomy fits (by omega) done
        rwa [all, ← range_eq_range'] at emitted

/-- Of the calls that return true only the one for zero blocks needs to have room. -/
def HasRoom (t : CowSetup) (s : Stream) : AddCall → Prop
  | .zeroBlocks newBlockStart numBlocks =>
    ZeroRoom t s ((List.range numBlocks.toNat).map (zeroItem newBlockStart))
  | _ => True

theorem Stands.add {call : AddCall} (allowed : Allowed w.toCowSetup call)
    (done : add compress (depth + 2) w call = some (ok, w')) :
    Added w s (items compress w.toCowSetup call) (ok = true ∧ HasRoom w.toCowSetup s call) w' := by
  have result : ∀ {all : Prop} {items : List Item} {room : Prop}, Added w s items all w' →
      (ok = true ∧ room → all) → Added w s items (ok = true ∧ room) w' := by
    rintro all items room ⟨taken, first, whole, rest⟩ implies
    exact ⟨taken, first, fun both => whole (implies both), rest⟩
  cases call with
  | copy newBlock oldBlock numBlocks =>
    rw [CowWriter.add] at done
    split at done
    · cases done
    · split at done
      · cases done
        exact stands.unchanged nofun
      · exact result (stands.emitEach roomy _ (fun _ _ _ _ => rfl)
          (fun _ _ => takes_bare nofun nofun rfl) done) And.left
  | rawBlocks newBlockStart data => exact result (stands.addBlocks roomy fits done) And.left
  | xorBlocks newBlockStart data oldBlock offset =>
    exact result (stands.addBlocks roomy fits done) And.left
  | zeroBlocks newBlockStart numBlocks =>
    rw [CowWriter.add] at done
    split at done
    · cases done
      exact stands.unchanged nofun
    · exact result (stands.emitZeroBlocks roomy done) And.right
  | label label =>
    exact result (stands.added roomy (takes_bare nofun nofun rfl) done) And.left
  | sequenceData words => exact result (stands.emitSequenceData roomy allowed done) And.left

/-- Calls that all return true have added all their operations, as long as the positions stay in the
file. -/
theorem Stands.addAll {calls : List AddCall} (allowed : ∀ call ∈ calls, Allowed w.toCowSetup call)
    (space : ((calls.flatMap (items compress w.toCowSetup)).foldl (Stream.push w.clusterOps)
      s).dataPos w.clusterOps ≤ w.cowImageSize)
    (done : addAll compress (depth + 2) w calls = some w') :
    Stands w' ((calls.flatMap (items compress w.toCowSetup)).foldl (Stream.push w.clusterOps) s) ∧
      w'.toCowSetup = w.toCowSetup := by
  induction calls generalizing w s with
  | nil =>
    cases done
    exact ⟨stands, rfl⟩
  | cons call rest ih =>
    rw [CowWriter.addAll] at done
    rw [flatMap_cons, foldl_append] at space ⊢
    split at done
    · rename_i middle isAdded
      have several := stands.sound.several
      have added := stands.add roomy fits (allowed call mem_cons_self) isAdded
      obtain ⟨stands', same⟩ := added.whole ⟨rfl, by
        cases call with
        | zeroBlocks newBlockStart numBlocks =>
          refine fun _ => le_trans ?_ space
          rw [← foldl_append]
          refine dataPos_le_of_prefix several roomy (IsPrefix.trans ?_ (prefix_append _ _))
          exact dropLast_prefix _
        | _ => exact True.intro⟩
      rw [← same] at space ⊢
      refine ih (by rwa [same]) ?_ (by rwa [same]) (fun other member => ?_) space done
      · rw [same]
        exact roomy_pushes several roomy _
      · rw [same]
        exact allowed other (mem_cons_of_mem _ member)
    · cases done

end

end Compression

section Initialize

variable {w : CowWriter}

theorem initBatchWrites_setup (w : CowWriter) : w.initBatchWrites.toCowSetup = w.toCowSetup := by
  unfold initBatchWrites
  split <;> rfl

theorem stands_start (several : w.clusterOps ≠ 1) (small : w.clusterOps * 20 < 2 ^ 32)
    (batched : w.batchWrite = true → w.clusterOps ≠ 0 ∧ w.clusterOps ≤ iovMax)
    (capacity : w.cowImageSize < 2 ^ 63)
    (space : sizeofCowHeader + w.header.bufferSize.toNat ≤ w.cowImageSize) (count : w.numOps = 0)
    (ops : w.opVec = []) (data : w.dataVec = []) (writes : w.writes = [])
    (indices : w.indices = []) (size : w.file.size < 2 ^ 63)
    (has : w.file.Has 0 (Stream.start w.header).front) :
    Stands w.initPos.initBatchWrites (Stream.start w.header) := by
  have length : (Stream.start w.header).front.length =
      sizeofCowHeader + w.header.bufferSize.toNat := by
    simp only [Stream.start, length_append, length_replicate]
    rfl
  have isStarted : ∃ opPos dataPos, w.initPos.initBatchWrites =
      { w.initPos with currentOpPos := opPos, currentDataPos := dataPos } ∧
      (w.batchWrite = true → opPos = w.initPos.nextOpPos ∧ dataPos = w.initPos.nextDataPos) := by
    unfold initBatchWrites
    split
    · exact ⟨_, _, rfl, fun _ => ⟨rfl, rfl⟩⟩
    · exact ⟨_, _, rfl, fun batch => absurd batch ‹_›⟩
  obtain ⟨opPos, dataPos, isStarted, queues⟩ := isStarted
  have position : w.initPos.nextDataPos = (Stream.start w.header).dataPos w.clusterOps := by
    unfold Stream.dataPos
    rw [length]
    by_cases single : w.header.clusterOps = 0
    · simp [initPos, single, sizeofCowOperation, CowSetup.clusterOps]
    · have clustered : w.clusterOps ≠ 0 := fun zero => single (eq_of_toNat_eq zero)
      simp only [initPos, single, ne_eq, not_false_eq_true, ↓reduceIte, clustered, Stream.start,
        length_nil, sizeofCowOperation, Nat.mod_eq_of_lt small]
      omega
  have bounded : (Stream.start w.header).dataPos w.clusterOps ≤ w.cowImageSize + 2 ^ 32 := by
    unfold Stream.dataPos
    rw [length]
    split
    · omega
    · simp only [Stream.start, length_nil]
      omega
  rw [isStarted]
  refine ⟨⟨Nat.mod_eq_of_lt small, small, several, batched, capacity⟩,
    (Stream.roomy_start several _).within, count, length.symm, position, rfl, rfl,
    fun filled => absurd rfl filled, bounded, ⟨?_, File.has_nil _ _⟩, ?_, ?_, ?_, fun _ =>
    Nat.zero_le _, ?_⟩
  · rw [flushed_direct (by exact ops) (by exact data)]
    exact has
  · rw [flushed_direct (by exact ops) (by exact data)]
    exact size
  · simp [flushQueues, pwritev, initPos, ops, data, writes, gather, Stream.start]
  · refine ⟨fun _ => ⟨ops, data⟩, fun batch => ?_, fun batch => ?_, ?_, fun batch => ?_⟩
    · simpa [initPos, ops] using (queues batch).1
    · simpa [initPos, data] using (queues batch).2
    · simp [initPos, data]
    · have := Nat.pos_of_ne_zero (batched batch).1
      simpa [initPos, ops, data] using this
  · intro i member
    have empty : w.initPos.indices = [] := indices
    simp [empty] at member

theorem stands_initializeWriter {properties : Properties} {options : CowOptions}
    {device : Option Nat} {file : File} (small : options.clusterOps.toNat * 20 < 2 ^ 32)
    (batch : w.batchWrite = true → options.clusterOps.toNat ≤ iovMax)
    (limit : ∀ size ∈ device, size < 2 ^ 63) (length : file.size < 2 ^ 63)
    (ready : initializeWriter properties options device file = some w) :
    Stands w (Stream.start w.header) ∧ w.header = { setupHeaders options with
        bufferSize := if options.scratchSpace then BitVec.ofNat 32 bufferRegionDefaultSize
        else 0 } ∧
      options.clusterOps ≠ 1 ∧ options.blockSize.toNat < 2 ^ 16 := by
  obtain ⟨compression, parsed, opened⟩ := Option.bind_eq_some_iff.mp ready
  have several : options.clusterOps ≠ 1 := by
    intro one
    unfold parseOptions at parsed
    split at parsed <;> simp [one, Fallible.require] at parsed
  have notOne : options.clusterOps.toNat ≠ 1 := fun one => several (eq_of_toNat_eq one)
  have batched : (create properties options device file).batchWrite = true →
      options.clusterOps.toNat ≠ 0 := by
    intro batch zero
    simp [create, show options.clusterOps = 0 from eq_of_toNat_eq zero] at batch
  have capacity : (create properties options device file).cowImageSize < 2 ^ 63 := by
    cases isDevice : device with
    | none => exact (by decide : 2 ^ 63 - 1 < 2 ^ 63)
    | some size => exact limit size isDevice
  simp only [openForWrite, bind, Option.bind_eq_some_iff, require_eq_some, decide_eq_true_eq,
    ensureSpaceAvailable] at opened
  obtain ⟨-, blockSize, -, space, opened⟩ := opened
  have isHeader : (if options.scratchSpace = true then
      { setupHeaders options with bufferSize := BitVec.ofNat 32 bufferRegionDefaultSize }
        else setupHeaders options) =
      { setupHeaders options with
        bufferSize := if options.scratchSpace then BitVec.ofNat 32 bufferRegionDefaultSize
          else 0 } := by
    split <;> rfl
  obtain ⟨w₀, isReady, header, isBatch, size, count, ops, data, writes, indices, isFile⟩ :
      ∃ w₀ : CowWriter,
      w₀.initPos.initBatchWrites = w ∧ w₀.header = { setupHeaders options with
        bufferSize := if options.scratchSpace then BitVec.ofNat 32 bufferRegionDefaultSize
          else 0 } ∧
      w₀.batchWrite = (create properties options device file).batchWrite ∧
      w₀.cowImageSize = (create properties options device file).cowImageSize ∧ w₀.numOps = 0 ∧
        w₀.opVec = [] ∧
      w₀.dataVec = [] ∧ w₀.writes = [] ∧ w₀.indices = [] ∧ w₀.file = if options.scratchSpace then
        (file.pwrite ⟨0, codec.encode w₀.header⟩).pwrite
          ⟨sizeofCowHeader, List.replicate bufferRegionDefaultSize 0⟩
        else file.pwrite ⟨0, codec.encode w₀.header⟩ :=
    ⟨_, Option.some.inj opened, isHeader, rfl, rfl, rfl, rfl, rfl, rfl, rfl, rfl⟩
  have clusterOps : w₀.clusterOps = options.clusterOps.toNat := by
    rw [CowSetup.clusterOps, header]
    rfl
  have setup : w.batchWrite = w₀.batchWrite := by
    rw [← isReady, initBatchWrites_setup]
    rfl
  have result := @stands_start w₀ (by rwa [clusterOps]) (by rwa [clusterOps])
    (fun on => by
      rw [clusterOps]
      exact ⟨batched (isBatch ▸ on), batch (setup.trans on)⟩)
    (by rwa [size]) (by rw [header, size, ← isHeader]; exact space) count ops data writes
      indices (by
      have header : 0 + (codec.encode w₀.header).length < 2 ^ 63 := by
        rw [codec.encode_length]
        decide
      have first := File.size_pwrite_lt length header
      rw [isFile]
      split
      · refine File.size_pwrite_lt first ?_
        rw [length_replicate]
        decide
      · exact first) (by
      have written := File.has_pwrite file ⟨0, codec.encode w₀.header⟩
      have length : (codec.encode w₀.header).length = sizeofCowHeader := codec.encode_length _
      rw [isFile, start]
      rw [File.has_append]
      split
      · refine ⟨written.pwrite (.inl ?_), ?_⟩
        · exact Nat.zero_add _ ▸ le_refl _
        · rw [header, if_pos ‹_›]
          exact File.has_pwrite _ _
      · refine ⟨written, ?_⟩
        rw [header, if_neg ‹_›]
        exact File.has_nil _ _)
  have same : w.header = w₀.header := by
    rw [← isReady, initBatchWrites_setup]
    rfl
  rw [isReady, ← same] at result
  exact ⟨result, same.trans header, several, lt_of_le_of_lt blockSize (by decide)⟩

end Initialize

end Aosp.Snapshot.CowWriter
