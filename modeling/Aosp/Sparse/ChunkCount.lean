import Aosp.Sparse.Splitting

namespace Aosp.Sparse

open List SparseFile

/-- Chunks in order inside an image, whose last block may be shorter than the others. -/
structure InRange (s : SparseFile) : Prop where
  positive : 0 < s.blockSize
  cuttable : Cuttable s.blockSize s.blocks
  inside : ∀ bb ∈ s.blocks, bb.block + bb.blocks s.blockSize ≤ divRoundUp s.len s.blockSize

/-- The `chunk_sz` fields of the chunks. -/
def SparseFile.chunkSizes (s : SparseFile) : List Nat :=
  s.layout.map fun chunk => u32 (chunk.blocks s.blockSize)

/-- The header counts the chunks behind it, and the blocks in their headers. -/
def SparseFile.Counted (s : SparseFile) (crc : Bool) : Prop :=
  (s.header crc).totalChunks.toNat = s.layout.length + (if crc then 1 else 0) ∧
    s.chunkSizes.sum = (s.header crc).totalBlks.toNat

/-- Whole blocks, no chunk that reaches above the 32 bits of the number of blocks, and not too many
chunks for the 32 bits of their number. -/
structure SparseFile.Countable (s : SparseFile) (crc : Bool) : Prop where
  whole : s.len % s.blockSize = 0
  inside : ∀ bb ∈ s.blocks, bb.block + u32 (bb.blocks s.blockSize) ≤ u32 (s.len / s.blockSize)
  few : s.layout.length + (if crc then 1 else 0) < 2 ^ 32

variable {s : SparseFile} {fuel : Nat} {pieces : List BackedBlock}

/-- Cutting leaves chunks in range. Where a block is over the limit, nothing is cut at all. -/
theorem InRange.splitAll (range : InRange s)
    (split : splitAll s.blockSize maxBackedBlockSize fuel s.blocks = some pieces) :
    InRange (s.withBlocks pieces) := by
  by_cases small : s.blockSize ≤ maxBackedBlockSize
  · have into := splitAll_splitInto range.positive small range.cuttable split
    refine ⟨range.positive, into.cuttable, fun piece member => ?_⟩
    obtain ⟨bb, there, within⟩ := into.recut.bounds range.positive piece member
    exact le_trans within.2 (range.inside bb there)
  · cases empty : s.blocks with
    | nil =>
      have nothing : pieces = s.blocks := by
        rw [empty] at split ⊢
        cases fuel <;> exact (Option.some.inj split).symm
      rw [nothing]
      exact ⟨range.positive, range.cuttable, range.inside⟩
    | cons bb rest =>
      have member : bb ∈ s.blocks := empty ▸ mem_cons_self
      rw [empty, splitAll_endless fuel (Nat.lt_of_not_le small) (range.cuttable.filled bb member)
        (range.cuttable.fits bb member)] at split
      cases split

section Sizes

variable {blockSize lastBlock : Nat} {blocks : List BackedBlock}

/-- The sizes of chunks in their headers lead to the block behind the last node, as it is counted
with the size in its header. -/
theorem sum_chunkSizes (positive : 0 < blockSize) (cuttable : Cuttable blockSize blocks)
    (behind : ∀ bb ∈ blocks, lastBlock ≤ bb.block) (number : lastBlock < 2 ^ 32) :
    ∃ stop, lastBlock + ((chunksFrom blockSize lastBlock blocks).map fun chunk =>
        u32 (chunk.blocks blockSize)).sum = stop ∧ endFrom blockSize lastBlock blocks = u32 stop ∧
      ∀ bound, lastBlock ≤ bound →
        (stop ≤ bound ↔ ∀ bb ∈ blocks, bb.block + u32 (bb.blocks blockSize) ≤ bound) := by
  induction blocks generalizing lastBlock with
  | nil =>
    exact ⟨lastBlock, rfl, (Nat.mod_eq_of_lt number).symm,
      fun bound least => ⟨fun _ => nofun, fun _ => least⟩⟩
  | cons bb rest ih =>
    have start := behind bb mem_cons_self
    have below := cuttable.number positive mem_cons_self
    have gap : ((gapBefore lastBlock bb).map fun chunk => u32 (chunk.blocks blockSize)).sum =
        bb.block - lastBlock := by
      unfold gapBefore
      split
      · exact (add_zero _).trans (Nat.mod_eq_of_lt (lt_of_le_of_lt (Nat.sub_le _ _) below))
      · change 0 = _
        omega
    obtain ⟨stop, sum, ends, bounds⟩ := ih cuttable.of_cons
      (fun other member => le_trans bb.lastBlock_le (cuttable.later other member))
      (Nat.mod_lt _ (by decide))
    cases rest with
    | nil =>
      refine ⟨bb.block + u32 (bb.blocks blockSize), ?_, (u32_add_u32 _ _).symm,
        fun bound _ => by simp⟩
      simp only [chunksFrom, map_append, map_cons, map_nil, sum_append, sum_cons, sum_nil, gap]
      change lastBlock + (bb.block - lastBlock + (u32 (bb.blocks blockSize) + 0)) = _
      omega
    | cons next rest =>
      -- in front of another node nothing is cut off
      have above := cuttable.later next mem_cons_self
      have nextBelow := cuttable.number positive (mem_cons_of_mem bb mem_cons_self)
      have size : u32 (bb.blocks blockSize) = bb.blocks blockSize := Nat.mod_eq_of_lt (by omega)
      have last : bb.lastBlock blockSize = bb.block + bb.blocks blockSize :=
        Nat.mod_eq_of_lt (lt_of_le_of_lt above nextBelow)
      refine ⟨stop, ?_, ends, fun bound least => ?_⟩
      · rw [chunksFrom, map_append, sum_append, gap, map_cons, sum_cons]
        change lastBlock + (bb.block - lastBlock + (u32 (bb.blocks blockSize) + _)) = stop
        omega
      · rw [forall_mem_cons, size]
        constructor
        · intro short
          have first : bb.block + bb.blocks blockSize ≤ bound := by omega
          exact ⟨first, (bounds bound (by omega)).mp short⟩
        · rintro ⟨first, others⟩
          exact (bounds bound (by omega)).mpr others

end Sizes

section Counting

variable (sources : Sources) (crc : Bool)

/-- The rest of a block is announced as a chunk, but none is written for it. -/
theorem InRange.not_counted (range : InRange s) (part : s.len % s.blockSize ≠ 0)
    (inside : endFrom s.blockSize 0 s.blocks * s.blockSize ≤ s.len) :
    ¬ s.Counted crc := by
  rintro ⟨count, -⟩
  have rest : s.pad % s.blockSize = s.len % s.blockSize := by
    rw [pad, mul_comm, Nat.sub_mul_mod (by rwa [mul_comm])]
  have last : endFrom s.blockSize 0 s.blocks < divRoundUp s.len s.blockSize := by
    rw [lt_divRoundUp range.positive]
    refine lt_of_le_of_ne inside fun same => part ?_
    simp [← same]
  have announced : (s.header crc).totalChunks.toNat =
      (if crc then sparseCountChunks s + 1 else sparseCountChunks s) % 2 ^ 32 :=
    BitVec.toNat_ofNat _ _
  have chunks : s.layout = chunksFrom s.blockSize 0 s.blocks := by
    rw [layout, endSkip, rest, if_neg fun both => part both.2, append_nil]
  have counted : sparseCountChunks s = u32 (s.layout.length + 1) := by
    rw [sparseCountChunks, countChunks_eq, chunks]
    dsimp only
    rw [if_pos last]
  rw [announced, counted, u32] at count
  split at count <;> omega

theorem InRange.counted_iff (range : InRange s) :
    sparseFileCallback sources s crc = some (s.image sources crc) ∧ s.Counted crc ↔
      s.Countable crc := by
  obtain ⟨stop, sum, ends, bounds⟩ := sum_chunkSizes range.positive range.cuttable
    (fun bb _ => Nat.zero_le bb.block) (Nat.two_pow_pos 32)
  have bound := endFrom_le range.inside (Nat.zero_le _)
  rw [sparseFileCallback_eq sources s range.positive]
  by_cases whole : s.len % s.blockSize = 0
  · have total := total_eq range.positive whole
    have length := len_eq whole
    have blocks : (s.header crc).totalBlks.toNat = u32 s.total := by
      rw [← total]
      exact BitVec.toNat_ofNat _ _
    have sizes : s.chunkSizes.sum = stop +
        if endFrom s.blockSize 0 s.blocks < s.total then
          u32 (s.total - endFrom s.blockSize 0 s.blocks) else 0 := by
      rw [chunkSizes, layout, endSkip_eq range.positive whole, map_append, sum_append,
        ← sum, zero_add]
      split <;> rfl
    rw [total] at bound
    have written : ¬ s.len < endFrom s.blockSize 0 s.blocks * s.blockSize := by
      rw [length, not_lt]
      exact Nat.mul_le_mul_right _ bound
    have exact_iff : s.chunkSizes.sum = u32 s.total ↔ stop ≤ u32 s.total := by
      rw [sizes, ends]
      rw [ends] at bound
      unfold u32 at bound ⊢
      split <;> omega
    rw [if_neg written, Counted, announced_eq crc range.positive whole, blocks, exact_iff,
      bounds _ (Nat.zero_le _)]
    have count : s.announced crc = s.layout.length + (if crc then 1 else 0) ↔
        s.layout.length + (if crc then 1 else 0) < 2 ^ 32 := by
      unfold announced u32
      split <;> omega
    rw [count]
    constructor
    · rintro ⟨-, few, inside⟩
      exact ⟨whole, inside, few⟩
    · rintro ⟨-, inside, few⟩
      exact ⟨rfl, few, inside⟩
  · constructor
    · rintro ⟨written, counted⟩
      refine absurd counted (range.not_counted crc whole ?_)
      by_contra beyond
      rw [if_pos (not_le.mp beyond)] at written
      cases written
    · intro countable
      exact absurd countable.whole whole

/-- The header is right exactly for whole blocks that can be counted, whether the chunks are cut
before or not. -/
theorem totalChunks_exact_iff (range : InRange s) :
    (sparseFileCallback sources s crc = some (s.image sources crc) ∧ s.Counted crc ↔
      s.Countable crc) ∧
    ∀ fuel pieces, splitAll s.blockSize maxBackedBlockSize fuel s.blocks = some pieces →
      (sparseFileWrite fuel sources s crc = some ((s.withBlocks pieces).image sources crc) ∧
        (s.withBlocks pieces).Counted crc ↔ (s.withBlocks pieces).Countable crc) := by
  refine ⟨range.counted_iff sources crc, fun fuel pieces split => ?_⟩
  rw [sparseFileWrite, split]
  exact (range.splitAll split).counted_iff sources crc

end Counting

/-- Data and a fill, each behind a gap. -/
def gappedData : SparseFile :=
  (sparseFileNew 4 24).withBlocks [⟨1, 7, .data 0⟩, ⟨4, 4, .fill 7⟩]

theorem gappedData_inRange : InRange gappedData :=
  ⟨by decide, ⟨by decide, by decide, by decide⟩, by decide⟩

theorem totalChunks_exact_gapped : gappedData.Counted true ∧
    sparseFileWrite 2 zeroSources gappedData true = some (gappedData.image zeroSources true) :=
  have exact_iff := totalChunks_exact_iff zeroSources true gappedData_inRange
  ⟨(exact_iff.1.mpr ⟨by decide, by decide, by decide⟩).2,
    ((exact_iff.2 2 gappedData.blocks (by decide)).mpr ⟨by decide, by decide, by decide⟩).1⟩

/-- Less than two blocks, none of them with contents. -/
def partBlock : SparseFile := sparseFileNew 4096 5000

/-- One chunk of two blocks is announced, and none is there. -/
theorem totalChunks_announces_rest : InRange partBlock ∧
    sparseFileCallback zeroSources partBlock false =
      some (SparseHeader.codec.encode (partBlock.header false)) ∧
    (partBlock.header false).totalChunks = 1 ∧ (partBlock.header false).totalBlks = 2 :=
  ⟨⟨by decide, ⟨nofun, .nil, nofun⟩, nofun⟩, rfl, rfl, rfl⟩

end Aosp.Sparse
