import Aosp.Sparse.ReadBack

/- The cutting that `sparse_file_write` does first: chunks of at most 64 MiB, without any change
to the gaps between them. -/
namespace Aosp.Sparse

open List BackedBlock Option
open Layout (Byte)

section Bounds

variable {blockSize : Nat} {blocks pieces : List BackedBlock}

variable {bb : BackedBlock}

theorem Recut.cut {k : Nat} (inside : k * blockSize < bb.len)
    (later : Recut blockSize (bb.behind blockSize k :: blocks) pieces) :
    Recut blockSize (bb :: blocks) (bb.front blockSize k :: pieces) := by
  cases later with
  | cons first rest => exact Recut.cons (.cut inside first) rest

theorem Cuttable.cons (filled : 0 < bb.len) (fits : bb.Fits blockSize)
    (above : ∀ piece ∈ pieces, bb.block + bb.blocks blockSize ≤ piece.block)
    (cuttable : Cuttable blockSize pieces) :
    Cuttable blockSize (bb :: pieces) where
  filled := forall_mem_cons.mpr ⟨filled, cuttable.filled⟩
  apart := pairwise_cons.mpr ⟨above, cuttable.apart⟩
  fits := forall_mem_cons.mpr ⟨fits, cuttable.fits⟩

variable {maxLen : Nat}

/-- What the loop leaves when it ends. -/
structure SplitInto (blockSize maxLen : Nat) (blocks pieces : List BackedBlock) : Prop where
  recut : Recut blockSize blocks pieces
  cuttable : Cuttable blockSize pieces
  short : ∀ bb ∈ pieces, bb.len ≤ maxLen / blockSize * blockSize

variable {blocks : List BackedBlock}

theorem splitAll_splitInto (positive : 0 < blockSize) (block : blockSize ≤ maxLen) {fuel : Nat}
    {pieces : List BackedBlock} (cuttable : Cuttable blockSize blocks)
    (split : splitAll blockSize maxLen fuel blocks = some pieces) :
    SplitInto blockSize maxLen blocks pieces := by
  have nonempty : 0 < maxLen / blockSize := Nat.div_pos block positive
  induction fuel generalizing blocks pieces with
  | zero =>
    cases blocks with
    | nil =>
      cases split
      exact ⟨.nil, cuttable, nofun⟩
    | cons => cases split
  | succ fuel ih =>
    cases blocks with
    | nil =>
      cases split
      exact ⟨.nil, cuttable, nofun⟩
    | cons bb rest =>
      have fits := cuttable.fits bb mem_cons_self
      have filled := cuttable.filled bb mem_cons_self
      rw [splitAll] at split
      rcases split_cases positive fits maxLen with ⟨short, whole⟩ | ⟨inside, halves⟩
      · rw [whole] at split
        obtain ⟨later, isLater, rfl⟩ := map_eq_some_iff.mp split
        have rests := ih cuttable.of_cons isLater
        refine ⟨.cons (.whole bb) rests.recut, ?_, forall_mem_cons.mpr ⟨short, rests.short⟩⟩
        refine Cuttable.cons filled fits ?_ rests.cuttable
        intro piece member
        obtain ⟨other, there, within⟩ := rests.recut.bounds positive piece member
        exact le_trans (cuttable.later other there) within.1
      · rw [halves] at split
        obtain ⟨later, isLater, rfl⟩ := map_eq_some_iff.mp split
        have rests := ih (cuttable.behind positive inside) isLater
        have total := blocks_behind positive inside
        have size : (bb.front blockSize (maxLen / blockSize)).blocks blockSize =
            maxLen / blockSize := divRoundUp_mul positive _
        have start : (bb.front blockSize (maxLen / blockSize)).block = bb.block := rfl
        have next : (bb.behind blockSize (maxLen / blockSize)).block =
          bb.block + maxLen / blockSize := rfl
        refine ⟨Recut.cut inside rests.recut, ?_, forall_mem_cons.mpr ⟨le_refl _, rests.short⟩⟩
        refine Cuttable.cons (Nat.mul_pos nonempty positive) ?_ ?_ rests.cuttable
        · unfold BackedBlock.Fits at fits ⊢
          omega
        · intro piece member
          obtain ⟨other, there, within⟩ := rests.recut.bounds positive piece member
          rcases mem_cons.mp there with rfl | behind
          · omega
          · have := cuttable.later other behind
            omega

/-- As many rounds as there are blocks are enough. -/
theorem exists_splitAll (positive : 0 < blockSize) (block : blockSize ≤ maxLen) (fuel : Nat)
    (cuttable : Cuttable blockSize blocks)
    (enough : (blocks.map fun bb => bb.blocks blockSize).sum ≤ fuel) :
    ∃ pieces, splitAll blockSize maxLen fuel blocks = some pieces := by
  have filled : 0 < maxLen / blockSize := Nat.div_pos block positive
  induction fuel generalizing blocks with
  | zero =>
    cases blocks with
    | nil => exact ⟨[], rfl⟩
    | cons bb rest =>
      have contents := cuttable.blocks_pos positive mem_cons_self
      rw [map_cons, sum_cons] at enough
      omega
  | succ fuel ih =>
    cases blocks with
    | nil => exact ⟨[], rfl⟩
    | cons bb rest =>
      have fits := cuttable.fits bb mem_cons_self
      have contents := cuttable.blocks_pos positive mem_cons_self
      rw [map_cons, sum_cons] at enough
      rw [splitAll]
      rcases split_cases positive fits maxLen with ⟨-, whole⟩ | ⟨inside, halves⟩
      · rw [whole]
        obtain ⟨pieces, isPieces⟩ := ih cuttable.of_cons (by omega)
        refine ⟨bb :: pieces, ?_⟩
        simp [isPieces]
      · rw [halves]
        have total := blocks_behind positive inside
        obtain ⟨pieces, isPieces⟩ := ih (cuttable.behind positive inside) (by
          rw [map_cons, sum_cons]
          omega)
        refine ⟨bb.front blockSize (maxLen / blockSize) :: pieces, ?_⟩
        simp [isPieces]

/-- Blocks above the limit are cut in front of their first byte, again and again. -/
theorem splitAll_endless (fuel : Nat) (exceeds : maxLen < blockSize) {bb : BackedBlock}
    (filled : 0 < bb.len) (fits : bb.Fits blockSize) (rest : List BackedBlock) :
    splitAll blockSize maxLen fuel (bb :: rest) = none := by
  have nothing : maxLen / blockSize = 0 := Nat.div_eq_of_lt exceeds
  have same : bb.behind blockSize 0 = bb := by
    cases bb with
    | mk block len backing =>
      cases backing <;>
        simp [behind, Backing.advance]
  induction fuel with
  | zero => rfl
  | succ fuel ih =>
    rw [splitAll, backedBlockSplit_eq (by omega) fits, nothing, zero_mul,
      if_neg (not_le_of_gt filled), same]
    simp [ih]

theorem chunksFrom_append (lastBlock : Nat) (left right : List BackedBlock) :
    chunksFrom blockSize lastBlock (left ++ right) = chunksFrom blockSize lastBlock left ++
      chunksFrom blockSize (endFrom blockSize lastBlock left) right := by
  induction left generalizing lastBlock with
  | nil => rfl
  | cons bb rest ih =>
    rw [cons_append, chunksFrom, chunksFrom, ih, append_assoc]
    rfl

theorem Parts.gaps (positive : 0 < blockSize) {bb : BackedBlock} {parts : List BackedBlock}
    (cut : Parts blockSize bb parts) (filled : 0 < bb.len) (fits : bb.Fits blockSize)
    (lastBlock : Nat) :
    endFrom blockSize lastBlock parts = bb.lastBlock blockSize ∧
      ((∀ chunk ∈ chunksFrom blockSize lastBlock parts, chunk.Small) ↔
        ∀ chunk ∈ gapBefore lastBlock bb, chunk.Small) := by
  induction cut generalizing lastBlock with
  | whole bb =>
    refine ⟨rfl, ?_⟩
    rw [chunksFrom, chunksFrom, forall_mem_append, forall_mem_singleton]
    exact and_iff_left True.intro
  | @cut bb k parts inside _ ih =>
    have total := blocks_behind positive inside
    have size : (bb.front blockSize k).blocks blockSize = k := divRoundUp_mul positive k
    have start : (bb.behind blockSize k).block = bb.block + k := rfl
    have rest : 0 < (bb.behind blockSize k).len := by
      change 0 < bb.len - k * blockSize
      omega
    have contents : 0 < (bb.behind blockSize k).blocks blockSize := by
      rw [blocks, lt_divRoundUp positive, zero_mul]
      exact rest
    unfold BackedBlock.Fits at fits
    have restFits : (bb.behind blockSize k).Fits blockSize := by
      unfold BackedBlock.Fits
      omega
    have next : (bb.front blockSize k).lastBlock blockSize = bb.block + k := by
      change u32 (bb.block + (bb.front blockSize k).blocks blockSize) = _
      rw [size]
      exact Nat.mod_eq_of_lt (by omega)
    obtain ⟨ends, small⟩ := ih rest restFits (bb.block + k)
    have noGap : gapBefore (bb.block + k) (bb.behind blockSize k) = [] := by
      rw [gapBefore, start, if_neg (lt_irrefl _)]
    refine ⟨?_, ?_⟩
    · rw [endFrom, next, ends]
      change u32 (bb.block + k + (bb.behind blockSize k).blocks blockSize) =
          u32 (bb.block + bb.blocks blockSize)
      rw [add_assoc, total]
    · rw [chunksFrom, next, forall_mem_append, forall_mem_cons, small, noGap]
      exact and_iff_left ⟨True.intro, by simp⟩

theorem Recut.gaps (positive : 0 < blockSize) {blocks pieces : List BackedBlock}
    (cut : Recut blockSize blocks pieces) (cuttable : Cuttable blockSize blocks) (lastBlock : Nat) :
    endFrom blockSize lastBlock pieces = endFrom blockSize lastBlock blocks ∧
      ((∀ chunk ∈ chunksFrom blockSize lastBlock pieces, chunk.Small) ↔
        ∀ chunk ∈ chunksFrom blockSize lastBlock blocks, chunk.Small) := by
  induction cut generalizing lastBlock with
  | nil => exact ⟨rfl, Iff.rfl⟩
  | @cons bb parts blocks recut first _ ih =>
    obtain ⟨ends, small⟩ := first.gaps positive (cuttable.filled bb mem_cons_self)
      (cuttable.fits bb mem_cons_self) lastBlock
    obtain ⟨restEnds, restSmall⟩ := ih cuttable.of_cons (bb.lastBlock blockSize)
    refine ⟨?_, ?_⟩
    · rw [endFrom_append, ends, restEnds]
      rfl
    · rw [chunksFrom_append, ends, forall_mem_append, small, restSmall, chunksFrom,
        forall_mem_append, forall_mem_cons]
      exact and_congr_right fun _ => (and_iff_right True.intro).symm

variable {s : SparseFile}

/-- What is cut is empty, or has blocks of at most 64 MiB. -/
theorem Image.splits_iff (image : Image s) :
    (∃ fuel pieces, splitAll s.blockSize maxBackedBlockSize fuel s.blocks = some pieces) ↔
      s.blocks = [] ∨ s.blockSize ≤ maxBackedBlockSize := by
  constructor
  · rintro ⟨fuel, pieces, split⟩
    by_cases block : s.blockSize ≤ maxBackedBlockSize
    · exact .inr block
    · left
      cases blocks : s.blocks with
      | nil => rfl
      | cons bb rest =>
        have member : bb ∈ s.blocks := by
          rw [blocks]
          exact mem_cons_self
        rw [blocks, splitAll_endless fuel (Nat.lt_of_not_le block)
          (image.cuttable.filled bb member) (image.cuttable.fits bb member)] at split
        cases split
  · intro possible
    by_cases block : s.blockSize ≤ maxBackedBlockSize
    · obtain ⟨pieces, split⟩ := exists_splitAll image.positive block _ image.cuttable (le_refl _)
      exact ⟨_, pieces, split⟩
    · refine ⟨0, [], ?_⟩
      rw [possible.resolve_right block]
      rfl

/-- An image that can be written in one record for each chunk. -/
structure Recordable (s : SparseFile) : Prop where
  image : Image s
  records : ∀ bb ∈ s.blocks, 12 + align bb.len s.blockSize < 2 ^ 32

variable {pieces : List BackedBlock}

theorem Image.recut (image : Image s)
    (recut : Recut s.blockSize s.blocks pieces) (cuttable : Cuttable s.blockSize pieces) :
    Image (s.withBlocks pieces) where
  positive := image.positive
  words := image.words
  small := image.small
  whole := image.whole
  cuttable := cuttable
  inside := by
    intro piece member
    obtain ⟨bb, there, within⟩ := recut.bounds image.positive piece member
    exact le_trans within.2 (image.inside bb there)

variable {fuel : Nat}

theorem Image.splitAll (image : Image s)
    (split : splitAll s.blockSize maxBackedBlockSize fuel s.blocks = some pieces) :
    Recordable (s.withBlocks pieces) ∧ Recut s.blockSize s.blocks pieces := by
  have positive := image.positive
  rcases image.splits_iff.mp ⟨fuel, pieces, split⟩ with empty | block
  · have nothing : pieces = [] := by
      rw [empty] at split
      cases fuel <;> exact (some.inj split).symm
    subst nothing
    have recut : Recut s.blockSize s.blocks [] := by
      rw [empty]
      exact .nil
    have cuttable := image.cuttable
    rw [empty] at cuttable
    exact ⟨⟨image.recut recut cuttable, nofun⟩, recut⟩
  · obtain ⟨recut, cuttable, short⟩ := splitAll_splitInto positive block image.cuttable split
    refine ⟨⟨image.recut recut cuttable, ?_⟩, recut⟩
    intro bb member
    have rounded := align_le positive (short bb member)
    have limit := Nat.div_mul_le_self maxBackedBlockSize s.blockSize
    have size : maxBackedBlockSize = 67108864 := rfl
    change 12 + align bb.len s.blockSize < 2 ^ 32
    omega

theorem Image.write_eq (image : Image s) {sources : Sources} {crc : Bool} {file : List Byte} :
    sparseFileWrite fuel sources s crc = some file ↔
      ∃ pieces, Sparse.splitAll s.blockSize maxBackedBlockSize fuel s.blocks = some pieces ∧
        (s.withBlocks pieces).image sources crc = file := by
  unfold sparseFileWrite
  rw [bind_eq_bind, bind_eq_some_iff]
  refine exists_congr fun pieces => and_congr_right fun split => ?_
  rw [(image.splitAll split).1.image.callback_eq, some_inj]

/-- Cutting keeps the end of an image and its gaps. -/
theorem Image.small_iff (image : Image s) (recut : Recut s.blockSize s.blocks pieces) :
    (∀ chunk ∈ (s.withBlocks pieces).layout, chunk.Small) ↔ ∀ chunk ∈ s.layout, chunk.Small := by
  obtain ⟨ends, small⟩ := recut.gaps image.positive image.cuttable 0
  have pad : (s.withBlocks pieces).pad = s.pad :=
    congrArg (fun lastBlock => s.len - lastBlock * s.blockSize) ends
  have skip : (s.withBlocks pieces).endSkip = s.endSkip := by
    unfold SparseFile.endSkip
    rw [pad]
    rfl
  rw [SparseFile.layout, skip, forall_mem_append, SparseFile.layout, forall_mem_append]
  exact and_congr_left fun _ => small

end Bounds

end Aosp.Sparse
