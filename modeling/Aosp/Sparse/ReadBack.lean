import Aosp.Sparse.Import
import Aosp.Sparse.Resparse

/- What an import finds in an image that was written: the reader takes the chunks at the places
the writer gave them, as many of them as the header counts. -/
namespace Aosp.Sparse

open Option List SparseFile
open Layout (Byte)
open Fallible (require)

/-- An image in memory: whole words, whole blocks, and chunks in order that stay inside. -/
structure Image (s : SparseFile) : Prop where
  positive : 0 < s.blockSize
  words : s.blockSize % 4 = 0
  small : s.blockSize < 2 ^ 32
  whole : s.len % s.blockSize = 0
  cuttable : Cuttable s.blockSize s.blocks
  inside : ∀ bb ∈ s.blocks, bb.block + bb.blocks s.blockSize ≤ s.len / s.blockSize

/-- The size of an image in blocks. -/
def SparseFile.total (s : SparseFile) : Nat := s.len / s.blockSize

section Places

variable {blockSize : Nat}

variable {blocks : List BackedBlock} {bb : BackedBlock}

theorem Cuttable.blocks_pos (positive : 0 < blockSize) (cuttable : Cuttable blockSize blocks)
    (member : bb ∈ blocks) :
    0 < bb.blocks blockSize := by
  rw [BackedBlock.blocks, lt_divRoundUp positive, zero_mul]
  exact cuttable.filled bb member

theorem Cuttable.number (positive : 0 < blockSize) (cuttable : Cuttable blockSize blocks)
    (member : bb ∈ blocks) :
    bb.block < 2 ^ 32 := by
  have fits : bb.block + bb.blocks blockSize ≤ 2 ^ 32 := cuttable.fits bb member
  have filled := cuttable.blocks_pos positive member
  omega

theorem BackedBlock.lastBlock_le (bb : BackedBlock) :
    bb.lastBlock blockSize ≤ bb.block + bb.blocks blockSize := Nat.mod_le _ _

theorem Cuttable.later {rest : List BackedBlock} (cuttable : Cuttable blockSize (bb :: rest)) :
    ∀ next ∈ rest, bb.block + bb.blocks blockSize ≤ next.block :=
  (pairwise_cons.mp cuttable.apart).1

variable {lastBlock : Nat}

theorem u32_gap {block : Nat} (gap : lastBlock < block) (number : block < 2 ^ 32) :
    u32 (lastBlock + u32 (block - lastBlock)) = block := by
  unfold u32
  omega

theorem u32_add_u32 (m n : Nat) : u32 (m + u32 n) = u32 (m + n) := by
  unfold u32
  omega

theorem wellPlaced_chunksFrom (positive : 0 < blockSize) (cuttable : Cuttable blockSize blocks)
    (records : ∀ bb ∈ blocks, 12 + align bb.len blockSize < 2 ^ 32) {tail : List Chunk}
    (placed : ∀ stop curBlock, WellPlaced blockSize stop curBlock tail) {stop : Nat}
    (behind : ∀ bb ∈ blocks, stop ≤ bb.block ∧ lastBlock ≤ bb.block) :
    WellPlaced blockSize stop lastBlock (chunksFrom blockSize lastBlock blocks ++ tail) := by
  induction blocks generalizing stop lastBlock with
  | nil => exact placed stop lastBlock
  | cons bb rest ih =>
    have number := cuttable.number positive mem_cons_self
    obtain ⟨stopBelow, lastBelow⟩ := behind bb mem_cons_self
    have storable : Storable blockSize bb := ⟨cuttable.filled bb mem_cons_self,
      records bb mem_cons_self, number⟩
    have later : ∀ next ∈ rest, bb.block + bb.blocks blockSize ≤ next.block ∧
        bb.lastBlock blockSize ≤ next.block := by
      intro next member
      have above := cuttable.later next member
      exact ⟨above, le_trans bb.lastBlock_le above⟩
    have node : WellPlaced blockSize stop bb.block
        (.stored bb :: chunksFrom blockSize (bb.lastBlock blockSize) rest ++ tail) := by
      refine ⟨storable, rfl, stopBelow, ?_⟩
      rw [u32_add_u32]
      exact ih cuttable.of_cons (fun other member => records other (mem_cons_of_mem _ member)) later
    rw [chunksFrom, gapBefore]
    by_cases gap : lastBlock < bb.block
    · rw [if_pos gap]
      rw [← u32_gap gap number] at node
      exact node
    · have same : lastBlock = bb.block := by omega
      rw [if_neg gap, same]
      exact node

/-- The reader counts its blocks as the writer does. -/
theorem blockBehind_chunksFrom (positive : 0 < blockSize) (cuttable : Cuttable blockSize blocks)
    (tail : List Chunk) (behind : ∀ bb ∈ blocks, lastBlock ≤ bb.block) :
    blockBehind blockSize lastBlock (chunksFrom blockSize lastBlock blocks ++ tail) =
      blockBehind blockSize (endFrom blockSize lastBlock blocks) tail := by
  induction blocks generalizing lastBlock with
  | nil => rfl
  | cons bb rest ih =>
    have number := cuttable.number positive mem_cons_self
    have lastBelow := behind bb mem_cons_self
    have later := ih cuttable.of_cons fun next member =>
      le_trans bb.lastBlock_le (cuttable.later next member)
    have node : blockBehind blockSize bb.block
        (.stored bb :: chunksFrom blockSize (bb.lastBlock blockSize) rest ++ tail) =
        blockBehind blockSize (endFrom blockSize lastBlock (bb :: rest)) tail := by
      rw [endFrom, ← later, cons_append, blockBehind, u32_add_u32]
      rfl
    rw [chunksFrom, append_assoc, gapBefore, ← node]
    by_cases gap : lastBlock < bb.block
    · rw [if_pos gap, singleton_append, blockBehind]
      dsimp only [Chunk.blocks]
      rw [u32_gap gap number]
    · have same : lastBlock = bb.block := by omega
      rw [if_neg gap, same]
      rfl

variable {total : Nat}

theorem endFrom_le (inside : ∀ bb ∈ blocks, bb.block + bb.blocks blockSize ≤ total)
    (start : lastBlock ≤ total) :
    endFrom blockSize lastBlock blocks ≤ total := by
  induction blocks generalizing lastBlock with
  | nil => exact start
  | cons bb rest ih =>
    exact ih (fun other member => inside other (mem_cons_of_mem _ member))
      (le_trans bb.lastBlock_le (inside bb mem_cons_self))

theorem endFrom_lt (blocks : List BackedBlock) (start : lastBlock < 2 ^ 32) :
    endFrom blockSize lastBlock blocks < 2 ^ 32 := by
  induction blocks generalizing lastBlock with
  | nil => exact start
  | cons bb rest ih => exact ih (Nat.mod_lt _ (by decide))

theorem countChunks_eq (lastBlock : Nat) (blocks : List BackedBlock) :
    countChunks blockSize lastBlock blocks =
      ((chunksFrom blockSize lastBlock blocks).length, endFrom blockSize lastBlock blocks) := by
  induction blocks generalizing lastBlock with
  | nil => rfl
  | cons bb rest ih =>
    rw [countChunks, ih, chunksFrom, endFrom, gapBefore]
    by_cases gap : lastBlock < bb.block
    · simp [if_pos gap]
    · simp [if_neg gap]

/-- The chunks of a list of nodes lead from the first block to the end, by at least a block each. -/
theorem sum_chunksFrom (positive : 0 < blockSize) (few : total < 2 ^ 32)
    (cuttable : Cuttable blockSize blocks)
    (inside : ∀ bb ∈ blocks, bb.block + bb.blocks blockSize ≤ total)
    (behind : ∀ bb ∈ blocks, lastBlock ≤ bb.block) :
    let chunks := chunksFrom blockSize lastBlock blocks
    chunks.length ≤ (chunks.map (Chunk.blocks blockSize)).sum ∧
      lastBlock + (chunks.map (Chunk.blocks blockSize)).sum =
      endFrom blockSize lastBlock blocks := by
  induction blocks generalizing lastBlock with
  | nil => exact ⟨le_refl _, rfl⟩
  | cons bb rest ih =>
    have contents := cuttable.blocks_pos positive mem_cons_self
    have within := inside bb mem_cons_self
    have next : bb.lastBlock blockSize = bb.block + bb.blocks blockSize :=
      Nat.mod_eq_of_lt (by
        change bb.block + bb.blocks blockSize < _
        omega)
    have later := ih cuttable.of_cons (fun other member => inside other (mem_cons_of_mem _ member))
      fun other member => le_trans bb.lastBlock_le (cuttable.later other member)
    have start := behind bb mem_cons_self
    have gap : (gapBefore lastBlock bb).length ≤ bb.block - lastBlock ∧
        ((gapBefore lastBlock bb).map (Chunk.blocks blockSize)).sum = bb.block - lastBlock := by
      unfold gapBefore
      split
      · exact ⟨by rw [length_singleton]; omega, add_zero _⟩
      · exact ⟨Nat.zero_le _, by change 0 = _; omega⟩
    simp only [chunksFrom, endFrom, map_append, map_cons, sum_append, sum_cons, length_append,
      length_cons, show Chunk.blocks blockSize (.stored bb) =
      bb.blocks blockSize from rfl] at later ⊢
    omega

variable {s : SparseFile}

section Whole

variable (positive : 0 < s.blockSize) (whole : s.len % s.blockSize = 0)

include whole

theorem SparseFile.len_eq : s.len = s.total * s.blockSize :=
  (Nat.div_mul_cancel (Nat.dvd_of_mod_eq_zero whole)).symm

include positive

/-- The rest of the image is one chunk, if there is a rest. -/
theorem SparseFile.endSkip_eq : s.endSkip = if endFrom s.blockSize 0 s.blocks < s.total then
      [.dontCare (s.total - endFrom s.blockSize 0 s.blocks)] else [] := by
  rw [endSkip, pad, len_eq whole, ← Nat.sub_mul, Nat.mul_mod_left,
    Nat.mul_div_cancel _ positive]
  by_cases rest : endFrom s.blockSize 0 s.blocks < s.total
  · rw [if_pos rest, if_pos ⟨Nat.mul_pos (by omega) positive, rfl⟩]
  · rw [if_neg rest, if_neg]
    rintro ⟨filled, -⟩
    rw [show s.total - endFrom s.blockSize 0 s.blocks = 0 by omega] at filled
    omega

theorem SparseFile.total_eq : divRoundUp s.len s.blockSize = s.total := by
  rw [len_eq whole, divRoundUp_mul positive]

theorem SparseFile.count_eq : sparseCountChunks s = u32 s.layout.length := by
  unfold sparseCountChunks layout
  rw [countChunks_eq, endSkip_eq positive whole, total_eq positive whole, length_append]
  dsimp only
  by_cases rest : endFrom s.blockSize 0 s.blocks < s.total
  · rw [if_pos rest, if_pos rest, length_singleton]
  · rw [if_neg rest, if_neg rest, length_nil]

end Whole

section

variable (image : Image s)

include image

theorem Image.len_eq : s.len = s.total * s.blockSize := SparseFile.len_eq image.whole

theorem Image.four_le : 4 ≤ s.blockSize := by
  have := image.positive
  have := image.words
  omega

theorem Image.end_le : endFrom s.blockSize 0 s.blocks ≤ s.total :=
  endFrom_le image.inside (Nat.zero_le _)

theorem Image.endSkip_eq : s.endSkip = if endFrom s.blockSize 0 s.blocks < s.total then
      [.dontCare (s.total - endFrom s.blockSize 0 s.blocks)] else [] :=
  SparseFile.endSkip_eq image.positive image.whole

theorem Image.wellPlaced (records : ∀ bb ∈ s.blocks, 12 + align bb.len s.blockSize < 2 ^ 32) :
    WellPlaced s.blockSize 0 0 s.layout := by
  refine wellPlaced_chunksFrom image.positive image.cuttable records ?_ fun bb _ =>
    ⟨Nat.zero_le _, Nat.zero_le _⟩
  intro stop curBlock
  rw [image.endSkip_eq]
  split <;> exact True.intro

theorem Image.blockBehind_layout : blockBehind s.blockSize 0 s.layout = u32 s.total := by
  have bound := image.end_le
  have number : endFrom s.blockSize 0 s.blocks < 2 ^ 32 := endFrom_lt s.blocks (by decide)
  rw [layout, blockBehind_chunksFrom image.positive image.cuttable _
    fun bb _ => Nat.zero_le _, image.endSkip_eq]
  by_cases rest : endFrom s.blockSize 0 s.blocks < s.total
  · rw [if_pos rest, blockBehind, blockBehind, u32_add_u32]
    congr 1
    change _ + (s.total - endFrom s.blockSize 0 s.blocks) = s.total
    omega
  · have same : endFrom s.blockSize 0 s.blocks = s.total := by omega
    rw [if_neg rest, same]
    rw [same] at number
    exact (Nat.mod_eq_of_lt number).symm

theorem Image.callback_eq (sources : Sources) (crc : Bool) :
    sparseFileCallback sources s crc = some (s.image sources crc) := by
  rw [sparseFileCallback_eq sources s image.positive, if_neg]
  rw [image.len_eq, not_lt]
  exact Nat.mul_le_mul_right _ image.end_le

theorem Image.length_layout (few : s.total < 2 ^ 32) : s.layout.length ≤ s.total := by
  have chunks := sum_chunksFrom image.positive few image.cuttable image.inside fun bb _ =>
    Nat.zero_le bb.block
  have bound := image.end_le
  rw [layout, image.endSkip_eq]
  split
  · simp
    omega
  · simp
    omega

end

end Places

section Reading

variable (sources : Sources) (handle : Nat) (s : SparseFile) (crc : Bool)

/-- What the records of all chunks take in the file. -/
def SparseFile.records : List Byte := s.layout.flatMap fun chunk => chunk.record sources s.blockSize

/-- The number of records the header announces. -/
def SparseFile.announced : Nat := u32 (s.layout.length + if crc then 1 else 0)

/-- The state in front of the first record. -/
def SparseFile.readStart : ReadState where
  s := sparseFileNew s.blockSize (u32 s.total * s.blockSize)
  source := fileAt handle (SparseHeader.codec.encode (s.header crc))
    (s.records sources ++ s.trailer sources crc)
  crc := if crc then some 0 else none
  curBlock := 0

variable {s}

theorem SparseFile.announced_eq (positive : 0 < s.blockSize) (whole : s.len % s.blockSize = 0) :
    (s.header crc).totalChunks.toNat = s.announced crc := by
  unfold header announced
  rw [BitVec.toNat_ofNat, count_eq positive whole]
  cases crc with
  | false => exact Nat.mod_mod _ _
  | true =>
    simp only [↓reduceIte, u32]
    omega

theorem Image.blkSz_eq (image : Image s) : (s.header crc).blkSz.toNat = s.blockSize := by
  exact (BitVec.toNat_ofNat _ _).trans (Nat.mod_eq_of_lt image.small)

theorem Image.totalBlks_eq (image : Image s) : (s.header crc).totalBlks.toNat = u32 s.total := by
  rw [← total_eq image.positive image.whole]
  exact BitVec.toNat_ofNat _ _

/-- The tests of the header that the reader makes twice. -/
structure GoodHeader (header : SparseHeader) : Prop where
  magic : (header.magic == sparseHeaderMagic) = true
  version : (header.majorVersion == sparseHeaderMajorVer) = true
  fileLong : decide (sparseHeaderLen ≤ header.fileHdrSz.toNat) = true
  recordLong : decide (chunkHeaderLen ≤ header.chunkHdrSz.toNat) = true
  noMore : ¬ sparseHeaderLen < header.fileHdrSz.toNat

theorem goodHeader (s : SparseFile) : GoodHeader (s.header crc) := by
  have fileSize : (s.header crc).fileHdrSz = BitVec.ofNat 16 sparseHeaderLen := rfl
  have recordSize : (s.header crc).chunkHdrSz = BitVec.ofNat 16 chunkHeaderLen := rfl
  refine ⟨beq_self_eq_true _, beq_self_eq_true _, ?_, ?_, ?_⟩
  · rw [fileSize]
    decide
  · rw [recordSize]
    decide
  · rw [fileSize]
    decide

variable {source behind : Source} {header : SparseHeader}

section

variable (read : source.readStruct SparseHeader.codec = some (header, behind))
  (good : GoodHeader header)

include read good

theorem sparseFileReadSparse_eq {new : SparseFile} :
    sparseFileReadSparse new source crc = (readChunks header header.totalChunks.toNat
        ⟨new, behind, if crc then some 0 else none, 0⟩).bind
        fun st => if header.totalBlks.toNat = st.curBlock then some st.s else none := by
  obtain ⟨magic, version, fileLong, recordLong, noMore⟩ := good
  rw [sparseFileReadSparse, read]
  simp only [bind_eq_bind, bind_some, magic, version, fileLong, recordLong, require,
    ↓reduceIte, noMore]
  generalize readChunks header _ _ = chunks
  cases chunks with
  | none => rfl
  | some st =>
    simp only [bind_some, beq_iff_eq]
    split <;> rfl

theorem sparseFileImportSource_eq (filled : header.blkSz.toNat ≠ 0)
    (words : header.blkSz.toNat % 4 = 0) :
    sparseFileImportSource source crc =
      if header.totalBlks.toNat = 0 then none else sparseFileReadSparse
        (sparseFileNew header.blkSz.toNat (header.totalBlks.toNat * header.blkSz.toNat))
        behind.rewind crc := by
  obtain ⟨magic, version, fileLong, recordLong, noMore⟩ := good
  have zero : ∀ word : BitVec 32, (word != 0) = true ↔ word.toNat ≠ 0 := by
    intro word
    rw [bne_iff_ne, ne_eq, ← BitVec.toNat_inj]
    rfl
  rw [sparseFileImportSource, read]
  simp only [bind_eq_bind, bind_some, magic, version, fileLong, recordLong, require,
    ↓reduceIte, Bool.and_eq_true, zero, words, beq_self_eq_true, ne_eq, filled,
    not_false_eq_true, and_self]
  by_cases nothing : header.totalBlks.toNat = 0
  · rw [if_neg (not_not_intro nothing), if_pos nothing, bind_none]
  · rw [if_pos nothing, if_neg nothing, bind_some]

end

/-- An import of a written image goes through the records the header announces. -/
theorem Image.import_eq (image : Image s) :
    sparseFileImport handle (s.image sources crc) crc =
      if u32 s.total = 0 then none
      else (readChunks (s.header crc) (s.announced crc) (s.readStart sources handle crc)).bind
        fun st => if u32 s.total = st.curBlock then some st.s else none := by
  have read := readStruct_fileAt handle [] SparseHeader.codec (s.header crc)
    (s.records sources ++ s.trailer sources crc)
  change (⟨.fd handle, s.image sources crc, 0⟩ : Source).readStruct _ = _ at read
  rw [nil_append] at read
  have good := goodHeader crc s
  have again : (fileAt handle (SparseHeader.codec.encode (s.header crc))
      (s.records sources ++ s.trailer sources crc)).rewind =
      ⟨.fd handle, s.image sources crc, 0⟩ := by
    rfl
  have size := image.blkSz_eq crc
  have nonzero : (s.header crc).blkSz.toNat ≠ 0 := by
    rw [size]
    exact ne_of_gt image.positive
  have words : (s.header crc).blkSz.toNat % 4 = 0 := by
    rw [size]
    exact image.words
  rw [sparseFileImport, sparseFileImportSource_eq crc read good nonzero words, again,
    sparseFileReadSparse_eq crc read good, size, image.totalBlks_eq,
    announced_eq crc image.positive image.whole]
  rfl

theorem appendable_readStart (s : SparseFile) :
    Appendable s.blockSize (s.readStart sources handle crc).s.backedBlockList 0 where
  size := rfl
  hint := .inl rfl
  whole := nofun
  below := nofun

/-- The first records of a written image are read back, up to a gap that is taken for an
error. -/
theorem Image.readChunks_take (image : Image s)
    (records : ∀ bb ∈ s.blocks, 12 + align bb.len s.blockSize < 2 ^ 32) {k : Nat}
    (few : k ≤ s.layout.length) (n : Nat) :
    ((∀ chunk ∈ s.layout.take k, chunk.Small) →
      ∃ next, readChunks (s.header crc) (k + n) (s.readStart sources handle crc) =
      readChunks (s.header crc) n next ∧
        ReadTo sources handle s.blockSize (s.readStart sources handle crc)
        (SparseHeader.codec.encode (s.header crc))
          (((s.layout.drop k).flatMap fun chunk => chunk.record sources s.blockSize) ++
            s.trailer sources crc) (s.layout.take k) next) ∧
            ((¬ ∀ chunk ∈ s.layout.take k, chunk.Small) →
      readChunks (s.header crc) (k + n) (s.readStart sources handle crc) = none) := by
  have split : s.records sources ++ s.trailer sources crc =
      ((s.layout.take k).flatMap fun chunk => chunk.record sources s.blockSize) ++
        (((s.layout.drop k).flatMap fun chunk => chunk.record sources s.blockSize) ++
        s.trailer sources crc) := by
    rw [← append_assoc, ← flatMap_append, take_append_drop]
    rfl
  have source : (s.readStart sources handle crc).source =
      fileAt handle (SparseHeader.codec.encode (s.header crc))
        (((s.layout.take k).flatMap fun chunk => chunk.record sources s.blockSize) ++
          (((s.layout.drop k).flatMap fun chunk => chunk.record sources s.blockSize) ++
          s.trailer sources crc)) := by
    rw [← split]
    rfl
  have plain : PlainHeader (s.header crc) := rfl
  have read := readChunks_eq image.four_le plain n
    ((image.wellPlaced records).take k) (appendable_readStart sources handle crc s) rfl source
  rwa [length_take, min_eq_left few] at read

end Reading

end Aosp.Sparse
