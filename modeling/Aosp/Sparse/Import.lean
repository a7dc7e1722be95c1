import Aosp.Sparse.Append
import Aosp.Sparse.Chunks
import Aosp.Sparse.SparseRead

namespace Aosp.Sparse

open Option List BackedBlock Source
open BitVec (ofNat toNat_ofNat)
open Layout (Byte Codec)

/-- An open file with `front` behind the offset and `rest` before it. -/
def fileAt (handle : Nat) (front rest : List Byte) : Source :=
  ⟨.fd handle, front ++ rest, front.length⟩

section Source

variable (handle : Nat) (front : List Byte)

variable (bytes rest : List Byte)

theorem fileAt_append : ({ fileAt handle front (bytes ++ rest) with
      offset := (fileAt handle front (bytes ++ rest)).offset + bytes.length } : Source) =
      fileAt handle (front ++ bytes) rest := by
  simp [fileAt]

theorem readValue_fileAt : (fileAt handle front (bytes ++ rest)).readValue bytes.length =
      some (bytes, fileAt handle (front ++ bytes) rest) := by
  have readable : (fileAt handle front (bytes ++ rest)).readable bytes.length = true := by
    simp only [readable, fileAt, length_append, Bool.or_eq_true, decide_eq_true_eq]
    omega
  have contents : ((fileAt handle front (bytes ++ rest)).contents.drop
      (fileAt handle front (bytes ++ rest)).offset).take bytes.length = bytes := by
    simp [fileAt]
  rw [readValue, readable, contents, fileAt_append]
  rfl

theorem readStruct_fileAt {α : Type} (codec : Codec α) (value : α) (rest : List Byte) :
    (fileAt handle front (codec.encode value ++ rest)).readStruct codec =
      some (value, fileAt handle (front ++ codec.encode value) rest) := by
  have read := readValue_fileAt handle front (codec.encode value) rest
  rw [codec.encode_length] at read
  rw [readStruct, read]
  simp [Codec.decode_encode]

theorem seek_fileAt : (fileAt handle front (bytes ++ rest)).seek bytes.length =
      some (fileAt handle (front ++ bytes) rest) := by
  rw [← fileAt_append]
  rfl

/-- The checksum of a range does not depend on how it is read. -/
theorem foldlM_crcPiece (crc : BitVec 32) (sizes : List Nat) (bytes rest : List Byte)
    (total : sizes.sum = bytes.length) :
    sizes.foldlM Source.crcPiece (crc, fileAt handle front (bytes ++ rest)) =
      some (sparseCrc32 crc bytes, fileAt handle (front ++ bytes) rest) := by
  induction sizes generalizing crc front bytes with
  | nil =>
    have nothing : bytes = [] := length_eq_zero_iff.mp total.symm
    subst nothing
    simp only [sparseCrc32_nil, append_nil]
    rfl
  | cons size sizes ih =>
    rw [sum_cons] at total
    obtain ⟨first, later, rfl, length⟩ : ∃ first later, bytes = first ++ later ∧
        first.length = size :=
      ⟨bytes.take size, bytes.drop size, (take_append_drop size bytes).symm,
        length_take_of_le (by omega)⟩
    have piece : crcPiece (crc, fileAt handle front (first ++ later ++ rest)) size =
        some (sparseCrc32 crc first, fileAt handle (front ++ first) (later ++ rest)) := by
      rw [← length, append_assoc, crcPiece, readValue_fileAt]
      rfl
    rw [foldlM_cons, piece]
    rw [length_append] at total
    rw [sparseCrc32_append, ← append_assoc]
    exact ih (front ++ first) (sparseCrc32 crc first) later (by omega)

theorem getCrc32_fileAt (crc : BitVec 32) (bytes rest : List Byte) :
    (fileAt handle front (bytes ++ rest)).getCrc32 crc bytes.length =
      some (sparseCrc32 crc bytes, fileAt handle (front ++ bytes) rest) :=
  foldlM_crcPiece handle front crc _ bytes rest (Pieces.sum_sizes (by decide) _)

end Source

theorem chunkDataSize_eq {x : Nat} (small : 12 + x < 2 ^ 32) :
    (ofNat 32 (12 + x) - (ofNat 16 chunkHeaderLen).setWidth 32).toNat = x := by
  have header : ((ofNat 16 chunkHeaderLen).setWidth 32).toNat = 12 := rfl
  rw [BitVec.toNat_sub, toNat_ofNat]
  omega

/-- The state behind a record. -/
def ReadState.passed (st : ReadState) (source : Source) (expanded : List Byte) (blocks : Nat) :
    ReadState :=
  { st with
    source := source
    crc := st.crc.map fun crc => sparseCrc32 crc expanded
    curBlock := u32 (st.curBlock + blocks) }

/-- A header as the writer writes it. -/
def PlainHeader (header : SparseHeader) : Prop := header.chunkHdrSz = ofNat 16 chunkHeaderLen

theorem readChunk_eq {header : SparseHeader} (plain : PlainHeader header) {st : ReadState}
    {handle : Nat} {front rest : List Byte} {type : ChunkType} {blocks totalSz : Nat}
    (source : st.source = fileAt handle front (chunkHeader type blocks totalSz ++ rest)) :
    readChunk header st = processChunk (ofNat 16 chunkHeaderLen)
      ⟨type, 0, ofNat 32 blocks, ofNat 32 totalSz⟩
      { st with source := fileAt handle (front ++ chunkHeader type blocks totalSz) rest } := by
  have size : ¬ chunkHeaderLen < (ofNat 16 chunkHeaderLen).toNat := by decide
  rw [readChunk, source, chunkHeader, readStruct_fileAt, plain]
  simp only [bind_eq_bind, bind_some, if_neg size]

theorem crcBuffer_eq {buffer : Nat → Byte}
    (periodic : ∀ k i, buffer (k * copyBufSize + i) = buffer i) (crc : BitVec 32) (len : Nat) :
    crcBuffer buffer crc len = sparseCrc32 crc (OutputFile.bytesOf buffer len) := by
  refine Pieces.foldl_sizes (by decide)
    (fun crc n => sparseCrc32 crc (OutputFile.bytesOf buffer n)) sparseCrc32_nil ?_ len crc
  intro crc k n
  rw [← sparseCrc32_append, OutputFile.bytesOf_add]
  simp [periodic]

section Records

variable {sources : Sources} {blockSize : Nat} {header : SparseHeader} {st : ReadState}
  {handle : Nat} {front rest : List Byte}

/-- The bytes the reader counts for a chunk. -/
def BackedBlock.expanded (sources : Sources) (blockSize : Nat) (bb : BackedBlock) : List Byte :=
  match bb.backing with
  | .fill val => OutputFile.bytesOf (fillByte val) (bb.blocks blockSize * blockSize)
  | _ => bb.padded sources blockSize

def zeros (len : Nat) : List Byte := OutputFile.bytesOf (fun _ => 0) len

theorem crcBuffer_fill (val crc : BitVec 32) (len : Nat) :
    crcBuffer (fillByte val) crc len = sparseCrc32 crc (OutputFile.bytesOf (fillByte val) len) := by
  apply crcBuffer_eq
  intro k i
  have same : (k * copyBufSize + i) % 4 = i % 4 := by
    rw [copyBufSize]
    omega
  rw [fillByte, fillByte, same]

theorem crcBuffer_zeros (crc : BitVec 32) (len : Nat) :
    crcBuffer (fun _ => 0) crc len = sparseCrc32 crc (zeros len) :=
  crcBuffer_eq (fun _ _ => rfl) crc len

/-- A gap is read as its number of blocks, and as an error from `2^31` blocks on. -/
theorem readChunk_skip (plain : PlainHeader header) (blocks : Nat)
    (source : st.source = fileAt handle front (chunkHeader .dontCare blocks 12 ++ rest)) :
    readChunk header st =
      if u32 blocks < 2 ^ 31 then some (st.passed
      (fileAt handle (front ++ chunkHeader .dontCare blocks 12) rest)
          (zeros (u32 blocks * st.s.blockSize)) (u32 blocks)) else none := by
  have dataSize : (ofNat 32 12 - (ofNat 16 chunkHeaderLen).setWidth 32).toNat = 0 := rfl
  have number : (ofNat 32 blocks).toNat = u32 blocks := toNat_ofNat _ _
  rw [readChunk_eq plain source, processChunk]
  simp only [number, processSkipChunk, crcBuffer_zeros]
  by_cases small : u32 blocks < 2 ^ 31
  · simp only [small]
    rfl
  · simp only [small]
    rfl

/-- The chunk the reader makes of a record at an offset. -/
def BackedBlock.entry (handle offset blockSize : Nat) (bb : BackedBlock) : BackedBlock :=
  ⟨bb.block, bb.blocks blockSize * blockSize, match bb.backing with
    | .fill val => .fill val
    | _ => .fd handle (offset + 12)⟩

/-- A chunk that `process_chunk` can take. -/
structure Storable (blockSize : Nat) (bb : BackedBlock) : Prop where
  filled : 0 < bb.len
  small : 12 + align bb.len blockSize < 2 ^ 32
  number : bb.block < 2 ^ 32

variable {bb : BackedBlock}

theorem Storable.blocks_lt (positive : 4 ≤ blockSize) (storable : Storable blockSize bb) :
    bb.blocks blockSize < 2 ^ 31 := by
  have := storable.small
  have product : align bb.len blockSize = bb.blocks blockSize * blockSize := mul_comm _ _
  have := Nat.mul_le_mul_left (bb.blocks blockSize) positive
  omega

theorem length_padded (positive : 0 < blockSize) :
    (bb.padded sources blockSize).length = bb.blocks blockSize * blockSize := by
  have rounded := @le_align bb.len blockSize positive
  have product : align bb.len blockSize = bb.blocks blockSize * blockSize := mul_comm _ _
  rw [padded, length_append, OutputFile.length_bytesOf, length_replicate]
  omega

variable {blocks : Nat} {list : BackedBlockList}

theorem readChunk_fill (plain : PlainHeader header) {val : BitVec 32} (few : blocks < 2 ^ 31)
    (source : st.source = fileAt handle front
      (chunkHeader .fill blocks 16 ++ Codec.u32.encode val ++ rest))
    (queued : queueBb st.s.backedBlockList ⟨st.curBlock, blocks * st.s.blockSize, .fill val⟩ =
      some list) :
    readChunk header st = some ({ st with s := { st.s with backedBlockList := list } }.passed
      (fileAt handle (front ++ (chunkHeader .fill blocks 16 ++ Codec.u32.encode val)) rest)
      (OutputFile.bytesOf (fillByte val) (blocks * st.s.blockSize)) blocks) := by
  have dataSize := @chunkDataSize_eq 4 (by decide)
  have number : (ofNat 32 blocks).toNat = blocks := by
    rw [toNat_ofNat]
    omega
  have added : sparseFileAddFill st.s val (blocks * st.s.blockSize) st.curBlock =
      some { st.s with backedBlockList := list } := by
    rw [sparseFileAddFill, backedBlockAddFill, queued]
    rfl
  rw [append_assoc] at source
  rw [readChunk_eq plain source, processChunk]
  rw [dataSize, number, processFillChunk, readStruct_fileAt]
  simp only [bind_eq_bind, bind_some,
    added, crcBuffer_fill, few]
  rw [append_assoc]
  rfl

theorem readChunk_raw (plain : PlainHeader header) (few : blocks < 2 ^ 31)
    (positive : 0 < st.s.blockSize) (small : 12 + blocks * st.s.blockSize < 2 ^ 32)
    {bytes : List Byte} (length : bytes.length = blocks * st.s.blockSize)
    (source : st.source = fileAt handle front
      (chunkHeader .raw blocks (12 + blocks * st.s.blockSize) ++ bytes ++ rest))
    (queued : queueBb st.s.backedBlockList ⟨st.curBlock, blocks * st.s.blockSize,
      .fd handle (front.length + 12)⟩ = some list) :
    readChunk header st = some ({ st with s := { st.s with backedBlockList := list } }.passed
      (fileAt handle (front ++ (chunkHeader .raw blocks (12 + blocks * st.s.blockSize) ++ bytes))
      rest)
      bytes blocks) := by
  have dataSize := chunkDataSize_eq small
  have number : (ofNat 32 blocks).toNat = blocks := by
    simp
    omega
  have added : ∀ later : List Byte,
      (fileAt handle (front ++ chunkHeader .raw blocks (12 + blocks * st.s.blockSize))
      later).addToSparseFile st.s (blocks * st.s.blockSize) st.curBlock =
      some { st.s with backedBlockList := list } := by
    intro later
    simp [addToSparseFile, fileAt, sparseFileAddFd, backedBlockAddFd, queued]
  rw [append_assoc] at source
  rw [readChunk_eq plain source, processChunk]
  rw [dataSize, number, processRawChunk]
  simp only [Nat.mul_div_cancel _ positive, Fallible.require, added]
  have seek := seek_fileAt handle (front ++ chunkHeader .raw blocks (12 + blocks * st.s.blockSize))
    bytes rest
  have getCrc := fun crc => getCrc32_fileAt handle
    (front ++ chunkHeader .raw blocks (12 + blocks * st.s.blockSize)) crc bytes rest
  rw [length] at seek getCrc
  cases crc : st.crc with
  | none =>
    simp only [seek, few]
    rw [ReadState.passed]
    simp
  | some value =>
    simp only [getCrc, few]
    rw [ReadState.passed]
    simp

theorem readChunk_stored (positive : 4 ≤ blockSize)
    (plain : PlainHeader header) (storable : Storable blockSize bb) {stop : Nat}
    (list : Appendable blockSize st.s.backedBlockList stop) (size : st.s.blockSize = blockSize)
    (later : stop ≤ bb.block) (place : st.curBlock = bb.block)
    (source : st.source = fileAt handle front (bb.record sources blockSize ++ rest)) :
    ∃ s, readChunk header st = some ({ st with s := s }.passed
        (fileAt handle (front ++ bb.record sources blockSize) rest) (bb.expanded sources blockSize)
        (bb.blocks blockSize)) ∧
      s.blockSize = st.s.blockSize ∧ s.len = st.s.len ∧
      Appendable blockSize s.backedBlockList (bb.block + bb.blocks blockSize) ∧
      ∀ entries, Recut blockSize st.s.blocks entries →
        Recut blockSize s.blocks (entries ++ [bb.entry handle front.length blockSize]) := by
  have nonzero : 0 < blockSize := by omega
  have few := storable.blocks_lt positive
  have filled : 0 < bb.blocks blockSize := by
    rw [blocks, lt_divRoundUp nonzero, zero_mul]
    exact storable.filled
  have product : align bb.len blockSize = bb.blocks blockSize * blockSize := mul_comm _ _
  have blocks : align bb.len blockSize / blockSize = bb.blocks blockSize := by
    rw [product, Nat.mul_div_cancel _ nonzero]
  have small := storable.small
  rw [product] at small
  have stopBelow : stop ≤ (bb.entry handle front.length blockSize).block := later
  obtain ⟨bbl, queued, appendable, recut⟩ := queueBb_append nonzero list stopBelow storable.number
    rfl filled
  refine ⟨{ st.s with backedBlockList := bbl }, ?_, rfl, rfl, appendable, recut⟩
  unfold entry at queued
  subst size
  rw [← place] at queued
  cases backing : bb.backing with
  | fill val =>
    simp only [backing] at queued
    simp only [record, expanded, backing, blocks] at source ⊢
    exact readChunk_fill plain few source queued
  | _ =>
    simp only [backing] at queued
    simp only [record, expanded, backing, product, Nat.mul_div_cancel _ nonzero] at source ⊢
    exact readChunk_raw plain few nonzero small (length_padded nonzero) source queued

end Records

/-- The bytes the reader counts for a chunk; the length of a gap is read from 32 bits. -/
def Chunk.expanded (sources : Sources) (blockSize : Nat) : Chunk → List Byte
  | dontCare blocks => zeros (u32 blocks * blockSize)
  | stored bb => bb.expanded sources blockSize

/-- A gap that is not taken for an error. -/
def Chunk.Small : Chunk → Prop
  | dontCare blocks => u32 blocks < 2 ^ 31
  | stored _ => True

instance : DecidablePred Chunk.Small := fun chunk =>
  match chunk with
  | .dontCare blocks => inferInstanceAs (Decidable (u32 blocks < 2 ^ 31))
  | .stored _ => inferInstanceAs (Decidable True)

/-- What the reader makes of the records of chunks, from an offset on. -/
def entriesFrom (sources : Sources) (handle blockSize : Nat) : Nat → List Chunk → List BackedBlock
  | _, [] => []
  | offset, .dontCare blocks :: rest =>
    entriesFrom sources handle blockSize (offset +
      (Chunk.record sources blockSize (.dontCare blocks)).length) rest
  | offset, .stored bb :: rest =>
    bb.entry handle offset blockSize ::
      entriesFrom sources handle blockSize (offset + (bb.record sources blockSize).length) rest

/-- The block behind chunks, as the reader counts. -/
def blockBehind (blockSize : Nat) : Nat → List Chunk → Nat
  | curBlock, [] => curBlock
  | curBlock, chunk :: rest => blockBehind blockSize
    (u32 (curBlock + u32 (chunk.blocks blockSize))) rest

/-- Chunks that the reader finds at their own places, in order. -/
def WellPlaced (blockSize : Nat) : Nat → Nat → List Chunk → Prop
  | _, _, [] => True
  | stop, curBlock, .dontCare blocks :: rest =>
    WellPlaced blockSize stop (u32 (curBlock + u32 blocks)) rest
  | stop, curBlock, .stored bb :: rest =>
    Storable blockSize bb ∧ curBlock = bb.block ∧ stop ≤ bb.block ∧
      WellPlaced blockSize (bb.block + bb.blocks blockSize)
      (u32 (curBlock + u32 (bb.blocks blockSize))) rest

/-- The state behind the records of some chunks. -/
structure ReadTo (sources : Sources) (handle blockSize : Nat) (st : ReadState)
  (front rest : List Byte) (chunks : List Chunk) (next : ReadState) : Prop where
  source : next.source = fileAt handle (front ++ chunks.flatMap fun chunk =>
    chunk.record sources blockSize) rest
  crc : next.crc = st.crc.map fun crc =>
    sparseCrc32 crc (chunks.flatMap fun chunk => chunk.expanded sources blockSize)
  curBlock : next.curBlock = blockBehind blockSize st.curBlock chunks
  sameSize : next.s.blockSize = st.s.blockSize
  sameLen : next.s.len = st.s.len
  recut : ∀ entries, Recut blockSize st.s.blocks entries → Recut blockSize next.s.blocks
    (entries ++ entriesFrom sources handle blockSize front.length chunks)

section Loop

variable {sources : Sources} {blockSize : Nat} {header : SparseHeader} {handle : Nat}

variable {stop : Nat} {chunks : List Chunk}

theorem WellPlaced.take {curBlock : Nat} (placed : WellPlaced blockSize stop curBlock chunks)
    (n : Nat) :
    WellPlaced blockSize stop curBlock (chunks.take n) := by
  induction chunks generalizing stop curBlock n with
  | nil => rwa [take_nil]
  | cons chunk rest ih =>
    cases n with
    | zero => exact True.intro
    | succ n =>
      cases chunk with
      | dontCare blocks => exact ih placed n
      | stored bb => exact ⟨placed.1, placed.2.1, placed.2.2.1, ih placed.2.2.2 n⟩

variable {st : ReadState} {front rest : List Byte}

theorem ReadTo.cons {middle next : ReadState} {chunk : Chunk}
    (first : ReadTo sources handle blockSize st front
      ((chunks.flatMap fun chunk => chunk.record sources blockSize) ++ rest) [chunk] middle)
    (later : ReadTo sources handle blockSize middle (front ++ chunk.record sources blockSize) rest
      chunks next) :
    ReadTo sources handle blockSize st front rest (chunk :: chunks) next := by
  refine ⟨?_, ?_, ?_, later.sameSize.trans first.sameSize, later.sameLen.trans first.sameLen, ?_⟩
  · simp [later.source]
  · rw [later.crc, first.crc, Option.map_map]
    simp only [flatMap_cons, flatMap_nil, append_nil, sparseCrc32_append]
    rfl
  · rw [later.curBlock, first.curBlock]
    rfl
  · intro entries cut
    have both := later.recut _ (first.recut entries cut)
    rw [append_assoc, length_append] at both
    cases chunk <;> exact both

/-- Reading the records of chunks back, up to the first gap that is taken for an error. -/
theorem readChunks_eq (positive : 4 ≤ blockSize) (plain : PlainHeader header) (n : Nat)
    (placed : WellPlaced blockSize stop st.curBlock chunks)
    (list : Appendable blockSize st.s.backedBlockList stop) (size : st.s.blockSize = blockSize)
    (source : st.source = fileAt handle front
      ((chunks.flatMap fun chunk => chunk.record sources blockSize) ++ rest)) :
    ((∀ chunk ∈ chunks, chunk.Small) → ∃ next, readChunks header (chunks.length + n) st =
      readChunks header n next ∧
        ReadTo sources handle blockSize st front rest chunks next) ∧
        ((¬ ∀ chunk ∈ chunks, chunk.Small) →
      readChunks header (chunks.length + n) st = none) := by
  induction chunks generalizing st front stop with
  | nil =>
    refine ⟨fun _ => ⟨st, ?_, ?_⟩, fun not => absurd (nofun) not⟩
    · simp
    · refine ⟨?_, ?_, rfl, rfl, rfl, ?_⟩
      · simp [source]
      · simp [sparseCrc32_nil]
      · intro entries cut
        rwa [entriesFrom, append_nil]
  | cons chunk chunks ih =>
    rw [flatMap_cons, append_assoc] at source
    rw [length_cons, add_right_comm, readChunks, forall_mem_cons]
    cases chunk with
    | dontCare blocks =>
      rw [readChunk_skip plain blocks source]
      by_cases small : u32 blocks < 2 ^ 31
      · rw [if_pos small]
        generalize isMiddle : st.passed _ _ _ = middle
        have isS : middle.s = st.s := by
          rw [← isMiddle]
          rfl
        have first : ReadTo sources handle blockSize st front
            ((chunks.flatMap fun chunk => chunk.record sources blockSize) ++ rest)
            [.dontCare blocks] middle := by
          rw [← isMiddle]
          refine ⟨?_, ?_, rfl, rfl, rfl, ?_⟩
          · rfl
          · rw [flatMap_singleton, size]
            rfl
          · intro entries cut
            rwa [entriesFrom, entriesFrom, append_nil]
        have block : middle.curBlock = u32 (st.curBlock + u32 blocks) := first.curBlock
        rw [WellPlaced, ← block] at placed
        rw [← isS] at list size
        obtain ⟨success, failure⟩ := ih placed list size first.source
        refine ⟨fun all => ?_, fun not => failure fun all => not ⟨small, all⟩⟩
        obtain ⟨next, read, later⟩ := success all.2
        exact ⟨next, read, first.cons later⟩
      · rw [if_neg small]
        exact ⟨fun both => absurd both.1 small, fun _ => rfl⟩
    | stored bb =>
      obtain ⟨storable, place, above, placed⟩ := placed
      obtain ⟨s, read, sameSize, sameLen, appendable, recut⟩ := readChunk_stored positive plain
        storable list size above place source
      have few : u32 (bb.blocks blockSize) = bb.blocks blockSize := by
        have := storable.blocks_lt positive
        exact Nat.mod_eq_of_lt (by omega)
      rw [read]
      generalize isMiddle : ({ st with s := s } : ReadState).passed _ _ _ = middle
      have first : ReadTo sources handle blockSize st front
          ((chunks.flatMap fun chunk => chunk.record sources blockSize) ++ rest) [.stored bb]
          middle := by
        rw [← isMiddle]
        refine ⟨?_, ?_, ?_, sameSize, sameLen, ?_⟩
        · rw [flatMap_singleton]
          rfl
        · rw [flatMap_singleton]
          rfl
        · exact congrArg (fun blocks => u32 (st.curBlock + blocks)) few.symm
        · intro entries cut
          exact recut entries cut
      have block : middle.curBlock = u32 (st.curBlock + u32 (bb.blocks blockSize)) := first.curBlock
      have isS : middle.s = s := by
        rw [← isMiddle]
        rfl
      rw [← block] at placed
      rw [← isS] at appendable
      obtain ⟨success, failure⟩ := ih placed appendable (first.sameSize.trans size) first.source
      refine ⟨fun all => ?_, fun not => failure fun all => not ⟨True.intro, all⟩⟩
      obtain ⟨next, readRest, later⟩ := success all.2
      rw [flatMap_singleton] at later
      exact ⟨next, readRest, first.cons later⟩

end Loop

end Aosp.Sparse
