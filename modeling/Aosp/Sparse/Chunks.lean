import Aosp.Sparse.SparseFile

/- What the writer leaves behind: a sparse image is its header and one record for each chunk.
Every later result about written images goes through `sparseFileCallback_eq`. -/
namespace Aosp.Sparse

open OutputFile List BackedBlock
open Layout (Byte Codec)

namespace OutputFile

section

variable (out : OutputFile)

include out

@[simp] theorem write_nil : out.write [] = out := by
  simp [write]

theorem write_write (front back : List Byte) :
    (out.write front).write back = out.write (front ++ back) := by
  simp [write]

@[simp] theorem count_nil : out.count [] = out := by
  simp [count]

theorem count_count (front back : List Byte) :
    (out.count front).count back = out.count (front ++ back) := by
  unfold count
  cases out.useCrc with
  | false => rfl
  | true => simp only [↓reduceIte, sparseCrc32_append]

theorem count_write (bytes counted : List Byte) :
    (out.count counted).write bytes = (out.write bytes).count counted := rfl

end

@[simp] theorem length_bytesOf (content : Nat → Byte) (len : Nat) :
    (bytesOf content len).length = len := by
  simp [bytesOf]

theorem bytesOf_add (content : Nat → Byte) (m n : Nat) :
    bytesOf content (m + n) = bytesOf content m ++ bytesOf (fun i => content (m + i)) n := by
  simp only [bytesOf, range_add, map_append, map_map]
  rfl

theorem writeZeros_eq (out : OutputFile) (zeroLen : Nat) :
    out.writeZeros zeroLen = out.write (List.replicate zeroLen 0) := by
  refine Pieces.foldl_sizes (by decide) (fun (out : OutputFile) n => out.write (List.replicate n 0))
    (fun out => write_nil out) ?_ zeroLen out
  intro out k n
  rw [write_write, replicate_append_replicate]

theorem countZeros_eq (out : OutputFile) (zeroLen : Nat) :
    out.countZeros zeroLen = out.count (List.replicate zeroLen 0) := by
  refine Pieces.foldl_sizes (by decide) (fun (out : OutputFile) n => out.count (List.replicate n 0))
    (fun out => count_nil out) ?_ zeroLen out
  intro out k n
  rw [count_count, replicate_append_replicate]

theorem writeFdRange_eq (out : OutputFile) (content : Nat → Byte) (len : Nat) :
    out.writeFdRange content len = (out.write (bytesOf content len)).count
      (bytesOf content len) := by
  have positive : 0 < maxMmapSize := by decide
  have whole := Pieces.foldl_sizes positive (fun (state : OutputFile × Nat) n =>
      let piece := bytesOf (fun i => content (state.2 + i)) n
      ((state.1.write piece).count piece, state.2 + n))
    (fun state => by simp [bytesOf])
    (fun state k n => by
      simp only [bytesOf_add, add_assoc]
      rw [count_write, write_write, count_count]) len (out, 0)
  rw [writeFdRange, whole]
  simp

/-- One chunk: its record, what it adds to the checksum, and how many bytes it stands for. -/
def emit (out : OutputFile) (bytes counted : List Byte) (len : Nat) : OutputFile :=
  ((out.write bytes).count counted).passed len

section

variable (out : OutputFile) (bytes counted : List Byte) (len : Nat)

include out bytes counted len

@[simp] theorem written_emit : (out.emit bytes counted len).written = out.written ++ bytes := rfl

end

end OutputFile

def chunkHeader (type : ChunkType) (blocks totalSz : Nat) : List Byte :=
  ChunkHeader.codec.encode ⟨type, 0, BitVec.ofNat 32 blocks, BitVec.ofNat 32 totalSz⟩

@[simp] theorem length_chunkHeader (type : ChunkType) (blocks totalSz : Nat) :
    (chunkHeader type blocks totalSz).length = 12 :=
  ChunkHeader.codec.encode_length _

/-- A chunk of the image: blocks nobody cares about, or a node of the list. -/
inductive Chunk where
  | dontCare (blocks : Nat)
  | stored (bb : BackedBlock)

section Records

variable (sources : Sources) (blockSize : Nat)

variable (bb : BackedBlock)

/-- The contents of a chunk with data, up to a whole number of blocks. -/
def BackedBlock.padded : List Byte :=
  bytesOf (bb.backing.byte sources) bb.len ++ List.replicate (align bb.len blockSize - bb.len) 0

/-- The record of a node. -/
def BackedBlock.record : List Byte :=
  match bb.backing with
  | .fill val => chunkHeader .fill (align bb.len blockSize / blockSize) 16 ++ Codec.u32.encode val
  | _ => chunkHeader .raw (align bb.len blockSize / blockSize) (12 + align bb.len blockSize) ++
      bb.padded sources blockSize

/-- The size of the record of a node. -/
def BackedBlock.recordBytes : Nat :=
  if bb.backing.isFill then 16 else 12 + align bb.len blockSize

/-- What the writer adds to the checksum for a node: a fill chunk counts as one block. -/
def BackedBlock.counted : List Byte :=
  match bb.backing with
  | .fill val => (List.range (blockSize / 4)).flatMap fun _ => Codec.u32.encode val
  | _ => bb.padded sources blockSize

namespace Chunk

def record : Chunk → List Byte
  | dontCare blocks => chunkHeader .dontCare blocks 12
  | stored bb => bb.record sources blockSize

def counted : Chunk → List Byte
  | dontCare _ => []
  | stored bb => bb.counted sources blockSize

/-- The number of blocks a chunk stands for. -/
def blocks : Chunk → Nat
  | dontCare blocks => blocks
  | stored bb => divRoundUp bb.len blockSize

end Chunk

theorem foldl_count_range (out : OutputFile) (bytes : List Byte) (n : Nat) :
    (List.range n).foldl (fun out _ => out.count bytes) out =
      out.count ((List.range n).flatMap fun _ => bytes) := by
  induction n with
  | zero => exact (count_nil out).symm
  | succ n ih =>
    rw [range_succ, foldl_append, ih, flatMap_append, foldl_cons, foldl_nil, count_count,
      flatMap_singleton]

theorem length_record {blockSize : Nat} (positive : 0 < blockSize) (bb : BackedBlock) :
    (bb.record sources blockSize).length = bb.recordBytes blockSize := by
  have rounded := @le_align bb.len blockSize positive
  unfold record recordBytes
  cases bb.backing with
  | fill val => simp [Backing.isFill, Layout.Codec.u32, Layout.Codec.uint]
  | _ =>
    simp only [length_append, length_chunkHeader, padded,
      length_bytesOf, length_replicate, Backing.isFill, Bool.false_eq_true, ↓reduceIte]
    omega

/-- Every way of writing a node leaves its record. -/
theorem sparseFileWriteBlock_eq (out : OutputFile) (bb : BackedBlock) :
    sparseFileWriteBlock sources out bb =
      out.emit (bb.record sources out.blockSize) (bb.counted sources out.blockSize)
      (align bb.len out.blockSize) := by
  cases backing : bb.backing with
  | fill val =>
    simp only [sparseFileWriteBlock, backing, record, counted,
      OutputFile.writeSparseFillChunk, OutputFile.countFill, OutputFile.writeChunkHeader,
      write_write, foldl_count_range]
    rfl
  | data address =>
    simp only [sparseFileWriteBlock, backing, record, counted,
      padded, OutputFile.writeSparseDataChunk, OutputFile.writeChunkHeader,
      writeZeros_eq, countZeros_eq, write_write, count_count]
    rfl
  | file source offset | fd source offset =>
    simp only [sparseFileWriteBlock, backing, record, counted,
      padded, OutputFile.writeSparseFdChunk, OutputFile.writeChunkHeader,
      writeFdRange_eq, writeZeros_eq, countZeros_eq, count_write, write_write, count_count,
      append_assoc]
    rfl

/-- All chunks of a list one after the other. -/
def emitAll (out : OutputFile) (chunks : List Chunk) : OutputFile :=
  chunks.foldl (fun out chunk => out.emit (chunk.record sources blockSize)
    (chunk.counted sources blockSize) (blockSize * chunk.blocks blockSize)) out

end Records

/-- The gap in front of a node. -/
def gapBefore (lastBlock : Nat) (bb : BackedBlock) : List Chunk :=
  if lastBlock < bb.block then [.dontCare (bb.block - lastBlock)] else []

/-- The chunks of a list of nodes, with the gaps in front of them. -/
def chunksFrom (blockSize : Nat) : Nat → List BackedBlock → List Chunk
  | _, [] => []
  | lastBlock, bb :: rest =>
    gapBefore lastBlock bb ++ .stored bb :: chunksFrom blockSize (bb.lastBlock blockSize) rest

/-- The block behind the last node. -/
def endFrom (blockSize : Nat) : Nat → List BackedBlock → Nat
  | lastBlock, [] => lastBlock
  | _, bb :: rest => endFrom blockSize (bb.lastBlock blockSize) rest

namespace SparseFile

variable (s : SparseFile)

/-- The bytes behind the last node. -/
def pad : Nat := s.len - endFrom s.blockSize 0 s.blocks * s.blockSize

/-- The chunk that the rest of the image is written as. -/
def endSkip : List Chunk :=
  if 0 < s.pad ∧ s.pad % s.blockSize = 0 then [.dontCare (s.pad / s.blockSize)] else []

/-- The chunks of a whole image. -/
def layout : List Chunk := chunksFrom s.blockSize 0 s.blocks ++ s.endSkip

def header (crc : Bool) : SparseHeader where
  magic := sparseHeaderMagic
  majorVersion := sparseHeaderMajorVer
  minorVersion := sparseHeaderMinorVer
  fileHdrSz := BitVec.ofNat 16 sparseHeaderLen
  chunkHdrSz := BitVec.ofNat 16 chunkHeaderLen
  blkSz := BitVec.ofNat 32 s.blockSize
  totalBlks := BitVec.ofNat 32 (divRoundUp s.len s.blockSize)
  totalChunks := BitVec.ofNat 32 (if crc then sparseCountChunks s + 1 else sparseCountChunks s)
  imageChecksum := 0

variable (sources : Sources) (s : SparseFile)

/-- The checksum the writer stores. -/
def checksum : BitVec 32 :=
  sparseCrc32 0 (s.layout.flatMap fun chunk => chunk.counted sources s.blockSize)

def trailer (crc : Bool) : List Byte :=
  if crc then chunkHeader .crc32 0 16 ++ Codec.u32.encode (s.checksum sources) else []

/-- A whole image file. -/
def image (crc : Bool) : List Byte :=
  SparseHeader.codec.encode (s.header crc) ++
    (s.layout.flatMap fun chunk => chunk.record sources s.blockSize) ++ s.trailer sources crc

end SparseFile

section Written

variable (sources : Sources)

section

variable (blockSize : Nat) (out : OutputFile)

include blockSize out

variable (chunks : List Chunk)

@[simp] theorem blockSize_emitAll :
    (emitAll sources blockSize out chunks).blockSize = out.blockSize := by
  induction chunks generalizing out with
  | nil => rfl
  | cons chunk rest ih => exact (ih _).trans rfl

@[simp] theorem useCrc_emitAll : (emitAll sources blockSize out chunks).useCrc = out.useCrc := by
  induction chunks generalizing out with
  | nil => rfl
  | cons chunk rest ih => exact (ih _).trans rfl

theorem written_emitAll : (emitAll sources blockSize out chunks).written =
      out.written ++ chunks.flatMap fun chunk => chunk.record sources blockSize := by
  induction chunks generalizing out with
  | nil => exact (append_nil _).symm
  | cons chunk rest ih =>
    rw [flatMap_cons, ← append_assoc]
    exact ih _

theorem crc32_emitAll (crc : out.useCrc = true) :
    (emitAll sources blockSize out chunks).crc32 =
      sparseCrc32 out.crc32 (chunks.flatMap fun chunk => chunk.counted sources blockSize) := by
  induction chunks generalizing out with
  | nil => exact (sparseCrc32_nil _).symm
  | cons chunk rest ih =>
    have counted : (out.emit (chunk.record sources blockSize) (chunk.counted sources blockSize)
      (blockSize * chunk.blocks blockSize)).crc32 = sparseCrc32 out.crc32 _ := if_pos crc
    rw [flatMap_cons, sparseCrc32_append, ← counted]
    exact ih _ crc

theorem emitAll_append (front back : List Chunk) :
    emitAll sources blockSize out (front ++ back) =
      emitAll sources blockSize (emitAll sources blockSize out front) back :=
  foldl_append

end

variable {blockSize : Nat} {out : OutputFile}

theorem writeSparseSkipChunk_eq (positive : 0 < blockSize) (size : out.blockSize = blockSize)
    (blocks : Nat) :
    out.writeSparseSkipChunk (blocks * blockSize) =
      emitAll sources blockSize out [.dontCare blocks] := by
  rw [OutputFile.writeSparseSkipChunk, size, if_neg (by simp),
    Nat.mul_div_cancel _ positive, mul_comm]
  simp only [emitAll, foldl_cons, OutputFile.emit, Chunk.counted, count_nil]
  rfl

theorem writeBlocks_eq (positive : 0 < blockSize) (lastBlock : Nat)
    (size : out.blockSize = blockSize) (blocks : List BackedBlock) :
    writeBlocks sources blockSize lastBlock out blocks =
      (emitAll sources blockSize out (chunksFrom blockSize lastBlock blocks),
      endFrom blockSize lastBlock blocks) := by
  induction blocks generalizing lastBlock out with
  | nil => rfl
  | cons bb rest ih =>
    have gap : (if lastBlock < bb.block then
          out.writeSparseSkipChunk ((bb.block - lastBlock) * blockSize) else out) =
        emitAll sources blockSize out (gapBefore lastBlock bb) := by
      unfold gapBefore
      split
      · exact writeSparseSkipChunk_eq sources positive size _
      · rfl
    have block : ∀ out : OutputFile, out.blockSize = blockSize →
        sparseFileWriteBlock sources out bb = emitAll sources blockSize out [.stored bb] := by
      rintro out rfl
      rw [sparseFileWriteBlock_eq]
      rfl
    have same : (emitAll sources blockSize out (gapBefore lastBlock bb)).blockSize = blockSize := by
      rw [blockSize_emitAll, size]
    rw [writeBlocks, gap, block _ same, ih _ (by rw [blockSize_emitAll, same]), chunksFrom,
      emitAll_append]
    rfl

theorem written_writeSparseEndChunk (out : OutputFile) :
    out.writeSparseEndChunk.written = out.written ++
      if out.useCrc then chunkHeader .crc32 0 16 ++ Codec.u32.encode out.crc32 else [] := by
  unfold OutputFile.writeSparseEndChunk
  cases out.useCrc with
  | false => exact (append_nil _).symm
  | true => exact append_assoc _ _ _

variable (s : SparseFile)

theorem written_init (crc : Bool) :
    (OutputFile.init s.blockSize s.len (sparseCountChunks s) crc).written =
      SparseHeader.codec.encode (s.header crc) := nil_append _

theorem useCrc_init (crc : Bool) :
    (OutputFile.init s.blockSize s.len (sparseCountChunks s) crc).useCrc = crc := rfl

/-- The file that is written, if the nodes stay inside the image. -/
theorem sparseFileCallback_eq (positive : 0 < s.blockSize) (crc : Bool) :
    sparseFileCallback sources s crc = if s.len < endFrom s.blockSize 0 s.blocks * s.blockSize
      then none
      else some (s.image sources crc) := by
  unfold sparseFileCallback writeAllBlocks
  rw [writeBlocks_eq sources positive 0 rfl]
  dsimp only
  split
  · rfl
  · have padded : (if 0 < s.len - endFrom s.blockSize 0 s.blocks * s.blockSize then
          (emitAll sources s.blockSize (.init s.blockSize s.len (sparseCountChunks s) crc)
            (chunksFrom s.blockSize 0 s.blocks)).writeSparseSkipChunk
              (s.len - endFrom s.blockSize 0 s.blocks * s.blockSize)
        else emitAll sources s.blockSize (.init s.blockSize s.len (sparseCountChunks s) crc)
          (chunksFrom s.blockSize 0 s.blocks)) =
        emitAll sources s.blockSize (.init s.blockSize s.len (sparseCountChunks s) crc)
          s.layout := by
      rw [SparseFile.layout, emitAll_append, SparseFile.endSkip]
      change (if 0 < s.pad then _ else _) = _
      by_cases filled : 0 < s.pad
      · rw [if_pos filled]
        by_cases whole : s.pad % s.blockSize = 0
        · rw [if_pos ⟨filled, whole⟩, ← writeSparseSkipChunk_eq sources positive
            (blockSize_emitAll sources _ _ _), Nat.div_mul_cancel (Nat.dvd_of_mod_eq_zero whole)]
          rfl
        · rw [if_neg fun both => whole both.2]
          exact if_pos (by rwa [blockSize_emitAll])
      · rw [if_neg filled, if_neg fun both => filled both.1]
        rfl
    rw [padded, Option.map_some]
    rw [written_writeSparseEndChunk, written_emitAll, useCrc_emitAll, written_init]
    unfold SparseFile.image SparseFile.trailer SparseFile.checksum
    cases crc with
    | false => simp only [useCrc_init, Bool.false_eq_true, ↓reduceIte]
    | true =>
      rw [crc32_emitAll sources _ _ _ (useCrc_init s true)]
      rfl

end Written

end Aosp.Sparse
