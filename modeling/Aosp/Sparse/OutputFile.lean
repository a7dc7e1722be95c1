import Aosp.Lib.Pieces
import Aosp.Sparse.BackedBlock

/- `output_file.cpp`: the chunks of a sparse image as they are written. The file is what has been
written to it; writing does not fail. -/
namespace Aosp.Sparse

open Layout (Byte Codec)

structure OutputFile where
  curOutPtr : Nat
  chunkCnt : Nat
  crc32 : BitVec 32
  useCrc : Bool
  blockSize : Nat
  len : Nat
  written : List Byte

def fillZeroBufsize : Nat := 2 * 1024 * 1024
def maxMmapSize : Nat := 256 * 1024 * 1024

namespace OutputFile

variable (out : OutputFile)

/-- `ops->write`. -/
def write (bytes : List Byte) : OutputFile :=
  { out with written := out.written ++ bytes }

/-- The checksum carried on, if there is one. -/
def count (bytes : List Byte) : OutputFile :=
  { out with crc32 := if out.useCrc then sparseCrc32 out.crc32 bytes else out.crc32 }

/-- The cursors behind a chunk that stands for `len` bytes. -/
def passed (len : Nat) : OutputFile :=
  { out with curOutPtr := out.curOutPtr + len, chunkCnt := out.chunkCnt + 1 }

/-- A header and the fields behind it that the chunk type leaves open. -/
def writeChunkHeader (type : ChunkType) (blocks totalSz : Nat) : OutputFile :=
  out.write (ChunkHeader.codec.encode ⟨type, 0, BitVec.ofNat 32 blocks, BitVec.ofNat 32 totalSz⟩)

/-- `write_sparse_skip_chunk`. The error for a length that is not a multiple of the block size
is not looked at by its callers. -/
def writeSparseSkipChunk (skipLen : Nat) : OutputFile :=
  if skipLen % out.blockSize ≠ 0 then out
  else (out.writeChunkHeader .dontCare (skipLen / out.blockSize) chunkHeaderLen).passed skipLen

/-- The checksum of a fill chunk: the rounds of `while (count--)`. -/
def countFill (val : BitVec 32) : OutputFile :=
  (List.range (out.blockSize / 4)).foldl (fun out _ => out.count (Codec.u32.encode val)) out

def writeSparseFillChunk (len : Nat) (val : BitVec 32) : OutputFile :=
  let rndUpLen := align len out.blockSize
  let out := out.writeChunkHeader .fill (rndUpLen / out.blockSize) (chunkHeaderLen + 4)
  ((out.write (Codec.u32.encode val)).countFill val).passed rndUpLen

def writeZeros (zeroLen : Nat) : OutputFile :=
  (Pieces.sizes fillZeroBufsize zeroLen).foldl (fun out n => out.write (List.replicate n 0)) out

def countZeros (zeroLen : Nat) : OutputFile :=
  (Pieces.sizes fillZeroBufsize zeroLen).foldl (fun out n => out.count (List.replicate n 0)) out

/-- The first `len` bytes of a buffer. -/
def bytesOf (content : Nat → Byte) (len : Nat) : List Byte := (List.range len).map content

def writeSparseDataChunk (len : Nat) (data : Nat → Byte) : OutputFile :=
  let rndUpLen := align len out.blockSize
  let zeroLen := rndUpLen - len
  let out := out.writeChunkHeader .raw (rndUpLen / out.blockSize) (chunkHeaderLen + rndUpLen)
  let out := (out.write (bytesOf data len)).writeZeros zeroLen
  ((out.count (bytesOf data len)).countZeros zeroLen).passed rndUpLen

/-- `write_fd_chunk_range` with the callback of `write_sparse_fd_chunk`: pieces of the file are
mapped, written and counted one after the other. -/
def writeFdRange (content : Nat → Byte) (len : Nat) : OutputFile :=
  ((Pieces.sizes maxMmapSize len).foldl (fun (state : OutputFile × Nat) n =>
    let piece := bytesOf (fun i => content (state.2 + i)) n
    ((state.1.write piece).count piece, state.2 + n)) (out, 0)).1

def writeSparseFdChunk (len : Nat) (content : Nat → Byte) : OutputFile :=
  let rndUpLen := align len out.blockSize
  let zeroLen := rndUpLen - len
  let out := out.writeChunkHeader .raw (rndUpLen / out.blockSize) (chunkHeaderLen + rndUpLen)
  let out := out.writeFdRange content len
  ((out.writeZeros zeroLen).countZeros zeroLen).passed rndUpLen

def writeSparseEndChunk : OutputFile :=
  if out.useCrc then
    let out := out.writeChunkHeader .crc32 0 (chunkHeaderLen + 4)
    { out.write (Codec.u32.encode out.crc32) with chunkCnt := out.chunkCnt + 1 }
  else out

/-- `output_file_init` for the sparse format. -/
def init (blockSize len chunks : Nat) (crc : Bool) : OutputFile :=
  let out : OutputFile := ⟨0, 0, 0, crc, blockSize, len, []⟩
  out.write (SparseHeader.codec.encode {
    magic := sparseHeaderMagic
    majorVersion := sparseHeaderMajorVer
    minorVersion := sparseHeaderMinorVer
    fileHdrSz := BitVec.ofNat 16 sparseHeaderLen
    chunkHdrSz := BitVec.ofNat 16 chunkHeaderLen
    blkSz := BitVec.ofNat 32 blockSize
    totalBlks := BitVec.ofNat 32 (divRoundUp len blockSize)
    totalChunks := BitVec.ofNat 32 (if crc then chunks + 1 else chunks)
    imageChecksum := 0 })

end OutputFile

/-- `sparse_file_write_block`. -/
def sparseFileWriteBlock (sources : Sources) (out : OutputFile) (bb : BackedBlock) : OutputFile :=
  match bb.backing with
  | .data _ => out.writeSparseDataChunk bb.len (bb.backing.byte sources)
  | .file _ _ => out.writeSparseFdChunk bb.len (bb.backing.byte sources)
  | .fd _ _ => out.writeSparseFdChunk bb.len (bb.backing.byte sources)
  | .fill val => out.writeSparseFillChunk bb.len val

end Aosp.Sparse
