import Aosp.Lib.File
import Aosp.Sparse.Chunks

/- `output_file.cpp` and `sparse.cpp` for an image that is written as it is (`sparse` is false): a
plain file that is written from front to back, with seeks over what is left out. -/
namespace Aosp.Sparse

open Layout (Byte File)
open OutputFile (bytesOf)

/-- An `output_file` with `file_ops` and `normal_file_ops`. -/
structure NormalFile where
  blockSize : Nat
  len : Nat
  position : Nat
  file : File

namespace NormalFile

variable (out : NormalFile)

/-- `file_write`. -/
def write (bytes : List Byte) : NormalFile :=
  { out with
    position := out.position + bytes.length
    file := out.file.pwrite ⟨out.position, bytes⟩ }

/-- `file_skip`. -/
def skip (cnt : Nat) : NormalFile := { out with position := out.position + cnt }

variable (len : Nat)

/-- `file_pad`. -/
def pad : NormalFile := { out with file := out.file.truncate len }

def writeNormalDataChunk (data : Nat → Byte) : NormalFile :=
  let rndUpLen := align len out.blockSize
  let out := out.write (bytesOf data len)
  if len < rndUpLen then out.skip (rndUpLen - len) else out

/-- `write_normal_fill_chunk`: nothing is skipped behind a length that is not a multiple of the
block size. -/
def writeNormalFillChunk (val : BitVec 32) : NormalFile :=
  (Pieces.sizes fillZeroBufsize len).foldl (fun out n => out.write (bytesOf (fillByte val) n)) out

/-- `write_fd_chunk_range` with the callback of `write_normal_fd_chunk`. -/
def writeFdRange (content : Nat → Byte) (len : Nat) : NormalFile :=
  ((Pieces.sizes maxMmapSize len).foldl (fun (state : NormalFile × Nat) n =>
    (state.1.write (bytesOf (fun i => content (state.2 + i)) n), state.2 + n)) (out, 0)).1

def writeNormalFdChunk (content : Nat → Byte) : NormalFile :=
  let rndUpLen := align len out.blockSize
  let out := out.writeFdRange content len
  if len < rndUpLen then out.skip (rndUpLen - len) else out

def writeNormalSkipChunk : NormalFile := out.skip len

def writeNormalEndChunk : NormalFile := out.pad out.len

/-- `output_file_init` on an empty file. -/
def init (blockSize len : Nat) : NormalFile := ⟨blockSize, len, 0, .empty⟩

/-- `sparse_file_write_block`. -/
def writeBlock (sources : Sources) (out : NormalFile) (bb : BackedBlock) : NormalFile :=
  match bb.backing with
  | .data _ => out.writeNormalDataChunk bb.len (bb.backing.byte sources)
  | .file _ _ => out.writeNormalFdChunk bb.len (bb.backing.byte sources)
  | .fd _ _ => out.writeNormalFdChunk bb.len (bb.backing.byte sources)
  | .fill val => out.writeNormalFillChunk bb.len val

/-- The loop of `write_all_blocks`, with the final `last_block`. -/
def writeBlocks (sources : Sources) (blockSize : Nat) :
    Nat → NormalFile → List BackedBlock → NormalFile × Nat
  | lastBlock, out, [] => (out, lastBlock)
  | lastBlock, out, bb :: rest =>
    let out := if lastBlock < bb.block then
      out.writeNormalSkipChunk ((bb.block - lastBlock) * blockSize) else out
    writeBlocks sources blockSize (bb.lastBlock blockSize) (out.writeBlock sources bb) rest

/-- `write_all_blocks`; `none` is the failed assertion on `pad`. -/
def writeAllBlocks (sources : Sources) (s : SparseFile) (out : NormalFile) : Option NormalFile :=
  let (out, lastBlock) := writeBlocks sources s.blockSize 0 out s.blocks
  if s.len < lastBlock * s.blockSize then none
  else
    let pad := s.len - lastBlock * s.blockSize
    some (if 0 < pad then out.writeNormalSkipChunk pad else out)

end NormalFile

/-- The file `sparse_file_write` leaves when `sparse` is false. -/
def sparseFileWriteNormal (fuel : Nat) (sources : Sources) (s : SparseFile) : Option File := do
  let blocks ← splitAll s.blockSize maxBackedBlockSize fuel s.blocks
  let s := s.withBlocks blocks
  let out ← NormalFile.writeAllBlocks sources s (.init s.blockSize s.len)
  some out.writeNormalEndChunk.file

namespace NormalFile

section Equations

variable (out : NormalFile)

@[simp] theorem write_nil : out.write [] = out := by
  rw [write, Layout.File.pwrite_nil, List.length_nil, add_zero]

theorem write_write (front back : List Byte) :
    (out.write front).write back = out.write (front ++ back) := by
  simp only [write, Layout.File.pwrite_append, List.length_append, add_assoc]

/-- The buffer of a fill chunk holds whole words, so that its copies join. -/
theorem writeNormalFillChunk_eq (len : Nat) (val : BitVec 32) :
    out.writeNormalFillChunk len val = out.write (bytesOf (fillByte val) len) := by
  refine Pieces.foldl_sizes (by decide)
    (fun (out : NormalFile) n => out.write (bytesOf (fillByte val) n)) (fun out => write_nil out)
    ?_ len out
  intro out k n
  have phase : ∀ i, fillByte val (k * fillZeroBufsize + i) = fillByte val i := by
    intro i
    have same : (k * fillZeroBufsize + i) % 4 = i % 4 := by
      rw [fillZeroBufsize]
      omega
    rw [fillByte, fillByte, same]
  rw [write_write, OutputFile.bytesOf_add]
  simp [phase]

theorem writeFdRange_eq (content : Nat → Byte) (len : Nat) :
    out.writeFdRange content len = out.write (bytesOf content len) := by
  have positive : 0 < maxMmapSize := by decide
  have whole := Pieces.foldl_sizes positive (fun (state : NormalFile × Nat) n =>
      (state.1.write (bytesOf (fun i => content (state.2 + i)) n), state.2 + n))
    (fun state => by simp [bytesOf])
    (fun state k n => by
      simp only [OutputFile.bytesOf_add, add_assoc]
      rw [write_write]) len (out, 0)
  rw [writeFdRange, whole]
  simp

variable (sources : Sources)

/-- A chunk writes its contents and, unless it is a fill, goes on to the end of its last block. -/
theorem writeBlock_eq (out : NormalFile) (bb : BackedBlock) :
    out.writeBlock sources bb =
      (out.write (bytesOf (bb.backing.byte sources) bb.len)).skip
        (if bb.backing.isFill then 0 else align bb.len out.blockSize - bb.len) := by
  have rounded : ∀ out' : NormalFile, (if bb.len < align bb.len out.blockSize then
        out'.skip (align bb.len out.blockSize - bb.len) else out') =
        out'.skip (align bb.len out.blockSize - bb.len) := by
    intro out'
    split
    · rfl
    · rw [Nat.sub_eq_zero_of_le (by omega)]
      rfl
  cases backing : bb.backing with
  | fill val =>
    rw [writeBlock, backing]
    exact writeNormalFillChunk_eq out bb.len val
  | data address =>
    rw [writeBlock, backing]
    exact rounded _
  | file source offset | fd source offset =>
    rw [writeBlock, backing]
    simp only [writeNormalFdChunk, writeFdRange_eq]
    exact rounded _

section

variable (blockSize lastBlock : Nat) (out : NormalFile) (blocks : List BackedBlock)

theorem len_writeBlocks : (writeBlocks sources blockSize lastBlock out blocks).1.len = out.len := by
  induction blocks generalizing lastBlock out with
  | nil => rfl
  | cons bb rest ih =>
    rw [writeBlocks, ih, writeBlock_eq]
    split <;> rfl

theorem lastBlock_writeBlocks :
    (writeBlocks sources blockSize lastBlock out blocks).2 =
      endFrom blockSize lastBlock blocks := by
  induction blocks generalizing lastBlock out with
  | nil => rfl
  | cons bb rest ih => exact ih _ _

end

variable {s : SparseFile}

theorem exists_writeAllBlocks (out : NormalFile)
    (inside : ¬ s.len < endFrom s.blockSize 0 s.blocks * s.blockSize) :
    ∃ after, writeAllBlocks sources s out = some after := by
  unfold writeAllBlocks
  dsimp only
  rw [lastBlock_writeBlocks, if_neg inside]
  exact ⟨_, rfl⟩

theorem writeAllBlocks_eq_some {sources : Sources} {out after : NormalFile}
    (done : writeAllBlocks sources s out = some after) :
    after.len = out.len ∧ after.file = (writeBlocks sources s.blockSize 0 out s.blocks).1.file := by
  have len := len_writeBlocks sources s.blockSize 0 out s.blocks
  unfold writeAllBlocks at done
  dsimp only at done
  split at done
  · cases done
  · cases done
    split <;> exact ⟨len, rfl⟩

end Equations

end NormalFile

end Aosp.Sparse
