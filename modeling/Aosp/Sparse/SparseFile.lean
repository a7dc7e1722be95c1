import Aosp.Sparse.OutputFile

/- `sparse.cpp`: writing an image in the sparse format, its size, and cutting it into images of
limited size. -/
namespace Aosp.Sparse

open Layout (Byte)

structure SparseFile where
  blockSize : Nat
  len : Nat
  backedBlockList : BackedBlockList
deriving DecidableEq

def sparseFileNew (blockSize len : Nat) : SparseFile :=
  ⟨blockSize, len, backedBlockListNew blockSize⟩

namespace SparseFile

def blocks (s : SparseFile) : List BackedBlock := s.backedBlockList.dataBlocks

/-- The same image with other chunks, and no node remembered. -/
def withBlocks (s : SparseFile) (blocks : List BackedBlock) : SparseFile :=
  { s with backedBlockList := ⟨blocks, none, s.blockSize⟩ }

end SparseFile

/-- The block behind a chunk (`last_block`). -/
def BackedBlock.lastBlock (blockSize : Nat) (bb : BackedBlock) : Nat :=
  u32 (bb.block + divRoundUp bb.len blockSize)

/-- The loop of `sparse_count_chunks`, with the final `last_block`. -/
def countChunks (blockSize : Nat) : Nat → List BackedBlock → Nat × Nat
  | lastBlock, [] => (0, lastBlock)
  | lastBlock, bb :: rest =>
    let later := countChunks blockSize (bb.lastBlock blockSize) rest
    (later.1 + 1 + (if lastBlock < bb.block then 1 else 0), later.2)

def sparseCountChunks (s : SparseFile) : Nat :=
  let counted := countChunks s.blockSize 0 s.blocks
  u32 (counted.1 + if counted.2 < divRoundUp s.len s.blockSize then 1 else 0)

/-- The loop of `write_all_blocks`, with the final `last_block`. -/
def writeBlocks (sources : Sources) (blockSize : Nat) :
    Nat → OutputFile → List BackedBlock → OutputFile × Nat
  | lastBlock, out, [] => (out, lastBlock)
  | lastBlock, out, bb :: rest =>
    let out := if lastBlock < bb.block then
      out.writeSparseSkipChunk ((bb.block - lastBlock) * blockSize) else out
    writeBlocks sources blockSize (bb.lastBlock blockSize)
      (sparseFileWriteBlock sources out bb) rest

/-- `write_all_blocks`; `none` is the failed assertion on `pad`. -/
def writeAllBlocks (sources : Sources) (s : SparseFile) (out : OutputFile) : Option OutputFile :=
  let (out, lastBlock) := writeBlocks sources s.blockSize 0 out s.blocks
  if s.len < lastBlock * s.blockSize then none
  else
    let pad := s.len - lastBlock * s.blockSize
    some (if 0 < pad then out.writeSparseSkipChunk pad else out)

def maxBackedBlockSize : Nat := 64 * 2 ^ 20

/-- The loop of `sparse_file_write` that cuts the chunks. A chunk is cut again as long as it is
too long; `none` if `fuel` rounds are not enough. -/
def splitAll (blockSize maxLen : Nat) : Nat → List BackedBlock → Option (List BackedBlock)
  | _, [] => some []
  | 0, _ :: _ => none
  | fuel + 1, bb :: rest =>
    let (bb, behind) := backedBlockSplit blockSize bb maxLen
    (splitAll blockSize maxLen fuel (behind ++ rest)).map (bb :: ·)

/-- The bytes `sparse_file_callback` hands out. -/
def sparseFileCallback (sources : Sources) (s : SparseFile) (crc : Bool) : Option (List Byte) :=
  (writeAllBlocks sources s (.init s.blockSize s.len (sparseCountChunks s) crc)).map
    fun out => out.writeSparseEndChunk.written

/-- The bytes `sparse_file_write` leaves in the file. -/
def sparseFileWrite (fuel : Nat) (sources : Sources) (s : SparseFile) (crc : Bool) :
    Option (List Byte) := do
  let blocks ← splitAll s.blockSize maxBackedBlockSize fuel s.blocks
  sparseFileCallback sources (s.withBlocks blocks) crc

def sparseFileLen (sources : Sources) (s : SparseFile) (crc : Bool) : Option Nat :=
  (sparseFileCallback sources s crc).map List.length

/-- The bytes a chunk is written with, as `out_counter_write` counts them. -/
def blockBytes (sources : Sources) (dest : SparseFile) (bb : BackedBlock) : Nat :=
  let counter : OutputFile := .init dest.blockSize dest.len 0 false
  (sparseFileWriteBlock sources counter bb).written.length - counter.written.length

/-- The room for chunks: the header of the file, an end skip chunk and a crc chunk are taken
off, in `unsigned int`. -/
def roomFor (maxLen : Nat) : Nat :=
  u32 (maxLen + 2 ^ 32 - (sparseHeaderLen + 2 * chunkHeaderLen + 4))

section Resparse

variable (sources : Sources) (dest : SparseFile) (len : Nat)

/-- The loop of `move_chunks_up_to_len`: the chunks to move, those that stay, and whether the
loop stopped at a chunk. `taken` is empty as long as `last_bb` is null. -/
def moveLoop :
    Nat → Nat → List BackedBlock → List BackedBlock → List BackedBlock × List BackedBlock × Bool
  | _, _, taken, [] => (taken, [], false)
  | lastBlock, fileLen, taken, bb :: rest =>
    let count := (if lastBlock < bb.block then chunkHeaderLen else 0) + blockBytes sources dest bb
    if len < fileLen + count then
      let fileLen := fileLen + chunkHeaderLen
      if taken = [] ∨ ((len / 8 : Nat) : Int) < (len : Int) - fileLen then
        let (bb, behind) := backedBlockSplit dest.blockSize bb
          (((len : Int) - fileLen) % 2 ^ 32).toNat
        (taken ++ [bb], behind ++ rest, true)
      else (taken, bb :: rest, true)
    else moveLoop (bb.lastBlock dest.blockSize) (fileLen + count) (taken ++ [bb]) rest

/-- `move_chunks_up_to_len`. -/
def moveChunksUpToLen (input : List BackedBlock) : List BackedBlock × List BackedBlock × Bool :=
  moveLoop sources dest len 0 0 [] input

end Resparse

/-- The variables of `sparse_file_resparse`. -/
structure ResparseState where
  input : List BackedBlock
  out : List SparseFile
  tmp : List BackedBlock
  c : Nat
deriving DecidableEq

/-- A piece goes into the array while there is room, and to `tmp` behind that. -/
def ResparseState.step (inS : SparseFile) (outCount : Nat) (state : ResparseState)
    (moved rest : List BackedBlock) : ResparseState :=
  if state.c < outCount then
    { state with input := rest, out := state.out ++ [inS.withBlocks moved], c := state.c + 1 }
  else
    { state with input := rest, tmp := backedBlockListMove moved state.tmp, c := state.c + 1 }

/-- One call of `move_chunks_up_to_len` for a new piece, on what is left of the input. -/
def resparseRound (sources : Sources) (inS : SparseFile) (maxLen : Nat) (input : List BackedBlock) :
    List BackedBlock × List BackedBlock × Bool :=
  moveChunksUpToLen sources (sparseFileNew inS.blockSize inS.len) (roomFor maxLen) input

/-- The loop of `sparse_file_resparse`; `none` if `fuel` rounds are not enough. -/
def resparseLoop (sources : Sources) (inS : SparseFile) (maxLen outCount : Nat) :
    Nat → ResparseState → Option ResparseState
  | 0, _ => none
  | fuel + 1, state =>
    let (moved, rest, more) := resparseRound sources inS maxLen state.input
    let state := state.step inS outCount moved rest
    if more then resparseLoop sources inS maxLen outCount fuel state else some state

/-- `sparse_file_resparse`: the number of pieces, the pieces that fit into the array, and what is
left in the input. -/
def sparseFileResparse (fuel : Nat) (sources : Sources) (inS : SparseFile) (maxLen outCount : Nat) :
    Option (Nat × List SparseFile × List BackedBlock) := do
  let state ← resparseLoop sources inS maxLen outCount fuel ⟨inS.blocks, [], [], 0⟩
  some (state.c, state.out, backedBlockListMove state.tmp state.input)

end Aosp.Sparse
