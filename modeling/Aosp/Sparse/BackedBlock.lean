import Aosp.Lib.Fallible
import Aosp.Sparse.Format

/- `backed_block.cpp`: the list of chunks that make up an image. The nodes of the linked list are
the entries of a list, a pointer to a node is its position. -/
namespace Aosp.Sparse

open Layout (Byte Codec)

/-- Where the contents of a chunk come from. -/
inductive Backing where
  | data (address : Nat)
  | file (filename : String) (offset : Nat)
  | fd (handle : Nat) (offset : Nat)
  | fill (val : BitVec 32)
deriving DecidableEq

structure BackedBlock where
  block : Nat
  len : Nat
  backing : Backing
deriving DecidableEq

structure BackedBlockList where
  dataBlocks : List BackedBlock
  lastUsed : Option Nat
  blockSize : Nat
deriving DecidableEq

/-- The memory and the files that chunks refer to. -/
structure Sources where
  memory : Nat → Byte
  files : String → Nat → Byte
  fds : Nat → Nat → Byte

def zeroSources : Sources := ⟨fun _ => 0, fun _ _ => 0, fun _ _ => 0⟩

/-- A fill value repeats, lowest byte first. -/
def fillByte (val : BitVec 32) (i : Nat) : Byte := (Codec.u32.encode val).getD (i % 4) 0

namespace Backing

/-- The contents at an offset. -/
def byte (sources : Sources) : Backing → Nat → Byte
  | data address, i => sources.memory (address + i)
  | file filename offset, i => sources.files filename (offset + i)
  | fd handle offset, i => sources.fds handle (offset + i)
  | fill val, i => fillByte val i

/-- The contents behind the first `count` bytes, as `backed_block_split` refers to them. -/
def advance (count : Nat) : Backing → Backing
  | data address => data (address + count)
  | file filename offset => file filename (offset + count)
  | fd handle offset => fd handle (offset + count)
  | fill val => fill val

def isFill : Backing → Bool
  | fill _ => true
  | _ => false

end Backing

variable (blockSize : Nat)

def backedBlockListNew : BackedBlockList := ⟨[], none, blockSize⟩

/-- `merge_bb` of two nodes, a before b: `none` when they are not compatible and adjacent. -/
def mergeBb (a b : BackedBlock) : Option BackedBlock :=
  if u32 (a.block + u32 (a.len / blockSize)) ≠ b.block then none
  else match a.backing, b.backing with
    | .fill val, .fill val' => if val = val' then some { a with len := a.len + b.len } else none
    | .file filename offset, .file filename' offset' =>
      if filename = filename' ∧ offset + a.len = offset' then some { a with len := a.len + b.len }
      else none
    | .fd handle offset, .fd handle' offset' =>
      if handle = handle' ∧ offset + a.len = offset'
        then some { a with len := a.len + b.len } else none
    | _, _ => none

/-- `merge_bb` of a node with the next one, and whether it merged. `none` is the failed
assertion that the first comes before the second. -/
def mergeNext (a : BackedBlock) : List BackedBlock → Option (Bool × List BackedBlock)
  | [] => some (false, [a])
  | b :: rest =>
    if a.block < b.block then
      match mergeBb blockSize a b with
      | some merged => some (true, merged :: rest)
      | none => some (false, a :: b :: rest)
    else none

/-- The search of `queue_bb`: from the node at `i`, with `rest` behind it, on to the last one
whose successor is not below `block`. -/
def searchFrom (block : Nat) : Nat → List BackedBlock → Nat
  | i, [] => i
  | i, next :: rest => if next.block < block then searchFrom block (i + 1) rest else i

variable (bbl : BackedBlockList)

/-- Where the search starts: at `last_used` if the new block is behind it. -/
def searchStart (block : Nat) : Nat :=
  match bbl.lastUsed with
  | none => 0
  | some i => match bbl.dataBlocks[i]? with
    | some used => if used.block < block then i else 0
    | none => 0

/-- `queue_bb`; `none` is a failed assertion. -/
def queueBb (newBb : BackedBlock) : Option BackedBlockList :=
  match bbl.dataBlocks with
  | [] => some { bbl with dataBlocks := [newBb] }
  | head :: _ =>
    if newBb.block < head.block then
      some { bbl with dataBlocks := newBb :: bbl.dataBlocks, lastUsed := bbl.lastUsed.map (· + 1) }
    else do
      let start := searchStart bbl newBb.block
      let i := searchFrom newBb.block start (bbl.dataBlocks.drop (start + 1))
      let bb ← bbl.dataBlocks[i]?
      let (_, behind) ← mergeNext bbl.blockSize newBb (bbl.dataBlocks.drop (i + 1))
      let (merged, tail) ← mergeNext bbl.blockSize bb behind
      some { bbl with
        dataBlocks := bbl.dataBlocks.take i ++ tail
        lastUsed := some (if merged then i else i + 1) }

def backedBlockAddFill (val : BitVec 32) (len block : Nat) : Option BackedBlockList :=
  queueBb bbl ⟨block, len, .fill val⟩

def backedBlockAddData (address len block : Nat) : Option BackedBlockList :=
  queueBb bbl ⟨block, len, .data address⟩

def backedBlockAddFile (filename : String) (offset len block : Nat) : Option BackedBlockList :=
  queueBb bbl ⟨block, len, .file filename offset⟩

def backedBlockAddFd (fd offset len block : Nat) : Option BackedBlockList :=
  queueBb bbl ⟨block, len, .fd fd offset⟩

/-- `backed_block_split` of one node: what stays in it, and the node put behind it, if any. -/
def backedBlockSplit (bb : BackedBlock) (maxLen : Nat) : BackedBlock × List BackedBlock :=
  let maxLen := alignDown maxLen blockSize
  if bb.len ≤ maxLen then (bb, [])
  else ({ bb with len := maxLen },
    [⟨u32 (bb.block + maxLen / blockSize), bb.len - maxLen, bb.backing.advance maxLen⟩])

/-- The part of `backed_block_list_move` that puts a segment into a list that is not empty:
behind the first node whose successor is above the start of the segment. -/
def insertSegment (segment : List BackedBlock) (start : BackedBlock) :
    List BackedBlock → List BackedBlock
  | [] => segment
  | [bb] => bb :: segment
  | bb :: next :: rest =>
    if start.block < next.block then bb :: (segment ++ next :: rest)
    else bb :: insertSegment segment start (next :: rest)

/-- `backed_block_list_move` of a segment that has been taken out of its list. -/
def backedBlockListMove (segment dest : List BackedBlock) : List BackedBlock :=
  match segment with
  | [] => dest
  | start :: _ => insertSegment segment start dest

end Aosp.Sparse
