import Aosp.Lib.Fallible
import Aosp.Snapshot.CowFormat
import Mathlib.Data.List.Sort

/- `cow_reader.cpp` behind the operation stream: the order in which operations are merged, and
the test of that order. The reader is not the one of a merge in user space (`is_merge_` is
false), for which `GetMergeOpIter` has nothing to iterate. -/
namespace Aosp.Snapshot

open Fallible (require)

inductive ReaderFlags where
  | default
  | userspaceMerge
deriving DecidableEq

/-- The local variables of `PrepMergeOps`. `block_map` and `seq_ops_set` have `uint32_t` keys,
`other_ops` is a vector of `int`. -/
structure PrepState where
  mergeOpBlocks : List (BitVec 32)
  otherOps : List (BitVec 32)
  seqOpsSet : List (BitVec 32)
  blockMap : List (BitVec 32 × Nat)

/-- What `PrepMergeOps` leaves in the reader. -/
structure MergeOps where
  blockPosIndex : List Nat
  numOrderedOpsToMerge : Nat
  numTotalDataOps : Nat
  mergeOpStart : Nat

namespace CowReader

/-- The words of a sequence operation, as `GetRawBytes` reads them; `none` if it fails. -/
abbrev SequenceData := CowOperation → Option (List (BitVec 32))

section PrepMergeOps

variable (hasSeqOps : Bool) (sequenceData : SequenceData)

/-- `insert` of an `unordered_map`, which keeps the first value of a key. -/
def insertBlock (blockMap : List (BitVec 32 × Nat)) (block : BitVec 32) (i : Nat) :
    List (BitVec 32 × Nat) :=
  if (blockMap.lookup block).isSome then blockMap else (block, i) :: blockMap

/-- The sequence part of one round. -/
def prepSequence (st : PrepState) (op : CowOperation) : Option PrepState :=
  match op.type with
  | .sequence => (sequenceData op).map fun blocks =>
    { st with mergeOpBlocks := st.mergeOpBlocks ++ blocks, seqOpsSet := st.seqOpsSet ++ blocks }
  | _ => some st

/-- The part of a round for an operation that is not metadata. Block numbers are cut to 32
bits. -/
def prepData (st : PrepState) (op : CowOperation) (i : Nat) : PrepState :=
  let block := op.newBlock.setWidth 32
  let st :=
    if !hasSeqOps && op.isOrderedOp then { st with mergeOpBlocks := st.mergeOpBlocks ++ [block] }
    else if block ∈ st.seqOpsSet then st
    else { st with otherOps := st.otherOps ++ [block] }
  { st with blockMap := insertBlock st.blockMap block i }

/-- One round of the loop over the operations. -/
def prepOp (st : PrepState) (entry : CowOperation × Nat) : Option PrepState := do
  let st ← prepSequence sequenceData st entry.1
  some (if entry.1.isMetadataOp then st else prepData hasSeqOps st entry.1 entry.2)

end PrepMergeOps

/-- `std::sort` of `int`s, upwards for a merge in user space and downwards otherwise. -/
def sortOthers (flag : ReaderFlags) (others : List (BitVec 32)) : List (BitVec 32) :=
  match flag with
  | .userspaceMerge => others.insertionSort fun a b => a.toInt ≤ b.toInt
  | .default => others.insertionSort fun a b => b.toInt ≤ a.toInt

/-- `PrepMergeOps` on the parsed operations; `numMergeOps` is the counter of the header. -/
def prepMergeOps (flag : ReaderFlags) (numMergeOps : Nat) (sequenceData : SequenceData)
    (ops : List CowOperation) : Option MergeOps := do
  let hasSeqOps := ops.any fun op => decide (op.type = .sequence)
  let st ← ops.zipIdx.foldlM (prepOp hasSeqOps sequenceData) ⟨[], [], [], []⟩
  require (st.mergeOpBlocks.all fun block => (st.blockMap.lookup block).isSome)
  let blocks := st.mergeOpBlocks ++ sortOthers flag st.otherOps
  let blockPosIndex ← blocks.mapM fun block => st.blockMap.lookup block
  some {
    blockPosIndex := blockPosIndex
    numOrderedOpsToMerge := st.mergeOpBlocks.length - numMergeOps
    numTotalDataOps := blocks.length
    mergeOpStart := numMergeOps }

/-- The operations `GetMergeOpIter(ignore_progress)` goes through. -/
def getMergeOpIter (ops : List CowOperation) (merge : MergeOps) (ignoreProgress : Bool) :
    List CowOperation :=
  (merge.blockPosIndex.drop (if ignoreProgress then 0 else merge.mergeOpStart)).filterMap
    fun i => ops[i]?

/-- The block an ordered operation reads, and whether it also reads the next one. -/
def neededBlock (op : CowOperation) : Option (BitVec 64 × Bool) :=
  match op.type with
  | .copy => some (op.source, false)
  | .xor => some (op.source / 4096, decide (op.source % 4096 ≠ 0))
  | _ => none

/-- The loop of `VerifyMergeOps`; `overwritten` are the keys of `overwritten_blocks`. -/
def verifyLoop : List (BitVec 64) → List CowOperation → Bool
  | _, [] => true
  | overwritten, op :: rest =>
    match neededBlock op with
    | none => verifyLoop overwritten rest
    | some (block, offset) =>
      if block ∈ overwritten ∨ offset ∧ block + 1 ∈ overwritten then false
      else verifyLoop (op.newBlock :: overwritten) rest

/-- `VerifyMergeOps`. -/
def verifyMergeOps (ops : List CowOperation) (merge : MergeOps) : Bool :=
  verifyLoop [] (getMergeOpIter ops merge true)

end CowReader

end Aosp.Snapshot
