import Aosp.Lib.Fallible
import Aosp.Snapshot.CowFile

/- `cow_reader.cpp`: reading the operations of a copy-on-write file, up to a label or up to the
footer. `none` is a call that returns false. -/
namespace Aosp.Snapshot

open Layout (Fixed File)
open Fallible (require)

/-- The variables of `ParseOps` and the members it sets. `data_loc` keeps the first value of a
key. The footer is kept as its operation and its data. -/
structure ParseState where
  pos : Nat
  dataPos : Nat
  ops : List CowOperation
  dataLoc : List (BitVec 64 × Nat)
  lastLabel : Option (BitVec 64)
  footer : Option (CowOperation × CowFooterData)
  hasSeqOps : Bool

namespace CowReader

/-- `Parse` in front of `ParseOps`: the header and its tests. -/
def parseHeader (file : File) : Option CowHeader := do
  let bytes ← file.read 0 sizeofCowHeader
  let header := CowHeader.codec.decode bytes
  require (header.magic == kCowMagicNumber)
  require (header.footerSize == BitVec.ofNat 16 sizeofCowFooter)
  require (header.opSize == BitVec.ofNat 16 sizeofCowOperation)
  require (header.clusterOps != 1)
  require (decide (header.majorVersion.toNat ≤ kCowVersionMajor.toNat) && header.minorVersion ==
    kCowVersionMinor)
  some header

/-- How the loop over a cluster goes on behind an operation. -/
inductive ParseStep where
  | next
  | leaveCluster
  | done

section Loop

variable (file : File) (clusterOps : Nat) (label : Option (BitVec 64))

/-- `insert` of an `unordered_map`. -/
def insertLoc (dataLoc : List (BitVec 64 × Nat)) (block : BitVec 64) (pos : Nat) :
    List (BitVec 64 × Nat) :=
  if (dataLoc.lookup block).isSome then dataLoc else dataLoc ++ [(block, pos)]

variable (st : ParseState)

/-- The part of a round that every operation goes through. -/
def pass (op : CowOperation) : ParseState :=
  { st with
    ops := st.ops ++ [op]
    dataLoc := if op.type = .xor then insertLoc st.dataLoc op.newBlock st.dataPos else st.dataLoc
    pos := u64 (st.pos + sizeofCowOperation + getNextOpOffset op clusterOps)
    dataPos := u64 (st.dataPos + op.dataLength.toNat + getNextDataOffset op clusterOps) }

/-- One round of the loop over a cluster. The footer is dropped from the operations again. -/
def parseOp (op : CowOperation) : Option (ParseState × ParseStep) :=
  let passed := pass clusterOps st op
  match op.type with
  | .cluster => some (passed, .leaveCluster)
  | .label =>
    let passed := { passed with lastLabel := some op.source }
    some (passed, if label = some op.source then .done else .next)
  | .footer => do
      let bytes ← file.read passed.pos CowFooterData.codec.size
      some ({ passed with ops := st.ops, footer := some (op, CowFooterData.codec.decode bytes) },
        .done)
  | .sequence => some ({ passed with hasSeqOps := true }, .next)
  | _ => some (passed, .next)

/-- An operation behind which the loop over a cluster goes on. -/
def Plain (op : CowOperation) : Prop :=
  op.type ≠ .cluster ∧ op.type ≠ .footer ∧ (op.type = .label → label ≠ some op.source)

instance : DecidablePred (Plain label) := fun _ => inferInstanceAs (Decidable (_ ∧ _ ∧ _))

variable {label} in
theorem parseOp_plain {op : CowOperation} (plain : Plain label op) :
    ∃ lastLabel hasSeqOps,
    parseOp file clusterOps label st op = some ({ pass clusterOps st op with
      lastLabel := lastLabel, hasSeqOps := hasSeqOps }, .next) := by
  obtain ⟨notCluster, notFooter, notLabel⟩ := plain
  unfold parseOp
  cases type : op.type with
  | cluster => exact absurd type notCluster
  | footer => exact absurd type notFooter
  | label => exact ⟨_, _, by rw [if_neg (notLabel type)]⟩
  | _ => exact ⟨_, _, rfl⟩

/-- The loop over the operations that were read. -/
def parseCluster : ParseState → List CowOperation → Option (ParseState × Bool)
  | st, [] => some (st, false)
  | st, op :: rest =>
    match parseOp file clusterOps label st op with
    | none => none
    | some (st, .next) => parseCluster st rest
    | some (st, .leaveCluster) => some (st, false)
    | some (st, .done) => some (st, true)

/-- The number of operations that are read at once. -/
def toAdd : Nat :=
  min (if clusterOps = 0 then 1 else clusterOps)
    (u64 (file.size + 2 ^ 64 - st.pos) / sizeofCowOperation)

/-- The operations at a position, one behind the other. -/
def opsAt (pos count : Nat) : List CowOperation :=
  (List.range count).map fun i =>
    CowOperation.codec.decode (file.region (pos + i * sizeofCowOperation) sizeofCowOperation)

/-- A round of the outer loop, and whether it is the last one; none if the function returns false.
-/
def parseRound : Option (ParseState × Bool) :=
  let count := toAdd file clusterOps st
  if count = 0 then some (st, true)
  else if file.size < st.pos + count * sizeofCowOperation then none
  else do
    let (st, done) ← parseCluster file clusterOps label st (opsAt file st.pos count)
    require (decide (st.pos < 2 ^ 63))
    some (st, done)

/-- The outer loop; none if so many rounds are not enough. -/
def parseLoop : Nat → ParseState → Option (Option ParseState)
  | 0, _ => none
  | rounds + 1, st =>
    match parseRound file clusterOps label st with
    | none => some none
    | some (st, true) => some (some st)
    | some (st, false) => parseLoop rounds st

end Loop

/-- The start of `ParseOps`: the positions behind the scratch space. The two sizes are added in 32
bits. -/
def parseStart (header : CowHeader) : ParseState :=
  let pos := if 2 ≤ header.majorVersion.toNat ∧ 0 < header.bufferSize.toNat then
    (header.headerSize.toNat + header.bufferSize.toNat) % 2 ^ 32 else header.headerSize.toNat
  ⟨pos, pos + (if header.clusterOps = 0 then 1 else header.clusterOps.toNat) * sizeofCowOperation,
    [], [], none, none, false⟩

/-- The tests at the end of `ParseOps`. The checksums are not computed, so they have to be zero. -/
def parseEnd (label : Option (BitVec 64)) (st : ParseState) : Option ParseState := do
  match label with
  | some label => require (st.lastLabel == some label)
  | none => require st.footer.isSome
  match st.footer with
  | none => some st
  | some (op, data) => do
      require (decide (st.ops.length = op.source.toNat))
      require (decide (st.ops.length * sizeofCowOperation = op.newBlock.toNat))
      require (decide (data.opsChecksum = Fixed.zero 32))
      some st

/-- `ParseOps`, with a bound for its rounds. -/
def parseOps (rounds : Nat) (file : File) (header : CowHeader) (label : Option (BitVec 64)) :
    Option (Option ParseState) := do
  let result ← parseLoop file header.clusterOps.toNat label rounds (parseStart header)
  some (result.bind (parseEnd label))

end CowReader

end Aosp.Snapshot
