import Aosp.Lib.Codec
import Aosp.Lib.InPlace

/- `cow_format.h`: the operations of a copy-on-write file, and what they make of a device. A
device is addressed by byte; `BLOCK_SZ` is 4096. -/
namespace Aosp.Snapshot

open Layout (Byte)
open InPlace (Transfer)

abbrev Device := Nat → Byte

/-- The contents of a block or of a longer buffer, by offset. -/
abbrev Buffer := Nat → Byte

/-- The operation codes; every other byte is `unknown`. -/
inductive CowOpType where
  | copy
  | replace
  | zero
  | label
  | cluster
  | xor
  | sequence
  | footer
  | unknown (code : BitVec 8) (other : code = 0 ∨ 7 < code.toNat ∧ code ≠ 255)
deriving DecidableEq

structure CowOperation where
  type : CowOpType
  compression : BitVec 8
  dataLength : BitVec 16
  newBlock : BitVec 64
  source : BitVec 64
deriving DecidableEq

/-- What `ReadData` delivers for an operation with data. -/
abbrev Payload := CowOperation → Buffer

namespace CowOperation

variable (op : CowOperation)

def isMetadataOp : Bool :=
  match op.type with
  | .label | .cluster | .footer | .sequence => true
  | _ => false

def isOrderedOp : Bool :=
  match op.type with
  | .copy | .xor => true
  | _ => false

/-- The operations `ProcessCowOp` knows. -/
def isKnown : Bool :=
  match op.type with
  | .copy | .xor | .replace | .zero => true
  | _ => false

/-- The first byte an ordered operation reads: the source of a copy is a block number, the
source of an xor a byte position. -/
def sourceOffset : Nat :=
  match op.type with
  | .copy => op.source.toNat * 4096
  | _ => op.source.toNat

variable (payload : Payload)

/-- The block an operation stands for, from the device it is applied to. -/
def content (op : CowOperation) (base : Device) : Buffer := fun x =>
  match op.type with
  | .copy => base (op.sourceOffset + x)
  | .xor => base (op.sourceOffset + x) ^^^ payload op x
  | .replace => payload op x
  | _ => 0

/-- An operation as a transfer on the device. -/
def transfer (op : CowOperation) : Transfer Nat Byte where
  reads a := op.isOrderedOp = true ∧ op.sourceOffset ≤ a ∧ a < op.sourceOffset + 4096
  writes a := op.isKnown && a / 4096 == op.newBlock.toNat
  result base a := op.content payload base (a % 4096)
  determined {m n} agrees a := by
    have inside : a % 4096 < 4096 := Nat.mod_lt a (by decide)
    have same : op.isOrderedOp = true →
        m (op.sourceOffset + a % 4096) = n (op.sourceOffset + a % 4096) := fun ordered =>
      agrees _ ⟨ordered, Nat.le_add_right _ _, Nat.add_lt_add_left inside _⟩
    cases type : op.type <;> simp only [content, type]
    · exact same (by simp [isOrderedOp, type])
    · rw [same (by simp [isOrderedOp, type])]

variable {op}

@[simp] theorem transfer_writes {payload : Payload} {a : Nat} :
    (op.transfer payload).writes a = true ↔ op.isKnown = true ∧ a / 4096 = op.newBlock.toNat := by
  simp [transfer]

theorem isKnown_of_isOrderedOp (ordered : op.isOrderedOp = true) : op.isKnown = true := by
  cases type : op.type <;> simp_all [isOrderedOp, isKnown]

/-- A block number is needed by an ordered operation when some byte of that block is. -/
def Needs (op : CowOperation) (block : Nat) : Prop :=
  op.isOrderedOp = true ∧ op.sourceOffset < (block + 1) * 4096 ∧
    block * 4096 < op.sourceOffset + 4096

instance (op : CowOperation) (block : Nat) : Decidable (op.Needs block) :=
  inferInstanceAs (Decidable (_ ∧ _ ∧ _))

theorem needs_iff_reads {block : Nat} :
    op.Needs block ↔ ∃ a, (op.transfer payload).reads a ∧ a / 4096 = block := by
  constructor
  · rintro ⟨ordered, low, high⟩
    refine ⟨max op.sourceOffset (block * 4096), ⟨ordered, le_max_left _ _, ?_⟩, ?_⟩
    · omega
    · omega
  · rintro ⟨a, ⟨ordered, low, high⟩, rfl⟩
    refine ⟨ordered, ?_, ?_⟩ <;> omega

end CowOperation

/-- Operations applied to a device one after the other. -/
def mergeInPlace (payload : Payload) (order : List CowOperation) (base : Device) : Device :=
  InPlace.run (order.map (CowOperation.transfer payload)) base

/-- The image the snapshot shows: every operation applied to the untouched base. -/
def snapshotImage (payload : Payload) (ops : List CowOperation) (base : Device) : Device :=
  InPlace.image (ops.map (CowOperation.transfer payload)) base

/-- Operations with different target blocks never write a common byte. -/
theorem oneWriter_of_distinct {payload : Payload} {ops : List CowOperation}
    (distinct : ∀ p ∈ ops, ∀ q ∈ ops, p.newBlock = q.newBlock → p = q) :
    InPlace.OneWriter (ops.map (CowOperation.transfer payload)) := by
  intro t memberT u memberU a writtenT writtenU
  obtain ⟨p, inP, rfl⟩ := List.mem_map.mp memberT
  obtain ⟨q, inQ, rfl⟩ := List.mem_map.mp memberU
  rw [CowOperation.transfer_writes] at writtenT writtenU
  have same : p.newBlock = q.newBlock := BitVec.eq_of_toNat_eq (writtenT.2.symm.trans writtenU.2)
  rw [distinct p inP q inQ same]

end Aosp.Snapshot
