import Aosp.Lib.File
import Aosp.Snapshot.CowFormat

/- `cow_format.h` and `cow_format.cpp`: the bytes of a copy-on-write file. -/
namespace Aosp.Snapshot

open Layout (Codec Fixed)

namespace CowOpType

def code : CowOpType → BitVec 8
  | copy => 1
  | replace => 2
  | zero => 3
  | label => 4
  | cluster => 5
  | xor => 6
  | sequence => 7
  | footer => 255
  | unknown code _ => code

def ofCode (code : BitVec 8) : CowOpType :=
  if h : code = 0 ∨ 7 < code.toNat ∧ code ≠ 255 then unknown code h
  else if code = 1 then copy
  else if code = 2 then replace
  else if code = 3 then zero
  else if code = 4 then label
  else if code = 5 then cluster
  else if code = 6 then xor
  else if code = 7 then sequence
  else footer

theorem ofCode_code (type : CowOpType) : ofCode type.code = type := by
  cases type with
  | unknown code other => exact dif_pos other
  | _ => rfl

theorem code_ofCode : ∀ code : BitVec 8, (ofCode code).code = code := by decide

def codec : Codec CowOpType := (Codec.uint 1).via ofCode code ofCode_code code_ofCode

end CowOpType

def CowOperation.codec : Codec CowOperation :=
  (CowOpType.codec.prod ((Codec.uint 1).prod (Codec.u16.prod (Codec.u64.prod Codec.u64)))).via
    (fun ⟨type, compression, dataLength, newBlock, source⟩ =>
      ⟨type, compression, dataLength, newBlock, source⟩)
    (fun op => ⟨op.type, op.compression, op.dataLength, op.newBlock, op.source⟩)
    (fun _ => rfl) (fun _ => rfl)

structure CowHeader where
  magic : BitVec 64
  majorVersion : BitVec 16
  minorVersion : BitVec 16
  headerSize : BitVec 16
  footerSize : BitVec 16
  opSize : BitVec 16
  blockSize : BitVec 32
  clusterOps : BitVec 32
  numMergeOps : BitVec 64
  bufferSize : BitVec 32
deriving DecidableEq

def CowHeader.codec : Codec CowHeader :=
  (Codec.u64.prod (Codec.u16.prod (Codec.u16.prod (Codec.u16.prod (Codec.u16.prod (Codec.u16.prod
    (Codec.u32.prod (Codec.u32.prod (Codec.u64.prod Codec.u32))))))))).via
    (fun ⟨magic, majorVersion, minorVersion, headerSize, footerSize, opSize, blockSize, clusterOps,
        numMergeOps, bufferSize⟩ =>
      ⟨magic, majorVersion, minorVersion, headerSize, footerSize, opSize, blockSize, clusterOps,
        numMergeOps, bufferSize⟩)
    (fun h => ⟨h.magic, h.majorVersion, h.minorVersion, h.headerSize, h.footerSize, h.opSize,
      h.blockSize, h.clusterOps, h.numMergeOps, h.bufferSize⟩)
    (fun _ => rfl) (fun _ => rfl)

structure CowFooterData where
  footerChecksum : Fixed 32
  opsChecksum : Fixed 32
deriving DecidableEq

def CowFooterData.codec : Codec CowFooterData :=
  ((Codec.fixed 32).prod (Codec.fixed 32)).via
    (fun ⟨footerChecksum, opsChecksum⟩ => ⟨footerChecksum, opsChecksum⟩)
    (fun data => ⟨data.footerChecksum, data.opsChecksum⟩)
    (fun _ => rfl) (fun _ => rfl)

/-- `CowFooterOperation` in the place of an operation: `ops_size` stands where `new_block` does,
and `num_ops` where `source` does. -/
def CowOperation.footer (opsSize numOps : BitVec 64) : CowOperation :=
  ⟨.footer, 0, 64, opsSize, numOps⟩

def kCowMagicNumber : BitVec 64 := 0x436f77634f572121
def kCowVersionMajor : BitVec 16 := 2
def kCowVersionMinor : BitVec 16 := 0

def sizeofCowHeader : Nat := 38
def sizeofCowOperation : Nat := 20
def sizeofCowFooter : Nat := 84

example : CowHeader.codec.size = sizeofCowHeader := rfl
example : CowOperation.codec.size = sizeofCowOperation := rfl
example : CowOperation.codec.size + CowFooterData.codec.size = sizeofCowFooter := rfl

/-- `BUFFER_REGION_DEFAULT_SIZE`. -/
def bufferRegionDefaultSize : Nat := 2 ^ 21

/-- A `uint64_t`. -/
def u64 (n : Nat) : Nat := n % 2 ^ 64

/-- `GetNextOpOffset`, as it is added to a `uint64_t`. -/
def getNextOpOffset (op : CowOperation) (clusterOps : Nat) : Nat :=
  match op.type with
  | .cluster => op.source.toNat
  | .replace | .xor => if clusterOps = 0 then op.dataLength.toNat else 0
  | _ => 0

/-- `GetNextDataOffset`. -/
def getNextDataOffset (op : CowOperation) (clusterOps : Nat) : Nat :=
  match op.type with
  | .cluster => clusterOps * sizeofCowOperation
  | _ => if clusterOps = 0 then sizeofCowOperation else 0

end Aosp.Snapshot
