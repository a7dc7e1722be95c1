import Aosp.Sparse.SparseFile

/- `sparse_read.cpp`: importing a sparse image from a file or from a buffer. `none` is an error
code, a null pointer or a failed assertion. -/
namespace Aosp.Sparse

open Layout (Byte Codec)
open Fallible (require)

/-- `SparseFileFdSource` and `SparseFileBufSource`. -/
inductive SourceKind where
  | fd (handle : Nat)
  | buf (address : Nat)
deriving DecidableEq

/-- A source with its contents and its offset. -/
structure Source where
  kind : SourceKind
  contents : List Byte
  offset : Nat

def copyBufSize : Nat := 1024 * 1024

variable (s : SparseFile)

def sparseFileAddData (address len block : Nat) : Option SparseFile :=
  (backedBlockAddData s.backedBlockList address len block).map fun list =>
    { s with backedBlockList := list }

def sparseFileAddFill (val : BitVec 32) (len block : Nat) : Option SparseFile :=
  (backedBlockAddFill s.backedBlockList val len block).map fun list =>
    { s with backedBlockList := list }

def sparseFileAddFd (fd offset len block : Nat) : Option SparseFile :=
  (backedBlockAddFd s.backedBlockList fd offset len block).map fun list =>
    { s with backedBlockList := list }

namespace Source

variable (source : Source)

/-- `AccessOkay` of a buffer. -/
def accessOkay (len : Nat) : Bool :=
  decide (0 < len) && decide (source.offset < source.contents.length) &&
    decide (len ≤ source.contents.length - source.offset)

/-- Whether the next bytes can be read: a file is read to its end, and nothing can always be
read. -/
def readable (len : Nat) : Bool :=
  match source.kind with
  | .fd _ => decide (len = 0) || decide (source.offset + len ≤ source.contents.length)
  | .buf _ => source.accessOkay len

def rewind : Source := { source with offset := 0 }

/-- `Seek`: a file can be positioned behind its end. -/
def seek (len : Nat) : Option Source :=
  match source.kind with
  | .fd _ => some { source with offset := source.offset + len }
  | .buf _ => do
      require (source.accessOkay len)
      some { source with offset := source.offset + len }

/-- `ReadValue`. -/
def readValue (len : Nat) : Option (List Byte × Source) := do
  require (source.readable len)
  some ((source.contents.drop source.offset).take len,
    { source with offset := source.offset + len })

/-- `ReadValue` of a structure. -/
def readStruct {α : Type} (codec : Codec α) (source : Source) : Option (α × Source) := do
  let (bytes, source) ← source.readValue codec.size
  some (codec.decode bytes, source)

/-- `AddToSparseFile`. -/
def addToSparseFile (s : SparseFile) (len block : Nat) : Option SparseFile :=
  match source.kind with
  | .fd handle => sparseFileAddFd s handle source.offset len block
  | .buf address => do
      require (source.accessOkay len)
      sparseFileAddData s (address + source.offset) len block

/-- One piece of `GetCrc32`. -/
def crcPiece (state : BitVec 32 × Source) (len : Nat) : Option (BitVec 32 × Source) := do
  let (bytes, source) ← state.2.readValue len
  some (sparseCrc32 state.1 bytes, source)

/-- `GetCrc32`: a file is read through the copy buffer, a buffer at once. -/
def getCrc32 (crc : BitVec 32) (len : Nat) : Option (BitVec 32 × Source) :=
  match source.kind with
  | .fd _ => (Pieces.sizes copyBufSize len).foldlM crcPiece (crc, source)
  | .buf _ => crcPiece (crc, source) len

end Source

/-- What `sparse_file_read_sparse` works on; `crc` is there if the checksum is verified. -/
structure ReadState where
  s : SparseFile
  source : Source
  crc : Option (BitVec 32)
  curBlock : Nat

section ProcessChunk

variable (st : ReadState) (chunkSize blocks : Nat)

def processRawChunk : Option ReadState := do
  let len := blocks * st.s.blockSize
  require (chunkSize % st.s.blockSize == 0)
  require (chunkSize / st.s.blockSize == blocks)
  let s ← st.source.addToSparseFile st.s len st.curBlock
  match st.crc with
  | some crc => do
      let (crc, source) ← st.source.getCrc32 crc len
      some { st with s := s, source := source, crc := some crc }
  | none => do
      let source ← st.source.seek len
      some { st with s := s, source := source }

/-- The checksum over the copy buffer, as often as it takes. -/
def crcBuffer (buffer : Nat → Byte) (crc : BitVec 32) (len : Nat) : BitVec 32 :=
  (Pieces.sizes copyBufSize len).foldl (fun crc n =>
    sparseCrc32 crc (OutputFile.bytesOf buffer n)) crc

def processFillChunk : Option ReadState := do
  let len := blocks * st.s.blockSize
  require (chunkSize == 4)
  let (val, source) ← st.source.readStruct Codec.u32
  let s ← sparseFileAddFill st.s val len st.curBlock
  some { st with
    s := s
    source := source
    crc := st.crc.map fun crc => crcBuffer (fillByte val) crc len }

/-- `process_skip_chunk`: a chunk with data is an error. -/
def processSkipChunk : Option ReadState := do
  require (chunkSize == 0)
  some { st with
    crc := st.crc.map fun crc => crcBuffer (fun _ => 0) crc (blocks * st.s.blockSize) }

def processCrc32Chunk : Option ReadState := do
  require (chunkSize == 4)
  let (fileCrc, source) ← st.source.readStruct Codec.u32
  require (match st.crc with | some crc => fileCrc == crc | none => true)
  some { st with source := source }

end ProcessChunk

/-- `process_chunk`, and the test of its result in the loop. The number of blocks is returned as
an `int`, so that `2^31` and more are taken for an error. A chunk of unknown type counts for
nothing, and its data is not skipped. -/
def processChunk (chunkHdrSz : BitVec 16) (header : ChunkHeader) (st : ReadState) :
    Option ReadState := do
  let chunkDataSize := (header.totalSz - chunkHdrSz.setWidth 32).toNat
  let blocks := header.chunkSz.toNat
  let advanced (st : ReadState) : Option ReadState := do
    require (decide (blocks < 2 ^ 31))
    some { st with curBlock := u32 (st.curBlock + blocks) }
  match header.chunkType with
  | .raw => do advanced (← processRawChunk st chunkDataSize blocks)
  | .fill => do advanced (← processFillChunk st chunkDataSize blocks)
  | .dontCare => do advanced (← processSkipChunk st chunkDataSize blocks)
  | .crc32 => processCrc32Chunk st chunkDataSize
  | .unknown _ _ => some st

/-- One round of the loop over the chunks. -/
def readChunk (header : SparseHeader) (st : ReadState) : Option ReadState := do
  let (chunk, source) ← st.source.readStruct ChunkHeader.codec
  let source ← if chunkHeaderLen < header.chunkHdrSz.toNat then
    source.seek (header.chunkHdrSz.toNat - chunkHeaderLen) else some source
  processChunk header.chunkHdrSz chunk { st with source := source }

/-- The loop over the chunks. -/
def readChunks (header : SparseHeader) : Nat → ReadState → Option ReadState
  | 0, st => some st
  | n + 1, st => do readChunks header n (← readChunk header st)

def sparseFileReadSparse (source : Source) (crc : Bool) : Option SparseFile := do
  let (header, source) ← source.readStruct SparseHeader.codec
  require (header.magic == sparseHeaderMagic)
  require (header.majorVersion == sparseHeaderMajorVer)
  require (decide (sparseHeaderLen ≤ header.fileHdrSz.toNat))
  require (decide (chunkHeaderLen ≤ header.chunkHdrSz.toNat))
  let source ← if sparseHeaderLen < header.fileHdrSz.toNat then
    source.seek (header.fileHdrSz.toNat - sparseHeaderLen) else some source
  let st ← readChunks header header.totalChunks.toNat ⟨s, source, if crc then some 0 else none, 0⟩
  require (header.totalBlks.toNat == st.curBlock)
  some st.s

/-- `sparse_file_import_source`. -/
def sparseFileImportSource (source : Source) (crc : Bool) : Option SparseFile := do
  let (header, source) ← source.readStruct SparseHeader.codec
  require (header.magic == sparseHeaderMagic)
  require (header.majorVersion == sparseHeaderMajorVer)
  require (decide (sparseHeaderLen ≤ header.fileHdrSz.toNat))
  require (decide (chunkHeaderLen ≤ header.chunkHdrSz.toNat))
  require (header.blkSz != 0 && header.blkSz.toNat % 4 == 0)
  require (header.totalBlks != 0)
  let s := sparseFileNew header.blkSz.toNat (header.totalBlks.toNat * header.blkSz.toNat)
  sparseFileReadSparse s source.rewind crc

def sparseFileImport (fd : Nat) (contents : List Byte) (crc : Bool) : Option SparseFile :=
  sparseFileImportSource ⟨.fd fd, contents, 0⟩ crc

def sparseFileImportBuf (address : Nat) (contents : List Byte) (crc : Bool) : Option SparseFile :=
  sparseFileImportSource ⟨.buf address, contents, 0⟩ crc

end Aosp.Sparse
