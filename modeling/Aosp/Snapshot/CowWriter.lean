import Aosp.Lib.Fallible
import Aosp.Lib.Pieces
import Aosp.Snapshot.CowFile

/- `cow_writer.cpp`. A write fails if it does not fit the device or has too many buffers, and only
then. A result is `none` where the call does not come back: a failed `CHECK`, a division by zero, a
write past the end of a buffer, or a recursion of `WriteOperation` that is deeper than `depth`. -/
namespace Aosp.Snapshot

open Layout (Byte Codec Fixed File Write)
open BitVec (ofNat)
open Fallible (require)

inductive CowCompressionAlgorithm where
  | none
  | gz
  | brotli
  | lz4
deriving DecidableEq

def CowCompressionAlgorithm.code : CowCompressionAlgorithm → BitVec 8
  | none => 0
  | gz => 1
  | brotli => 2
  | lz4 => 3

structure CowOptions where
  blockSize : BitVec 32
  compression : String
  maxBlocks : Option (BitVec 64)
  clusterOps : BitVec 32
  scratchSpace : Bool
  numMergeOps : BitVec 64
  numCompressThreads : Nat
  batchWrite : Bool

/-- The system properties the writer looks at. -/
structure Properties where
  compressionThreads : Bool
  batchWrites : Bool

/-- The fields of a `CowWriter` that stay as they are once it is initialized. -/
structure CowSetup where
  header : CowHeader
  maxBlocks : Option (BitVec 64)
  compression : CowCompressionAlgorithm
  numCompressThreads : Nat
  batchWrite : Bool
  clusterSize : Nat
  isBlockDevice : Bool
  cowImageSize : Nat

/-- The fields of a `CowWriter`. The queued operations are the first `op_vec_index_` entries of
`cowop_vec_`, the queued data the first `data_vec_index_` entries of `data_vec_`. `writes` are the
buffers with operations and data that have been written, in order, and `indices` the values of
`op_vec_index_` and `data_vec_index_` behind every operation that was queued. -/
structure CowWriter extends CowSetup where
  file : File
  writes : List Write
  indices : List (Nat × Nat)
  numOps : Nat
  currentOpPos : Nat
  nextOpPos : Nat
  nextDataPos : Nat
  currentDataPos : Nat
  currentClusterSize : Nat
  currentDataSize : Nat
  opVec : List CowOperation
  dataVec : List (List Byte)

/-- What a call of the writer returns, with the writer it leaves. -/
abbrev WriterResult := Option (Bool × CowWriter)

/-- Go on only after a success. -/
def WriterResult.andThen (result : WriterResult) (next : CowWriter → WriterResult) : WriterResult :=
  result.bind fun (ok, w) => if ok then next w else some (false, w)

namespace CowWriter

variable (w : CowWriter)

def ensureSpaceAvailable (bytesNeeded : Nat) : Bool := decide (bytesNeeded ≤ w.cowImageSize)

def setupHeaders (options : CowOptions) : CowHeader where
  magic := kCowMagicNumber
  majorVersion := kCowVersionMajor
  minorVersion := kCowVersionMinor
  headerSize := ofNat 16 sizeofCowHeader
  footerSize := ofNat 16 sizeofCowFooter
  opSize := ofNat 16 sizeofCowOperation
  blockSize := options.blockSize
  clusterOps := options.clusterOps
  numMergeOps := options.numMergeOps
  bufferSize := 0

/-- The constructor, with `SetupHeaders` and `SetupWriteOptions`, and `SetFd`: `device` is the size
of a block device; any other file is taken to be unlimited. -/
def create (properties : Properties) (options : CowOptions) (device : Option Nat) (file : File) :
    CowWriter where
  isBlockDevice := device.isSome
  cowImageSize := device.getD (2 ^ 63 - 1)
  file := file
  writes := []
  indices := []
  header := setupHeaders options
  maxBlocks := options.maxBlocks
  compression := .none
  numCompressThreads :=
    if options.numCompressThreads = 0 then
      if options.clusterOps ≠ 0 ∧ properties.compressionThreads then 2 else 1
    else options.numCompressThreads
  batchWrite := options.clusterOps ≠ 0 && (properties.batchWrites || options.batchWrite)
  numOps := 0
  currentOpPos := 0
  nextOpPos := 0
  nextDataPos := 0
  currentDataPos := 0
  clusterSize := 0
  currentClusterSize := 0
  currentDataSize := 0
  opVec := []
  dataVec := []

/-- `ParseOptions`: the compression algorithm; a single operation is no cluster. -/
def parseOptions (options : CowOptions) : Option CowCompressionAlgorithm := do
  let compression ← match options.compression with
    | "gz" => some .gz
    | "brotli" => some .brotli
    | "lz4" => some .lz4
    | "none" | "" => some .none
    | _ => (none : Option CowCompressionAlgorithm)
  require (options.clusterOps != 1)
  some compression

/-- `InitPos`; `cluster_size_` is a `uint32_t`. -/
def initPos : CowWriter :=
  let nextOpPos := sizeofCowHeader + w.header.bufferSize.toNat
  let clusterSize := w.header.clusterOps.toNat * sizeofCowOperation % 2 ^ 32
  { w with
    nextOpPos := nextOpPos
    clusterSize := clusterSize
    nextDataPos := nextOpPos + if w.header.clusterOps ≠ 0 then clusterSize else sizeofCowOperation
    currentClusterSize := 0
    currentDataSize := 0 }

/-- `InitBatchWrites`; the sizes of the buffers are looked at in `hasBuffer`. -/
def initBatchWrites : CowWriter :=
  if w.batchWrite then { w with currentOpPos := w.nextOpPos, currentDataPos := w.nextDataPos }
  else w

/-- `OpenForWrite`. -/
def openForWrite (scratchSpace : Bool) : Option CowWriter := do
  require (decide (w.header.blockSize.toNat ≤ 2 ^ 16 - 1))
  let header := if scratchSpace then
    { w.header with bufferSize := ofNat 32 bufferRegionDefaultSize } else w.header
  require (w.ensureSpaceAvailable (sizeofCowHeader + header.bufferSize.toNat))
  let file := w.file.pwrite ⟨0, CowHeader.codec.encode header⟩
  let file := if scratchSpace then
    file.pwrite ⟨sizeofCowHeader, List.replicate bufferRegionDefaultSize 0⟩ else file
  some { w with header := header, file := file }.initPos.initBatchWrites

/-- `Initialize`. -/
def initializeWriter (properties : Properties) (options : CowOptions) (device : Option Nat)
    (file : File) : Option CowWriter := do
  let compression ← parseOptions options
  { create properties options device file with compression := compression }.openForWrite
    options.scratchSpace

/-- `pwritev`: buffers one behind the other. -/
def gather : Nat → List (List Byte) → List Write
  | _, [] => []
  | address, bytes :: rest => ⟨address, bytes⟩ :: gather (address + bytes.length) rest

def pwritev (address : Nat) (buffers : List (List Byte)) : CowWriter :=
  { w with
    file := w.file.pwriteAll (gather address buffers)
    writes := w.writes ++ gather address buffers }

/-- `IOV_MAX`, the number of buffers `pwritev` takes. -/
def iovMax : Nat := 1024

/-- `FlushCluster` where no write fails. -/
def flushQueues : CowWriter :=
  let w := w.pwritev w.currentOpPos (w.opVec.map CowOperation.codec.encode)
  let w := w.pwritev w.currentDataPos w.dataVec
  { w with
    opVec := []
    dataVec := []
    currentOpPos := w.nextOpPos
    currentDataPos := w.nextDataPos }

/-- `FlushCluster`. The queues stay as they are behind a write that fails. -/
def flushCluster : Bool × CowWriter :=
  if iovMax < w.opVec.length then (false, w)
  else if iovMax < w.dataVec.length then
    (false, w.pwritev w.currentOpPos (w.opVec.map CowOperation.codec.encode))
  else (true, w.flushQueues)

/-- There are `cluster_ops` buffers for operations and as many for data, of two blocks each. -/
def hasBuffer (data : List Byte) : Bool :=
  let clusterOps := w.header.clusterOps.toNat
  decide (w.opVec.length < clusterOps) && (data.isEmpty ||
    decide (w.dataVec.length < clusterOps ∧ data.length ≤ w.header.blockSize.toNat * 2))

variable (op : CowOperation)

/-- The part of `WriteOperation` that queues or writes an operation and its data. -/
def store (data : List Byte) : CowWriter :=
  if w.batchWrite then
    let dataVec := if data = [] then w.dataVec else w.dataVec ++ [data]
    { w with
      opVec := w.opVec ++ [op]
      dataVec := dataVec
      indices := w.indices ++ [(w.opVec.length + 1, dataVec.length)] }
  else
    let w := w.pwritev w.nextOpPos [CowOperation.codec.encode op]
    if data = [] then w else w.pwritev w.nextDataPos [data]

/-- `AddOperation`. -/
def addOperation : CowWriter :=
  let clusterOps := w.header.clusterOps.toNat
  { w with
    numOps := w.numOps + 1
    currentClusterSize :=
      if op.type = .cluster then 0
      else if clusterOps ≠ 0 then (w.currentClusterSize + sizeofCowOperation) % 2 ^ 32
      else w.currentClusterSize
    currentDataSize :=
      if op.type = .cluster then 0
      else if clusterOps ≠ 0 then w.currentDataSize + op.dataLength.toNat
      else w.currentDataSize
    nextDataPos := u64 (w.nextDataPos + op.dataLength.toNat + getNextDataOffset op clusterOps)
    nextOpPos := u64 (w.nextOpPos + sizeofCowOperation + getNextOpOffset op clusterOps) }

/-- The queues are written out when one is full, for a label and at the end of a cluster. -/
def needsFlush : Bool :=
  w.batchWrite && (w.opVec.length == w.header.clusterOps.toNat ||
    w.dataVec.length == w.header.clusterOps.toNat ||
    decide (op.type = .label) || decide (op.type = .cluster))

/-- The operation `EmitCluster` writes. -/
def clusterOp : CowOperation :=
  ⟨.cluster, 0, 0, 0, ofNat 64 w.currentDataSize + ofNat 64 w.clusterSize -
    ofNat 64 w.currentClusterSize - ofNat 64 sizeofCowOperation⟩

/-- The test of `EmitClusterIfNeeded`: no room for another operation and the end of the cluster. -/
def clusterFull : Bool :=
  w.clusterSize != 0 && decide (w.clusterSize < w.currentClusterSize + 2 * sizeofCowOperation)

section Cluster

variable (write : CowWriter → CowOperation → List Byte → WriterResult)

/-- `EmitCluster`; `write` is `WriteOperation`. -/
def emitCluster (w : CowWriter) : WriterResult := write w w.clusterOp []

/-- `EmitClusterIfNeeded`. -/
def emitClusterIfNeeded (w : CowWriter) : WriterResult :=
  if w.clusterFull then emitCluster write w else some (true, w)

end Cluster

/-- `WriteOperation`, which calls itself for the end of a cluster. -/
def writeOperation : Nat → CowWriter → CowOperation → List Byte → WriterResult
  | 0, _, _, _ => none
  | depth + 1, w, op, data =>
    if !w.ensureSpaceAvailable (w.nextOpPos + sizeofCowOperation) then some (false, w)
    else if !w.ensureSpaceAvailable (w.nextDataPos + data.length) then some (false, w)
    else if w.batchWrite && !w.hasBuffer data then none
    else
      let w := (w.store op data).addOperation op
      let (flushed, w) := if w.needsFlush op then w.flushCluster else (true, w)
      if flushed then
        emitClusterIfNeeded (fun w op data => writeOperation depth w op data) w
      else some (false, w)

section Compression

variable (compress : CowCompressionAlgorithm → List Byte → List Byte)

/-- `CompressWorker::CompressBlocks`; an empty or a too long result is a failure. -/
def compressWork (compression : CowCompressionAlgorithm) (blocks : List (List Byte)) :
    Option (List (List Byte)) :=
  blocks.mapM fun block =>
    let data := compress compression block
    if data = [] ∨ 2 ^ 16 - 1 < data.length then none else some data

/-- The blocks for each thread: the last one takes what is left. -/
def shares (perThread : Nat) : Nat → List (List Byte) → List (List (List Byte))
  | 0, _ => []
  | 1, blocks => [blocks]
  | threads + 1, blocks => blocks.take perThread :: shares perThread threads (blocks.drop perThread)

/-- `CompressBlocks`: the results of the threads are collected in the order of the blocks. -/
def compressBlocks (w : CowWriter) (blocks : List (List Byte)) : Option (List (List Byte)) :=
  let numThreads := if blocks.length = 1 then 1 else w.numCompressThreads
  if numThreads ≤ 1 then compressWork compress w.compression blocks
  else ((shares (blocks.length / numThreads) numThreads blocks).mapM
    (compressWork compress w.compression)).map List.flatten

variable (depth : Nat)

/-- One operation for each item, until one fails. -/
def emitEach {α : Type} (make : CowWriter → α → CowOperation × List Byte) :
    CowWriter → List α → WriterResult
  | w, [] => some (true, w)
  | w, item :: rest =>
    (writeOperation depth w (make w item).1 (make w item).2).andThen fun w => emitEach make w rest

/-- `EmitCopy`. -/
def emitCopy (w : CowWriter) (newBlock oldBlock : BitVec 64) (numBlocks : Nat) :
    WriterResult :=
  emitEach depth (fun _ i => (⟨.copy, 0, 0, newBlock + ofNat 64 i, oldBlock + ofNat 64 i⟩, []))
    w (List.range numBlocks)

/-- The arguments of `EmitBlocks` besides the data. -/
structure BlockTarget where
  newBlockStart : BitVec 64
  oldBlock : BitVec 64
  offset : BitVec 16
  isXor : Bool

/-- The operation for a block; `data` is what is stored for it. -/
def blockOp (target : BlockTarget) (w : CowWriter) (item : Nat × List Byte) :
    CowOperation × List Byte :=
  (⟨if target.isXor then .xor else .replace, w.compression.code, ofNat 16 item.2.length,
    target.newBlockStart + ofNat 64 item.1, if target.isXor then
      (target.oldBlock + ofNat 64 item.1) * w.header.blockSize.setWidth 64 +
        target.offset.setWidth 64
    else ofNat 64 w.nextDataPos⟩, item.2)

def blockAt (data : List Byte) (blockSize i : Nat) : List Byte :=
  (data.drop (i * blockSize)).take blockSize

/-- The rounds of `EmitBlocks`, of at most 1024 blocks each. With several threads a round is
compressed before its first block is written. -/
def emitRounds (target : BlockTarget) (data : List Byte) :
    CowWriter → Nat → List Nat → WriterResult
  | w, _, [] => some (true, w)
  | w, i, count :: rest =>
    let blocks := (List.range count).map fun k => blockAt data w.header.blockSize.toNat (i + k)
    let stored : Option (List (List Byte)) :=
      if w.compression = .none then some blocks
      else if 1 < w.numCompressThreads then compressBlocks compress w blocks
      else some (blocks.map (compress w.compression))
    match stored with
    | none => some (false, w)
    | some stored =>
      if stored.length ≠ count then none
      else (emitEach depth (blockOp target) w ((List.range' i count).zip stored)).andThen
        fun w => emitRounds target data w (i + count) rest

/-- `EmitBlocks`. -/
def emitBlocks (target : BlockTarget) (w : CowWriter) (data : List Byte) : WriterResult :=
  if w.header.blockSize = 0 then none
  else emitRounds compress depth target data w 0
    (Pieces.sizes 1024 (data.length / w.header.blockSize.toNat))

/-- `EmitZeroBlocks`, which does not look at what `WriteOperation` returns. -/
def emitZeroBlocks (newBlockStart : BitVec 64) : CowWriter → List Nat → WriterResult
  | w, [] => some (true, w)
  | w, i :: rest =>
    (writeOperation depth w ⟨.zero, 0, 0, newBlockStart + ofNat 64 i, 0⟩ []).bind
      fun (_, w) => emitZeroBlocks newBlockStart w rest

/-- `EmitLabel`. -/
def emitLabel (w : CowWriter) (label : BitVec 64) : WriterResult :=
  writeOperation depth w ⟨.label, 0, 0, 0, label⟩ []

/-- The words of the sequence operations. -/
def wordPieces : List Nat → List (BitVec 32) → List (List (BitVec 32))
  | [], _ => []
  | count :: rest, words => words.take count :: wordPieces rest (words.drop count)

def maxOps (t : CowSetup) : Nat := t.header.blockSize.toNat * 2 / 4

/-- The rounds of `EmitSequenceData`. Where a block has no room for a word, every round has none;
that many operations are more than a file of the given size can hold. -/
def sequencePieces (t : CowSetup) (words : List (BitVec 32)) : List (List (BitVec 32)) :=
  wordPieces (Pieces.sizesFrom (maxOps t) (words.length + t.cowImageSize + 1) words.length) words

/-- `EmitSequenceData`. No more is stored than the length field says. -/
def emitSequenceData (w : CowWriter) (words : List (BitVec 32)) : WriterResult :=
  (emitEach depth
    (fun w words => (⟨.sequence, 0, ofNat 16 (words.length * 4), 0, ofNat 64 w.nextDataPos⟩,
      (Codec.u32.encodeAll words).take (words.length * 4 % 2 ^ 16)))
    w (sequencePieces w.toCowSetup words)).andThen fun w =>
      if maxOps w.toCowSetup = 0 ∧ words ≠ [] then none else some (true, w)

/-- The calls of `ICowWriter`. -/
inductive AddCall where
  | copy (newBlock oldBlock numBlocks : BitVec 64)
  | rawBlocks (newBlockStart : BitVec 64) (data : List Byte)
  | xorBlocks (newBlockStart : BitVec 32) (data : List Byte) (oldBlock : BitVec 32)
      (offset : BitVec 16)
  | zeroBlocks (newBlockStart numBlocks : BitVec 64)
  | label (label : BitVec 64)
  | sequenceData (words : List (BitVec 32))

def validateNewBlock (w : CowWriter) (newBlock : BitVec 64) : Bool :=
  match w.maxBlocks with
  | some maxBlocks => decide (newBlock.toNat < maxBlocks.toNat)
  | none => true

/-- The tests `AddRawBlocks` and `AddXorBlocks` share. An offset of an xor operation that is not
inside a block is reported, but not refused. -/
def addBlocks (target : BlockTarget) (w : CowWriter) (data : List Byte) : WriterResult :=
  if w.header.blockSize = 0 then none
  else if data.length % w.header.blockSize.toNat ≠ 0 then some (false, w)
  else
    let lastBlock := target.newBlockStart + ofNat 64 (data.length / w.header.blockSize.toNat) - 1
    if !w.validateNewBlock lastBlock then some (false, w)
      else emitBlocks compress depth target w data

def add (w : CowWriter) : AddCall → WriterResult
  | .copy newBlock oldBlock numBlocks =>
    if numBlocks = 0 then none
    else if !(List.range numBlocks.toNat).all fun i =>
      w.validateNewBlock (newBlock + ofNat 64 i) then some (false, w)
    else emitCopy depth w newBlock oldBlock numBlocks.toNat
  | .rawBlocks newBlockStart data => addBlocks compress depth ⟨newBlockStart, 0, 0, false⟩ w data
  | .xorBlocks newBlockStart data oldBlock offset =>
    addBlocks compress depth ⟨newBlockStart.setWidth 64, oldBlock.setWidth 64, offset, true⟩ w data
  | .zeroBlocks newBlockStart numBlocks =>
    if !w.validateNewBlock (newBlockStart + numBlocks - 1) then some (false, w)
    else emitZeroBlocks depth newBlockStart w (List.range numBlocks.toNat)
  | .label label => emitLabel depth w label
  | .sequenceData words => emitSequenceData depth w words

/-- Calls that all return true. -/
def addAll : CowWriter → List AddCall → Option CowWriter
  | w, [] => some w
  | w, call :: rest =>
    match add compress depth w call with
    | some (true, w) => addAll w rest
    | _ => none

end Compression

/-- The unused space of the last cluster; `cluster_size_` is a `uint32_t`. -/
def unusedClusterSpace : Nat :=
  if w.clusterSize = 0 then 0 else (w.clusterSize + 2 ^ 32 - w.currentClusterSize) % 2 ^ 32

def clearCluster : CowWriter :=
  { w with file := w.file.pwrite ⟨w.nextOpPos, List.replicate w.unusedClusterSpace 0⟩ }

/-- The footer goes behind the last operation, and the file ends behind the footer. -/
def writeFooter : CowWriter :=
  let op := CowOperation.footer (ofNat 64 (w.numOps * sizeofCowOperation))
    (ofNat 64 w.numOps)
  let data : CowFooterData := ⟨Fixed.zero 32, Fixed.zero 32⟩
  let file := w.file.pwrite
    ⟨w.nextOpPos, CowOperation.codec.encode op ++ CowFooterData.codec.encode data⟩
  { w with
    file := if w.isBlockDevice then file else file.truncate (w.nextOpPos + sizeofCowFooter) }

/-- The cursors for additional writing. -/
def reposition (w continued : CowWriter) : CowWriter :=
  { w with
    currentClusterSize := continued.currentClusterSize
    currentDataSize := continued.currentDataSize
    nextDataPos := continued.nextDataPos
    nextOpPos := continued.nextOpPos
    numOps := continued.numOps }

/-- `Finalize` behind its first `FlushCluster`. The footer has to be at the end of the file, so a
cluster with data is ended; whether that and the last `FlushCluster` worked is not looked at. -/
def finish (depth : Nat) (continued : CowWriter) : WriterResult :=
  let ended := decide (continued.clusterSize ≠ 0 ∧ 0 < continued.currentDataSize)
  if !continued.ensureSpaceAvailable (continued.nextOpPos + continued.unusedClusterSpace) then
    some (false, continued)
  else
    let w := continued.clearCluster
    (if ended then emitCluster (writeOperation depth) w else some (true, w)).map fun (_, w) =>
      if !w.ensureSpaceAvailable (w.nextOpPos + sizeofCowFooter) then (false, w)
      else
        let w := w.writeFooter
        (true, (if ended then w.reposition continued else w).flushCluster.2)

/-- `Finalize`. -/
def finalize (depth : Nat) (w : CowWriter) : WriterResult :=
  let (flushed, w) := w.flushCluster
  if flushed then finish depth w else some (false, w)

/-- `GetCowSize`. -/
def getCowSize : Nat :=
  if 0 < w.currentDataSize then w.nextDataPos + sizeofCowFooter else w.nextOpPos + sizeofCowFooter

end CowWriter

end Aosp.Snapshot
