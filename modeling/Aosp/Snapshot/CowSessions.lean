import Aosp.Snapshot.CowRoundTrip

namespace Aosp.Snapshot.CowWriter

open Option List
open Layout (Byte File)

variable {compress : CowCompressionAlgorithm → List Byte → List Byte} {properties : Properties}
  {options : CowOptions} {device : Option Nat} {file : File} {w w' w'' : CowWriter} {depth : Nat}
  {calls : List AddCall}

/-- The operations of all calls. -/
def allItems (compress : CowCompressionAlgorithm → List Byte → List Byte) (w : CowWriter)
    (calls : List AddCall) : List Item :=
  calls.flatMap (items compress w.toCowSetup)

/-- The stream behind all operations. -/
def streamOf (w : CowWriter) (items : List Item) : Stream :=
  items.foldl (Stream.push w.clusterOps) (Stream.start w.header)

theorem items_fit {t : CowSetup} {call : AddCall} (fits : Fits compress t)
    (allowed : Allowed t call) :
    ∀ item ∈ items compress t call, item.Fits t.clusterOps := by
  intro item member
  suffices takes : t.Takes item from takes.1
  cases call with
  | copy newBlock oldBlock numBlocks =>
    obtain ⟨i, -, rfl⟩ := mem_map.mp member
    exact takes_bare nofun nofun rfl
  | rawBlocks newBlockStart data =>
    obtain ⟨i, inside, rfl⟩ := mem_map.mp member
    exact blockItem_takes fits (mem_range.mp inside)
  | xorBlocks newBlockStart data oldBlock offset =>
    obtain ⟨i, inside, rfl⟩ := mem_map.mp member
    exact blockItem_takes fits (mem_range.mp inside)
  | zeroBlocks newBlockStart numBlocks =>
    obtain ⟨i, -, rfl⟩ := mem_map.mp member
    exact takes_bare nofun nofun rfl
  | label label =>
    cases mem_singleton.mp member
    exact takes_bare nofun nofun rfl
  | sequenceData words =>
    obtain ⟨piece, isPiece, rfl⟩ := mem_map.mp member
    exact sequenceItem_takes allowed isPiece

/-- A writer that `Initialize` has set up, with clusters whose size is counted in 32 bits and blocks
whose lengths are stored in 16 bits. A batch is written by one `pwritev`, and its buffers are as
large as two blocks. -/
structure Session (compress : CowCompressionAlgorithm → List Byte → List Byte)
    (options : CowOptions) (device : Option Nat) (file : File) (w : CowWriter) : Prop where
  ready : ∃ properties, initializeWriter properties options device file = some w
  cluster : options.clusterOps.toNat * sizeofCowOperation < 2 ^ 32
  compressed : ∀ block, block.length = options.blockSize.toNat →
    (compress w.compression block).length < 2 ^ 16
  vectors : w.batchWrite = true → options.clusterOps.toNat ≤ iovMax
  buffered : w.batchWrite = true → ∀ block, block.length = options.blockSize.toNat →
    (compress w.compression block).length ≤ options.blockSize.toNat * 2
  device : ∀ size ∈ device, size < 2 ^ 63
  file : file.size < 2 ^ 63

namespace Session

variable (session : Session compress options device file w)

include session

theorem header :
    w.header = { setupHeaders options with
    bufferSize := if options.scratchSpace then BitVec.ofNat 32 bufferRegionDefaultSize
    else 0 } := by
  obtain ⟨properties, ready⟩ := session.ready
  exact (stands_initializeWriter session.cluster session.vectors session.device session.file
    ready).2.1

theorem start : Stands w (Stream.start w.header) ∧ (Stream.start w.header).Roomy w.clusterOps ∧
    Fits compress w.toCowSetup := by
  obtain ⟨properties, ready⟩ := session.ready
  obtain ⟨stands, header, -, blockSize⟩ := stands_initializeWriter session.cluster session.vectors
    session.device session.file ready
  refine ⟨stands, Stream.roomy_start stands.sound.several _, ?_, fun block => ?_,
    fun batch block => ?_⟩
  · rwa [header]
  · rw [header]
    exact session.compressed block
  · rw [header]
    exact session.buffered batch block

theorem capacity : w.isBlockDevice = device.isSome ∧ w.cowImageSize = device.getD (2 ^ 63 - 1) := by
  obtain ⟨properties, ready⟩ := session.ready
  obtain ⟨compression, -, opened⟩ := bind_eq_some_iff.mp ready
  simp only [openForWrite, bind, bind_eq_some_iff] at opened
  obtain ⟨-, -, -, -, opened⟩ := opened
  rw [← Option.some.inj opened, initBatchWrites_setup]
  exact ⟨rfl, rfl⟩

theorem parseHeader {file' : File} (has : file'.Has 0 (CowHeader.codec.encode w.header)) :
    CowReader.parseHeader file' = some w.header := by
  obtain ⟨properties, ready⟩ := session.ready
  have several := (stands_initializeWriter session.cluster session.vectors session.device
    session.file ready).2.2.1
  have length : (CowHeader.codec.encode w.header).length = sizeofCowHeader :=
    CowHeader.codec.encode_length _
  have read : file'.read 0 sizeofCowHeader = some (CowHeader.codec.encode w.header) := by
    have inside := has.le_size
    have region := has.region
    rw [length] at inside region
    rw [File.read, if_pos (inside (ne_nil_of_length_pos (length ▸ by decide))), region]
  have clusters : (options.clusterOps != 1) = true := bne_iff_ne.mpr several
  rw [CowReader.parseHeader, read]
  simp only [bind_eq_bind, bind_some, CowHeader.codec.decode_encode]
  rw [session.header]
  simp only [setupHeaders, clusters, beq_self_eq_true, le_refl, decide_true, Bool.and_self,
    Fallible.require, ↓reduceIte, bind_some]

theorem parses {items : List Item} (fits : ∀ item ∈ items, item.Fits w.clusterOps)
    (same : w'.toCowSetup = w.toCowSetup) (finalized : Finalized w' (streamOf w items) w'') :
    CowReader.parseHeader w''.file = some w.header ∧ ∃ enough, ∀ rounds, enough ≤ rounds →
      ∃ st, CowReader.parseOps rounds w''.file w.header none = some (some st) ∧
        CowReader.ReadBack w''.file items st := by
  have capacity := finalized.stands.sound.capacity
  have bounded : (streamOf w items).dataPos w.clusterOps < 2 ^ 63 + 2 ^ 40 := by
    have bounded := finalized.stands.bounded
    rw [finalized.setup, same] at bounded
    refine lt_of_le_of_lt bounded ?_
    rw [finalized.setup, same] at capacity
    omega
  have has := finalized.has
  rw [same] at has
  have isHeader : w.header.headerSize.toNat = sizeofCowHeader ∧
      2 ≤ w.header.majorVersion.toNat ∧ w.header.bufferSize.toNat < 2 ^ 31 := by
    rw [session.header]
    refine ⟨rfl, le_refl 2, ?_⟩
    dsimp only
    split <;> decide
  obtain ⟨header, parsed⟩ := CowReader.readBack isHeader rfl session.start.1.sound.several fits rfl
    bounded has finalized.small
  exact ⟨session.parseHeader header, parsed⟩

/-- Successful calls have brought the writer behind their operations. -/
theorem added (allowed : ∀ call ∈ calls, Allowed w.toCowSetup call)
    (space : (streamOf w (allItems compress w calls)).dataPos w.clusterOps ≤ w.cowImageSize)
    (done : addAll compress (depth + 2) w calls = some w') :
    Stands w' (streamOf w (allItems compress w calls)) ∧ w'.toCowSetup = w.toCowSetup := by
  obtain ⟨stands, roomy, fits⟩ := session.start
  exact stands.addAll roomy fits allowed space done

end Session

theorem Session.roundTrip (session : Session compress options none file w)
    (allowed : ∀ call ∈ calls, Allowed w.toCowSetup call)
    (unlimited : (streamOf w (allItems compress w calls)).dataPos w.clusterOps +
      sizeofCowFooter < 2 ^ 63)
    (done : addAll compress (depth + 2) w calls = some w') :
    ∃ w'', w''.file.size < 2 ^ 63 ∧
      finalize (depth + 1) w' = some (true, w'') ∧ CowReader.parseHeader w''.file = some w.header ∧
      ∃ enough, ∀ rounds, enough ≤ rounds → ∃ st, CowReader.parseOps rounds w''.file w.header none =
      some (some st) ∧
        CowReader.ReadBack w''.file (allItems compress w calls) st := by
  have capacity : w.cowImageSize = 2 ^ 63 - 1 := session.capacity.2
  obtain ⟨stands, same⟩ := session.added allowed (by omega) done
  obtain ⟨ok, w'', finalized, success, result⟩ := stands.finalize depth
  cases success (by rw [same]; omega)
  refine ⟨w'', (result rfl).small, finalized, session.parses
    (fun item member => ?_) same (result rfl)⟩
  obtain ⟨call, among, member⟩ := mem_flatMap.mp member
  exact items_fit session.start.2.2 (allowed call among) item member

/-- What was added is read back, in order and with its data. -/
theorem cow_round_trip (session : Session compress options none file w)
    (sequences : options.clusterOps = 0 → ∀ words, AddCall.sequenceData words ∉ calls)
    (unlimited : (streamOf w (allItems compress w calls)).dataPos w.clusterOps +
      sizeofCowFooter < 2 ^ 63)
    (added : addAll compress (depth + 2) w calls = some w') :
    ∃ w'', finalize (depth + 1) w' = some (true, w'') ∧
      CowReader.parseHeader w''.file = some w.header ∧
      ∃ enough, ∀ rounds, enough ≤ rounds → ∃ st, CowReader.parseOps rounds w''.file w.header none =
      some (some st) ∧
        CowReader.ReadBack w''.file (allItems compress w calls) st := by
  have allowed : ∀ call ∈ calls, Allowed w.toCowSetup call := by
    intro call member
    cases call with
    | sequenceData words =>
      intro zero
      rw [CowSetup.clusterOps, session.header] at zero
      exact sequences (BitVec.eq_of_toNat_eq zero) words member
    | _ => exact True.intro
  obtain ⟨w'', -, result⟩ := session.roundTrip allowed unlimited added
  exact ⟨w'', result⟩

def sampleOptions (clusterOps blockSize : BitVec 32) (batchWrite : Bool) : CowOptions :=
  ⟨blockSize, "none", none, clusterOps, false, 0, 1, batchWrite⟩

def uncompressed (_ : CowCompressionAlgorithm) (block : List Byte) : List Byte := block

theorem sampleSession {clusterOps blockSize : BitVec 32} {batchWrite : Bool}
    (ready : initializeWriter ⟨false, false⟩ (sampleOptions clusterOps blockSize batchWrite) device
      File.empty = some w) (few : clusterOps.toNat ≤ iovMax) (small : blockSize.toNat < 2 ^ 16)
    (limit : ∀ size ∈ device, size < 2 ^ 63) :
    Session uncompressed (sampleOptions clusterOps blockSize batchWrite) device File.empty w where
  ready := ⟨_, ready⟩
  cluster := lt_of_le_of_lt (Nat.mul_le_mul_right _ few) (by decide)
  compressed _ length := length ▸ small
  vectors _ := few
  buffered _ _ length := length ▸ Nat.le_mul_of_pos_right _ Nat.two_pos
  device := limit
  file := Nat.two_pow_pos 63

/-- Blocks of four bytes, and two operations in each cluster. -/
def sampleWriter (batchWrite : Bool) : CowWriter :=
  (initializeWriter ⟨false, false⟩ (sampleOptions 3 4 batchWrite) none File.empty).get
    (by cases batchWrite <;> decide +kernel)

theorem sampleWriter_session (batchWrite : Bool) :
    Session uncompressed (sampleOptions 3 4 batchWrite) none File.empty (sampleWriter batchWrite) :=
  sampleSession (some_get _).symm (by decide) (by decide) nofun

/-- Four clusters, and the start of a fifth. -/
def sampleCalls : List AddCall :=
  [.rawBlocks 5 [1, 2, 3, 4, 5, 6, 7, 8], .sequenceData [5, 9, 3], .copy 9 2 1,
    .xorBlocks 3 [9, 8, 7, 6] 6 1, .zeroBlocks 20 2, .label 3]

def sampleItems : List Item :=
  [⟨.replace, 0, 5, none, [1, 2, 3, 4]⟩, ⟨.replace, 0, 6, none, [5, 6, 7, 8]⟩,
    ⟨.sequence, 0, 0, none, [5, 0, 0, 0, 9, 0, 0, 0]⟩, ⟨.sequence, 0, 0, none, [3, 0, 0, 0]⟩,
    ⟨.copy, 0, 9, some 2, []⟩, ⟨.xor, 0, 3, some 25, [9, 8, 7, 6]⟩, ⟨.zero, 0, 20, some 0, []⟩,
    ⟨.zero, 0, 21, some 0, []⟩, ⟨.label, 0, 0, some 3, []⟩]

theorem cow_round_trip_clusters : ∃ w' w'',
    addAll uncompressed 2 (sampleWriter true) sampleCalls = some w' ∧
      finalize 1 w' = some (true, w'') ∧ ∃ enough, ∀ rounds, enough ≤ rounds → ∃ st,
        CowReader.parseOps rounds w''.file (sampleWriter true).header none = some (some st) ∧
          CowReader.ReadBack w''.file sampleItems st := by
  obtain ⟨w', added⟩ := isSome_iff_exists.mp
    (by decide +kernel : (addAll uncompressed 2 (sampleWriter true) sampleCalls).isSome = true)
  obtain ⟨w'', finalized, -, parsed⟩ := cow_round_trip (sampleWriter_session true)
    (fun zero => absurd zero (by decide)) (by decide +kernel) added
  exact ⟨w', w'', added, finalized, parsed⟩

/-- A session that ends with `Finalize`. -/
def writeCow (options : CowOptions) (calls : List AddCall) : Option CowWriter := do
  let w ← initializeWriter ⟨false, false⟩ options none File.empty
  let w ← addAll uncompressed 2 w calls
  let (ok, w) ← finalize 1 w
  if ok then some w else none

/-- `cluster_size_` is 64 for the writer; the reader looks for the data behind 214748368
operations. -/
theorem cow_round_trip_lost :
    (writeCow (sampleOptions 214748368 1 false) [.xorBlocks 0 [7] 0 0]).any (fun w =>
      (CowReader.parseOps 3 w.file w.header none).any fun result => result.any fun st =>
        decide (st.dataLoc.lookup 0 = some (38 + 214748368 * 20) ∧
          w.file.region (38 + 214748368 * 20) 1 ≠ [7])) = true := by
  decide +kernel

variable {k : Nat}

theorem Stream.pushes_writes (s : Stream) (writes : List Layout.Write) (items : List Item) :
    ∃ writes', items.foldl (Stream.push k) { s with writes := writes } =
      { items.foldl (Stream.push k) s with writes := writes' } := by
  induction items generalizing s writes with
  | nil => exact ⟨writes, rfl⟩
  | cons item rest ih =>
    obtain ⟨next, pushed⟩ : ∃ next, Stream.push k { s with writes := writes } item =
        { s.push k item with writes := next } := by
      by_cases closes : k ≠ 0 ∧ k < (s.add k (item.entry (s.dataPos k))).ops + 2
      · have closed : s.push k item = _ := if_pos closes
        exact closed ▸ ⟨_, if_pos closes⟩
      · have added : s.push k item = _ := if_neg closes
        exact added ▸ ⟨_, if_neg closes⟩
    rw [foldl_cons, pushed]
    exact ih _ next

variable {s : Stream}

theorem Finalized.file_eq {d d' : CowWriter} {s' : Stream} (left : Finalized w s w')
    (right : Finalized d s' d') (image : s.image w.clusterOps = s'.image d.clusterOps)
    (regular : w.isBlockDevice = false ∧ d.isBlockDevice = false) :
    w'.file = d'.file := by
  have has := right.has
  have size := right.size regular.2
  rw [← image] at has size
  exact left.has.unique has (left.size regular.1) size

theorem Stands.finalized (stands : Stands w s)
    (done : CowWriter.finalize (depth + 1) w = some (true, w')) :
    Finalized w s w' := by
  obtain ⟨ok, other, isDone, -, result⟩ := stands.finalize depth
  cases isDone.symm.trans done
  exact result rfl

/-- `GetCowSize` is the length that `Finalize` gives a regular file. -/
theorem Stands.getCowSize (stands : Stands w s) (regular : w.isBlockDevice = false)
    (done : CowWriter.finalize (depth + 1) w = some (true, w')) :
    w.getCowSize = w'.file.size := by
  rw [(stands.finalized done).size regular, Stream.length_image stands.within,
    CowWriter.getCowSize, stands.data, stands.opPos, stands.dataPos]
  by_cases closed : s.back = []
  · rw [if_pos closed, closed, length_nil, if_neg (lt_irrefl 0)]
  · rw [if_neg closed, if_pos (length_pos_iff.mpr closed)]

/-- A file that was finished in between is the same in the end, and its size is always known
before. -/
theorem finalize_transparent {first second : List AddCall} {f₁ w₂ f₂ d₂ g₂ : CowWriter}
    (session : Session compress options none file w)
    (allowed : ∀ call ∈ first ++ second, Allowed w.toCowSetup call)
    (unlimited : (streamOf w (allItems compress w (first ++ second))).dataPos w.clusterOps < 2 ^ 63)
    (added : addAll compress (depth + 2) w first = some w')
    (finished : finalize (depth + 1) w' = some (true, f₁))
    (continued : addAll compress (depth + 2) f₁ second = some w₂)
    (twice : finalize (depth + 1) w₂ = some (true, f₂))
    (direct : addAll compress (depth + 2) w' second = some d₂)
    (once : finalize (depth + 1) d₂ = some (true, g₂)) :
    f₂.file = g₂.file ∧ w'.getCowSize = f₁.file.size ∧ w₂.getCowSize = f₂.file.size ∧
      ∀ f₃, finalize (depth + 1) f₂ = some (true, f₃) → f₂.getCowSize = f₃.file.size := by
  obtain ⟨stands, roomy, fits⟩ := session.start
  have regular : w.isBlockDevice = false := session.capacity.1
  have several := stands.sound.several
  have all : allItems compress w (first ++ second) =
      allItems compress w first ++ allItems compress w second := flatMap_append
  have space : ((allItems compress w second).foldl (Stream.push w.clusterOps)
      (streamOf w (allItems compress w first))).dataPos w.clusterOps ≤ w.cowImageSize := by
    rw [streamOf, all, foldl_append] at unlimited
    rw [session.capacity.2]
    exact Nat.le_pred_of_lt unlimited
  obtain ⟨stands₁, same₁⟩ := session.added
    (fun call member => allowed call (mem_append_left _ member))
    (le_trans (Stream.dataPos_le_pushes several (Stream.roomy_pushes several roomy _) _) space)
    added
  have roomy₁ : (streamOf w (allItems compress w first)).Roomy w.clusterOps :=
    Stream.roomy_pushes several roomy _
  have final₁ := stands₁.finalized finished
  have later : ∀ {v v' s}, v.toCowSetup = w.toCowSetup → Stands v s → s.Roomy w.clusterOps →
      ((allItems compress w second).foldl (Stream.push w.clusterOps) s).dataPos w.clusterOps ≤
        w.cowImageSize →
      addAll compress (depth + 2) v second = some v' →
      Stands v' ((allItems compress w second).foldl (Stream.push w.clusterOps) s) ∧
        v'.toCowSetup = w.toCowSetup := by
    intro v v' s same stands roomy space done
    have allowed : ∀ call ∈ second, Allowed w.toCowSetup call := fun call member =>
      allowed call (mem_append_right _ member)
    unfold allItems at *
    rw [← same] at roomy space fits allowed ⊢
    exact stands.addAll roomy fits allowed space done
  obtain ⟨writes, isSame⟩ := Stream.pushes_writes (streamOf w (allItems compress w first))
    ((streamOf w (allItems compress w first)).sealed w'.clusterOps).writes
    (allItems compress w second)
  obtain ⟨stands₂, same₂⟩ := later (final₁.setup.trans same₁) final₁.stands roomy₁ (by
    rw [Stream.finished, isSame]
    exact space) continued
  obtain ⟨stands₃, same₃⟩ := later same₁ stands₁ roomy₁ space direct
  have final₂ := stands₂.finalized twice
  refine ⟨final₂.file_eq (stands₃.finalized once) ?_ ?_,
    stands₁.getCowSize (by rwa [same₁]) finished, stands₂.getCowSize (by rwa [same₂]) twice,
    fun f₃ => final₂.stands.getCowSize (by rwa [final₂.setup, same₂])⟩
  · rw [same₂, same₃, Stream.finished, isSame]
    simp only [Stream.image, Stream.sealed]
    split <;> rfl
  · rw [same₂, same₃]
    exact ⟨regular, regular⟩

theorem finalize_transparent_clusters : ∃ w' f₁ w₂ f₂ d₂ g₂,
    addAll uncompressed 2 (sampleWriter true) [.rawBlocks 5 [1, 2, 3, 4]] = some w' ∧
      finalize 1 w' = some (true, f₁) ∧ addAll uncompressed 2 f₁ sampleCalls = some w₂ ∧
      finalize 1 w₂ = some (true, f₂) ∧ addAll uncompressed 2 w' sampleCalls = some d₂ ∧
      finalize 1 d₂ = some (true, g₂) ∧ f₂.file = g₂.file ∧ w'.getCowSize = f₁.file.size ∧
      w₂.getCowSize = f₂.file.size := by
  have run : ((addAll uncompressed 2 (sampleWriter true) [.rawBlocks 5 [1, 2, 3, 4]]).bind fun w' =>
      (finalize 1 w').bind fun f => (addAll uncompressed 2 f.2 sampleCalls).bind fun w₂ =>
      (finalize 1 w₂).bind fun g => (addAll uncompressed 2 w' sampleCalls).bind fun d₂ =>
      (finalize 1 d₂).bind fun h => if f.1 ∧ g.1 ∧ h.1 then some () else none).isSome = true := by
    decide +kernel
  simp only [isSome_iff_exists, bind_eq_some_iff, ite_none_right_eq_some] at run
  obtain ⟨-, w', added, ⟨-, f₁⟩, finished, w₂, continued, ⟨-, f₂⟩, twice, d₂, direct, ⟨-, g₂⟩,
    once, ⟨rfl, rfl, rfl⟩, -⟩ := run
  obtain ⟨same, size, size₂, -⟩ := finalize_transparent (sampleWriter_session true)
    (fun call _ => by cases call <;> simp [Allowed]; decide +kernel) (by decide +kernel)
    added finished continued twice direct once
  exact ⟨w', f₁, w₂, f₂, d₂, g₂, added, finished, continued, twice, direct, once, same, size,
    size₂⟩

/-- The wrapped size of a cluster makes the prediction wrong. -/
theorem getCowSize_wrong :
    ((writeCow (sampleOptions 214748368 1 false) [.rawBlocks 0 [7, 8, 9]]).any fun f =>
      decide (f.file.size = 253)) = true ∧
    ((initializeWriter ⟨false, false⟩ (sampleOptions 214748368 1 false) none File.empty).any
      fun w => (addAll uncompressed 2 w [.rawBlocks 0 [7, 8, 9]]).any fun w =>
        decide (w.getCowSize ≠ 253)) = true := by
  decide +kernel

/-- With the operations and data of a cluster gathered, the same is written to the same places. No
index is above the number of buffers behind any operation that is queued, the ends of clusters and
`Finalize` included. -/
theorem batch_write_equivalent {other : CowOptions} {d d' d'' : CowWriter}
    (session : Session compress options none file w) (direct : Session compress other none file d)
    (on : w.batchWrite = true) (off : d.toCowSetup = { w.toCowSetup with batchWrite := false })
    (unlimited : (streamOf w (allItems compress w calls)).dataPos w.clusterOps < 2 ^ 63)
    (added : addAll compress (depth + 2) w calls = some w')
    (finished : finalize (depth + 1) w' = some (true, w''))
    (added' : addAll compress (depth + 2) d calls = some d')
    (finished' : finalize (depth + 1) d' = some (true, d'')) :
    w''.file = d''.file ∧ w''.writes.Perm d''.writes ∧ w'.numOps ≤ w''.indices.length ∧
      ∀ i ∈ w''.indices, i.1 ≤ w.clusterOps ∧ i.2 ≤ w.clusterOps := by
  obtain ⟨stands, roomy, fits⟩ := session.start
  have clusters := (stands.sound.batched on).1
  have allowed : ∀ call, Allowed w.toCowSetup call := fun call => by
    cases call with
    | sequenceData words => exact clusters
    | _ => exact True.intro
  have sameItems : ∀ call, items compress d.toCowSetup call = items compress w.toCowSetup call := by
    intro call
    rw [off]
    cases call <;> rfl
  have sameStream : streamOf d (allItems compress d calls) =
      streamOf w (allItems compress w calls) := by
    rw [streamOf, streamOf, allItems, allItems, funext sameItems, off]
  have space : (streamOf w (allItems compress w calls)).dataPos w.clusterOps ≤ w.cowImageSize := by
    rw [session.capacity.2]
    exact Nat.le_pred_of_lt unlimited
  obtain ⟨stands₁, same₁⟩ := session.added (fun call _ => allowed call) space added
  obtain ⟨stands₂, same₂⟩ := direct.added (fun call _ => by rw [off]; exact allowed call)
    (by rw [sameStream, off]; exact space) added'
  have final₁ := stands₁.finalized finished
  have final₂ := stands₂.finalized finished'
  have setup : w''.toCowSetup = w.toCowSetup := final₁.setup.trans same₁
  refine ⟨final₁.file_eq final₂ ?_ ?_, final₁.writes.trans ?_, ?_, ?_⟩
  · rw [sameStream, same₁, same₂, off]
  · rw [same₁, same₂]
    exact ⟨session.capacity.1, direct.capacity.1⟩
  · have writes := final₂.writes
    rw [sameStream, same₂, off] at writes
    rw [same₁]
    exact writes.symm
  · rw [stands₁.count]
    exact final₁.stands.logged (by rw [setup, on])
  · rw [← setup]
    exact final₁.stands.indices

theorem batch_write_equivalent_clusters : ∃ w' w'' d' d'',
    addAll uncompressed 2 (sampleWriter true) sampleCalls = some w' ∧
      finalize 1 w' = some (true, w'') ∧
      addAll uncompressed 2 (sampleWriter false) sampleCalls = some d' ∧
      finalize 1 d' = some (true, d'') ∧ w''.file = d''.file ∧ w''.writes.Perm d''.writes ∧
      w'.numOps ≤ w''.indices.length ∧ ∀ i ∈ w''.indices, i.1 ≤ 3 ∧ i.2 ≤ 3 := by
  have run : ((addAll uncompressed 2 (sampleWriter true) sampleCalls).bind fun w' =>
      (finalize 1 w').bind fun f => (addAll uncompressed 2 (sampleWriter false) sampleCalls).bind
      fun d' => (finalize 1 d').bind fun g =>
      if f.1 ∧ g.1 then some () else none).isSome = true := by decide +kernel
  simp only [isSome_iff_exists, bind_eq_some_iff, ite_none_right_eq_some] at run
  obtain ⟨-, w', added, ⟨-, w''⟩, finished, d', added', ⟨-, d''⟩, finished', ⟨rfl, rfl⟩, -⟩ := run
  exact ⟨w', w'', d', d'', added, finished, added', finished',
    batch_write_equivalent (sampleWriter_session true) (sampleWriter_session false) rfl rfl
      (by decide +kernel) added finished added' finished'⟩

/-- Where the size of a cluster is 0, operations and data are written over each other. -/
theorem batch_write_differs :
    ((writeCow (sampleOptions (2 ^ 30) 32 true) [.rawBlocks 0 (List.replicate 64 7)]).any fun w =>
      decide (w.file.byte 58 = 7)) = true ∧
    ((writeCow (sampleOptions (2 ^ 30) 32 false) [.rawBlocks 0 (List.replicate 64 7)]).any fun w =>
      decide (w.file.byte 58 = 2)) = true := by
  decide +kernel

end Aosp.Snapshot.CowWriter
