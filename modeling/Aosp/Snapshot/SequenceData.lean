import Aosp.Snapshot.CowSessions
import Aosp.Snapshot.MergeSequence

namespace Aosp.Snapshot

open List
open Layout (Byte Codec File)

namespace CowReader

/-- `GetRawBytes`; the size of the footer is subtracted as a `uint64_t`. -/
def getRawBytes (file : File) (header : CowHeader) (offset len : Nat) : Option (List Byte) :=
  let limit := (file.size + 2 ^ 64 - sizeofCowFooter) % 2 ^ 64
  if offset < header.headerSize.toNat ∨ limit ≤ offset ∨ file.size ≤ len ∨ limit < offset + len
    then none
  else some (file.region offset len)

/-- The words in a buffer. -/
def wordsOf : List Byte → List (BitVec 32)
  | a :: b :: c :: d :: rest => Codec.u32.decode [a, b, c, d] :: wordsOf rest
  | _ => []

/-- What `PrepMergeOps` reads for a sequence operation. -/
def readSequence (file : File) (header : CowHeader) : SequenceData := fun op =>
  (getRawBytes file header op.source.toNat op.dataLength.toNat).map wordsOf

theorem wordsOf_encodeAll (words : List (BitVec 32)) :
    wordsOf (Codec.u32.encodeAll words) = words := by
  induction words with
  | nil => rfl
  | cons word rest ih =>
    have decoded := Codec.u32.decode_encode word
    exact congrArg₂ List.cons decoded ih

section Read

variable {file : File} {header : CowHeader} {item : Item} {op : CowOperation} {items : List Item}
  {ops : List CowOperation}

/-- The words an item carries. -/
def carried (item : Item) : List (BitVec 32) :=
  if item.type = .sequence then wordsOf item.data else []

variable (isHeader : header.headerSize.toNat = sizeofCowHeader) (limit : file.size < 2 ^ 63)
include isHeader limit

theorem readSequence_eq
    (read : ReadAs file item op) (source : item.source = none) (filled : item.data ≠ []) :
    readSequence file header op = some (wordsOf item.data) := by
  obtain ⟨above, inside⟩ := read.place source
  have inside := inside filled
  have positive := length_pos_iff.mpr filled
  have length := read.length
  have size : 0 < sizeofCowFooter := by decide
  have footer : (file.size + 2 ^ 64 - sizeofCowFooter) % 2 ^ 64 =
      file.size - sizeofCowFooter := by omega
  rw [readSequence, getRawBytes, if_neg (by omega), read.data source]
  rfl

/-- The sequence operations that were parsed name the words of the items. -/
theorem namedBlocks_read
    (whole : ∀ item ∈ items, item.type = .sequence → item.source = none ∧ item.data ≠ [])
    (each : List.Forall₂ (ReadAs file) items (ops.filter fun op => decide (op.type ≠ .cluster))) :
    namedBlocks (readSequence file header) ops = items.flatMap carried ∧
      ∀ op ∈ ops, op.type = .sequence → (readSequence file header op).isSome = true := by
  induction ops generalizing items with
  | nil =>
    cases each
    exact ⟨rfl, by simp⟩
  | cons op rest ih =>
    rw [namedBlocks, flatMap_cons]
    by_cases cluster : op.type = .cluster
    · rw [filter_cons_of_neg (by simpa using cluster)] at each
      obtain ⟨named, reads⟩ := ih whole each
      refine ⟨?_, fun other member isSequence => ?_⟩
      · rw [namedBy, cluster]
        exact named
      · rcases mem_cons.mp member with rfl | later
        · cases cluster.symm.trans isSequence
        · exact reads other later isSequence
    · rw [filter_cons_of_pos (by simpa using cluster)] at each
      cases each with
      | @cons item _ items _ read later =>
        obtain ⟨named, reads⟩ := ih (fun other member =>
          whole other (mem_cons_of_mem _ member)) later
        have here : op.type = .sequence →
            readSequence file header op = some (wordsOf item.data) := fun isSequence => by
          obtain ⟨source, filled⟩ := whole item mem_cons_self (read.type ▸ isSequence)
          exact readSequence_eq isHeader limit read source filled
        refine ⟨?_, fun other member isSequence => ?_⟩
        · rw [flatMap_cons, carried, ← read.type]
          congr 1
          unfold namedBy
          split
          · rename_i isSequence
            rw [here isSequence, if_pos isSequence]
            rfl
          · rw [if_neg ‹_›]
        · rcases mem_cons.mp member with rfl | among
          · rw [here isSequence]
            rfl
          · exact reads other among isSequence

end Read

end CowReader

namespace CowWriter

open CowReader

variable {compress : CowCompressionAlgorithm → List Byte → List Byte} {options : CowOptions}
  {file : File} {w w' : CowWriter} {depth : Nat} {calls : List AddCall}

/-- The blocks passed to `AddSequenceData`. -/
def passedBlocks (calls : List AddCall) : List (BitVec 32) :=
  calls.flatMap fun
    | .sequenceData words => words
    | _ => []

variable {words : List (BitVec 32)}

theorem wordPieces_flatten {counts : List Nat} (total : counts.sum = words.length) :
    (wordPieces counts words).flatten = words ∧ ∀ piece ∈ wordPieces counts words,
      piece.length ∈ counts := by
  induction counts generalizing words with
  | nil => exact ⟨(length_eq_zero_iff.mp total.symm).symm, nofun⟩
  | cons count rest ih =>
    rw [sum_cons] at total
    obtain ⟨flat, lengths⟩ := @ih (words.drop count) (by rw [length_drop]; omega)
    refine ⟨?_, fun piece member => ?_⟩
    · simp [wordPieces, flat]
    · rcases mem_cons.mp member with rfl | later
      · rw [length_take, min_eq_left (by omega)]
        exact mem_cons_self
      · exact mem_cons_of_mem _ (lengths piece later)

variable {t : CowSetup}

theorem sequencePieces_spec (room : 2 ≤ t.header.blockSize.toNat)
    (short : min words.length (t.header.blockSize.toNat * 2 / 4) < 2 ^ 14) :
    (sequencePieces t words).flatten = words ∧ ∀ piece ∈ sequencePieces t words,
      (sequenceItem piece).data = Codec.u32.encodeAll piece ∧ piece ≠ [] := by
  have positive : 0 < t.header.blockSize.toNat * 2 / 4 := by omega
  have total := Pieces.sum_sizesFrom positive (words.length + t.cowImageSize + 1) words.length
    (by omega)
  obtain ⟨flat, lengths⟩ := wordPieces_flatten total
  refine ⟨flat, fun piece member => ?_⟩
  have least := Pieces.pos_of_mem_sizesFrom positive _ _ (lengths piece member)
  have most := Pieces.le_of_mem_sizesFrom _ _ (lengths piece member)
  have inside : piece.length ≤ words.length := flat ▸ (sublist_flatten_of_mem member).length_le
  refine ⟨?_, ne_nil_of_length_pos least⟩
  rw [sequenceItem, Nat.mod_eq_of_lt (by omega),
    take_of_length_le (le_of_eq (length_encodeAll piece))]

theorem items_sequence {call : AddCall} {item : Item} (member : item ∈ items compress t call)
    (isSequence : item.type = .sequence) :
    ∃ words, call = .sequenceData words ∧ ∃ piece ∈ sequencePieces t words,
      sequenceItem piece = item := by
  have block : ∀ target data, item ∉ blockItems compress t target data :=
    fun target data among => by
    obtain ⟨i, -, rfl⟩ := mem_map.mp among
    unfold blockItem at isSequence
    split at isSequence <;> cases isSequence
  cases call with
  | sequenceData words => exact ⟨words, rfl, mem_map.mp member⟩
  | rawBlocks newBlockStart data => exact absurd member (block _ _)
  | xorBlocks newBlockStart data oldBlock offset => exact absurd member (block _ _)
  | label label =>
    cases mem_singleton.mp member
    cases isSequence
  | copy newBlock oldBlock numBlocks =>
    obtain ⟨i, -, rfl⟩ := mem_map.mp member
    cases isSequence
  | zeroBlocks newBlockStart numBlocks =>
    obtain ⟨i, -, rfl⟩ := mem_map.mp member
    cases isSequence

/-- The blocks passed to `AddSequenceData` come back, and so does everything else. -/
theorem sequence_data_survives (session : Session compress options none file w)
    (clusters : options.clusterOps ≠ 0) (blocks : 2 ≤ options.blockSize.toNat)
    (short : ∀ words, AddCall.sequenceData words ∈ calls →
      min words.length (options.blockSize.toNat * 2 / 4) < 2 ^ 14)
    (unlimited : (streamOf w (allItems compress w calls)).dataPos w.clusterOps +
      sizeofCowFooter < 2 ^ 63)
    (added : addAll compress (depth + 2) w calls = some w') :
    ∃ w'', finalize (depth + 1) w' = some (true, w'') ∧ ∃ enough, ∀ rounds, enough ≤ rounds → ∃ st,
      parseOps rounds w''.file w.header none = some (some st) ∧
      (∀ op ∈ st.ops, op.type = .sequence → (readSequence w''.file w.header op).isSome = true) ∧
      namedBlocks (readSequence w''.file w.header) st.ops = passedBlocks calls ∧
      ReadBack w''.file (allItems compress w calls) st := by
  have header := session.header
  have clustered : w.clusterOps ≠ 0 := fun zero => clusters (by
    rw [CowSetup.clusterOps, header] at zero
    exact BitVec.eq_of_toNat_eq zero)
  have isHeader : w.header.headerSize.toNat = sizeofCowHeader := by
    rw [header]
    rfl
  have pieces : ∀ words, AddCall.sequenceData words ∈ calls →
      (sequencePieces w.toCowSetup words).flatten = words ∧
      ∀ piece ∈ sequencePieces w.toCowSetup words,
        (sequenceItem piece).data = Codec.u32.encodeAll piece ∧ piece ≠ [] := fun words member =>
    sequencePieces_spec (by rwa [header]) (by rw [header]; exact short words member)
  have whole : ∀ item ∈ allItems compress w calls, item.type = .sequence →
      item.source = none ∧ item.data ≠ [] := by
    intro item member isSequence
    obtain ⟨call, among, member⟩ := mem_flatMap.mp member
    obtain ⟨words, rfl, piece, isPiece, rfl⟩ := items_sequence member isSequence
    obtain ⟨data, filled⟩ := (pieces words among).2 piece isPiece
    refine ⟨rfl, ne_nil_of_length_pos ?_⟩
    rw [data, length_encodeAll]
    exact Nat.mul_pos (length_pos_iff.mpr filled) (by decide)
  have isCarried : (allItems compress w calls).flatMap carried = passedBlocks calls := by
    rw [allItems, flatMap_assoc]
    refine flatMap_congr fun call member => ?_
    by_cases sequence : ∃ words, call = .sequenceData words
    · obtain ⟨words, rfl⟩ := sequence
      obtain ⟨flat, stored⟩ := pieces words member
      have each : ∀ piece ∈ sequencePieces w.toCowSetup words, carried (sequenceItem piece) =
          id piece := by
        intro piece isPiece
        rw [carried, (stored piece isPiece).1, wordsOf_encodeAll]
        exact if_pos rfl
      change ((sequencePieces w.toCowSetup words).map sequenceItem).flatMap carried = words
      rw [flatMap_map, flatMap_congr each, flatMap_id, flat]
    · have empty : (items compress w.toCowSetup call).flatMap carried = [] := by
        refine flatMap_eq_nil_iff.mpr fun item among => if_neg fun isSequence => sequence ?_
        obtain ⟨words, same, -⟩ := items_sequence among isSequence
        exact ⟨words, same⟩
      rw [empty]
      cases call with
      | sequenceData words => exact absurd ⟨words, rfl⟩ sequence
      | _ => rfl
  obtain ⟨w'', limit, finalized, -, enough, parsed⟩ := session.roundTrip (fun call _ => by
    cases call with
    | sequenceData words => exact clustered
    | _ => exact True.intro) unlimited added
  refine ⟨w'', finalized, enough, fun rounds more => ?_⟩
  obtain ⟨st, isParsed, readBack⟩ := parsed rounds more
  obtain ⟨named, reads⟩ := namedBlocks_read isHeader limit whole readBack.ops
  exact ⟨st, isParsed, reads, named.trans isCarried, readBack⟩

theorem sequence_data_survives_clusters : ∃ w' w'',
    addAll uncompressed 2 (sampleWriter true) sampleCalls = some w' ∧
      finalize 1 w' = some (true, w'') ∧ ∃ enough, ∀ rounds, enough ≤ rounds → ∃ st,
        parseOps rounds w''.file (sampleWriter true).header none = some (some st) ∧
          namedBlocks (readSequence w''.file (sampleWriter true).header) st.ops = [5, 9, 3] ∧
          ReadBack w''.file sampleItems st := by
  obtain ⟨w', added⟩ := Option.isSome_iff_exists.mp
    (by decide +kernel : (addAll uncompressed 2 (sampleWriter true) sampleCalls).isSome = true)
  obtain ⟨w'', finalized, enough, parsed⟩ := sequence_data_survives (sampleWriter_session true)
    (by decide) (by decide) (fun words _ => lt_of_le_of_lt (min_le_right _ _) (by decide))
    (by decide +kernel) added
  refine ⟨w', w'', added, finalized, enough, fun rounds more => ?_⟩
  obtain ⟨st, isParsed, -, named, readBack⟩ := parsed rounds more
  exact ⟨st, isParsed, named, readBack⟩

/-- Without clusters the next operation is written over the sequence data. -/
theorem sequence_data_lost :
    (writeCow (sampleOptions 0 4 false) [.sequenceData [5, 6], .label 1]).any (fun w =>
      (parseOps 9 w.file w.header none).any fun result => result.any fun st =>
        decide (namedBlocks (readSequence w.file w.header) st.ops ≠ [5, 6])) = true := by
  decide +kernel

end CowWriter

end Aosp.Snapshot
