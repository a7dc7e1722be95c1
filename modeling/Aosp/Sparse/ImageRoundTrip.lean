import Mathlib.Data.List.GetD
import Aosp.Sparse.Splitting

namespace Aosp.Sparse

open List BackedBlock
open Layout (Byte)

/-- The sources with a written file behind a handle. -/
def Sources.withFd (sources : Sources) (handle : Nat) (file : List Byte) : Sources :=
  { sources with
    fds := fun fd offset => if fd = handle then file.getD offset 0 else sources.fds fd offset }

/-- The nodes among chunks. -/
def nodes (chunks : List Chunk) : List BackedBlock :=
  chunks.filterMap fun chunk => match chunk with
    | .dontCare _ => none
    | .stored bb => some bb

section Meanings

variable {sources : Sources} {handle blockSize : Nat}

theorem getD_padded (positive : 0 < blockSize) {bb : BackedBlock} {i : Nat}
    (inside : i < bb.blocks blockSize * blockSize) (rest : List Byte) :
    (bb.padded sources blockSize ++ rest).getD i 0 =
      if i < bb.len then bb.backing.byte sources i else 0 := by
  have length : i < (bb.padded sources blockSize).length := by
    rwa [length_padded positive]
  rw [getD_append _ _ _ _ length, padded]
  by_cases data : i < bb.len
  · rw [getD_append _ _ _ _ (by rwa [OutputFile.length_bytesOf])]
    simp [OutputFile.bytesOf, data]
  · rw [getD_append_right _ _ _ _ (by rw [OutputFile.length_bytesOf]; omega)]
    rw [getD_eq_getElem?_getD, getElem?_replicate]
    split <;> rfl

theorem meaningAt_entry (positive : 0 < blockSize) (bb : BackedBlock) (front rest : List Byte)
    {i : Nat} (inside : i < bb.blocks blockSize) :
    (bb.entry handle front.length blockSize).meaningAt
        (sources.withFd handle (front ++ (bb.record sources blockSize ++ rest))) blockSize i =
      bb.meaningAt sources blockSize i := by
  rcases bb.backing.fill_or_data with ⟨val, backing⟩ | kind
  · have same : (bb.entry handle front.length blockSize).backing = .fill val := by
      rw [entry, backing]
    rw [meaningAt_fill same, meaningAt_fill backing]
  · have record : bb.record sources blockSize =
        chunkHeader .raw (align bb.len blockSize / blockSize) (12 + align bb.len blockSize) ++
          bb.padded sources blockSize := by
      cases backing : bb.backing <;> simp_all [record, Backing.isFill]
    have isFd : (bb.entry handle front.length blockSize).backing =
        .fd handle (front.length + 12) := by
      cases backing : bb.backing <;> simp_all [entry, Backing.isFill]
    have data : (bb.entry handle front.length blockSize).backing.isFill = false := by
      rw [isFd]
      rfl
    rw [meaningAt_data data, meaningAt_data kind]
    congr 1
    apply map_congr_left
    intro k member
    have below := mem_range.mp member
    have within : i * blockSize + k < bb.blocks blockSize * blockSize := by
      have := Nat.mul_le_mul_right blockSize inside
      rw [Nat.succ_mul] at this
      omega
    rw [if_pos (show _ < (bb.entry handle front.length blockSize).len from within), isFd,
      ← getD_padded positive within rest, record]
    have header : (front ++ chunkHeader .raw (align bb.len blockSize / blockSize)
        (12 + align bb.len blockSize)).length = front.length + 12 := by
      simp [length_chunkHeader]
    simp only [Backing.byte, Sources.withFd, ↓reduceIte]
    rw [append_assoc, ← append_assoc front, ← header,
      getD_append_right _ _ _ _ (Nat.le_add_right _ _), Nat.add_sub_cancel_left]

theorem meaning_entriesFrom (positive : 0 < blockSize) (chunks : List Chunk)
    (front rest : List Byte) (b : Nat) :
    meaning (sources.withFd handle
        (front ++ ((chunks.flatMap fun chunk => chunk.record sources blockSize) ++ rest))) blockSize
        (entriesFrom sources handle blockSize front.length chunks) b =
        meaning sources blockSize (nodes chunks) b := by
  induction chunks generalizing front with
  | nil => rfl
  | cons chunk chunks ih =>
    have later := ih (front ++ chunk.record sources blockSize)
    rw [length_append, append_assoc front] at later
    rw [flatMap_cons, append_assoc]
    cases chunk with
    | dontCare blocks => exact later
    | stored bb =>
      have covers : (bb.entry handle front.length blockSize).Covers blockSize b ↔
          bb.Covers blockSize b := by
        unfold BackedBlock.Covers
        rw [show (bb.entry handle front.length blockSize).blocks blockSize = bb.blocks blockSize
          from divRoundUp_mul positive _]
        rfl
      have isNodes : nodes (.stored bb :: chunks) = bb :: nodes chunks := rfl
      rw [entriesFrom, meaning, isNodes, meaning]
      by_cases inside : bb.Covers blockSize b
      · rw [if_pos (covers.mpr inside), if_pos inside]
        exact meaningAt_entry positive bb front _ (by
          unfold BackedBlock.Covers at inside
          change b - bb.block < _
          omega)
      · rw [if_neg (mt covers.mp inside), if_neg inside]
        exact later

theorem nodes_chunksFrom (lastBlock : Nat) (blocks : List BackedBlock) :
    nodes (chunksFrom blockSize lastBlock blocks) = blocks := by
  induction blocks generalizing lastBlock with
  | nil => rfl
  | cons bb rest ih =>
    unfold nodes at ih ⊢
    rw [chunksFrom, filterMap_append, filterMap_cons, ih, gapBefore]
    split <;> rfl

theorem nodes_layout (s : SparseFile) : nodes s.layout = s.blocks := by
  have blocks := @nodes_chunksFrom s.blockSize 0 s.blocks
  unfold nodes at blocks ⊢
  rw [SparseFile.layout, filterMap_append, blocks, SparseFile.endSkip]
  split <;> exact append_nil _

variable {s : SparseFile}

section

variable (image : Image s) (records : ∀ bb ∈ s.blocks, 12 + align bb.len s.blockSize < 2 ^ 32)

include image records

/-- What is imported has the length the header can hold. -/
theorem Image.import_len {sources : Sources} {handle : Nat} {result : SparseFile}
    (imported : sparseFileImport handle (s.image sources false) false = some result) :
    result.len = u32 s.total * s.blockSize ∧ u32 s.total ≠ 0 ∧
      ∀ chunk ∈ s.layout.take (s.announced false), chunk.Small := by
  have few : s.announced false ≤ s.layout.length := Nat.mod_le _ _
  obtain ⟨success, failure⟩ := image.readChunks_take sources handle false records few 0
  rw [image.import_eq] at imported
  split at imported
  · cases imported
  · rename_i nonzero
    by_cases small : ∀ chunk ∈ s.layout.take (s.announced false), chunk.Small
    · obtain ⟨next, read, done⟩ := success small
      rw [add_zero] at read
      rw [read, readChunks, Option.bind_some] at imported
      split at imported
      · cases imported
        exact ⟨done.sameLen, nonzero, small⟩
      · cases imported
    · have read := failure small
      rw [add_zero] at read
      rw [read] at imported
      cases imported

/-- An image with gaps below `2^31` blocks comes back, up to cutting. -/
theorem Image.import_plain (nonempty : 0 < s.total) (few : s.total < 2 ^ 32)
    (small : ∀ chunk ∈ s.layout, chunk.Small) (sources : Sources) (handle : Nat) :
    ∃ result, sparseFileImport handle (s.image sources false) false = some result ∧
      result.blockSize = s.blockSize ∧ result.len = s.len ∧
      Recut s.blockSize result.blocks (entriesFrom sources handle s.blockSize
        (SparseHeader.codec.encode (s.header false)).length s.layout) := by
  have total : u32 s.total = s.total := Nat.mod_eq_of_lt few
  have announced : s.announced false = s.layout.length := by
    have := image.length_layout few
    exact Nat.mod_eq_of_lt (by simp; omega)
  obtain ⟨success, -⟩ := image.readChunks_take sources handle false records (le_refl _) 0
  rw [take_length] at success
  obtain ⟨next, read, done⟩ := success small
  have block : next.curBlock = s.total := by
    rw [done.curBlock, ← total]
    exact image.blockBehind_layout
  refine ⟨next.s, ?_, done.sameSize, ?_, ?_⟩
  · rw [add_zero] at read
    rw [image.import_eq, total, if_neg (by omega), announced, read, readChunks, Option.bind_some,
      if_pos block.symm]
  · rw [done.sameLen, image.len_eq, ← total]
    rfl
  · exact done.recut [] Recut.nil

end

end Meanings

section RoundTrip

variable {s : SparseFile} {sources : Sources} {handle : Nat}

/-- The image is written, imported again, and means the same, block by block. -/
def RoundTrips (sources : Sources) (handle : Nat) (s : SparseFile) : Prop :=
  ∃ fuel file result, sparseFileWrite fuel sources s false = some file ∧
    sparseFileImport handle file false = some result ∧
    result.blockSize = s.blockSize ∧ result.len = s.len ∧
    ∀ b, meaning (sources.withFd handle file) s.blockSize result.blocks b =
    meaning sources s.blockSize s.blocks b

/-- What an image must be to come back: cuttable in pieces of 64 MiB, neither empty nor longer
than 32 bits can say, and without gaps of `2^31` blocks. -/
structure Importable (s : SparseFile) : Prop where
  splits : s.blocks = [] ∨ s.blockSize ≤ maxBackedBlockSize
  nonempty : 0 < s.total
  few : s.total < 2 ^ 32
  small : ∀ chunk ∈ s.layout, chunk.Small

theorem Image.imported_meaning (image : Image s) {pieces : List BackedBlock}
    (recut : Recut s.blockSize s.blocks pieces) {result : SparseFile}
    (joined : Recut s.blockSize result.blocks
      (entriesFrom sources handle s.blockSize
      (SparseHeader.codec.encode ((s.withBlocks pieces).header false)).length
      (s.withBlocks pieces).layout))
    (b : Nat) :
    meaning (sources.withFd handle ((s.withBlocks pieces).image sources false)) s.blockSize
      result.blocks b = meaning sources s.blockSize s.blocks b := by
  have file := @meaning_entriesFrom sources handle _ image.positive
    (s.withBlocks pieces).layout (SparseHeader.codec.encode ((s.withBlocks pieces).header false))
    ((s.withBlocks pieces).trailer sources false) b
  rw [nodes_layout, ← append_assoc] at file
  rw [← recut.meaning image.positive b, ← joined.meaning image.positive b]
  exact file

theorem Image.roundTrips (image : Image s) (importable : Importable s) :
    RoundTrips sources handle s := by
  obtain ⟨fuel, pieces, split⟩ := image.splits_iff.mpr importable.splits
  obtain ⟨⟨cut, records⟩, recut⟩ := image.splitAll split
  obtain ⟨result, imported, size, len, joined⟩ := cut.import_plain records importable.nonempty
    importable.few ((image.small_iff recut).mpr importable.small) sources handle
  exact ⟨fuel, _, result, image.write_eq.mpr ⟨pieces, split, rfl⟩, imported, size, len,
    image.imported_meaning recut joined⟩

theorem RoundTrips.importable (image : Image s) (back : RoundTrips sources handle s) :
    Importable s := by
  obtain ⟨fuel, file, result, written, imported, -, len, -⟩ := back
  obtain ⟨pieces, split, rfl⟩ := image.write_eq.mp written
  obtain ⟨⟨cut, records⟩, recut⟩ := image.splitAll split
  obtain ⟨read, nonzero, small⟩ := cut.import_len records imported
  have total : (s.withBlocks pieces).total = s.total := rfl
  rw [total] at read nonzero
  have kept : u32 s.total = s.total := by
    rw [len, image.len_eq] at read
    exact (Nat.eq_of_mul_eq_mul_right image.positive read).symm
  have few : s.total < 2 ^ 32 := by
    rw [← kept]
    exact Nat.mod_lt _ (by decide)
  have announced : (s.withBlocks pieces).announced false = (s.withBlocks pieces).layout.length := by
    have := cut.length_layout few
    exact Nat.mod_eq_of_lt (by simp; omega)
  refine ⟨image.splits_iff.mp ⟨fuel, pieces, split⟩, by omega, few, ?_⟩
  rw [announced, take_length] at small
  exact (image.small_iff recut).mp small

/-- An image comes back exactly when it is importable. -/
theorem sparseFileWrite_roundTrips_iff (sources : Sources) (handle : Nat) (s : SparseFile)
    (image : Image s) :
    RoundTrips sources handle s ↔ Importable s :=
  ⟨fun back => back.importable image, fun importable => image.roundTrips importable⟩

/-- Eight GiB of blocks nobody cares about. -/
def gapOnly : SparseFile := sparseFileNew 4 (2 ^ 33)

theorem gapOnly_image : Image gapOnly :=
  ⟨by decide, by decide, by decide, by decide, ⟨by decide, List.Pairwise.nil, by decide⟩, by decide⟩

/-- The number of blocks of the gap is returned as an `int` and taken for an error. -/
theorem sparseFileImport_rejects_gap : Image gapOnly ∧
      (sparseFileWrite 0 ⟨fun _ => 0, fun _ _ => 0, fun _ _ => 0⟩ gapOnly false).isSome = true ∧
      ¬ RoundTrips ⟨fun _ => 0, fun _ _ => 0, fun _ _ => 0⟩ 3 gapOnly := by
  refine ⟨gapOnly_image, by decide, ?_⟩
  intro back
  exact absurd (back.importable gapOnly_image).small (by decide)

/-- Six bytes of data, a gap, and a fill of two blocks. -/
def dataGapFill : SparseFile :=
  (sparseFileNew 4 24).withBlocks [⟨0, 6, .data 0⟩, ⟨3, 8, .fill 7⟩]

theorem sparseFileWrite_roundTrips_small :
    RoundTrips ⟨fun address => BitVec.ofNat 8 address, fun _ _ => 0, fun _ _ => 0⟩ 3 dataGapFill :=
  (sparseFileWrite_roundTrips_iff _ 3 dataGapFill
    ⟨by decide, by decide, by decide, by decide, ⟨by decide, by decide, by decide⟩, by decide⟩).mpr
    ⟨.inr (by decide), by decide, by decide, by decide⟩

end RoundTrip

end Aosp.Sparse
