import Aosp.Sparse.ImageRoundTrip
import Aosp.Sparse.NormalFile

namespace Aosp.Sparse

open List NormalFile BackedBlock
open Layout (Byte File)
open OutputFile (bytesOf)

/-- A byte of a block; what nobody cares about is not written. -/
def Meaning.byte : Meaning → Nat → Byte
  | .data bytes, k => bytes.getD k 0
  | .fill val, k => fillByte val k
  | .dontCare, _ => 0

/-- The byte at an address of the raw image. -/
def rawByte (sources : Sources) (blockSize : Nat) (blocks : List BackedBlock) (a : Nat) : Byte :=
  (meaning sources blockSize blocks (a / blockSize)).byte (a % blockSize)

section Bytes

variable {sources : Sources} {blockSize : Nat}

/-- The bytes of one block of a chunk; the last block of data ends with zeros. -/
theorem byte_meaningAt (words : blockSize % 4 = 0) (bb : BackedBlock) {i k : Nat}
    (inside : k < blockSize) :
    (bb.meaningAt sources blockSize i).byte k = if bb.backing.isFill ∨ i * blockSize + k < bb.len
      then
        bb.backing.byte sources (i * blockSize + k) else 0 := by
  rcases bb.backing.fill_or_data with ⟨val, backing⟩ | kind
  · have phase : (i * blockSize + k) % 4 = k % 4 := by
      obtain ⟨n, size⟩ := Nat.dvd_of_mod_eq_zero words
      rw [size, Nat.mul_left_comm, Nat.mul_add_mod]
    rw [meaningAt_fill backing, backing, Backing.isFill, if_pos (.inl rfl), Meaning.byte,
      Backing.byte, fillByte, fillByte, phase]
  · rw [meaningAt_data kind, Meaning.byte, getD_eq_getElem?_getD, getElem?_map,
      getElem?_range inside]
    simp [kind]

variable {bb : BackedBlock} {rest : List BackedBlock}

theorem rawByte_inside (positive : 0 < blockSize) (words : blockSize % 4 = 0)
    {j : Nat} (inside : j < bb.blocks blockSize * blockSize) :
    rawByte sources blockSize (bb :: rest) (bb.block * blockSize + j) =
      if bb.backing.isFill ∨ j < bb.len then bb.backing.byte sources j else 0 := by
  have row : (bb.block * blockSize + j) / blockSize = bb.block + j / blockSize := by
    rw [Nat.mul_comm, Nat.mul_add_div positive]
  have column : (bb.block * blockSize + j) % blockSize = j % blockSize := by
    rw [Nat.mul_comm, Nat.mul_add_mod]
  have below : j / blockSize < bb.blocks blockSize := Nat.div_lt_of_lt_mul (by rwa [Nat.mul_comm])
  have split : j / blockSize * blockSize + j % blockSize = j := Nat.div_add_mod' _ _
  rw [rawByte, row, column, meaning, if_pos ⟨Nat.le_add_right _ _, Nat.add_lt_add_left below _⟩,
    Nat.add_sub_cancel_left, byte_meaningAt words bb (Nat.mod_lt _ positive), split]

variable {a : Nat}

theorem rawByte_outside
    (outside : a / blockSize < bb.block ∨ bb.block + bb.blocks blockSize ≤ a / blockSize) :
    rawByte sources blockSize (bb :: rest) a = rawByte sources blockSize rest a := by
  rw [rawByte, rawByte, meaning, if_neg]
  unfold BackedBlock.Covers
  omega

theorem rawByte_below {blocks : List BackedBlock}
    (below : ∀ bb ∈ blocks, a / blockSize < bb.block) :
    rawByte sources blockSize blocks a = 0 := by
  induction blocks with
  | nil => rfl
  | cons bb rest ih =>
    rw [rawByte_outside (.inl (below bb mem_cons_self))]
    exact ih fun other member => below other (mem_cons_of_mem _ member)

variable {out : NormalFile}

/-- The bytes behind what has been written are zeros. -/
def NormalFile.Blank (out : NormalFile) : Prop := ∀ a, out.position ≤ a → out.file.byte a = 0

theorem NormalFile.byte_write (out : NormalFile) (content : Nat → Byte) (len a : Nat) :
    (out.write (bytesOf content len)).file.byte a =
      if out.position ≤ a ∧ a < out.position + len then content (a - out.position)
      else out.file.byte a := by
  have length : (bytesOf content len).length = len := OutputFile.length_bytesOf content len
  have covers : Layout.Write.Covers ⟨out.position, bytesOf content len⟩ a ↔
      out.position ≤ a ∧ a < out.position + len := by
    unfold Layout.Write.Covers Layout.Write.stop
    rw [length]
  simp only [write, Layout.File.pwrite]
  by_cases inside : out.position ≤ a ∧ a < out.position + len
  · have below : a - out.position < len := by omega
    rw [if_pos (covers.mpr inside), if_pos inside, getD_eq_getElem?_getD, bytesOf, getElem?_map,
      getElem?_range below]
    rfl
  · rw [if_neg (mt covers.mp inside), if_neg inside]

/-- A fill of whole blocks, or data of any length. -/
def BackedBlock.Plain (blockSize : Nat) (bb : BackedBlock) : Prop :=
  bb.backing.isFill = true → blockSize ∣ bb.len

instance (blockSize : Nat) (bb : BackedBlock) : Decidable (bb.Plain blockSize) :=
  inferInstanceAs (Decidable (_ → _))

theorem NormalFile.writeBlock_at (positive : 0 < blockSize) (words : blockSize % 4 = 0)
    {bb : BackedBlock} (size : out.blockSize = blockSize) (plain : bb.Plain blockSize)
    (place : out.position = bb.block * blockSize) (blank : out.Blank) (rest : List BackedBlock) :
    (out.writeBlock sources bb).position = (bb.block + bb.blocks blockSize) * blockSize ∧
      (out.writeBlock sources bb).Blank ∧ ∀ a, a < (bb.block + bb.blocks blockSize) * blockSize →
        (out.writeBlock sources bb).file.byte a =
          if a < out.position then out.file.byte a
          else rawByte sources blockSize (bb :: rest) a := by
  have rounded : bb.len ≤ align bb.len blockSize := le_align positive
  have blocks : align bb.len blockSize = bb.blocks blockSize * blockSize := Nat.mul_comm _ _
  have whole : bb.backing.isFill = true → align bb.len blockSize = bb.len := by
    intro fill
    obtain ⟨n, length⟩ := plain fill
    rw [blocks, BackedBlock.blocks, length, Nat.mul_comm blockSize, divRoundUp_mul positive]
  have position : (out.writeBlock sources bb).position =
      (bb.block + bb.blocks blockSize) * blockSize := by
    rw [writeBlock_eq, size, Nat.add_mul, ← blocks, ← place]
    simp only [skip, write, OutputFile.length_bytesOf]
    split
    · rename_i fill
      rw [whole fill, Nat.add_zero]
    · omega
  have bytes : ∀ a, (out.writeBlock sources bb).file.byte a =
      if out.position ≤ a ∧ a < out.position + bb.len
      then bb.backing.byte sources (a - out.position) else out.file.byte a := by
    intro a
    rw [writeBlock_eq]
    exact out.byte_write _ _ a
  rw [Nat.add_mul] at position ⊢
  refine ⟨position, fun a behind => ?_, fun a before => ?_⟩
  · rw [bytes, if_neg (by omega)]
    exact blank a (by omega)
  · rw [bytes]
    by_cases old : a < out.position
    · rw [if_neg (by omega), if_pos old]
    · have shift : a = bb.block * blockSize + (a - out.position) := by omega
      rw [if_neg old, shift, rawByte_inside positive words (by omega), ← shift]
      by_cases written : a < out.position + bb.len
      · rw [if_pos (by omega), if_pos (.inr (by omega))]
      · -- the rest of a last block of data is skipped; a fill has no such rest
        rw [if_neg (by omega), if_neg, blank a (by omega)]
        rintro (fill | inside)
        · have := whole fill
          omega
        · omega

/-- The loop over the chunks writes the raw image from `lastBlock` on. -/
theorem NormalFile.writeBlocks_at (positive : 0 < blockSize) (words : blockSize % 4 = 0)
    {blocks : List BackedBlock} {lastBlock : Nat} (size : out.blockSize = blockSize)
    (plain : ∀ bb ∈ blocks, bb.Plain blockSize)
    (fits : ∀ bb ∈ blocks, bb.block + bb.blocks blockSize < 2 ^ 32)
    (apart : blocks.Pairwise fun a b => a.block + a.blocks blockSize ≤ b.block)
    (start : ∀ bb ∈ blocks, lastBlock ≤ bb.block) (place : out.position = lastBlock * blockSize)
    (blank : out.Blank) (a : Nat) :
    (NormalFile.writeBlocks sources blockSize lastBlock out blocks).1.file.byte a =
      if a < out.position then out.file.byte a else rawByte sources blockSize blocks a := by
  induction blocks generalizing lastBlock out with
  | nil =>
    split
    · rfl
    · exact blank a (by omega)
  | cons bb rest ih =>
    obtain ⟨first, later⟩ := pairwise_cons.mp apart
    obtain ⟨plainBb, plainRest⟩ := forall_mem_cons.mp plain
    obtain ⟨fitsBb, fitsRest⟩ := forall_mem_cons.mp fits
    obtain ⟨startBb, startRest⟩ := forall_mem_cons.mp start
    -- the state behind the gap in front of the chunk
    have moved : ∃ after : NormalFile, (if lastBlock < bb.block then
          out.writeNormalSkipChunk ((bb.block - lastBlock) * blockSize) else out) = after ∧
        after.blockSize = blockSize ∧ after.position = bb.block * blockSize ∧
        after.file = out.file ∧ after.Blank := by
      have sum : lastBlock * blockSize + (bb.block - lastBlock) * blockSize =
          bb.block * blockSize := by
        rw [← Nat.add_mul]
        congr 1
        omega
      split
      · refine ⟨_, rfl, size, ?_, rfl, ?_⟩
        · simp [writeNormalSkipChunk, skip, place, sum]
        · intro a behind
          simp only [writeNormalSkipChunk, skip] at behind
          exact blank a (by omega)
      · have same : lastBlock = bb.block := by omega
        exact ⟨out, rfl, size, by rw [place, same], rfl, blank⟩
    obtain ⟨after, gap, afterSize, afterPlace, afterFile, afterBlank⟩ := moved
    obtain ⟨position, written, bytes⟩ := @writeBlock_at sources blockSize after positive
      words bb afterSize plainBb afterPlace afterBlank rest
    have next : bb.lastBlock blockSize = bb.block + bb.blocks blockSize := Nat.mod_eq_of_lt fitsBb
    have sameSize : (after.writeBlock sources bb).blockSize = blockSize := by
      rw [writeBlock_eq]
      exact afterSize
    rw [writeBlocks, gap, next, ih sameSize plainRest fitsRest later first position written]
    have scaled := Nat.mul_le_mul_right blockSize startBb
    rw [position]
    by_cases before : a < (bb.block + bb.blocks blockSize) * blockSize
    · rw [if_pos before, bytes a before, afterFile, afterPlace]
      by_cases old : a < out.position
      · rw [if_pos old, if_pos (by omega)]
      · split
        · -- between the last chunk and this one
          have row : a / blockSize < bb.block := Nat.div_lt_of_lt_mul (by rwa [Nat.mul_comm])
          rw [blank a (by omega), rawByte_below]
          intro other member
          rcases mem_cons.mp member with rfl | member
          · exact row
          · have := first other member
            omega
        · rfl
    · have row : bb.block + bb.blocks blockSize ≤ a / blockSize :=
        (Nat.le_div_iff_mul_le positive).mpr (Nat.le_of_not_lt before)
      have low : out.position ≤ (bb.block + bb.blocks blockSize) * blockSize := by
        rw [Nat.add_mul]
        omega
      rw [if_neg before, if_neg (by omega), rawByte_outside (.inr row)]

variable {parts : List BackedBlock}

theorem Parts.plain (cut : Parts blockSize bb parts) (plain : bb.Plain blockSize) :
    ∀ part ∈ parts, part.Plain blockSize := by
  induction cut with
  | whole bb => exact forall_mem_singleton.mpr plain
  | @cut bb k parts inside _ ih =>
    refine forall_mem_cons.mpr ⟨fun _ => Nat.dvd_mul_left _ _, ih fun fill => ?_⟩
    have same : bb.backing.isFill = true := by
      cases backing : bb.backing <;> simp_all [behind, Backing.advance, Backing.isFill]
    exact Nat.dvd_sub (plain same) (Nat.dvd_mul_left _ _)

variable {blocks pieces : List BackedBlock}

theorem Recut.plain (cut : Recut blockSize blocks pieces)
    (plain : ∀ bb ∈ blocks, bb.Plain blockSize) :
    ∀ piece ∈ pieces, piece.Plain blockSize := by
  induction cut with
  | nil => exact forall_mem_nil _
  | cons first _ ih =>
    obtain ⟨head, others⟩ := forall_mem_cons.mp plain
    exact forall_mem_append.mpr ⟨first.plain head, ih others⟩

variable {s : SparseFile} {handle : Nat}

/-- The entries of an import stand where the nodes stood, rounded up to whole blocks. -/
theorem entriesFrom_places (sources : Sources) (handle blockSize offset : Nat)
    (chunks : List Chunk) :
    (entriesFrom sources handle blockSize offset chunks).map (fun bb => (bb.block, bb.len)) =
      (nodes chunks).map fun bb => (bb.block, bb.blocks blockSize * blockSize) := by
  induction chunks generalizing offset with
  | nil => rfl
  | cons chunk rest ih =>
    cases chunk with
    | dontCare blocks => exact ih _
    | stored bb => exact congrArg (List.cons _) (ih _)

/-- What an import makes of a written image is an image again, of whole blocks. -/
theorem Image.imported (image : Image s) (few : s.total < 2 ^ 32) {result : SparseFile}
    {offset : Nat} (size : result.blockSize = s.blockSize) (len : result.len = s.len)
    (recut : Recut s.blockSize result.blocks (entriesFrom sources handle s.blockSize offset
      s.layout)) :
    Image result ∧ ∀ bb ∈ result.blocks, bb.Plain result.blockSize := by
  have positive := image.positive
  have places := entriesFrom_places sources handle s.blockSize offset s.layout
  rw [nodes_layout] at places
  have entry : ∀ e ∈ entriesFrom sources handle s.blockSize offset s.layout,
      ∃ bb ∈ s.blocks, e.block = bb.block ∧ e.len = bb.blocks s.blockSize * s.blockSize := by
    intro e member
    have inMap := mem_map_of_mem (f := fun bb : BackedBlock => (bb.block, bb.len)) member
    rw [places] at inMap
    obtain ⟨bb, isNode, same⟩ := mem_map.mp inMap
    exact ⟨bb, isNode, (congrArg Prod.fst same).symm, (congrArg Prod.snd same).symm⟩
  have apart : (entriesFrom sources handle s.blockSize offset s.layout).Pairwise
      fun a b => a.block + a.blocks s.blockSize ≤ b.block := by
    have mapped : ((entriesFrom sources handle s.blockSize offset s.layout).map
        fun bb => (bb.block, bb.len)).Pairwise fun a b =>
        a.1 + divRoundUp a.2 s.blockSize ≤ b.1 := by
      rw [places, pairwise_map]
      simp only [divRoundUp_mul positive]
      exact image.cuttable.apart
    exact pairwise_map.mp mapped
  have wholeEntries : ∀ e ∈ entriesFrom sources handle s.blockSize offset s.layout,
      0 < e.len ∧ s.blockSize ∣ e.len := by
    intro e member
    obtain ⟨bb, isNode, _, length⟩ := entry e member
    rw [length]
    exact ⟨Nat.mul_pos (image.cuttable.blocks_pos positive isNode) positive, Nat.dvd_mul_left _ _⟩
  have insideEntries : ∀ e ∈ entriesFrom sources handle s.blockSize offset s.layout,
      e.block + e.blocks s.blockSize ≤ s.total := by
    intro e member
    obtain ⟨bb, isNode, block, length⟩ := entry e member
    rw [blocks, length, divRoundUp_mul positive, block]
    exact image.inside bb isNode
  have whole := recut.passes (fun cut => cut.whole_of_parts) wholeEntries
  have ordered := recut.apart positive apart
  have inside := recut.passes (fun cut => cut.stop_le positive) insideEntries
  refine ⟨⟨?_, ?_, ?_, ?_, ⟨fun bb member => (whole bb member).1, ?_, ?_⟩, ?_⟩, ?_⟩
  · rw [size]; exact positive
  · rw [size]; exact image.words
  · rw [size]; exact image.small
  · rw [size, len]; exact image.whole
  · rw [size]; exact ordered
  · intro bb member
    rw [size]
    exact Nat.le_trans (inside bb member) (Nat.le_of_lt few)
  · rw [size, len]
    exact inside
  · intro bb member _
    rw [size]
    exact (whole bb member).2

theorem Image.writeNormal_raw (image : Image s) (few : s.total < 2 ^ 32)
    (plain : ∀ bb ∈ s.blocks, bb.Plain s.blockSize) {fuel : Nat} {file : File}
    (done : sparseFileWriteNormal fuel sources s = some file) :
    file.size = s.len ∧ ∀ a < s.len, file.byte a = rawByte sources s.blockSize s.blocks a := by
  unfold sparseFileWriteNormal at done
  simp only [Option.bind_eq_bind, Option.bind_eq_some_iff] at done
  obtain ⟨pieces, split, out, written, done⟩ := done
  cases done
  obtain ⟨⟨cut, _⟩, recut⟩ := image.splitAll split
  have bytes := @writeBlocks_at sources s.blockSize (.init s.blockSize s.len)
    image.positive image.words pieces 0 rfl (recut.plain plain)
    (fun bb member => Nat.lt_of_le_of_lt (cut.inside bb member) few) cut.cuttable.apart
    (fun _ _ => Nat.zero_le _) (Nat.zero_mul _).symm (fun _ _ => rfl)
  obtain ⟨len, file⟩ := writeAllBlocks_eq_some written
  have length : out.len = s.len := len
  refine ⟨length, fun a inside => ?_⟩
  have below : a < out.len := by omega
  have start : ¬ a < (init s.blockSize s.len).position := Nat.not_lt_zero a
  simp only [writeNormalEndChunk, pad, Layout.File.truncate, if_pos below, file]
  refine (bytes a).trans ?_
  rw [if_neg start, rawByte, rawByte, recut.meaning image.positive]

/-- And it is written, if the chunks can be cut. -/
theorem Image.exists_writeNormal (image : Image s) (sources : Sources)
    (splits : s.blocks = [] ∨ s.blockSize ≤ maxBackedBlockSize) :
    ∃ fuel file, sparseFileWriteNormal fuel sources s = some file := by
  obtain ⟨fuel, pieces, split⟩ := image.splits_iff.mpr splits
  obtain ⟨⟨cut, _⟩, _⟩ := image.splitAll split
  have inside : ¬ s.len < endFrom s.blockSize 0 pieces * s.blockSize := by
    have bound := Nat.mul_le_mul_right s.blockSize cut.end_le
    have total := image.len_eq
    change endFrom s.blockSize 0 pieces * s.blockSize ≤ s.total * s.blockSize at bound
    omega
  obtain ⟨out, written⟩ := exists_writeAllBlocks (s := s.withBlocks pieces) sources
    (.init s.blockSize s.len) inside
  refine ⟨fuel, out.writeNormalEndChunk.file, ?_⟩
  simp only [sparseFileWriteNormal, Option.bind_eq_bind, Option.bind_eq_some_iff]
  exact ⟨pieces, split, out, written, rfl⟩

/-- The raw image of `s`, and the raw image of what comes back when `s` is written in the sparse
format and imported again, hold the same bytes. -/
def ExpandsAlike (sources : Sources) (handle : Nat) (s : SparseFile) : Prop :=
  ∃ fuel direct fuel' written imported fuel'' again, sparseFileWriteNormal fuel sources s =
    some direct ∧ sparseFileWrite fuel' sources s false = some written ∧
    sparseFileImport handle written false = some imported ∧
    sparseFileWriteNormal fuel'' (sources.withFd handle written) imported = some again ∧
    direct.size = s.len ∧ again.size = s.len ∧ ∀ a < s.len, direct.byte a = again.byte a

/-- Without a fill that ends inside a block, an image that can be imported expands to the same
bytes both ways. -/
theorem sparseFileWrite_expandsAlike (sources : Sources) (handle : Nat) (s : SparseFile)
    (image : Image s) (importable : Importable s) (plain : ∀ bb ∈ s.blocks, bb.Plain s.blockSize) :
    ExpandsAlike sources handle s := by
  obtain ⟨fuel, direct, directly⟩ := image.exists_writeNormal sources importable.splits
  obtain ⟨fuel', pieces, split⟩ := image.splits_iff.mpr importable.splits
  obtain ⟨⟨cut, records⟩, recut⟩ := image.splitAll split
  obtain ⟨imported, read, size, len, joined⟩ := cut.import_plain records importable.nonempty
    importable.few ((image.small_iff recut).mpr importable.small) sources handle
  obtain ⟨image', plain'⟩ := cut.imported importable.few size len joined
  have splits' : imported.blocks = [] ∨ imported.blockSize ≤ maxBackedBlockSize := by
    rcases importable.splits with nothing | small
    · left
      rw [eq_nil_iff_forall_not_mem]
      refine joined.passes (fun parts nothing => ?_) fun e isEntry => ?_
      · obtain ⟨⟨part, isPart, _⟩, _⟩ := parts.ends cut.positive
        exact nothing part isPart
      have places := entriesFrom_places sources handle s.blockSize
        (SparseHeader.codec.encode ((s.withBlocks pieces).header false)).length
        (s.withBlocks pieces).layout
      rw [nodes_layout] at places
      have inMap := mem_map_of_mem (f := fun bb : BackedBlock => (bb.block, bb.len)) isEntry
      obtain ⟨piece, isPiece, _⟩ := mem_map.mp (places ▸ inMap)
      obtain ⟨other, isBlock, _⟩ := recut.bounds image.positive piece isPiece
      rw [nothing] at isBlock
      exact absurd isBlock not_mem_nil
    · exact .inr (by rw [size]; exact small)
  obtain ⟨fuel'', again, afterwards⟩ := image'.exists_writeNormal
    (sources.withFd handle ((s.withBlocks pieces).image sources false)) splits'
  have total : imported.total = s.total := by
    rw [SparseFile.total, size, len]
    rfl
  obtain ⟨directSize, directBytes⟩ := image.writeNormal_raw importable.few plain directly
  obtain ⟨againSize, againBytes⟩ := image'.writeNormal_raw (by rw [total]; exact importable.few)
    plain' afterwards
  refine ⟨fuel, direct, fuel', _, imported, fuel'', again, directly,
    image.write_eq.mpr ⟨pieces, split, rfl⟩, read, afterwards, directSize, againSize.trans len, ?_⟩
  intro a inside
  have same := image.imported_meaning recut joined (a / s.blockSize)
  have sameSize : imported.blockSize = s.blockSize := size
  rw [directBytes a inside, againBytes a (by rw [len]; exact inside), rawByte, rawByte,
    sameSize, same]

/-- A data block of six bytes in blocks of four, a gap, and a fill of two blocks. -/
theorem sparseFileWrite_expandsAlike_small :
    ExpandsAlike ⟨fun address => BitVec.ofNat 8 address, fun _ _ => 0, fun _ _ => 0⟩ 3
      dataGapFill :=
  sparseFileWrite_expandsAlike _ 3 dataGapFill
    ⟨by decide, by decide, by decide, by decide, ⟨by decide, by decide, by decide⟩, by decide⟩
    ⟨.inr (by decide), by decide, by decide, by decide⟩ (by decide)

/-- A fill of six bytes in blocks of four, and a block of data behind it. -/
def shortFill : SparseFile :=
  (sparseFileNew 4 12).withBlocks [⟨0, 6, .fill 0x01010101⟩, ⟨2, 4, .data 0⟩]

/-- The data is written at byte six, in the middle of the second block of the fill. -/
theorem sparseFileWriteNormal_shifts :
    Image shortFill ∧ Importable shortFill ∧ ∃ direct written imported again,
      sparseFileWriteNormal 2 ⟨fun _ => 7, fun _ _ => 0, fun _ _ => 0⟩ shortFill = some direct ∧
      sparseFileWrite 2 ⟨fun _ => 7, fun _ _ => 0, fun _ _ => 0⟩ shortFill false = some written ∧
      sparseFileImport 3 written false = some imported ∧ sparseFileWriteNormal 2
        (Sources.withFd ⟨fun _ => 7, fun _ _ => 0, fun _ _ => 0⟩ 3 written) imported = some again ∧
      direct.byte 6 = 7 ∧ again.byte 6 = 1 ∧ direct.byte 10 = 0 ∧ again.byte 10 = 7 := by
  refine ⟨⟨by decide, by decide, by decide, by decide,
    ⟨by decide, by decide, by decide⟩, by decide⟩,
    ⟨.inr (by decide), by decide, by decide, by decide⟩, _, _, _, _, rfl, rfl, rfl, rfl, ?_⟩
  decide

end Bytes

end Aosp.Sparse
