import Aosp.Sparse.Partition

namespace Aosp.Sparse

open List ResparseState SparseFile

section Size

variable (sources : Sources)

theorem length_chunksFrom {blockSize : Nat} (positive : 0 < blockSize) (lastBlock : Nat)
    (blocks : List BackedBlock) :
    ((chunksFrom blockSize lastBlock blocks).flatMap fun chunk =>
      chunk.record sources blockSize).length = countedFrom blockSize lastBlock blocks := by
  induction blocks generalizing lastBlock with
  | nil => rfl
  | cons bb rest ih =>
    rw [chunksFrom, flatMap_append, flatMap_cons, length_append, length_append,
      ih, countedFrom, Chunk.record, length_record sources positive]
    have gap : ((gapBefore lastBlock bb).flatMap fun chunk =>
        chunk.record sources blockSize).length = if lastBlock < bb.block then 12 else 0 := by
      unfold gapBefore
      split
      · rw [flatMap_singleton, Chunk.record, length_chunkHeader]
      · rfl
    rw [gap, add_assoc]

variable (s : SparseFile)

theorem length_endSkip : (s.endSkip.flatMap fun chunk => chunk.record sources s.blockSize).length =
      12 * s.endSkip.length := by
  unfold endSkip
  split
  · rfl
  · rfl

theorem length_endSkip_le : s.endSkip.length ≤ 1 := by
  unfold endSkip
  split
  · exact le_refl _
  · exact Nat.zero_le _

/-- The size of an image: the header, the chunks with their gaps, the rest of the image and the
checksum. -/
def imageLen (crc : Bool) : Nat :=
  28 + countedFrom s.blockSize 0 s.blocks + 12 * s.endSkip.length + if crc then 16 else 0

theorem sparseFileLen_eq (positive : 0 < s.blockSize) (crc : Bool) :
    sparseFileLen sources s crc =
      if s.len < endFrom s.blockSize 0 s.blocks * s.blockSize then none
      else some (imageLen s crc) := by
  unfold sparseFileLen
  rw [sparseFileCallback_eq sources s positive]
  split
  · rfl
  · rw [Option.map_some]
    congr 1
    have trailer : (s.trailer sources crc).length = if crc then 16 else 0 := by
      cases crc with
      | false => rfl
      | true =>
        rfl
    have start : (SparseHeader.codec.encode (s.header crc)).length = 28 :=
      SparseHeader.codec.encode_length _
    rw [image, length_append, length_append, layout,
      flatMap_append, length_append, length_chunksFrom sources positive, length_endSkip, imageLen]
    omega

end Size

/-- The part of a chunk that a round moves when it cuts it. -/
def keptPart (blockSize len : Nat) (front : List BackedBlock) (bb : BackedBlock) : BackedBlock :=
  (backedBlockSplit blockSize bb (len - (countedFrom blockSize 0 front + 12))).1

/-- The block behind what is moved of a chunk, with so many bytes left for its contents. -/
def stopOf (blockSize spare : Nat) (bb : BackedBlock) : Nat :=
  if bb.len ≤ spare / blockSize * blockSize then bb.lastBlock blockSize
  else u32 (bb.block + spare / blockSize)

/-- What the checksum asks of a chunk that is cut. Where the rest of the image is still to be
written behind it, the chunk has data, and no gap in front of it unless the cut leaves 12 bytes
unused. Where the image ends with it, a fill behind a gap asks for 4 bytes. -/
def CutFits (s : SparseFile) (len : Nat) (front : List BackedBlock) (bb : BackedBlock) : Prop :=
  let spare := len - (countedFrom s.blockSize 0 front + 12)
  let gap := endFrom s.blockSize 0 front < bb.block
  (stopOf s.blockSize spare bb * s.blockSize < s.len → s.len % s.blockSize = 0 →
    bb.backing.isFill = false ∧
      (gap → spare / s.blockSize * s.blockSize < bb.len ∧ 12 ≤ spare % s.blockSize)) ∧
  (stopOf s.blockSize spare bb * s.blockSize ≤ s.len → bb.backing.isFill = true → gap → 4 ≤ spare)

instance (s : SparseFile) (len : Nat) (front : List BackedBlock) (bb : BackedBlock) :
    Decidable (CutFits s len front bb) :=
  inferInstanceAs (Decidable ((_ → _ → _ ∧ (_ → _ ∧ _)) ∧ (_ → _ → _ → _)))

/-- What it asks of a list in front of a round: the first chunk that does not fit can be cut. -/
def CrcFits (s : SparseFile) (len : Nat) (input : List BackedBlock) : Prop :=
  ∀ front bb back, input = front ++ bb :: back → countedFrom s.blockSize 0 front ≤ len →
    len < countedFrom s.blockSize 0 (front ++ [bb]) →
    Cuts len front (countedFrom s.blockSize 0 front) → CutFits s len front bb

section Limit

variable {sources : Sources} {s : SparseFile} {maxLen : Nat} {input : List BackedBlock}

theorem keptPart_eq {blockSize len : Nat} (front : List BackedBlock) (bb : BackedBlock) :
    keptPart blockSize len front bb =
      if bb.len ≤ (len - (countedFrom blockSize 0 front + 12)) / blockSize * blockSize then bb
      else bb.front blockSize ((len - (countedFrom blockSize 0 front + 12)) / blockSize) := by
  unfold keptPart backedBlockSplit alignDown
  dsimp only
  rw [mul_comm blockSize]
  split <;> rfl

theorem isFill_keptPart (blockSize len : Nat) (front : List BackedBlock) (bb : BackedBlock) :
    (keptPart blockSize len front bb).backing.isFill = bb.backing.isFill := by
  rw [keptPart_eq]
  split <;> rfl

theorem block_keptPart (blockSize len : Nat) (front : List BackedBlock) (bb : BackedBlock) :
    (keptPart blockSize len front bb).block = bb.block := by
  rw [keptPart_eq]
  split <;> rfl

theorem lastBlock_keptPart {blockSize len : Nat} (positive : 0 < blockSize)
    (front : List BackedBlock) (bb : BackedBlock) :
    (keptPart blockSize len front bb).lastBlock blockSize =
      stopOf blockSize (len - (countedFrom blockSize 0 front + 12)) bb := by
  rw [keptPart_eq, stopOf]
  split
  · rfl
  · exact congrArg (fun blocks => u32 (bb.block + blocks)) (divRoundUp_mul positive _)

/-- The rest of the image is one record, unless it is empty or no whole number of blocks. -/
theorem endSkip_withBlocks (s : SparseFile) (front : List BackedBlock) (bb : BackedBlock)
    (inside : bb.lastBlock s.blockSize * s.blockSize ≤ s.len) :
    (s.withBlocks (front ++ [bb])).endSkip.length =
      if bb.lastBlock s.blockSize * s.blockSize < s.len ∧ s.len % s.blockSize = 0 then 1
      else 0 := by
  have ends : endFrom s.blockSize 0 (front ++ [bb]) = bb.lastBlock s.blockSize := by
    rw [endFrom_append]
    rfl
  have pad : (s.withBlocks (front ++ [bb])).pad = s.len - bb.lastBlock s.blockSize * s.blockSize :=
    congrArg (fun last => s.len - last * s.blockSize) ends
  have same : 0 < s.len - bb.lastBlock s.blockSize * s.blockSize ∧
      (s.len - bb.lastBlock s.blockSize * s.blockSize) % s.blockSize = 0 ↔
      bb.lastBlock s.blockSize * s.blockSize < s.len ∧ s.len % s.blockSize = 0 := by
    rw [mul_comm, Nat.sub_mul_mod (by rwa [mul_comm]), Nat.sub_pos_iff_lt]
  rw [endSkip, pad]
  simp only [show (s.withBlocks (front ++ [bb])).blockSize = s.blockSize from rfl, same]
  split <;> rfl

theorem countedFrom_concat (blockSize : Nat) (front : List BackedBlock) (bb : BackedBlock) :
    countedFrom blockSize 0 (front ++ [bb]) = countedFrom blockSize 0 front +
      ((if endFrom blockSize 0 front < bb.block then 12 else 0) + bb.recordBytes blockSize) := by
  rw [countedFrom_append, countedFrom, countedFrom, add_zero]

/-- The contents of what is moved of a chunk with data: as many whole blocks as there is room
for, if it is cut. -/
theorem recordBytes_keptPart {blockSize len : Nat} (positive : 0 < blockSize)
    (front : List BackedBlock) (bb : BackedBlock) :
    (keptPart blockSize len front bb).recordBytes blockSize =
      let whole := (len - (countedFrom blockSize 0 front + 12)) / blockSize * blockSize
      if bb.backing.isFill then 16 else 12 + if whole < bb.len then whole
      else align bb.len blockSize := by
  rw [BackedBlock.recordBytes, isFill_keptPart, keptPart_eq]
  dsimp only
  by_cases short : bb.len ≤ (len - (countedFrom blockSize 0 front + 12)) / blockSize * blockSize
  · rw [if_pos short, if_neg (not_lt_of_ge short)]
  · rw [if_neg short, if_pos (Nat.lt_of_not_le short), BackedBlock.front, align,
      divRoundUp_mul positive, mul_comm blockSize]

section Cut

variable {len : Nat} {front : List BackedBlock} (bb : BackedBlock) (positive : 0 < s.blockSize)
  (space : countedFrom s.blockSize 0 front + 12 ≤ len)

include positive space

/-- The records of a piece that ends with a cut chunk take at most 16 bytes more than the room:
the header of a gap is not planned for, nor the value of a fill. -/
theorem countedFrom_kept_le :
    countedFrom s.blockSize 0 (front ++ [keptPart s.blockSize len front bb]) ≤ len + 16 := by
  have below := Nat.div_mul_le_self (len - (countedFrom s.blockSize 0 front + 12)) s.blockSize
  rw [countedFrom_concat, recordBytes_keptPart positive]
  dsimp only
  generalize (len - (countedFrom s.blockSize 0 front + 12)) / s.blockSize = k at below
  have whole : bb.len ≤ k * s.blockSize → align bb.len s.blockSize ≤ k * s.blockSize :=
    align_le positive
  split_ifs <;> omega

/-- With the rest of the image a piece takes at most 12 bytes more than the room exactly under
the condition on the chunk that is cut. -/
theorem kept_le_iff (exceeds : len < countedFrom s.blockSize 0 (front ++ [bb])) :
    let piece := front ++ [keptPart s.blockSize len front bb]
    (endFrom s.blockSize 0 piece * s.blockSize ≤ s.len →
      countedFrom s.blockSize 0 piece + 12 * (s.withBlocks piece).endSkip.length ≤ len + 12) ↔
        CutFits s len front bb := by
  have ends : endFrom s.blockSize 0 (front ++ [keptPart s.blockSize len front bb]) =
      stopOf s.blockSize (len - (countedFrom s.blockSize 0 front + 12)) bb := by
    rw [endFrom_append, ← lastBlock_keptPart positive]
    rfl
  have skip := endSkip_withBlocks s front (keptPart s.blockSize len front bb)
  rw [lastBlock_keptPart positive] at skip
  dsimp only
  rw [ends, countedFrom_concat, block_keptPart, recordBytes_keptPart positive, CutFits]
  rw [countedFrom_concat, BackedBlock.recordBytes] at exceeds
  dsimp only
  generalize countedFrom s.blockSize 0 front = counted at *
  generalize stopOf s.blockSize (len - (counted + 12)) bb * s.blockSize = stop at *
  have parts := Nat.div_add_mod' (len - (counted + 12)) s.blockSize
  have whole := @align_le s.blockSize positive bb.len ((len - (counted + 12)) / s.blockSize)
  generalize (len - (counted + 12)) / s.blockSize * s.blockSize = room at *
  by_cases outside : s.len < stop
  · exact iff_of_true (by omega) ⟨by omega, by omega⟩
  rw [skip (Nat.le_of_not_lt outside)]
  -- The sizes are known in each case: the kind of the chunk, the gap, the cut and the rest.
  generalize bb.backing.isFill = fill at *
  cases fill with
  | true =>
    simp only [↓reduceIte, Bool.true_eq_false, false_and, imp_false, forall_const] at exceeds ⊢
    split_ifs at exceeds ⊢ <;> omega
  | false =>
    simp only [Bool.false_eq_true, ↓reduceIte, true_and, IsEmpty.forall_iff, implies_true,
      and_true] at exceeds ⊢
    split_ifs at exceeds ⊢ <;> omega

end Cut

theorem mem_resparseLoop (outCount fuel : Nat) {state final : ResparseState}
    (returned : resparseLoop sources s maxLen outCount fuel state = some final)
    (piece : SparseFile) :
    piece ∈ final.out ↔ piece ∈ state.out ∨ ∃ n, state.c + n < outCount ∧
      ∃ left, After sources s maxLen state.input n left ∧
        piece = s.withBlocks (resparseRound sources s maxLen left).1 := by
  induction fuel generalizing state with
  | zero => cases returned
  | succ fuel ih =>
    cases round : resparseRound sources s maxLen state.input with
    | mk moved others =>
      obtain ⟨rest, more⟩ := others
      rw [resparseLoop_succ outCount fuel round] at returned
      have here : piece ∈ (state.step s outCount moved rest).out ↔
          piece ∈ state.out ∨ state.c < outCount ∧ piece = s.withBlocks moved := by
        unfold step
        split
        · rename_i fits
          simp [fits]
        · rename_i full
          simp [full]
      have count : (state.step s outCount moved rest).c = state.c + 1 := by
        unfold step
        split <;> rfl
      cases more with
      | false =>
        cases returned
        rw [here]
        refine or_congr_right ⟨?_, ?_⟩
        · rintro ⟨fits, rfl⟩
          exact ⟨0, fits, state.input, .start _, by rw [round]⟩
        · rintro ⟨n, fits, left, after, rfl⟩
          cases after with
          | start => exact ⟨fits, by rw [round]⟩
          | next again =>
            rw [round] at again
            cases again
      | true =>
        rw [ih returned, here, or_assoc]
        refine or_congr_right ⟨?_, ?_⟩
        · rintro (⟨fits, rfl⟩ | ⟨n, fits, left, after, rfl⟩)
          · exact ⟨0, fits, state.input, .start _, by rw [round]⟩
          · rw [step_input] at after
            exact ⟨n + 1, by omega, left, .next round after, rfl⟩
        · rintro ⟨n, fits, left, after, rfl⟩
          cases after with
          | start => exact .inl ⟨fits, by rw [round]⟩
          | @next m _ _ _ _ again after =>
            rw [round] at again
            cases again
            refine .inr ⟨m, by omega, left, ?_, rfl⟩
            rwa [step_input]

/-- One piece keeps to the limit, with a checksum exactly under the condition on its round. -/
theorem piece_le_iff (limit : SizeLimit s.blockSize maxLen) (crc : Bool) (left : List BackedBlock) :
    (∀ size, sparseFileLen sources (s.withBlocks (resparseRound sources s maxLen left).1) crc =
        some size → size ≤ maxLen) ↔ (crc = true → CrcFits s (roomFor maxLen) left) := by
  have positive := limit.positive
  have room : maxLen = roomFor maxLen + 56 := by
    have := limit.room
    rw [limit.roomFor_eq]
    omega
  have value : ∀ blocks : List BackedBlock,
      (∀ size, sparseFileLen sources (s.withBlocks blocks) crc = some size → size ≤ maxLen) ↔
        (endFrom s.blockSize 0 blocks * s.blockSize ≤ s.len →
        imageLen (s.withBlocks blocks) crc ≤ maxLen) := by
    intro blocks
    rw [sparseFileLen_eq sources (s.withBlocks blocks) positive]
    change (∀ size, (if s.len < endFrom s.blockSize 0 blocks * s.blockSize then none
      else some (imageLen (s.withBlocks blocks) crc)) = some size → _) ↔ _
    split
    · exact iff_of_true (fun _ nothing => by cases nothing) fun inside => by omega
    · constructor
      · exact fun all _ => all _ rfl
      · intro bound size same
        cases same
        exact bound (by omega)
  have lengths : ∀ blocks : List BackedBlock, imageLen (s.withBlocks blocks) crc =
      28 + countedFrom s.blockSize 0 blocks + 12 * (s.withBlocks blocks).endSkip.length +
        if crc then 16 else 0 := fun _ => rfl
  rw [value]
  cases round : resparseRound sources s maxLen left with
  | mk moved others =>
    obtain ⟨rest, more⟩ := others
    have last := length_endSkip_le (s.withBlocks moved)
    dsimp only
    rw [lengths]
    cases resparseRound_moved limit round with
    | all fits =>
      refine iff_of_true (fun _ => by split <;> omega) ?_
      intro _ front bb back split _ exceeds
      have := countedFrom_prefix s.blockSize (front ++ [bb]) back
      rw [append_assoc, singleton_append, ← split] at this
      omega
    | @left _ back bb split fits exceeds leaves =>
      subst split
      refine iff_of_true (fun _ => by split <;> omega) ?_
      intro _ front' bb' back' same fits' exceeds' cuts
      obtain ⟨rfl, rfl⟩ := overflow_unique same fits exceeds fits' exceeds'
      exact absurd cuts leaves
    | @cut front back bb split fits exceeds cuts =>
      subst split
      have space : countedFrom s.blockSize 0 front + 12 ≤ roomFor maxLen := by
        have := limit.roomy.room
        rcases cuts with rfl | eighth
        · simp only [countedFrom]
          omega
        · omega
      have kept : (backedBlockSplit s.blockSize bb
          (cutAt (roomFor maxLen) (countedFrom s.blockSize 0 front))).1 =
            keptPart s.blockSize (roomFor maxLen) front bb := by
        rw [cutAt_eq limit.roomy.small space, keptPart]
      rw [kept] at last ⊢
      have bound := countedFrom_kept_le bb positive space
      have fitting := kept_le_iff bb positive space exceeds
      dsimp only at fitting
      cases crc with
      | false =>
        refine iff_of_true (fun _ => ?_) fun vacant => by cases vacant
        rw [if_neg (by simp)]
        omega
      | true =>
        rw [if_pos rfl]
        constructor
        · intro small _ front' bb' back' same fits' exceeds' _
          obtain ⟨rfl, rfl⟩ := overflow_unique same fits exceeds fits' exceeds'
          exact fitting.mp fun inside => by have := small inside; omega
        · intro all inside
          have := fitting.mpr (all rfl front bb back rfl fits exceeds cuts) inside
          omega

/-- Without a checksum every piece keeps to the limit. With one they all do exactly when no
round that cuts a chunk uses more than 12 bytes above the room. -/
theorem sparseFileResparse_size_iff {fuel outCount count : Nat} {out : List SparseFile}
    {left : List BackedBlock} (limit : SizeLimit s.blockSize maxLen)
    (returned : sparseFileResparse fuel sources s maxLen outCount = some (count, out, left))
    (crc : Bool) :
    (∀ piece ∈ out, ∀ size, sparseFileLen sources piece crc = some size → size ≤ maxLen) ↔
      (crc = true → ∀ n, n < outCount → ∀ input, After sources s maxLen s.blocks n input →
        CrcFits s (roomFor maxLen) input) := by
  unfold sparseFileResparse at returned
  rw [Option.bind_eq_bind, Option.bind_eq_some_iff] at returned
  obtain ⟨final, looped, result⟩ := returned
  cases result
  have pieces := mem_resparseLoop outCount fuel looped
  constructor
  · intro small isCrc n below input after
    have member := (pieces _).mpr (.inr ⟨n, by simpa using below, input, after, rfl⟩)
    exact (piece_le_iff limit crc input).mp (small _ member) isCrc
  · intro fits piece member
    rcases (pieces piece).mp member with nothing | ⟨n, below, input, after, rfl⟩
    · cases nothing
    · exact (piece_le_iff limit crc input).mpr fun isCrc =>
        fits isCrc n (by simpa using below) input after

end Limit

/-- Five blocks of data behind a gap, of 4 bytes each. -/
def dataBehindGap : SparseFile := ⟨4, 40, ⟨[⟨1, 20, .data 0⟩], none, 4⟩⟩

/-- The header of the gap makes the piece too large by 12 bytes. -/
theorem sparseFileResparse_exceeds :
    SizeLimit dataBehindGap.blockSize 84 ∧
      ∃ count piece rest left, sparseFileResparse 2 zeroSources dataBehindGap 84 2 =
      some (count, piece :: rest, left) ∧
        sparseFileLen zeroSources piece true = some 96 :=
  ⟨⟨by decide, by decide, by decide⟩, 2, _, _, _, rfl, by decide⟩

theorem crcFits_singleton {s : SparseFile} {len : Nat} {bb : BackedBlock}
    (fits : len < countedFrom s.blockSize 0 [bb] → CutFits s len [] bb) :
    CrcFits s len [bb] := by
  intro front other back split _ exceeds _
  cases front with
  | nil =>
    cases split
    exact fits exceeds
  | cons => simp at split

/-- Three blocks of data behind a gap, of 16 bytes each, in an image of six. -/
def wideBlocks : SparseFile := ⟨16, 96, ⟨[⟨1, 48, .data 0⟩], none, 16⟩⟩

/-- Each of the two cuts leaves 12 bytes unused, for the header of the gap. -/
theorem sparseFileResparse_keeps_wide : ∃ out,
    sparseFileResparse 3 zeroSources wideBlocks 96 3 = some (3, out, []) ∧ out.length = 3 ∧
      ∀ piece ∈ out, ∀ size, sparseFileLen zeroSources piece true = some size → size ≤ 96 := by
  have limit : SizeLimit wideBlocks.blockSize 96 := ⟨by decide, by decide, by decide⟩
  have first : resparseRound zeroSources wideBlocks 96 wideBlocks.blocks =
    ([⟨1, 16, .data 0⟩], [⟨2, 32, .data 16⟩], true) := rfl
  have second : resparseRound zeroSources wideBlocks 96 [⟨2, 32, .data 16⟩] =
    ([⟨2, 16, .data 16⟩], [⟨3, 16, .data 32⟩], true) := rfl
  have third : resparseRound zeroSources wideBlocks 96 [⟨3, 16, .data 32⟩] =
    ([⟨3, 16, .data 32⟩], [], false) := rfl
  have returned : sparseFileResparse 3 zeroSources wideBlocks 96 3 = some (3,
    [wideBlocks.withBlocks [⟨1, 16, .data 0⟩], wideBlocks.withBlocks [⟨2, 16, .data 16⟩],
      wideBlocks.withBlocks [⟨3, 16, .data 32⟩]], []) := rfl
  refine ⟨_, returned, rfl, (sparseFileResparse_size_iff limit returned true).mpr ?_⟩
  intro _ n _ input after
  cases after with
  | start => exact crcFits_singleton (by decide)
  | next round after =>
    cases first.symm.trans round
    cases after with
    | start => exact crcFits_singleton (by decide)
    | next round after =>
      cases second.symm.trans round
      cases after with
      | start => exact crcFits_singleton (by decide)
      | next round => cases third.symm.trans round

end Aosp.Sparse
