import Aosp.Sparse.Resparse

namespace Aosp.Sparse

open List ResparseState

section Run

variable (sources : Sources) (s : SparseFile) (maxLen : Nat)

/-- What is left of the input after a number of rounds. -/
inductive After : List BackedBlock → Nat → List BackedBlock → Prop
  | start (input : List BackedBlock) : After input 0 input
  | next {n : Nat} {input moved rest left : List BackedBlock}
      (round : resparseRound sources s maxLen input = (moved, rest, true))
      (later : After rest n left) : After input (n + 1) left

/-- A run of the loop, with the pieces it makes. -/
inductive Rounds : List BackedBlock → List (List BackedBlock) → Prop
  | last {input moved rest : List BackedBlock}
      (round : resparseRound sources s maxLen input = (moved, rest, false)) : Rounds input [moved]
  | more {input moved rest : List BackedBlock} {pieces : List (List BackedBlock)}
      (round : resparseRound sources s maxLen input = (moved, rest, true))
      (later : Rounds rest pieces) : Rounds input (moved :: pieces)

end Run

/-- Sizes from the smallest that leaves room for one block. -/
structure SizeLimit (blockSize maxLen : Nat) : Prop where
  positive : 0 < blockSize
  room : 56 + 12 + 12 + blockSize ≤ maxLen
  small : maxLen < 2 ^ 32

section Facts

variable {sources : Sources} {s : SparseFile} {maxLen : Nat} {input : List BackedBlock}
  {pieces : List (List BackedBlock)}

theorem SizeLimit.roomFor_eq (limit : SizeLimit s.blockSize maxLen) :
    roomFor maxLen = maxLen - 56 := by
  have := limit.room
  have := limit.small
  simp only [roomFor, u32, sparseHeaderLen, chunkHeaderLen]
  omega

theorem SizeLimit.roomy (limit : SizeLimit s.blockSize maxLen) :
    Roomy s.blockSize (roomFor maxLen) := by
  have := limit.room
  have := limit.small
  refine ⟨limit.positive, ?_, ?_⟩
  · rw [limit.roomFor_eq]
    omega
  · rw [limit.roomFor_eq]
    omega

variable {moved rest : List BackedBlock} {more : Bool}

theorem resparseRound_moved (limit : SizeLimit s.blockSize maxLen)
    (round : resparseRound sources s maxLen input = (moved, rest, more)) :
    Moved s.blockSize (roomFor maxLen) input (moved, rest, more) := by
  have positive : 0 < (sparseFileNew s.blockSize s.len).blockSize := limit.positive
  rw [← round]
  exact moveLoop_moved sources positive _ [] _ (Nat.zero_le _)

/-- The loop ends: every round but the last moves some bytes. -/
theorem exists_rounds (limit : SizeLimit s.blockSize maxLen)
    (cuttable : Cuttable s.blockSize input) :
    ∃ pieces, Rounds sources s maxLen input pieces := by
  induction size : totalLen input using Nat.strongRecOn generalizing input with
  | ind size ih =>
    cases round : resparseRound sources s maxLen input with
    | mk moved others =>
      obtain ⟨rest, more⟩ := others
      have step := resparseRound_moved limit round
      cases more with
      | false => exact ⟨[moved], .last round⟩
      | true =>
        have smaller := step.shrinks limit.roomy cuttable
        obtain ⟨pieces, later⟩ := ih (totalLen rest) (size ▸ smaller)
          (step.cuttable limit.positive cuttable) rfl
        exact ⟨moved :: pieces, .more round later⟩

variable {blockSize : Nat}

theorem Moved.rest_eq_nil {len : Nat} (step : Moved blockSize len input (moved, rest, false)) :
    rest = [] := by
  cases step
  rfl

section

variable (limit : SizeLimit s.blockSize maxLen) (cuttable : Cuttable s.blockSize input)
  (run : Rounds sources s maxLen input pieces)

include limit cuttable run

theorem Rounds.recut : Recut s.blockSize input pieces.flatten := by
  induction run with
  | last round =>
    have step := resparseRound_moved limit round
    have whole := step.recut limit.positive cuttable
    rw [step.rest_eq_nil, append_nil] at whole
    rwa [flatten_singleton]
  | more round _ ih =>
    have step := resparseRound_moved limit round
    exact (step.recut limit.positive cuttable).trans
      ((Recut.refl _).append (ih (step.cuttable limit.positive cuttable)))

/-- The pieces among the first `n` have contents exactly when none of the first `n` rounds cuts
a chunk in front of its first block. -/
theorem Rounds.filled_iff (n : Nat) :
    (∀ piece ∈ pieces.take n, ∀ bb ∈ piece, 0 < bb.len) ↔ ∀ m, m < n →
      ∀ left, After sources s maxLen input m left →
        NoEmptyCut s.blockSize (roomFor maxLen) left := by
  induction run generalizing n with
  | @last input moved rest round =>
    have here := (resparseRound_moved limit round).filled_iff limit.roomy cuttable
    cases n with
    | zero => simp
    | succ n =>
      rw [take_succ_cons, take_nil, forall_mem_singleton, here]
      constructor
      · intro noCut m _ left after
        cases after with
        | start => exact noCut
        | next again =>
          rw [round] at again
          cases again
      · intro all
        exact all 0 (Nat.succ_pos n) input (.start input)
  | @more input moved rest pieces round _ ih =>
    have step := resparseRound_moved limit round
    have here := step.filled_iff limit.roomy cuttable
    have later := ih (step.cuttable limit.positive cuttable)
    cases n with
    | zero => simp
    | succ n =>
      rw [take_succ_cons, forall_mem_cons, here, later n]
      constructor
      · rintro ⟨noCut, others⟩ m below left after
        cases after with
        | start => exact noCut
        | next again after =>
          rw [round] at again
          cases again
          exact others _ (by omega) left after
      · intro all
        refine ⟨all 0 (Nat.succ_pos n) input (.start input), fun m below left after => ?_⟩
        exact all (m + 1) (by omega) left (.next round after)

end

/-- A segment that starts behind everything in a list is put at its end. -/
theorem backedBlockListMove_eq {segment dest : List BackedBlock}
    (behind : ∀ a ∈ dest, ∀ b ∈ segment, a.block ≤ b.block) :
    backedBlockListMove segment dest = dest ++ segment := by
  unfold backedBlockListMove
  split
  · simp
  · rename_i start _
    have lower : ∀ a ∈ dest, a.block ≤ start.block := fun a member =>
      behind a member start mem_cons_self
    clear behind
    induction dest with
    | nil => rfl
    | cons first rest ih =>
      cases rest with
      | nil => rfl
      | cons next rest =>
        have := lower next (mem_cons_of_mem _ mem_cons_self)
        rw [insertSegment, if_neg (by omega), cons_append, ih fun a member =>
          lower a (mem_cons_of_mem _ member)]

/-- The state of the loop when a run ends. -/
def ResparseState.finish (s : SparseFile) (outCount : Nat) (state : ResparseState)
    (pieces : List (List BackedBlock)) : ResparseState where
  input := []
  out := state.out ++ (pieces.take (outCount - state.c)).map s.withBlocks
  tmp := state.tmp ++ (pieces.drop (outCount - state.c)).flatten
  c := state.c + pieces.length

variable {state : ResparseState}

theorem resparseLoop_succ (outCount fuel : Nat)
    (round : resparseRound sources s maxLen state.input = (moved, rest, more)) :
    resparseLoop sources s maxLen outCount (fuel + 1) state =
      if more then resparseLoop sources s maxLen outCount fuel (state.step s outCount moved rest)
      else some (state.step s outCount moved rest) := by
  rw [resparseLoop, round]

/-- A piece that lies behind what has been put aside is put at its end. -/
theorem ResparseState.step_eq (outCount : Nat)
    (behind : ∀ a ∈ state.tmp, ∀ b ∈ moved, a.block ≤ b.block) :
    state.step s outCount moved rest = if state.c < outCount then
        { state with input := rest, out := state.out ++ [s.withBlocks moved], c := state.c + 1 }
      else { state with input := rest, tmp := state.tmp ++ moved, c := state.c + 1 } := by
  rw [step, backedBlockListMove_eq behind]

theorem ResparseState.step_finish (outCount : Nat) (rest : List BackedBlock)
    (behind : ∀ a ∈ state.tmp, ∀ b ∈ moved, a.block ≤ b.block) (pieces : List (List BackedBlock)) :
    (state.step s outCount moved rest).finish s outCount pieces =
      state.finish s outCount (moved :: pieces) := by
  rw [step_eq outCount behind]
  unfold finish
  split
  · have count : outCount - state.c = outCount - (state.c + 1) + 1 := by omega
    simp only [count, take_succ_cons, drop_succ_cons, map_cons, append_assoc,
      singleton_append, length_cons, mk.injEq, true_and]
    omega
  · have full : outCount - state.c = 0 := by omega
    have full' : outCount - (state.c + 1) = 0 := by omega
    simp only [full, full', take_zero, drop_zero,
      append_assoc, flatten_cons, length_cons, mk.injEq, true_and]
    omega

theorem ResparseState.step_input (outCount : Nat) (state : ResparseState)
    (moved rest : List BackedBlock) :
    (state.step s outCount moved rest).input = rest := by
  unfold step
  split <;> rfl

theorem ResparseState.finish_nil (s : SparseFile) (outCount : Nat) (state : ResparseState)
    (done : state.input = []) :
    state.finish s outCount [] = state := by
  cases state
  subst done
  simp [finish]

/-- The loop follows the run, and needs one round for each piece. -/
theorem resparseLoop_eq (limit : SizeLimit s.blockSize maxLen) (outCount fuel : Nat)
    (run : Rounds sources s maxLen state.input pieces)
    (cuttable : Cuttable s.blockSize state.input)
    (behind : ∀ a ∈ state.tmp, ∀ b ∈ state.input, a.block ≤ b.block) :
    resparseLoop sources s maxLen outCount fuel state =
      if pieces.length ≤ fuel then some (state.finish s outCount pieces) else none := by
  induction fuel generalizing state pieces with
  | zero =>
    have filled : 0 < pieces.length := by cases run <;> exact Nat.succ_pos _
    rw [if_neg (by omega)]
    rfl
  | succ fuel ih =>
    have first : ∀ {moved rest : List BackedBlock} {more : Bool},
        resparseRound sources s maxLen state.input = (moved, rest, more) →
        ∀ a ∈ state.tmp, ∀ b ∈ moved ++ rest, a.block ≤ b.block := by
      intro moved rest more round a inTmp b member
      have cut := (resparseRound_moved limit round).recut limit.positive cuttable
      obtain ⟨start, inInput, lower, -⟩ := cut.bounds limit.positive b member
      exact le_trans (behind a inTmp start inInput) lower
    cases run with
    | @last _ moved rest round =>
      have nothing := (resparseRound_moved limit round).rest_eq_nil
      have before : ∀ a ∈ state.tmp, ∀ b ∈ moved, a.block ≤ b.block := fun a inTmp b member =>
        first round a inTmp b (mem_append_left _ member)
      rw [resparseLoop_succ outCount fuel round, if_neg (by simp), if_pos (by simp),
        ← step_finish outCount rest before [],
        finish_nil _ _ _ (by rw [step_input, nothing])]
    | @more _ moved rest pieces round later =>
      have step := resparseRound_moved limit round
      have before : ∀ a ∈ state.tmp, ∀ b ∈ moved, a.block ≤ b.block := fun a inTmp b member =>
        first round a inTmp b (mem_append_left _ member)
      have behindRest : ∀ a ∈ (state.step s outCount moved rest).tmp,
          ∀ b ∈ (state.step s outCount moved rest).input, a.block ≤ b.block := by
        rw [step_input, step_eq outCount before]
        intro a inTmp b inRest
        split at inTmp
        · exact first round a inTmp b (mem_append_right _ inRest)
        · rcases mem_append.mp inTmp with old | new
          · exact first round a old b (mem_append_right _ inRest)
          · exact step.ordered limit.positive cuttable a new b inRest
      rw [resparseLoop_succ outCount fuel round, ih (by rwa [step_input])
          (by rw [step_input]; exact step.cuttable limit.positive cuttable)
          behindRest, step_finish outCount rest before]
      simp

theorem sparseFileResparse_eq (limit : SizeLimit s.blockSize maxLen)
    (cuttable : Cuttable s.blockSize s.blocks) (run : Rounds sources s maxLen s.blocks pieces)
    (fuel outCount : Nat) :
    sparseFileResparse fuel sources s maxLen outCount = if pieces.length ≤ fuel then
        some (pieces.length, (pieces.take outCount).map s.withBlocks,
        (pieces.drop outCount).flatten) else none := by
  unfold sparseFileResparse
  rw [resparseLoop_eq limit outCount fuel run cuttable fun _ nothing => absurd nothing not_mem_nil]
  split
  · have back : backedBlockListMove (pieces.drop outCount).flatten [] =
        (pieces.drop outCount).flatten :=
      backedBlockListMove_eq fun _ vacant => absurd vacant not_mem_nil
    simp [finish, back]
  · rfl

theorem flatMap_withBlocks (s : SparseFile) (pieces : List (List BackedBlock)) :
    (pieces.map s.withBlocks).flatMap SparseFile.blocks = pieces.flatten := by
  induction pieces with
  | nil => rfl
  | cons piece rest ih =>
    rw [map_cons, flatMap_cons, ih]
    rfl

end Facts

/-- What `sparse_file_resparse` is for: it ends, the pieces and what it puts back are the chunks
of the input cut at block boundaries, and no piece has an empty chunk. -/
structure Partitioned (fuel : Nat) (sources : Sources) (s : SparseFile)
  (maxLen outCount count : Nat) (out : List SparseFile) (left : List BackedBlock) : Prop where
  returned : sparseFileResparse fuel sources s maxLen outCount = some (count, out, left)
  number : out.length = min count outCount
  sizes : ∀ piece ∈ out, piece.blockSize = s.blockSize ∧ piece.len = s.len
  recut : Recut s.blockSize s.blocks (out.flatMap SparseFile.blocks ++ left)
  emptied : count ≤ outCount → left = []
  filled : ∀ piece ∈ out, ∀ bb ∈ piece.blocks, 0 < bb.len

/-- The image is partitioned exactly when no round cuts a chunk in front of its first block. -/
theorem sparseFileResparse_partitions_iff (sources : Sources) (s : SparseFile)
    (maxLen outCount : Nat) (limit : SizeLimit s.blockSize maxLen)
    (cuttable : Cuttable s.blockSize s.blocks) :
    (∃ fuel count out left, Partitioned fuel sources s maxLen outCount count out left) ↔
      ∀ n, n < outCount → ∀ left, After sources s maxLen s.blocks n left →
        NoEmptyCut s.blockSize (roomFor maxLen) left := by
  obtain ⟨pieces, run⟩ : ∃ pieces, Rounds sources s maxLen s.blocks pieces :=
    exists_rounds limit cuttable
  have result := sparseFileResparse_eq limit cuttable run
  rw [← run.filled_iff limit cuttable outCount]
  constructor
  · rintro ⟨fuel, count, out, left, partitioned⟩
    have returned := partitioned.returned
    rw [result] at returned
    split at returned
    · cases returned
      intro piece member bb inside
      exact partitioned.filled (s.withBlocks piece) (mem_map_of_mem member) bb inside
    · cases returned
  · intro filled
    refine ⟨pieces.length, pieces.length, (pieces.take outCount).map s.withBlocks,
      (pieces.drop outCount).flatten, ?_, ?_, ?_, ?_, ?_, ?_⟩
    · rw [result, if_pos (le_refl _)]
    · rw [length_map, length_take, min_comm]
    · intro piece member
      obtain ⟨blocks, _, rfl⟩ := mem_map.mp member
      exact ⟨rfl, rfl⟩
    · rw [flatMap_withBlocks, ← flatten_append, take_append_drop]
      exact run.recut limit cuttable
    · intro enough
      rw [drop_eq_nil_of_le enough]
      rfl
    · intro piece member
      obtain ⟨blocks, inside, rfl⟩ := mem_map.mp member
      exact filled blocks inside

/-- A block of fill and two blocks of data, of 16 bytes each. -/
def fillThenData : SparseFile :=
  ⟨16, 160, ⟨[⟨0, 16, .fill 7⟩, ⟨1, 32, .data 0⟩], none, 16⟩⟩

/-- The data alone. -/
def dataOnly : SparseFile := ⟨16, 160, ⟨[⟨1, 32, .data 0⟩], none, 16⟩⟩

theorem fillThenData_cuttable : Cuttable fillThenData.blockSize fillThenData.blocks :=
  ⟨by decide, by decide, by decide⟩

theorem dataOnly_cuttable : Cuttable dataOnly.blockSize dataOnly.blocks :=
  ⟨by decide, by decide, by decide⟩

/-- With little room left behind the fill, the data is cut in front of its first block. -/
theorem sparseFileResparse_empty_chunk :
    SizeLimit fillThenData.blockSize 96 ∧ Cuttable fillThenData.blockSize fillThenData.blocks ∧
      sparseFileResparse 3 zeroSources fillThenData 96 3 =
        some (3, [fillThenData.withBlocks [⟨0, 16, .fill 7⟩, ⟨1, 0, .data 0⟩],
          fillThenData.withBlocks [⟨1, 16, .data 0⟩], fillThenData.withBlocks [⟨2, 16, .data 16⟩]],
          []) ∧
      ¬ ∃ fuel count out left, Partitioned fuel zeroSources fillThenData 96 3 count out left := by
  have limit : SizeLimit fillThenData.blockSize 96 := ⟨by decide, by decide, by decide⟩
  have first : resparseRound zeroSources fillThenData 96 fillThenData.blocks =
      ([⟨0, 16, .fill 7⟩, ⟨1, 0, .data 0⟩], [⟨1, 32, .data 0⟩], true) := by decide
  have second : resparseRound zeroSources fillThenData 96 [⟨1, 32, .data 0⟩] =
      ([⟨1, 16, .data 0⟩], [⟨2, 16, .data 16⟩], true) := by decide
  have third : resparseRound zeroSources fillThenData 96 [⟨2, 16, .data 16⟩] =
      ([⟨2, 16, .data 16⟩], [], false) := by decide
  have run : Rounds zeroSources fillThenData 96 fillThenData.blocks
      [[⟨0, 16, .fill 7⟩, ⟨1, 0, .data 0⟩], [⟨1, 16, .data 0⟩], [⟨2, 16, .data 16⟩]] :=
    .more first (.more second (.last third))
  have result := sparseFileResparse_eq limit fillThenData_cuttable run
  refine ⟨limit, fillThenData_cuttable, result 3 3, ?_⟩
  rintro ⟨fuel, count, out, left, partitioned⟩
  have returned := partitioned.returned
  rw [result] at returned
  split at returned
  · cases returned
    exact absurd (partitioned.filled _ mem_cons_self ⟨1, 0, .data 0⟩ (by decide)) (by decide)
  · cases returned

theorem sparseFileResparse_partitions_data :
    ∃ fuel count out left, Partitioned fuel zeroSources dataOnly 96 2 count out left := by
  refine (sparseFileResparse_partitions_iff zeroSources dataOnly 96 2 ⟨by decide, by decide,
    by decide⟩ dataOnly_cuttable).mpr ?_
  intro n below left after
  -- there is never a chunk in front of the one that is cut
  have single : left.length ≤ 1 := by
    cases after with
    | start => decide
    | next round later =>
      cases round
      cases later with
      | start => decide
      | next => omega
  intro front bb back split nonempty
  have sizes := congrArg List.length split
  have filled := length_pos_of_ne_nil nonempty
  rw [length_append, length_cons] at sizes
  omega

end Aosp.Sparse
