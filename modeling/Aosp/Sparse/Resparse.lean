import Aosp.Sparse.Chunks
import Aosp.Sparse.Parts

/- The rounds of `sparse_file_resparse`: what one call of `move_chunks_up_to_len` can do, and
what a whole run makes of the list of chunks. -/
namespace Aosp.Sparse

open List

section Counting

variable (blockSize : Nat)

/-- The size of the records of a list of chunks, with the gaps in front of them. -/
def countedFrom : Nat → List BackedBlock → Nat
  | _, [] => 0
  | lastBlock, bb :: rest =>
    (if lastBlock < bb.block then 12 else 0) + bb.recordBytes blockSize +
      countedFrom (bb.lastBlock blockSize) rest

theorem blockBytes_eq (sources : Sources) {dest : SparseFile} (positive : 0 < dest.blockSize)
    (bb : BackedBlock) :
    blockBytes sources dest bb = bb.recordBytes dest.blockSize := by
  unfold blockBytes
  dsimp only
  rw [sparseFileWriteBlock_eq, OutputFile.written_emit, length_append, Nat.add_sub_cancel_left,
    ← length_record sources positive]
  rfl

variable (lastBlock : Nat) (left right : List BackedBlock)

theorem endFrom_append : endFrom blockSize lastBlock (left ++ right) =
      endFrom blockSize (endFrom blockSize lastBlock left) right := by
  induction left generalizing lastBlock with
  | nil => rfl
  | cons bb rest ih => exact ih _

theorem countedFrom_append :
    countedFrom blockSize lastBlock (left ++ right) = countedFrom blockSize lastBlock left +
      countedFrom blockSize (endFrom blockSize lastBlock left) right := by
  induction left generalizing lastBlock with
  | nil => exact (zero_add _).symm
  | cons bb rest ih =>
    simp [countedFrom, endFrom, ih]
    omega

end Counting

/-- Where a chunk is cut that does not fit behind `counted` bytes, in `unsigned int`. -/
def cutAt (len counted : Nat) : Nat := (((len : Int) - (counted + 12 : Nat)) % 2 ^ 32).toNat

theorem cutAt_eq {len counted : Nat} (small : len < 2 ^ 32) (room : counted + 12 ≤ len) :
    cutAt len counted = len - (counted + 12) := by
  unfold cutAt
  omega

/-- A chunk that does not fit is cut if nothing is in front of it or an eighth of the room is
left. -/
def Cuts (len : Nat) (front : List BackedBlock) (counted : Nat) : Prop :=
  front = [] ∨ counted + 12 + len / 8 < len

/-- What a call of `move_chunks_up_to_len` does to the input: it moves everything, or it stops
at the first chunk that does not fit, which is cut or left where it is. -/
inductive Moved (blockSize len : Nat) (input : List BackedBlock) :
    List BackedBlock × List BackedBlock × Bool → Prop
  | all (fits : countedFrom blockSize 0 input ≤ len) : Moved blockSize len input (input, [], false)
  | cut {front back : List BackedBlock} {bb : BackedBlock} (split : input = front ++ bb :: back)
      (fits : countedFrom blockSize 0 front ≤ len)
      (exceeds : len < countedFrom blockSize 0 (front ++ [bb]))
      (cuts : Cuts len front (countedFrom blockSize 0 front)) :
      Moved blockSize len input
        (front ++ [(backedBlockSplit blockSize bb (cutAt len (countedFrom blockSize 0 front))).1],
          (backedBlockSplit blockSize bb (cutAt len (countedFrom blockSize 0 front))).2 ++
          back, true)
  | left {front back : List BackedBlock} {bb : BackedBlock} (split : input = front ++ bb :: back)
      (fits : countedFrom blockSize 0 front ≤ len)
      (exceeds : len < countedFrom blockSize 0 (front ++ [bb]))
      (leaves : ¬ Cuts len front (countedFrom blockSize 0 front)) :
      Moved blockSize len input (front, bb :: back, true)

section Round

variable (sources : Sources) {dest : SparseFile}

theorem moveLoop_moved (positive : 0 < dest.blockSize) (len : Nat) (taken rest : List BackedBlock)
    (fits : countedFrom dest.blockSize 0 taken ≤ len) :
    Moved dest.blockSize len (taken ++ rest)
      (moveLoop sources dest len (endFrom dest.blockSize 0 taken)
      (countedFrom dest.blockSize 0 taken) taken rest) := by
  induction rest generalizing taken with
  | nil =>
    rw [append_nil]
    exact .all fits
  | cons bb rest ih =>
    have counted : countedFrom dest.blockSize 0 (taken ++ [bb]) =
        countedFrom dest.blockSize 0 taken +
          ((if endFrom dest.blockSize 0 taken < bb.block then chunkHeaderLen else 0) +
            blockBytes sources dest bb) := by
      rw [countedFrom_append, blockBytes_eq sources positive]
      rfl
    have ends : endFrom dest.blockSize 0 (taken ++ [bb]) = bb.lastBlock dest.blockSize := by
      rw [endFrom_append]
      rfl
    rw [moveLoop]
    dsimp only
    rw [← counted]
    split
    · rename_i exceeds
      split
      · rename_i cuts
        refine .cut rfl fits exceeds ?_
        refine cuts.imp id fun room => ?_
        simp only [chunkHeaderLen] at room
        omega
      · rename_i leaves
        refine .left rfl fits exceeds fun cuts => leaves ?_
        refine cuts.imp id fun room => ?_
        simp only [chunkHeaderLen]
        omega
    · have next := ih (taken ++ [bb]) (by omega)
      rwa [ends, append_assoc] at next

end Round

/-- Chunks with contents, in the order of their blocks and without overlaps. -/
structure Cuttable (blockSize : Nat) (blocks : List BackedBlock) : Prop where
  filled : ∀ bb ∈ blocks, 0 < bb.len
  apart : blocks.Pairwise fun a b => a.block + a.blocks blockSize ≤ b.block
  fits : ∀ bb ∈ blocks, bb.Fits blockSize

/-- The room that the smallest size allowed leaves. -/
structure Roomy (blockSize len : Nat) : Prop where
  positive : 0 < blockSize
  room : 24 + blockSize ≤ len
  small : len < 2 ^ 32

/-- No chunk is cut in front of its first whole block: wherever the room runs out behind other
chunks, an eighth of it is not left, or a block fits. -/
def NoEmptyCut (blockSize len : Nat) (input : List BackedBlock) : Prop :=
  ∀ front bb back, input = front ++ bb :: back → front ≠ [] →
    countedFrom blockSize 0 front ≤ len → len < countedFrom blockSize 0 (front ++ [bb]) →
    countedFrom blockSize 0 front + 12 + len / 8 < len →
    blockSize ≤ len - (countedFrom blockSize 0 front + 12)

section Step

variable {blockSize len : Nat} {input moved rest front back : List BackedBlock} {bb : BackedBlock}
  {more : Bool}

theorem countedFrom_prefix (blockSize : Nat) (front back : List BackedBlock) :
    countedFrom blockSize 0 front ≤ countedFrom blockSize 0 (front ++ back) := by
  rw [countedFrom_append]
  exact Nat.le_add_right _ _

/-- There is one chunk at which the room runs out. -/
theorem overflow_unique {front' back' : List BackedBlock} {bb' : BackedBlock}
    (same : front ++ bb :: back = front' ++ bb' :: back')
    (fits : countedFrom blockSize 0 front ≤ len)
    (exceeds : len < countedFrom blockSize 0 (front ++ [bb]))
    (fits' : countedFrom blockSize 0 front' ≤ len)
    (exceeds' : len < countedFrom blockSize 0 (front' ++ [bb'])) :
    front = front' ∧ bb = bb' := by
  have shorter : ∀ (p q : List BackedBlock) (a : BackedBlock),
      countedFrom blockSize 0 (p ++ a :: q) ≤ len → ¬ len < countedFrom blockSize 0 (p ++ [a]) := by
    intro p q a below above
    have := countedFrom_prefix blockSize (p ++ [a]) q
    rw [append_assoc, singleton_append] at this
    omega
  rcases append_eq_append_iff.mp same with ⟨middle, rfl, tail⟩ | ⟨middle, rfl, tail⟩
  · cases middle with
    | nil =>
      cases tail
      exact ⟨(append_nil _).symm, rfl⟩
    | cons _ middle =>
      cases tail
      exact absurd exceeds (shorter _ _ _ fits')
  · cases middle with
    | nil =>
      cases tail
      exact ⟨append_nil _, rfl⟩
    | cons _ middle =>
      cases tail
      exact absurd exceeds' (shorter _ _ _ fits)

theorem split_cases (positive : 0 < blockSize) (fits : bb.Fits blockSize) (maxLen : Nat) :
    bb.len ≤ maxLen / blockSize * blockSize ∧ backedBlockSplit blockSize bb maxLen = (bb, []) ∨
      maxLen / blockSize * blockSize < bb.len ∧ backedBlockSplit blockSize bb maxLen =
        (bb.front blockSize (maxLen / blockSize), [bb.behind blockSize (maxLen / blockSize)]) := by
  rw [backedBlockSplit_eq positive fits]
  split
  · exact .inl ⟨‹_›, rfl⟩
  · exact .inr ⟨by omega, rfl⟩

/-- Nothing is lost and nothing changes its place. -/
theorem Moved.recut (positive : 0 < blockSize) (cuttable : Cuttable blockSize input)
    (step : Moved blockSize len input (moved, rest, more)) :
    Recut blockSize input (moved ++ rest) := by
  cases step with
  | all fits =>
    rw [append_nil]
    exact Recut.refl _
  | @cut front back bb split =>
    subst split
    have parts := backedBlockSplit_parts positive
      (cuttable.fits bb (mem_append_right _ mem_cons_self))
      (cutAt len (countedFrom blockSize 0 front))
    rw [append_assoc, singleton_append]
    exact (Recut.refl front).append (.cons parts (Recut.refl back))
  | left split =>
    subst split
    exact Recut.refl _

theorem Cuttable.tail (cuttable : Cuttable blockSize (front ++ back)) :
    Cuttable blockSize back where
  filled bb member := cuttable.filled bb (mem_append_right _ member)
  apart := (pairwise_append.mp cuttable.apart).2.1
  fits bb member := cuttable.fits bb (mem_append_right _ member)

theorem Cuttable.of_cons (cuttable : Cuttable blockSize (bb :: back)) :
    Cuttable blockSize back := by
  rw [← singleton_append] at cuttable
  exact cuttable.tail

theorem Cuttable.behind (positive : 0 < blockSize) (cuttable : Cuttable blockSize (bb :: back))
    {k : Nat} (inside : k * blockSize < bb.len) :
    Cuttable blockSize (bb.behind blockSize k :: back) := by
  have start : (bb.behind blockSize k).block = bb.block + k := rfl
  have total := BackedBlock.blocks_behind positive inside
  refine ⟨?_, ?_, ?_⟩
  · refine forall_mem_cons.mpr ⟨?_, fun other member =>
      cuttable.filled other (mem_cons_of_mem _ member)⟩
    change 0 < bb.len - k * blockSize
    omega
  · obtain ⟨first, later⟩ := pairwise_cons.mp cuttable.apart
    refine pairwise_cons.mpr ⟨fun other member => ?_, later⟩
    have := first other member
    omega
  · refine forall_mem_cons.mpr ⟨?_, fun other member =>
      cuttable.fits other (mem_cons_of_mem _ member)⟩
    have := cuttable.fits bb mem_cons_self
    unfold BackedBlock.Fits at this ⊢
    omega

theorem Moved.cuttable (positive : 0 < blockSize) (cuttable : Cuttable blockSize input)
    (step : Moved blockSize len input (moved, rest, more)) :
    Cuttable blockSize rest := by
  cases step with
  | all => exact ⟨by simp, List.Pairwise.nil, by simp⟩
  | @cut front back bb split =>
    subst split
    have own := cuttable.tail
    rcases split_cases positive (own.fits bb mem_cons_self)
      (cutAt len (countedFrom blockSize 0 front)) with ⟨_, result⟩ | ⟨inside, result⟩
    · rw [result]
      exact own.of_cons
    · rw [result]
      exact own.behind positive inside
  | left split =>
    subst split
    exact cuttable.tail

theorem Moved.ordered (positive : 0 < blockSize) (cuttable : Cuttable blockSize input)
    (step : Moved blockSize len input (moved, rest, more)) :
    ∀ a ∈ moved, ∀ b ∈ rest, a.block ≤ b.block := by
  cases step with
  | all => exact nofun
  | @cut front back bb split =>
    subst split
    obtain ⟨_, later, across⟩ := pairwise_append.mp cuttable.apart
    obtain ⟨first, _⟩ := pairwise_cons.mp later
    have fits := cuttable.fits bb (mem_append_right _ mem_cons_self)
    have start : ∀ k, (bb.behind blockSize k).block = bb.block + k := fun _ => rfl
    intro a inMoved b inRest
    -- the part that is moved starts where the chunk did, the part that stays not before it
    have lower : a.block ≤ bb.block := by
      rcases mem_append.mp inMoved with inFront | isKept
      · have := across a inFront bb mem_cons_self
        omega
      · rw [mem_singleton.mp isKept]
        rcases split_cases positive fits (cutAt len (countedFrom blockSize 0 front)) with
          ⟨_, result⟩ | ⟨_, result⟩
        · exact result ▸ le_refl _
        · exact result ▸ le_refl _
    have upper : bb.block ≤ b.block := by
      rcases mem_append.mp inRest with isBehind | inBack
      · rcases split_cases positive fits (cutAt len (countedFrom blockSize 0 front)) with
          ⟨_, result⟩ | ⟨_, result⟩
        · rw [result] at isBehind
          cases isBehind
        · rw [result] at isBehind
          have isPart := mem_singleton.mp isBehind
          rw [isPart]
          exact Nat.le_add_right _ _
      · have := first b inBack
        omega
    omega
  | @left front back bb split =>
    subst split
    intro a inFront b inRest
    have := (pairwise_append.mp cuttable.apart).2.2 a inFront b inRest
    omega

def totalLen (blocks : List BackedBlock) : Nat := (blocks.map BackedBlock.len).sum

theorem Moved.shrinks (roomy : Roomy blockSize len) (cuttable : Cuttable blockSize input)
    (step : Moved blockSize len input (moved, rest, true)) :
    totalLen rest < totalLen input := by
  have positive := roomy.positive
  have room := roomy.room
  have present : ∀ front : List BackedBlock, front ≠ [] → (∀ bb ∈ front, 0 < bb.len) →
      0 < totalLen front := by
    intro front nonempty filled
    obtain ⟨bb, rest, rfl⟩ := exists_cons_of_ne_nil nonempty
    have := filled bb mem_cons_self
    simp only [totalLen, map_cons, sum_cons]
    omega
  cases step with
  | @cut front back bb split fits exceeds cuts =>
    subst split
    have filled := cuttable.filled bb (mem_append_right _ mem_cons_self)
    have inFront : front ≠ [] → 0 < totalLen front := fun nonempty =>
      present front nonempty fun other member => cuttable.filled other (mem_append_left _ member)
    have whole : totalLen (front ++ bb :: back) = totalLen front + (bb.len + totalLen back) := by
      simp [totalLen]
    rcases split_cases positive (cuttable.fits bb (mem_append_right _ mem_cons_self))
      (cutAt len (countedFrom blockSize 0 front)) with ⟨_, result⟩ | ⟨inside, result⟩
    · simp [result]
      omega
    · have part : totalLen ([bb.behind blockSize
          (cutAt len (countedFrom blockSize 0 front) / blockSize)] ++ back) =
          bb.len - cutAt len (countedFrom blockSize 0 front) / blockSize * blockSize +
            totalLen back := by
        rfl
      rw [result, part]
      by_cases first : front = []
      · subst first
        have place : cutAt len (countedFrom blockSize 0 []) = len - 12 :=
          cutAt_eq roomy.small (by simp [countedFrom]; omega)
        have block : 1 ≤ (len - 12) / blockSize := (Nat.le_div_iff_mul_le positive).mpr (by omega)
        have := Nat.mul_le_mul_right blockSize block
        rw [place] at inside ⊢
        omega
      · have := inFront first
        omega
  | left split fits exceeds leaves =>
    subst split
    have nonempty : moved ≠ [] := fun nothing => leaves (.inl nothing)
    have := present moved nonempty fun other member =>
      cuttable.filled other (mem_append_left _ member)
    simp only [totalLen, map_append, sum_append] at this ⊢
    omega

/-- The pieces have contents exactly when no chunk is cut in front of its first block. -/
theorem Moved.filled_iff (roomy : Roomy blockSize len) (cuttable : Cuttable blockSize input)
    (step : Moved blockSize len input (moved, rest, more)) :
    (∀ bb ∈ moved, 0 < bb.len) ↔ NoEmptyCut blockSize len input := by
  have positive := roomy.positive
  have room := roomy.room
  cases step with
  | all fits =>
    refine iff_of_true cuttable.filled ?_
    intro front bb back split _ _ exceeds
    have := countedFrom_prefix blockSize (front ++ [bb]) back
    rw [append_assoc, singleton_append, ← split] at this
    omega
  | @cut front back bb split fits exceeds cuts =>
    subst split
    have own := cuttable.tail
    have filled : ∀ other ∈ front, 0 < other.len := fun other member =>
      cuttable.filled other (mem_append_left _ member)
    have here : NoEmptyCut blockSize len (front ++ bb :: back) ↔
        (front ≠ [] → countedFrom blockSize 0 front + 12 + len / 8 < len →
          blockSize ≤ len - (countedFrom blockSize 0 front + 12)) := by
      constructor
      · intro all nonempty eighth
        exact all front bb back rfl nonempty fits exceeds eighth
      · intro this front' bb' back' same nonempty fits' exceeds' eighth
        obtain ⟨rfl, rfl⟩ := overflow_unique same fits exceeds fits' exceeds'
        exact this nonempty eighth
    rw [here]
    -- the first chunk of a round always has room for a block
    have place : cutAt len (countedFrom blockSize 0 front) =
        len - (countedFrom blockSize 0 front + 12) := by
      apply cutAt_eq roomy.small
      rcases cuts with rfl | eighth
      · simp only [countedFrom]
        omega
      · omega
    have whole : blockSize ≤ len - (countedFrom blockSize 0 front + 12) ↔
        0 < cutAt len (countedFrom blockSize 0 front) / blockSize * blockSize := by
      rw [Nat.mul_pos_iff_of_pos_right positive, Nat.div_pos_iff]
      omega
    have enough : front = [] → blockSize ≤ len - (countedFrom blockSize 0 front + 12) := by
      rintro rfl
      simp only [countedFrom]
      omega
    rcases split_cases positive (own.fits bb mem_cons_self)
      (cutAt len (countedFrom blockSize 0 front)) with ⟨within, result⟩ | ⟨inside, result⟩
    · have contents := own.filled bb mem_cons_self
      refine iff_of_true ?_ fun _ _ => whole.mpr (by omega)
      rw [result]
      intro other member
      rcases mem_append.mp member with inFront | isBb
      · exact filled other inFront
      · cases mem_singleton.mp isBb
        exact contents
    · rw [result]
      constructor
      · intro all _ _
        exact whole.mpr (all _ (mem_append_right _ (mem_singleton_self _)))
      · intro this other member
        rcases mem_append.mp member with inFront | isPart
        · exact filled other inFront
        · cases mem_singleton.mp isPart
          refine whole.mp ?_
          rcases cuts with first | eighth
          · exact enough first
          · by_cases first : front = []
            · exact enough first
            · exact this first eighth
  | @left _ back bb split fits exceeds leaves =>
    subst split
    refine iff_of_true (fun other member =>
      cuttable.filled other (mem_append_left _ member)) ?_
    intro front' bb' back' same nonempty fits' exceeds' eighth
    obtain ⟨rfl, rfl⟩ := overflow_unique same fits exceeds fits' exceeds'
    exact absurd (.inr eighth) leaves

end Step

end Aosp.Sparse
