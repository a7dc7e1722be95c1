import Aosp.Sparse.ReadBack

namespace Aosp.Sparse

open List

/-- Chunks without a block in common. -/
def Apart (blockSize : Nat) (a b : BackedBlock) : Prop :=
  a.block + a.blocks blockSize ≤ b.block ∨ b.block + b.blocks blockSize ≤ a.block

section Queue

variable {blockSize : Nat} {bb new : BackedBlock} {parts nodes entries : List BackedBlock}

/-- Chunks in order, one of which may come next, are those below it and those above it. -/
theorem exists_split (cuttable : Cuttable blockSize nodes)
    (apart : ∀ bb ∈ nodes, Apart blockSize bb new) :
    ∃ left right, nodes = left ++ right ∧ (∀ bb ∈ left, bb.block + bb.blocks blockSize ≤
      new.block) ∧
      ∀ bb ∈ right, new.block + new.blocks blockSize ≤ bb.block := by
  induction nodes with
  | nil => exact ⟨[], [], rfl, forall_mem_nil _, forall_mem_nil _⟩
  | cons bb rest ih =>
    obtain ⟨here, others⟩ := forall_mem_cons.mp apart
    rcases here with below | above
    · obtain ⟨left, right, rfl, low, high⟩ := ih cuttable.of_cons others
      exact ⟨bb :: left, right, rfl, forall_mem_cons.mpr ⟨below, low⟩, high⟩
    · refine ⟨[], bb :: rest, rfl, forall_mem_nil _,
        forall_mem_cons.mpr ⟨above, fun next member => ?_⟩⟩
      have := cuttable.later next member
      omega

section Content

variable {sources : Sources} {blocks : List BackedBlock} {b : Nat}

/-- Among chunks without a block in common, the one that covers a block says what is in it. -/
theorem meaning_of_covers (apart : blocks.Pairwise (Apart blockSize)) (member : bb ∈ blocks)
    (covers : bb.Covers blockSize b) :
    meaning sources blockSize blocks b = bb.meaningAt sources blockSize (b - bb.block) := by
  induction blocks with
  | nil => cases member
  | cons first rest ih =>
    obtain ⟨here, later⟩ := pairwise_cons.mp apart
    rcases mem_cons.mp member with rfl | behind
    · exact if_pos covers
    · have outside : ¬ first.Covers blockSize b := by
        have between := here bb behind
        unfold Apart at between
        unfold BackedBlock.Covers at *
        omega
      exact (if_neg outside).trans (ih later behind)

theorem meaning_of_not_covers (outside : ∀ bb ∈ blocks, ¬ bb.Covers blockSize b) :
    meaning sources blockSize blocks b = .dontCare := by
  induction blocks with
  | nil => rfl
  | cons first rest ih =>
    obtain ⟨here, later⟩ := forall_mem_cons.mp outside
    exact (if_neg here).trans (ih later)

end Content

variable (positive : 0 < blockSize)

include positive

/-- There is no room between the parts of a chunk. -/
theorem Parts.apart (filled : 0 < new.blocks blockSize) (cut : Parts blockSize bb parts)
    (apart : ∀ part ∈ parts, Apart blockSize part new) :
    Apart blockSize bb new := by
  induction cut with
  | whole bb => exact apart bb (mem_singleton_self _)
  | @cut bb k parts inside _ ih =>
    obtain ⟨front, later⟩ := forall_mem_cons.mp apart
    have behind := ih later
    have total := BackedBlock.blocks_behind positive inside
    have start : (bb.behind blockSize k).block = bb.block + k := rfl
    unfold Apart at *
    rw [show (bb.front blockSize k).blocks blockSize = k from divRoundUp_mul positive k,
      show (bb.front blockSize k).block = bb.block from rfl] at front
    omega

theorem Recut.cuttable (cut : Recut blockSize nodes entries)
    (cuttable : Cuttable blockSize entries) :
    Cuttable blockSize nodes where
  filled := cut.passes (fun cut filled => by
    cases cut with
    | whole => exact filled _ (mem_singleton_self _)
    | cut inside => exact Nat.zero_lt_of_lt inside) cuttable.filled
  apart := cut.apart positive cuttable.apart
  fits := cut.passes (fun cut => cut.stop_le positive) cuttable.fits

/-- `merge_bb` with the next node, if there is one, leaves the same chunks up to cutting. -/
theorem mergeNext_recut (cuttable : Cuttable blockSize (bb :: nodes)) :
    ∃ merged tail,
    mergeNext blockSize bb nodes = some (merged, tail) ∧ Recut blockSize tail (bb :: nodes) := by
  cases nodes with
  | nil => exact ⟨false, [bb], rfl, Recut.refl _⟩
  | cons next rest =>
    have before := cuttable.later next mem_cons_self
    have filled := cuttable.blocks_pos positive mem_cons_self
    have number := cuttable.number positive (mem_cons_of_mem _ mem_cons_self :
      next ∈ bb :: next :: rest)
    rw [mergeNext_eq (by omega), joinedNodes]
    cases joined : mergeBb blockSize bb next with
    | none => exact ⟨false, bb :: next :: rest, rfl, Recut.refl _⟩
    | some merged =>
      obtain ⟨adjacent, -⟩ := mergeBb_eq_some joined
      -- The number of blocks is rounded down, so that a chunk with a part of a block is not
      -- adjacent.
      have floor : bb.len / blockSize ≤ bb.blocks blockSize := Nat.div_le_div_right (by omega)
      have ceiling : ¬ bb.len / blockSize < bb.blocks blockSize := by
        simp only [u32] at adjacent
        generalize bb.len / blockSize = n at adjacent floor ⊢
        omega
      rw [BackedBlock.blocks, lt_divRoundUp positive] at ceiling
      have whole : bb.len = bb.len / blockSize * blockSize := by
        have := Nat.div_mul_le_self bb.len blockSize
        omega
      have pair := joinedNodes_recut positive whole (by omega)
        (cuttable.filled next (mem_cons_of_mem _ mem_cons_self))
      rw [joinedNodes, joined] at pair
      exact ⟨true, merged :: rest, rfl, pair.append (Recut.refl rest)⟩

/-- `queue_bb` puts a chunk where it belongs, whatever node is remembered. -/
theorem queueBb_ordered (cuttable : Cuttable blockSize entries)
    (cut : Recut blockSize nodes entries) (filled : 0 < new.len) (fits : new.Fits blockSize)
    (apart : ∀ entry ∈ entries, Apart blockSize entry new) :
    ∃ front back nodes', entries = front ++ back ∧ Cuttable blockSize (front ++ new :: back) ∧
      Recut blockSize nodes' (front ++ new :: back) ∧
      ∀ lastUsed, ∃ used, queueBb ⟨nodes, lastUsed, blockSize⟩ new =
      some ⟨nodes', used, blockSize⟩ := by
  have size : 0 < new.blocks blockSize := (lt_divRoundUp positive).mpr (by omega)
  obtain ⟨left, right, rfl, low, high⟩ := exists_split (cut.cuttable positive cuttable)
    (cut.passes (fun cut => cut.apart positive size) apart)
  obtain ⟨front, back, rfl, cutLeft, cutRight⟩ := cut.split
  have inserted : Recut blockSize (left ++ new :: right) (front ++ new :: back) :=
    cutLeft.append (.cons (.whole new) cutRight)
  obtain ⟨inFront, inBack, across⟩ := pairwise_append.mp cuttable.apart
  have ordered : Cuttable blockSize (front ++ new :: back) := by
    refine ⟨fun entry member => ?_, pairwise_append.mpr
      ⟨inFront, pairwise_cons.mpr ⟨?_, inBack⟩, ?_⟩, fun entry member => ?_⟩
    · rcases mem_cons.mp (perm_middle.mem_iff.mp member) with rfl | old
      · exact filled
      · exact cuttable.filled entry old
    · intro entry member
      obtain ⟨bb, there, within⟩ := cutRight.bounds positive entry member
      exact le_trans (high bb there) within.1
    · intro entry member
      refine forall_mem_cons.mpr ⟨?_, across entry member⟩
      obtain ⟨bb, there, within⟩ := cutLeft.bounds positive entry member
      exact le_trans within.2 (low bb there)
    · exact forall_mem_cons.mpr ⟨fits, cuttable.fits⟩ entry (perm_middle.mem_iff.mp member)
  refine ⟨front, back, ?_⟩
  rcases eq_nil_or_concat left with rfl | ⟨init, last, rfl⟩
  · refine ⟨new :: right, rfl, ordered, inserted, fun lastUsed => ?_⟩
    cases right with
    | nil => exact ⟨lastUsed, rfl⟩
    | cons head tail =>
      have := high head mem_cons_self
      exact ⟨_, if_pos (by omega)⟩
  · rw [concat_eq_append] at *
    have whole := inserted.cuttable positive ordered
    obtain ⟨_, behind, isBehind, cutBehind⟩ := mergeNext_recut positive whole.tail
    have joined := ((Recut.refl _).append cutBehind).trans inserted
    rw [append_assoc, singleton_append] at joined
    obtain ⟨_, tail, isTail, cutTail⟩ := mergeNext_recut positive
      (joined.cuttable positive ordered).tail
    refine ⟨init ++ tail, rfl, ordered, ((Recut.refl init).append cutTail).trans joined,
      fun lastUsed => ?_⟩
    have below : ∀ bb ∈ init ++ [last], bb.block < new.block := fun bb member => by
      have := (cut.cuttable positive cuttable).blocks_pos positive (mem_append_left _ member)
      have := low bb member
      omega
    rw [queueBb_eq rfl below fun bb member => by have := high bb member; omega, isBehind,
      Option.bind_some, isTail]
    exact ⟨_, rfl⟩

/-- A list, and the chunks of the calls that come next, in the order of their blocks. -/
theorem queueAll_ordered (calls : List BackedBlock) (lastUsed : Option Nat)
    (cuttable : Cuttable blockSize entries) (cut : Recut blockSize nodes entries)
    (filled : ∀ new ∈ calls, 0 < new.len ∧ new.Fits blockSize)
    (apart : calls.Pairwise (Apart blockSize))
    (clear : ∀ new ∈ calls, ∀ entry ∈ entries, Apart blockSize entry new) :
    ∃ nodes' used entries', calls.foldlM queueBb ⟨nodes, lastUsed, blockSize⟩ =
      some ⟨nodes', used, blockSize⟩ ∧
      entries'.Perm (entries ++ calls) ∧ Cuttable blockSize entries' ∧
      Recut blockSize nodes' entries' := by
  induction calls generalizing nodes lastUsed entries with
  | nil => exact ⟨nodes, lastUsed, entries, rfl, by simp, cuttable, cut⟩
  | cons new calls ih =>
    obtain ⟨⟨contents, fits⟩, filled⟩ := forall_mem_cons.mp filled
    obtain ⟨first, apart⟩ := pairwise_cons.mp apart
    obtain ⟨here, clear⟩ := forall_mem_cons.mp clear
    obtain ⟨front, back, placed, rfl, ordered, cut, queued⟩ :=
      queueBb_ordered positive cuttable cut contents fits here
    obtain ⟨used, isQueued⟩ := queued lastUsed
    have others : ∀ call ∈ calls, ∀ entry ∈ front ++ new :: back, Apart blockSize entry call := by
      intro call member entry inList
      rcases mem_cons.mp (perm_middle.mem_iff.mp inList) with rfl | old
      · exact first call member
      · exact clear call member entry old
    obtain ⟨nodes', used, entries', rest, perm, done⟩ := ih used ordered cut filled apart others
    refine ⟨nodes', used, entries', ?_, ?_, done⟩
    · rw [foldlM_cons, isQueued]
      exact rest
    · refine perm.trans ?_
      rw [append_assoc, append_assoc]
      exact perm_middle.symm.append_left front

/-- The calls on an empty list: they all succeed, and every block holds what its call gave. -/
theorem queueAll_content (calls : List BackedBlock)
    (filled : ∀ new ∈ calls, 0 < new.len ∧ new.Fits blockSize)
    (apart : calls.Pairwise (Apart blockSize)) :
    ∃ nodes used entries,
      calls.foldlM queueBb (backedBlockListNew blockSize) = some ⟨nodes, used, blockSize⟩ ∧
      entries.Perm calls ∧ Cuttable blockSize entries ∧ Recut blockSize nodes entries ∧
      (∀ sources, ∀ call ∈ calls, ∀ b, call.Covers blockSize b →
        meaning sources blockSize nodes b = call.meaningAt sources blockSize (b - call.block)) ∧
      ∀ sources b, (∀ call ∈ calls, ¬ call.Covers blockSize b) →
        meaning sources blockSize nodes b = .dontCare := by
  obtain ⟨nodes, used, entries, done, perm, cuttable, cut⟩ := queueAll_ordered positive calls none
    ⟨forall_mem_nil _, .nil, forall_mem_nil _⟩ .nil filled apart fun _ _ => forall_mem_nil _
  rw [nil_append] at perm
  refine ⟨nodes, used, entries, done, perm, cuttable, cut, ?_, ?_⟩
  · intro sources call member b covers
    rw [← cut.meaning positive b]
    exact meaning_of_covers (cuttable.apart.imp .inl) (perm.mem_iff.mpr member) covers
  · intro sources b outside
    rw [← cut.meaning positive b]
    exact meaning_of_not_covers fun entry member => outside entry (perm.mem_iff.mp member)

/-- Chunks without a block in common can be queued in any order. The list is in order behind every
call, every block holds what its call gave and no other block anything, the node remembered does
not matter for the next call, and the blocks hold the same for every order of the calls. -/
theorem queueBb_order_independent (calls : List BackedBlock)
    (filled : ∀ new ∈ calls, 0 < new.len ∧ new.Fits blockSize)
    (apart : calls.Pairwise (Apart blockSize)) :
    ∃ bbl, calls.foldlM queueBb (backedBlockListNew blockSize) = some bbl ∧
      bbl.dataBlocks.Pairwise (fun a b => a.block < b.block) ∧
      (∀ sources, ∀ call ∈ calls, ∀ b, call.Covers blockSize b →
        meaning sources blockSize bbl.dataBlocks b =
        call.meaningAt sources blockSize (b - call.block)) ∧
      (∀ sources b, (∀ call ∈ calls, ¬ call.Covers blockSize b) →
        meaning sources blockSize bbl.dataBlocks b = .dontCare) ∧
      (∀ new, 0 < new.len → new.Fits blockSize → (∀ call ∈ calls, Apart blockSize call new) →
        ∃ nodes, ∀ hint, ∃ used,
          queueBb { bbl with lastUsed := hint } new = some ⟨nodes, used, blockSize⟩) ∧
      ∀ calls' : List BackedBlock, calls'.Perm calls →
        ∃ bbl', calls'.foldlM queueBb (backedBlockListNew blockSize) = some bbl' ∧
          ∀ sources b, meaning sources blockSize bbl'.dataBlocks b =
            meaning sources blockSize bbl.dataBlocks b := by
  obtain ⟨nodes, used, entries, done, perm, cuttable, cut, content, empty⟩ :=
    queueAll_content positive calls filled apart
  refine ⟨_, done, ?_, content, empty, fun new contents fits clear => ?_, fun calls' same => ?_⟩
  · have ordered := cut.cuttable positive cuttable
    refine ordered.apart.imp_of_mem fun member _ before => ?_
    have := ordered.blocks_pos positive member
    omega
  · obtain ⟨_, _, placed, -, -, -, isPlaced⟩ := queueBb_ordered positive cuttable cut contents fits
      fun entry member => clear entry (perm.mem_iff.mp member)
    exact ⟨placed, isPlaced⟩
  · obtain ⟨nodes', used', _, done', -, -, -, content', empty'⟩ := queueAll_content positive calls'
      (fun new member => filled new (same.mem_iff.mp member))
      ((same.pairwise_iff Or.symm).mpr apart)
    refine ⟨_, done', fun sources b => ?_⟩
    -- Both lists hold what the call gave that covers the block, if there is one.
    by_cases covered : ∃ call ∈ calls, call.Covers blockSize b
    · obtain ⟨call, member, covers⟩ := covered
      exact (content' sources call (same.mem_iff.mpr member) b covers).trans
        (content sources call member b covers).symm
    · have outside : ∀ call ∈ calls, ¬ call.Covers blockSize b := fun call member covers =>
        covered ⟨call, member, covers⟩
      exact (empty' sources b fun call member => outside call (same.mem_iff.mp member)).trans
        (empty sources b outside).symm

end Queue

/-- Two fills that are joined, and one more at the front. -/
theorem queueBb_order_independent_fills :
    ∃ bbl bbl' nodes,
    [⟨3, 4, .fill 7⟩, ⟨1, 8, .fill 7⟩].foldlM queueBb (backedBlockListNew 4) = some bbl ∧
    meaning zeroSources 4 bbl.dataBlocks 2 = .fill 7 ∧
    (∀ hint, ∃ used, queueBb { bbl with lastUsed := hint } ⟨0, 4, .fill 7⟩ =
    some ⟨nodes, used, 4⟩) ∧
    [⟨1, 8, .fill 7⟩, ⟨3, 4, .fill 7⟩].foldlM queueBb (backedBlockListNew 4) = some bbl' ∧
    ∀ sources b, meaning sources 4 bbl'.dataBlocks b = meaning sources 4 bbl.dataBlocks b := by
  obtain ⟨bbl, done, -, content, -, placed, same⟩ := queueBb_order_independent (by decide : 0 < 4)
    [⟨3, 4, .fill 7⟩, ⟨1, 8, .fill 7⟩] (by decide) (pairwise_pair.mpr (.inr (by decide)))
  have filled := content zeroSources ⟨1, 8, .fill 7⟩ (by simp) 2 (by decide)
  obtain ⟨nodes, isPlaced⟩ := placed ⟨0, 4, .fill 7⟩ (by decide) (by decide)
    (forall_mem_cons.mpr ⟨.inr (by decide), forall_mem_singleton.mpr (.inr (by decide))⟩)
  obtain ⟨bbl', done', equal⟩ := same _ (.swap _ _ [])
  exact ⟨bbl, bbl', nodes, done, filled, isPlaced, done', equal⟩

/-- A range of no blocks has none in common with any other. Where it names a block that another
call starts at, the assertion of `merge_bb` fails. -/
theorem queueBb_empty_asserts :
    [(⟨0, 4, .fill 7⟩ : BackedBlock), ⟨0, 0, .fill 7⟩].Pairwise (Apart 4) ∧
      [⟨0, 4, .fill 7⟩, ⟨0, 0, .fill 7⟩].foldlM queueBb (backedBlockListNew 4) = none :=
  ⟨pairwise_pair.mpr (.inr (by decide)), rfl⟩

end Aosp.Sparse
