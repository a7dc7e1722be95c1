import Aosp.Sparse.Meaning

/- `queue_bb` at the end of a list: a chunk behind all others is appended, or joined to the last
one, which is the same up to cutting. -/
namespace Aosp.Sparse

open List BackedBlock

/-- A list as an import leaves it: chunks of whole blocks that end at `stop` or before, with
the last one remembered or none. -/
structure Appendable (blockSize : Nat) (bbl : BackedBlockList) (stop : Nat) : Prop where
  size : bbl.blockSize = blockSize
  hint : bbl.lastUsed = none ∨ ∃ i, bbl.lastUsed = some i ∧ i + 1 = bbl.dataBlocks.length
  whole : ∀ bb ∈ bbl.dataBlocks, ∃ n, bb.len = n * blockSize
  below : ∀ bb ∈ bbl.dataBlocks, 0 < bb.len ∧ bb.block + bb.blocks blockSize ≤ stop

section Append

variable {blockSize : Nat} {bbl : BackedBlockList} {new : BackedBlock} {stop : Nat}

theorem searchFrom_eq {block : Nat} (i : Nat) {front back : List BackedBlock}
    (below : ∀ bb ∈ front, bb.block < block) (above : ∀ bb ∈ back, block < bb.block) :
    searchFrom block i (front ++ back) = i + front.length := by
  induction front generalizing i with
  | nil =>
    cases back with
    | nil => rfl
    | cons next rest => exact if_neg (lt_asymm (above next mem_cons_self))
  | cons next rest ih =>
    rw [cons_append, searchFrom, if_pos (below next mem_cons_self),
      ih (i + 1) fun bb member => below bb (mem_cons_of_mem _ member), length_cons]
    omega

variable {init back : List BackedBlock} {last : BackedBlock}

/-- Wherever the search starts, it ends at the last node below the new one. -/
theorem search_last (blocks : bbl.dataBlocks = init ++ [last] ++ back)
    (below : ∀ bb ∈ init ++ [last], bb.block < new.block)
    (above : ∀ bb ∈ back, new.block < bb.block) :
    searchFrom new.block (searchStart bbl new.block)
      (bbl.dataBlocks.drop (searchStart bbl new.block + 1)) = init.length := by
  have start : searchStart bbl new.block ≤ init.length := by
    unfold searchStart
    split
    · exact Nat.zero_le _
    · split
      · rename_i used found
        split
        · rename_i low
          by_contra far
          rw [blocks, getElem?_append_right (by simp; omega)] at found
          exact lt_asymm low (above used (mem_of_getElem? found))
        · exact Nat.zero_le _
      · exact Nat.zero_le _
  rw [blocks, drop_append_of_le_length (by simp; omega), searchFrom_eq _
    (fun bb member => below bb (mem_of_mem_drop member)) above, length_drop, length_append,
    length_singleton]
  omega

variable {merged : BackedBlock}

/-- What `merge_bb` tests, and what it makes of two nodes: the second one continues the contents
of the first, which grows. -/
theorem mergeBb_eq_some {a b : BackedBlock} (joined : mergeBb blockSize a b = some merged) :
    u32 (a.block + u32 (a.len / blockSize)) = b.block ∧ merged = { a with len := a.len + b.len } ∧
      b.backing = a.backing.advance a.len ∧ ∀ address, a.backing ≠ .data address := by
  unfold mergeBb at joined
  split at joined
  · cases joined
  · rename_i adjacent
    refine ⟨Decidable.not_not.mp adjacent, ?_⟩
    split at joined
    · rename_i val val' isA isB
      split at joined <;> cases joined
      rename_i same
      exact ⟨rfl, by rw [isA, isB, same]; rfl, fun _ isData => by rw [isA] at isData; cases isData⟩
    · rename_i filename offset filename' offset' isA isB
      split at joined <;> cases joined
      rename_i same
      refine ⟨rfl, ?_, fun _ isData => by rw [isA] at isData; cases isData⟩
      rw [isA, isB, same.1, ← same.2]
      rfl
    · rename_i handle offset handle' offset' isA isB
      split at joined <;> cases joined
      rename_i same
      refine ⟨rfl, ?_, fun _ isData => by rw [isA] at isData; cases isData⟩
      rw [isA, isB, same.1, ← same.2]
      rfl
    · cases joined

variable {n : Nat}

theorem mergeBb_parts (positive : 0 < blockSize) (whole : last.len = n * blockSize)
    (fits : last.block + n < 2 ^ 32) (joined : mergeBb blockSize last new = some merged) :
    last = merged.front blockSize n ∧ new = merged.behind blockSize n ∧
      merged.len = last.len + new.len := by
  obtain ⟨adjacent, rfl, continued, _⟩ := mergeBb_eq_some joined
  have next : last.block + n = new.block := by
    rw [← adjacent, whole, Nat.mul_div_cancel _ positive]
    simp only [u32]
    omega
  have rest : last.len + new.len - n * blockSize = new.len := by omega
  refine ⟨?_, ?_, rfl⟩
  · rw [front, ← whole]
  · rw [behind, rest, ← whole, ← continued, next]

/-- The nodes that the last one and the new one end up as. -/
def joinedNodes (blockSize : Nat) (last new : BackedBlock) : List BackedBlock :=
  match mergeBb blockSize last new with
  | some merged => [merged]
  | none => [last, new]

theorem mergeNext_eq (before : last.block < new.block) :
    mergeNext blockSize last (new :: back) =
    some ((mergeBb blockSize last new).isSome, joinedNodes blockSize last new ++ back) := by
  rw [mergeNext, if_pos before, joinedNodes]
  cases mergeBb blockSize last new <;> rfl

/-- `queue_bb` puts a node behind the nodes below it, and joins it to its neighbours. -/
theorem queueBb_eq (blocks : bbl.dataBlocks = init ++ [last] ++ back)
    (below : ∀ bb ∈ init ++ [last], bb.block < new.block)
    (above : ∀ bb ∈ back, new.block < bb.block) :
    queueBb bbl new = (mergeNext bbl.blockSize new back).bind fun behind =>
      (mergeNext bbl.blockSize last behind.2).map fun tail => { bbl with
        dataBlocks := init ++ tail.2
        lastUsed := some (if tail.1 then init.length else init.length + 1) } := by
  have found := search_last blocks below above
  have atLast : bbl.dataBlocks[init.length]? = some last := by simp [blocks]
  have behind : bbl.dataBlocks.drop (init.length + 1) = back := by simp [blocks]
  have front : bbl.dataBlocks.take init.length = init := by simp [blocks]
  unfold queueBb
  split
  · rename_i nothing
    simp [nothing] at blocks
  · rename_i head tail isCons
    have first : ¬ new.block < head.block := by
      cases init with
      | nil =>
        cases isCons.symm.trans blocks
        exact lt_asymm (below _ mem_cons_self)
      | cons =>
        cases isCons.symm.trans blocks
        exact lt_asymm (below _ mem_cons_self)
    rw [if_neg first]
    dsimp only
    rw [found, atLast, behind, front]
    simp only [Option.map_eq_bind]
    rfl

variable {m : Nat}

theorem joinedNodes_recut (positive : 0 < blockSize) (whole : last.len = m * blockSize)
    (fits : last.block + m < 2 ^ 32) (contents : 0 < new.len) :
    Recut blockSize (joinedNodes blockSize last new) [last, new] := by
  unfold joinedNodes
  split
  · rename_i merged joined
    obtain ⟨isFront, isBehind, total⟩ := mergeBb_parts positive whole fits joined
    have inside : m * blockSize < merged.len := by omega
    have rest : Parts blockSize (merged.behind blockSize m) [new] := by
      rw [← isBehind]
      exact .whole new
    have parts := Parts.cut inside rest
    rw [← isFront] at parts
    exact parts.recut
  · exact Recut.refl _

theorem queueBb_append (positive : 0 < blockSize) (list : Appendable blockSize bbl stop)
    (later : stop ≤ new.block) (fits : new.block < 2 ^ 32) (whole : new.len = n * blockSize)
    (nonempty : 0 < n) :
    ∃ bbl', queueBb bbl new = .some bbl' ∧ Appendable blockSize bbl' (new.block + n) ∧
      ∀ entries, Recut blockSize bbl.dataBlocks entries →
      Recut blockSize bbl'.dataBlocks (entries ++ [new]) := by
  have contents : 0 < new.len := by
    rw [whole]
    exact Nat.mul_pos nonempty positive
  have newBlocks : new.blocks blockSize = n := by
    rw [blocks, whole, divRoundUp_mul positive]
  have below : ∀ bb ∈ bbl.dataBlocks, bb.block < new.block := by
    intro bb member
    obtain ⟨filled, ends⟩ := list.below bb member
    have : 0 < bb.blocks blockSize := (lt_divRoundUp positive).mpr (by omega)
    omega
  rcases eq_nil_or_concat bbl.dataBlocks with nothing | ⟨init, last, isLast⟩
  · refine ⟨{ bbl with dataBlocks := [new] }, ?_, ?_, ?_⟩
    · rw [queueBb, nothing]
    · refine ⟨list.size, ?_, ?_, ?_⟩
      · rcases list.hint with unused | ⟨i, _, wrong⟩
        · exact .inl unused
        · rw [nothing] at wrong
          cases wrong
      · intro bb member
        cases mem_singleton.mp member
        exact ⟨n, whole⟩
      · intro bb member
        cases mem_singleton.mp member
        exact ⟨contents, by omega⟩
    · intro entries cut
      rw [nothing] at cut
      cases cut
      exact Recut.refl _
  · rw [concat_eq_append] at isLast
    have inList : last ∈ bbl.dataBlocks := by
      rw [isLast]
      exact mem_append_right _ (mem_singleton_self _)
    obtain ⟨m, lastWhole⟩ := list.whole last inList
    obtain ⟨_, lastEnds⟩ := list.below last inList
    have lastBlocks : last.blocks blockSize = m := by
      rw [blocks, lastWhole, divRoundUp_mul positive]
    have size := list.size
    have queued := queueBb_eq (isLast.trans (append_nil _).symm) (isLast ▸ below) (forall_mem_nil _)
    rw [mergeNext, Option.bind_some, mergeNext_eq (below last inList), append_nil] at queued
    have recut : ∀ entries, Recut blockSize bbl.dataBlocks entries →
        Recut blockSize (init ++ joinedNodes bbl.blockSize last new) (entries ++ [new]) := by
      intro entries cut
      rw [isLast] at cut
      obtain ⟨left, right, rfl, here, there⟩ := cut.split
      rw [size, append_assoc]
      refine here.append ?_
      have both : Recut blockSize [last, new] (right ++ [new]) := there.append (Recut.refl [new])
      exact (joinedNodes_recut positive lastWhole (by omega) contents).trans both
    have nodes := (recut _ (Recut.refl _)).passes
      (P := fun bb => (0 < bb.len ∧ blockSize ∣ bb.len) ∧
      bb.block + bb.blocks blockSize ≤ new.block + n)
      (fun cut holds => ⟨cut.whole_of_parts fun part member => (holds part member).1,
        cut.stop_le positive fun part member => (holds part member).2⟩)
      (forall_mem_append.mpr ⟨fun bb member => by
        obtain ⟨filled, ends⟩ := list.below bb member
        obtain ⟨k, isWhole⟩ := list.whole bb member
        exact ⟨⟨filled, k, isWhole.trans (mul_comm _ _)⟩, by omega⟩,
      forall_mem_singleton.mpr ⟨⟨contents, n, whole.trans (mul_comm _ _)⟩, by omega⟩⟩)
    refine ⟨_, queued, ⟨size, .inr ⟨_, rfl, ?_⟩, fun bb member => ?_, fun bb member => ?_⟩, recut⟩
    · rw [length_append, joinedNodes]
      cases mergeBb bbl.blockSize last new <;> rfl
    · obtain ⟨k, isWhole⟩ := (nodes bb member).1.2
      exact ⟨k, isWhole.trans (mul_comm _ _)⟩
    · exact ⟨(nodes bb member).1.1, (nodes bb member).2⟩

end Append

end Aosp.Sparse
