import Aosp.Sparse.SparseFile

/- Chunks cut at block boundaries. A list is recut when each of its chunks is replaced by parts
that follow each other; block by block the image stays the same. -/
namespace Aosp.Sparse

open List

section Rounding

variable {blockSize : Nat}

theorem divRoundUp_mul (positive : 0 < blockSize) (k : Nat) :
    divRoundUp (k * blockSize) blockSize = k := by
  rw [divRoundUp, show k * blockSize + blockSize - 1 = (blockSize - 1) + k * blockSize by omega,
    Nat.add_mul_div_right _ _ positive, Nat.div_eq_of_lt (by omega), zero_add]

/-- Whole blocks in front can be counted on their own. -/
theorem divRoundUp_add (positive : 0 < blockSize) (k rest : Nat) :
    divRoundUp (k * blockSize + rest) blockSize = k + divRoundUp rest blockSize := by
  rw [divRoundUp, divRoundUp,
    show k * blockSize + rest + blockSize - 1 = (rest + blockSize - 1) + k * blockSize by omega,
    Nat.add_mul_div_right _ _ positive, add_comm]

theorem lt_divRoundUp (positive : 0 < blockSize) {i len : Nat} :
    i < divRoundUp len blockSize ↔ i * blockSize < len := by
  rw [divRoundUp, Nat.lt_iff_add_one_le, Nat.le_div_iff_mul_le positive, Nat.succ_mul]
  omega

theorem align_le (positive : 0 < blockSize) {len k : Nat} (short : len ≤ k * blockSize) :
    align len blockSize ≤ k * blockSize := by
  rw [align, mul_comm]
  apply Nat.mul_le_mul_right
  apply Nat.le_of_not_lt
  rw [lt_divRoundUp positive]
  omega

end Rounding

namespace BackedBlock

variable (blockSize : Nat)

/-- The number of blocks a chunk covers. -/
def blocks (bb : BackedBlock) : Nat := divRoundUp bb.len blockSize

/-- The first `k` blocks of a chunk. -/
def front (k : Nat) (bb : BackedBlock) : BackedBlock := { bb with len := k * blockSize }

/-- What comes behind them. -/
def behind (k : Nat) (bb : BackedBlock) : BackedBlock :=
  ⟨bb.block + k, bb.len - k * blockSize, bb.backing.advance (k * blockSize)⟩

end BackedBlock

/-- The parts of a chunk that is cut any number of times. -/
inductive Parts (blockSize : Nat) : BackedBlock → List BackedBlock → Prop
  | whole (bb : BackedBlock) : Parts blockSize bb [bb]
  | cut {bb : BackedBlock} {k : Nat} {parts : List BackedBlock} (inside : k * blockSize < bb.len)
      (later : Parts blockSize (bb.behind blockSize k) parts) :
      Parts blockSize bb (bb.front blockSize k :: parts)

inductive Recut (blockSize : Nat) : List BackedBlock → List BackedBlock → Prop
  | nil : Recut blockSize [] []
  | cons {bb : BackedBlock} {parts blocks recut : List BackedBlock}
    (first : Parts blockSize bb parts)
      (later : Recut blockSize blocks recut) : Recut blockSize (bb :: blocks) (parts ++ recut)

section Composition

variable {blockSize : Nat}

theorem Backing.advance_advance (backing : Backing) (m n : Nat) :
    (backing.advance m).advance n = backing.advance (m + n) := by
  cases backing <;> simp only [Backing.advance, add_assoc]

theorem BackedBlock.behind_behind (bb : BackedBlock) (m n : Nat) :
    (bb.behind blockSize m).behind blockSize n = bb.behind blockSize (m + n) := by
  simp only [behind, Backing.advance_advance, add_mul, Nat.sub_sub, add_assoc]

theorem Recut.refl (blocks : List BackedBlock) : Recut blockSize blocks blocks := by
  induction blocks with
  | nil => exact .nil
  | cons bb rest ih => exact .cons (.whole bb) ih

variable {left right : List BackedBlock}

theorem Recut.append {left' right' : List BackedBlock} (first : Recut blockSize left left')
    (second : Recut blockSize right right') :
    Recut blockSize (left ++ right) (left' ++ right') := by
  induction first with
  | nil => exact second
  | cons parts _ ih =>
    rw [append_assoc]
    exact .cons parts ih

variable {bb : BackedBlock} {parts : List BackedBlock}

theorem Parts.recut (first : Parts blockSize bb parts) : Recut blockSize [bb] parts := by
  rw [← append_nil parts]
  exact .cons first .nil

theorem Parts.join {cutOff : BackedBlock} {k : Nat} {first second : List BackedBlock}
    (inside : k * blockSize < bb.len) (early : Parts blockSize cutOff first)
    (isFront : cutOff = bb.front blockSize k)
    (late : Parts blockSize (bb.behind blockSize k) second) :
    Parts blockSize bb (first ++ second) := by
  induction early generalizing bb k with
  | whole piece =>
    subst isFront
    exact .cut inside late
  | @cut piece j parts shorter _ ih =>
    subst isFront
    have within : j * blockSize < k * blockSize := shorter
    obtain ⟨n, rfl⟩ : ∃ n, k = j + n := ⟨k - j, by
      have := Nat.lt_of_mul_lt_mul_right within
      omega⟩
    rw [← BackedBlock.behind_behind] at late
    rw [add_mul] at inside within
    have room : n * blockSize < (bb.behind blockSize j).len := by
      change n * blockSize < bb.len - j * blockSize
      omega
    exact .cut (by omega) (ih room (by simp only [BackedBlock.front, BackedBlock.behind, add_mul,
      Nat.add_sub_cancel_left]) late)

variable {recut : List BackedBlock}

theorem Parts.trans (first : Parts blockSize bb parts) (later : Recut blockSize parts recut) :
    Parts blockSize bb recut := by
  induction first generalizing recut with
  | whole bb =>
    cases later with
    | cons parts rest =>
      cases rest
      rwa [append_nil]
  | cut inside _ ih =>
    cases later with
    | cons parts rest => exact Parts.join inside parts rfl (ih rest)

theorem Recut.split (both : Recut blockSize (left ++ right) recut) :
    ∃ left' right', recut = left' ++ right' ∧ Recut blockSize left left' ∧
      Recut blockSize right right' := by
  induction left generalizing recut with
  | nil => exact ⟨[], recut, rfl, .nil, both⟩
  | cons bb rest ih =>
    cases both with
    | @cons _ parts _ later first both =>
      obtain ⟨left', right', rfl, here, there⟩ := ih both
      exact ⟨parts ++ left', right', by simp, .cons first here, there⟩

theorem Recut.trans {blocks middle : List BackedBlock} (first : Recut blockSize blocks middle)
    (later : Recut blockSize middle recut) :
    Recut blockSize blocks recut := by
  induction first generalizing recut with
  | nil => exact later
  | cons parts _ ih =>
    obtain ⟨left, right, rfl, here, there⟩ := later.split
    exact .cons (parts.trans here) (ih there)

/-- The block numbers of a chunk are `unsigned int`s. -/
def BackedBlock.Fits (blockSize : Nat) (bb : BackedBlock) : Prop :=
  bb.block + bb.blocks blockSize ≤ 2 ^ 32

instance (blockSize : Nat) (bb : BackedBlock) : Decidable (bb.Fits blockSize) :=
  inferInstanceAs (Decidable (_ ≤ _))

variable {bb : BackedBlock}

section

variable (positive : 0 < blockSize)
include positive

theorem BackedBlock.blocks_behind {k : Nat} (inside : k * blockSize < bb.len) :
    k + (bb.behind blockSize k).blocks blockSize = bb.blocks blockSize := by
  rw [blocks, ← divRoundUp_add positive]
  congr 1
  change k * blockSize + (bb.len - k * blockSize) = bb.len
  omega

theorem backedBlockSplit_eq (fits : bb.Fits blockSize) (maxLen : Nat) :
    backedBlockSplit blockSize bb maxLen = if bb.len ≤ maxLen / blockSize * blockSize then (bb, [])
      else (bb.front blockSize (maxLen / blockSize),
      [bb.behind blockSize (maxLen / blockSize)]) := by
  unfold backedBlockSplit alignDown
  dsimp only
  rw [mul_comm blockSize]
  split
  · rfl
  · have inside : maxLen / blockSize * blockSize < bb.len := by omega
    have parts := BackedBlock.blocks_behind positive inside
    have filled : 0 < (bb.behind blockSize (maxLen / blockSize)).blocks blockSize := by
      rw [BackedBlock.blocks, lt_divRoundUp positive]
      change 0 * blockSize < bb.len - maxLen / blockSize * blockSize
      omega
    unfold BackedBlock.Fits at fits
    have small : u32 (bb.block + maxLen / blockSize) = bb.block + maxLen / blockSize :=
      Nat.mod_eq_of_lt (by omega)
    rw [Nat.mul_div_cancel _ positive, small]
    rfl

theorem backedBlockSplit_parts (fits : bb.Fits blockSize) (maxLen : Nat) :
    Parts blockSize bb ((backedBlockSplit blockSize bb maxLen).1 ::
      (backedBlockSplit blockSize bb maxLen).2) := by
  rw [backedBlockSplit_eq positive fits]
  split
  · exact .whole bb
  · exact .cut (by omega) (.whole _)

theorem Parts.bounds {parts : List BackedBlock} (cut : Parts blockSize bb parts) :
    ∀ part ∈ parts, bb.block ≤ part.block ∧
      part.block + part.blocks blockSize ≤ bb.block + bb.blocks blockSize := by
  induction cut with
  | whole bb =>
    intro part member
    cases mem_singleton.mp member
    exact ⟨le_refl _, le_refl _⟩
  | @cut bb k parts inside _ ih =>
    have total := BackedBlock.blocks_behind positive inside
    have start : (bb.behind blockSize k).block = bb.block + k := rfl
    intro part member
    rcases mem_cons.mp member with rfl | later
    · have size : (bb.front blockSize k).blocks blockSize = k := divRoundUp_mul positive k
      have same : (bb.front blockSize k).block = bb.block := rfl
      omega
    · have inRest := ih part later
      omega

end

variable {blocks pieces parts : List BackedBlock}

theorem Recut.exists_parts {piece : BackedBlock} (cut : Recut blockSize blocks pieces)
    (member : piece ∈ pieces) :
    ∃ bb ∈ blocks, ∃ parts, Parts blockSize bb parts ∧ piece ∈ parts := by
  induction cut with
  | nil => cases member
  | @cons bb parts blocks recut first _ ih =>
    rcases mem_append.mp member with part | later
    · exact ⟨bb, mem_cons_self, parts, first, part⟩
    · obtain ⟨other, there, found⟩ := ih later
      exact ⟨other, mem_cons_of_mem _ there, found⟩

theorem Recut.bounds (positive : 0 < blockSize) (cut : Recut blockSize blocks pieces) :
    ∀ piece ∈ pieces, ∃ bb ∈ blocks, bb.block ≤ piece.block ∧
      piece.block + piece.blocks blockSize ≤ bb.block + bb.blocks blockSize := by
  intro piece member
  obtain ⟨bb, there, parts, first, part⟩ := cut.exists_parts member
  exact ⟨bb, there, first.bounds positive piece part⟩

/-- Some part starts where the chunk starts, and some part ends where it ends. -/
theorem Parts.ends (positive : 0 < blockSize) (cut : Parts blockSize bb parts) :
    (∃ part ∈ parts, part.block = bb.block) ∧
      ∃ part ∈ parts, part.block + part.blocks blockSize = bb.block + bb.blocks blockSize := by
  induction cut with
  | whole bb => exact ⟨⟨bb, mem_singleton_self _, rfl⟩, bb, mem_singleton_self _, rfl⟩
  | @cut bb k parts inside _ ih =>
    obtain ⟨_, last, member, stop⟩ := ih
    refine ⟨⟨_, mem_cons_self, rfl⟩, last, mem_cons_of_mem _ member, ?_⟩
    have total := BackedBlock.blocks_behind positive inside
    have start : (bb.behind blockSize k).block = bb.block + k := rfl
    omega

theorem Parts.whole_of_parts (cut : Parts blockSize bb parts)
    (whole : ∀ part ∈ parts, 0 < part.len ∧ blockSize ∣ part.len) :
    0 < bb.len ∧ blockSize ∣ bb.len := by
  induction cut with
  | whole bb => exact whole bb (mem_singleton_self _)
  | @cut bb k parts inside _ ih =>
    obtain ⟨_, behind⟩ := ih (forall_mem_cons.mp whole).2
    have sum : bb.len = (bb.behind blockSize k).len + k * blockSize := by
      change bb.len = bb.len - k * blockSize + k * blockSize
      omega
    refine ⟨by omega, ?_⟩
    rw [sum]
    exact Nat.dvd_add behind (dvd_mul_left _ _)

theorem Parts.stop_le (positive : 0 < blockSize) {total : Nat} (cut : Parts blockSize bb parts)
    (inside : ∀ part ∈ parts, part.block + part.blocks blockSize ≤ total) :
    bb.block + bb.blocks blockSize ≤ total := by
  obtain ⟨_, last, isLast, stop⟩ := cut.ends positive
  exact stop ▸ inside last isLast

/-- Chunks have what passes from the parts of a chunk to it. -/
theorem Recut.passes {P : BackedBlock → Prop}
    (passes : ∀ {bb parts}, Parts blockSize bb parts → (∀ part ∈ parts, P part) → P bb)
    (cut : Recut blockSize blocks pieces) (holds : ∀ piece ∈ pieces, P piece) :
    ∀ bb ∈ blocks, P bb := by
  induction cut with
  | nil => exact forall_mem_nil _
  | cons first _ ih =>
    obtain ⟨here, later⟩ := forall_mem_append.mp holds
    exact forall_mem_cons.mpr ⟨passes first here, ih later⟩

theorem Recut.apart (positive : 0 < blockSize) (cut : Recut blockSize blocks pieces)
    (apart : pieces.Pairwise fun a b => a.block + a.blocks blockSize ≤ b.block) :
    blocks.Pairwise fun a b => a.block + a.blocks blockSize ≤ b.block := by
  induction cut with
  | nil => exact .nil
  | cons first later ih =>
    obtain ⟨_, apartRest, between⟩ := pairwise_append.mp apart
    obtain ⟨_, last, isLast, stop⟩ := first.ends positive
    refine pairwise_cons.mpr ⟨later.passes (fun cut behind => ?_) (stop ▸ between last isLast),
      ih apartRest⟩
    obtain ⟨⟨part, isPart, start⟩, _⟩ := cut.ends positive
    exact start ▸ behind part isPart

end Composition

end Aosp.Sparse
