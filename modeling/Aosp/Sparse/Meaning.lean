import Aosp.Sparse.Parts

namespace Aosp.Sparse

open List Backing
open Layout (Byte)

/-- A block of an image: its bytes, a fill value, or nothing that matters. -/
inductive Meaning where
  | data (bytes : List Byte)
  | fill (val : BitVec 32)
  | dontCare
deriving DecidableEq

section Definitions

variable (sources : Sources) (blockSize : Nat)

/-- The block at position `i` of a chunk; the last block of data is filled up with zeros. -/
def BackedBlock.meaningAt (bb : BackedBlock) (i : Nat) : Meaning :=
  match bb.backing with
  | .fill val => .fill val
  | _ => .data ((List.range blockSize).map fun k =>
    if i * blockSize + k < bb.len then bb.backing.byte sources (i * blockSize + k) else 0)

def BackedBlock.Covers (bb : BackedBlock) (b : Nat) : Prop :=
  bb.block ≤ b ∧ b < bb.block + bb.blocks blockSize

instance (bb : BackedBlock) (b : Nat) : Decidable (bb.Covers blockSize b) :=
  inferInstanceAs (Decidable (_ ∧ _))

/-- The block with number `b` of an image. -/
def meaning : List BackedBlock → Nat → Meaning
  | [], _ => .dontCare
  | bb :: rest, b =>
    if bb.Covers blockSize b then bb.meaningAt sources blockSize (b - bb.block) else meaning rest b

end Definitions

section Cutting

variable {sources : Sources} {blockSize : Nat}

theorem Backing.fill_or_data (backing : Backing) :
    (∃ val, backing = .fill val) ∨ backing.isFill = false := by
  cases backing with
  | fill val => exact .inl ⟨val, rfl⟩
  | _ => exact .inr rfl

theorem Backing.byte_advance {backing : Backing} (data : backing.isFill = false) (k i : Nat) :
    (backing.advance k).byte sources i = backing.byte sources (k + i) := by
  cases backing with
  | fill => cases data
  | _ => simp only [advance, byte, add_assoc]

variable {bb : BackedBlock}

theorem BackedBlock.meaningAt_fill {val : BitVec 32} (fill : bb.backing = .fill val) (i : Nat) :
    bb.meaningAt sources blockSize i = .fill val := by
  rw [meaningAt, fill]

theorem BackedBlock.meaningAt_data (data : bb.backing.isFill = false) (i : Nat) :
    bb.meaningAt sources blockSize i = .data ((List.range blockSize).map fun k =>
      if i * blockSize + k < bb.len then bb.backing.byte sources (i * blockSize + k) else 0) := by
  unfold meaningAt
  split
  · rename_i fill
    rw [fill] at data
    cases data
  · rfl

/-- The whole blocks in front of a cut are those of the chunk. -/
theorem BackedBlock.meaningAt_front {k i : Nat} (inside : k * blockSize < bb.len) (first : i < k) :
    (bb.front blockSize k).meaningAt sources blockSize i = bb.meaningAt sources blockSize i := by
  rcases bb.backing.fill_or_data with ⟨val, backing⟩ | kind
  · have same : (bb.front blockSize k).backing = .fill val := backing
    rw [meaningAt_fill backing, meaningAt_fill same]
  · rw [meaningAt_data kind, meaningAt_data (show (bb.front blockSize k).backing.isFill =
      false from kind)]
    congr 1
    apply map_congr_left
    intro j member
    have below := mem_range.mp member
    have whole : i * blockSize + blockSize ≤ k * blockSize := by
      rw [← Nat.succ_mul]
      exact Nat.mul_le_mul_right _ first
    have within : i * blockSize + j < k * blockSize := by omega
    rw [if_pos (show _ < (bb.front blockSize k).len from within), if_pos (by omega)]
    rfl

theorem BackedBlock.meaningAt_behind (k i : Nat) :
    (bb.behind blockSize k).meaningAt sources blockSize i =
      bb.meaningAt sources blockSize (k + i) := by
  rcases bb.backing.fill_or_data with ⟨val, backing⟩ | kind
  · have same : (bb.behind blockSize k).backing = .fill val := by
      rw [behind, backing]
      rfl
    rw [meaningAt_fill backing, meaningAt_fill same]
  · have same : (bb.behind blockSize k).backing.isFill = false := by
      cases backing : bb.backing <;> simp_all [behind, advance, isFill]
    rw [meaningAt_data kind, meaningAt_data same]
    congr 1
    apply map_congr_left
    intro j _
    have position : (k + i) * blockSize + j = k * blockSize + (i * blockSize + j) := by
      rw [add_mul]
      omega
    have bound : i * blockSize + j < (bb.behind blockSize k).len ↔
        (k + i) * blockSize + j < bb.len := by
      change _ < bb.len - k * blockSize ↔ _
      omega
    have byte : (bb.behind blockSize k).backing.byte sources (i * blockSize + j) =
        bb.backing.byte sources ((k + i) * blockSize + j) := by
      rw [position]
      exact byte_advance kind _ _
    simp [bound, byte]

theorem Parts.meaning (positive : 0 < blockSize) {parts : List BackedBlock}
    (cut : Parts blockSize bb parts) (rest : List BackedBlock) (b : Nat) :
    Sparse.meaning sources blockSize (parts ++ rest) b =
      Sparse.meaning sources blockSize (bb :: rest) b := by
  induction cut with
  | whole bb => rfl
  | @cut bb k parts inside _ ih =>
    have total := BackedBlock.blocks_behind positive inside
    have size : (bb.front blockSize k).blocks blockSize = k := divRoundUp_mul positive k
    rw [cons_append, Sparse.meaning, ih, Sparse.meaning, Sparse.meaning]
    have start : (bb.front blockSize k).block = bb.block := rfl
    have next : (bb.behind blockSize k).block = bb.block + k := rfl
    by_cases inFront : (bb.front blockSize k).Covers blockSize b
    · have covered := inFront
      unfold BackedBlock.Covers at covered
      have whole : bb.Covers blockSize b := ⟨by omega, by omega⟩
      rw [if_pos inFront, if_pos whole]
      exact BackedBlock.meaningAt_front inside (by omega)
    · rw [if_neg inFront]
      unfold BackedBlock.Covers at inFront
      by_cases inBehind : (bb.behind blockSize k).Covers blockSize b
      · have covered := inBehind
        unfold BackedBlock.Covers at covered
        have whole : bb.Covers blockSize b := ⟨by omega, by omega⟩
        rw [if_pos inBehind, if_pos whole, BackedBlock.meaningAt_behind]
        congr 1
        omega
      · have outside : ¬ bb.Covers blockSize b := by
          unfold BackedBlock.Covers at inBehind ⊢
          omega
        rw [if_neg inBehind, if_neg outside]

theorem Recut.meaning (positive : 0 < blockSize) {blocks recut : List BackedBlock}
    (cut : Recut blockSize blocks recut) (b : Nat) :
    Sparse.meaning sources blockSize recut b = Sparse.meaning sources blockSize blocks b := by
  induction cut with
  | nil => rfl
  | cons first _ ih => rw [first.meaning positive, Sparse.meaning, Sparse.meaning, ih]

end Cutting

end Aosp.Sparse
