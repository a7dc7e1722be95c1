import Aosp.Sparse.Splitting

/- The checksum of an image. The writer adds up what it writes, a fill chunk as one block and a gap
as nothing; the reader adds up what the chunks stand for. -/
namespace Aosp.Sparse

open List
open Layout (Byte Codec)

section Record

variable {header : SparseHeader} {st : ReadState} {handle : Nat} {front : List Byte}

end Record

section Covered

variable {blockSize : Nat} {bb : BackedBlock} {blocks parts pieces : List BackedBlock}

/-- A block that some chunk of the list stands for. -/
def Covered (blockSize : Nat) (blocks : List BackedBlock) (b : Nat) : Prop :=
  ∃ bb ∈ blocks, bb.Covers blockSize b

theorem Parts.covered (positive : 0 < blockSize) (cut : Parts blockSize bb parts) {b : Nat}
    (start : bb.block ≤ b) (stop : b < bb.block + bb.blocks blockSize) :
    Covered blockSize parts b := by
  induction cut with
  | whole bb => exact ⟨bb, mem_singleton_self _, start, stop⟩
  | @cut bb k parts inside _ ih =>
    have total := BackedBlock.blocks_behind positive inside
    have next : (bb.behind blockSize k).block = bb.block + k := rfl
    by_cases first : b < bb.block + k
    · refine ⟨_, mem_cons_self, start, ?_⟩
      rwa [show (bb.front blockSize k).blocks blockSize = k from divRoundUp_mul positive k]
    · obtain ⟨part, member, within⟩ := ih (by omega) (by omega)
      exact ⟨part, mem_cons_of_mem _ member, within⟩

/-- Cutting leaves no block out. -/
theorem Recut.covered (positive : 0 < blockSize) (cut : Recut blockSize blocks pieces) {b : Nat}
    (covered : Covered blockSize blocks b) :
    Covered blockSize pieces b := by
  induction cut with
  | nil => exact covered
  | @cons bb parts blocks recut first _ ih =>
    obtain ⟨found, member, start, stop⟩ := covered
    rcases mem_cons.mp member with rfl | later
    · obtain ⟨part, isPart, within⟩ := first.covered positive start stop
      exact ⟨part, mem_append_left _ isPart, within⟩
    · obtain ⟨piece, isPiece, within⟩ := ih ⟨found, later, start, stop⟩
      exact ⟨piece, mem_append_right _ isPiece, within⟩

end Covered

section Accepted

variable {sources : Sources} {blockSize : Nat}

variable {s : SparseFile} {handle : Nat}

-- Four bytes `0xff` take the register to zero, where the zeros of a gap leave it.
example : ∃ file, sparseFileWrite 1 zeroSources
      ((sparseFileNew 4 8).withBlocks [⟨0, 4, .fill 0xffffffff⟩]) true = some file ∧
    (sparseFileImport 3 file true).isSome = true := by
  refine ⟨_, rfl, ?_⟩
  decide +kernel

end Accepted

end Aosp.Sparse
