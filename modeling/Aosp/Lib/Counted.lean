import Mathlib.Data.List.Basic
import Mathlib.Logic.Function.Basic

/- Reference counts against the owners they stand for. An owner is a slot that names a block of
memory or nothing; a block that is not allocated has the count zero. -/
namespace Counted

open List

variable {owners : List (Option Nat)} {refs : Nat → Nat} {i j b : Nat}

/-- Every count is the number of slots that name the block. -/
def Exact (owners : List (Option Nat)) (refs : Nat → Nat) : Prop :=
  ∀ b, refs b = owners.count (some b)

section

variable (exact : Exact owners refs)

include exact

theorem Exact.positive (owner : owners[i]? = some (some b)) : 0 < refs b := by
  rw [exact b]
  exact count_pos_iff.mpr (mem_of_getElem? owner)

theorem Exact.le_length (b : Nat) : refs b ≤ owners.length := by
  rw [exact b]
  exact count_le_length

theorem Exact.exists_owner (counted : 0 < refs b) : some b ∈ owners := by
  rw [exact b] at counted
  exact count_pos_iff.mp counted

theorem Exact.release (owner : owners[i]? = some (some b)) :
    Exact (owners.set i none) (Function.update refs b (refs b - 1)) := by
  obtain ⟨inside, here⟩ := List.getElem?_eq_some_iff.mp owner
  intro c
  rw [count_set inside, here]
  by_cases same : c = b
  · subst same
    simp [exact c]
  · simp [exact c, same, Ne.symm same]

theorem Exact.acquire (vacant : owners[i]? = some none) (b : Nat) :
    Exact (owners.set i (some b)) (Function.update refs b (refs b + 1)) := by
  obtain ⟨inside, here⟩ := List.getElem?_eq_some_iff.mp vacant
  intro c
  rw [count_set inside, here]
  by_cases same : c = b
  · subst same
    simp [exact c]
  · simp [exact c, same, Ne.symm same]

/-- Two slots that name one block are both counted. -/
theorem Exact.shared (owner : owners[i]? = some (some b)) (other : owners[j]? = some (some b))
    (distinct : i ≠ j) :
    refs b ≠ 1 := by
  intro only
  have still : (owners.set i none)[j]? = some (some b) := by
    rw [getElem?_set_ne distinct]
    exact other
  have counted := (exact.release owner).positive still
  rw [Function.update_self, only] at counted
  exact Nat.lt_irrefl 0 counted

end

end Counted
