import Mathlib.Data.BitVec
import Mathlib.Data.List.Basic

/- Loops that work through a length in pieces of limited size. -/
namespace Pieces

/-- The sizes `while (len) { n = min(len, limit); …; len -= n; }` goes through. Each round takes
at least one, so `fuel` rounds are enough for `len ≤ fuel`. -/
def sizesFrom (limit : Nat) : Nat → Nat → List Nat
  | 0, _ => []
  | fuel + 1, len =>
    if len = 0 then [] else min len limit :: sizesFrom limit fuel (len - min len limit)

def sizes (limit len : Nat) : List Nat := sizesFrom limit len len

variable {limit : Nat}

theorem le_of_mem_sizesFrom (fuel len : Nat) {size : Nat}
    (member : size ∈ sizesFrom limit fuel len) :
    size ≤ limit := by
  induction fuel generalizing len with
  | zero => cases member
  | succ fuel ih =>
    rw [sizesFrom] at member
    split at member
    · cases member
    · rcases List.mem_cons.mp member with rfl | later
      · exact min_le_right _ _
      · exact ih _ later

section

variable (positive : 0 < limit)

include positive

theorem sum_sizesFrom (fuel len : Nat) (enough : len ≤ fuel) :
    (sizesFrom limit fuel len).sum = len := by
  induction fuel generalizing len with
  | zero =>
    have empty : len = 0 := by omega
    rw [empty]
    rfl
  | succ fuel ih =>
    rw [sizesFrom]
    split
    · rename_i empty
      exact empty.symm
    · rw [List.sum_cons, ih _ (by omega)]
      omega

theorem sum_sizes (len : Nat) : (sizes limit len).sum = len :=
  sum_sizesFrom positive len len (le_refl _)

theorem pos_of_mem_sizesFrom (fuel len : Nat) {size : Nat}
    (member : size ∈ sizesFrom limit fuel len) :
    0 < size := by
  induction fuel generalizing len with
  | zero => cases member
  | succ fuel ih =>
    rw [sizesFrom] at member
    split at member
    · cases member
    · rcases List.mem_cons.mp member with rfl | later
      · omega
      · exact ih _ later

variable {σ : Type}

/-- A loop whose rounds can be joined after whole pieces is one round of the full length. -/
theorem foldl_sizesFrom (act : σ → Nat → σ)
    (joined : ∀ s k n, act (act s (k * limit)) n = act s (k * limit + n)) (fuel len k : Nat)
    (enough : len ≤ fuel) (s : σ) :
    (sizesFrom limit fuel len).foldl act (act s (k * limit)) = act s (k * limit + len) := by
  induction fuel generalizing len k with
  | zero =>
    have empty : len = 0 := by omega
    rw [empty]
    rfl
  | succ fuel ih =>
    rw [sizesFrom]
    split
    · rename_i empty
      rw [empty]
      rfl
    · rw [List.foldl_cons, joined]
      rcases le_total limit len with more | last
      · have whole : k * limit + min len limit = (k + 1) * limit := by
          rw [min_eq_right more, Nat.succ_mul]
        have rest : (k + 1) * limit + (len - min len limit) = k * limit + len := by
          omega
        rw [whole, ih (len - min len limit) (k + 1) (by omega), rest]
      · rw [min_eq_left last, Nat.sub_self]
        cases fuel <;> rfl

theorem foldl_sizes (act : σ → Nat → σ) (nothing : ∀ s, act s 0 = s)
    (joined : ∀ s k n, act (act s (k * limit)) n = act s (k * limit + n)) (len : Nat) (s : σ) :
    (sizes limit len).foldl act s = act s len := by
  have whole := foldl_sizesFrom positive act joined len len 0 (le_refl _) s
  rwa [zero_mul, nothing, zero_add] at whole

end

end Pieces
