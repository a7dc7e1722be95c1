import Mathlib.Data.Set.CoeSort
import Aosp.Libutils.SortedVector
import Aosp.Libutils.Unicode

/- `String16::compare` of `String16.h` and `strzcmp16` of `Unicode.cpp`. -/
namespace Aosp.Libutils

open List Compare

/-- The units of the string, without the zero that ends its buffer. -/
abbrev String16 := List Char16

/-- `strzcmp16`. Behind the loop the longer string is the one with units left, and the first of them
is compared with zero. -/
def strzcmp16 : List Char16 → List Char16 → Int
  | x :: xs, y :: ys =>
    let d := (x.toNat : Int) - (y.toNat : Int)
    if d ≠ 0 then d else strzcmp16 xs ys
  | [], y :: _ => 0 - (y.toNat : Int)
  | x :: _, [] => (x.toNat : Int) - 0
  | [], [] => 0

namespace String16

def compare (lhs rhs : String16) : Int := strzcmp16 lhs rhs

variable (a b : String16)

/-- The second string goes on with a zero where the first one ends. -/
def NulBehind : Prop := ∃ rest, b = a ++ 0 :: rest

theorem compare_flip : compare b a = -compare a b := by
  unfold compare
  induction a generalizing b with
  | nil =>
    cases b with
    | nil => rfl
    | cons y ys =>
      simp only [strzcmp16]
      omega
  | cons x xs ih =>
    cases b with
    | nil =>
      simp only [strzcmp16]
      omega
    | cons y ys =>
      simp only [strzcmp16]
      rw [ih ys]
      split <;> split <;> omega

theorem nulBehind_cons (x : Char16) (xs : String16) (y : Char16) (ys : String16) :
    NulBehind (x :: xs) (y :: ys) ↔ x = y ∧ NulBehind xs ys := by
  constructor
  · rintro ⟨rest, same⟩
    rw [cons_append, List.cons.injEq] at same
    exact ⟨same.1.symm, rest, same.2⟩
  · rintro ⟨rfl, rest, rfl⟩
    exact ⟨rest, rfl⟩

theorem nulBehind_nil (y : Char16) (ys : String16) : NulBehind [] (y :: ys) ↔ y = 0 := by
  constructor
  · rintro ⟨rest, same⟩
    exact (List.cons.inj same).1
  · rintro rfl
    exact ⟨ys, rfl⟩

/-- Strings of different contents are equal where one goes on with a zero. -/
theorem compare_eq_zero (first : ¬ NulBehind a b) (second : ¬ NulBehind b a) :
    compare a b = 0 ↔ a = b := by
  unfold compare
  induction a generalizing b with
  | nil =>
    cases b with
    | nil => simp [strzcmp16]
    | cons y ys =>
      rw [nulBehind_nil] at first
      have nonzero : y.toNat ≠ 0 := fun zero => first (BitVec.eq_of_toNat_eq zero)
      simp only [strzcmp16, reduceCtorEq, iff_false]
      omega
  | cons x xs ih =>
    cases b with
    | nil =>
      rw [nulBehind_nil] at second
      have nonzero : x.toNat ≠ 0 := fun zero => second (BitVec.eq_of_toNat_eq zero)
      simp only [strzcmp16, reduceCtorEq, iff_false]
      omega
    | cons y ys =>
      rw [nulBehind_cons] at first second
      simp only [strzcmp16]
      by_cases same : x = y
      · subst same
        rw [if_neg (by omega), ih ys (by tauto) (by tauto), List.cons.injEq]
        tauto
      · have apart : x.toNat ≠ y.toNat := fun equal => same (BitVec.eq_of_toNat_eq equal)
        rw [List.cons.injEq]
        constructor
        · intro zero
          omega
        · intro both
          exact absurd both.1 same

/-- Apart from such strings, the comparison is the order of the units. -/
theorem compare_neg (first : ¬ NulBehind a b) : compare a b < 0 ↔ a < b := by
  unfold compare
  induction a generalizing b with
  | nil =>
    cases b with
    | nil => simp [strzcmp16]
    | cons y ys =>
      rw [nulBehind_nil] at first
      have nonzero : y.toNat ≠ 0 := fun zero => first (BitVec.eq_of_toNat_eq zero)
      simp only [strzcmp16, nil_lt_cons, iff_true]
      omega
  | cons x xs ih =>
    cases b with
    | nil =>
      simp only [strzcmp16, not_lt_nil, iff_false]
      omega
    | cons y ys =>
      rw [nulBehind_cons] at first
      simp only [strzcmp16]
      rw [cons_lt_cons_iff, BitVec.lt_def]
      by_cases same : x = y
      · subst same
        rw [if_neg (by omega), ih ys (by tauto)]
        simp
      · have apart : x.toNat ≠ y.toNat := fun equal => same (BitVec.eq_of_toNat_eq equal)
        simp only [same, false_and, or_false]
        omega

/-- On these keys the comparison is a total order that goes with equality, and sorted vectors of
such keys find exactly what they hold. -/
structure Ordered (keys : Set String16) : Prop where
  equal : ∀ a ∈ keys, ∀ b ∈ keys, compare a b = 0 ↔ a = b
  flip : ∀ a ∈ keys, ∀ b ∈ keys, (0 < compare a b ↔ compare b a < 0)
  trans : ∀ a ∈ keys, ∀ b ∈ keys, ∀ c ∈ keys, compare a b ≤ 0 → compare b c ≤ 0 → compare a c ≤ 0
  found : ∀ (added : List keys) (key : keys), (SortedVector.indexOf (fun a b : keys => compare a b)
      (SortedVector.mergeVector (fun a b : keys => compare a b) [] added) key).isSome ↔ key ∈ added

/-- No key goes on with a zero where another one ends. -/
def NoNulBehind (keys : Set String16) : Prop := ∀ a ∈ keys, ∀ b ∈ keys, ¬ NulBehind a b

variable {keys : Set String16}

theorem NoNulBehind.le_iff (apart : NoNulBehind keys) {a b : String16} (inA : a ∈ keys)
    (inB : b ∈ keys) :
    compare a b ≤ 0 ↔ a ≤ b := by
  have flip := compare_flip a b
  have neg := compare_neg b a (apart b inB a inA)
  rw [← List.not_lt, ← neg]
  omega

theorem NoNulBehind.totalPreorder (apart : NoNulBehind keys) :
    TotalPreorder fun a b : keys => compare a b where
  flip a b := by
    have flip := compare_flip (a : String16) b
    omega
  trans a b c first second := by
    rw [apart.le_iff a.2 b.2] at first
    rw [apart.le_iff b.2 c.2] at second
    rw [apart.le_iff a.2 c.2]
    exact List.le_trans first second

theorem compare_ordered_iff (keys : Set String16) : Ordered keys ↔ NoNulBehind keys := by
  constructor
  · rintro ordered a inA b inB ⟨rest, rfl⟩
    -- such strings are equal for the comparison
    have zero : compare a (a ++ 0 :: rest) = 0 := by
      unfold compare
      clear ordered inA inB
      induction a with
      | nil => rfl
      | cons x xs ih => simpa [strzcmp16] using ih
    have same := (ordered.equal a inA _ inB).mp zero
    simp at same
  · intro apart
    have exact (a b : keys) : compare a b = 0 → a = b := by
      intro zero
      exact Subtype.ext ((compare_eq_zero a b (apart a a.2 b b.2) (apart b b.2 a a.2)).mp zero)
    refine ⟨?_, ?_, ?_, SortedVector.indexOf_isSome_iff apart.totalPreorder exact⟩
    · intro a inA b inB
      exact compare_eq_zero a b (apart a inA b inB) (apart b inB a inA)
    · intro a _ b _
      have flip := compare_flip a b
      omega
    · intro a inA b inB c inC
      exact apart.totalPreorder.trans ⟨a, inA⟩ ⟨b, inB⟩ ⟨c, inC⟩

/-- The empty string is equal to every string that starts with a zero, though these are not equal,
and a vector with the one finds the other. -/
theorem compare_confuses_nul :
    compare [] [0] = 0 ∧ compare [0, 1] [] ≤ 0 ∧ compare [] [0] ≤ 0 ∧ 0 < compare [0, 1] [0] ∧
      SortedVector.indexOf compare (SortedVector.mergeVector compare [] [[]]) [0] = some 0 := by
  decide

end String16

end Aosp.Libutils
