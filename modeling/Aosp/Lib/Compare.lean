import Mathlib.Data.List.Basic

/- Comparison functions that return a negative number, zero or a positive number, lists sorted by
one of them, and binary search in such lists. -/
namespace Compare

open List

variable {α : Type}

/-- A comparison that goes with a total preorder. -/
structure TotalPreorder (compare : α → α → Int) : Prop where
  flip : ∀ a b, compare a b ≤ 0 ↔ 0 ≤ compare b a
  trans : ∀ a b c, compare a b ≤ 0 → compare b c ≤ 0 → compare a c ≤ 0

namespace TotalPreorder

variable {compare : α → α → Int} (order : TotalPreorder compare)

include order

theorem lt_iff (a b : α) : compare a b < 0 ↔ 0 < compare b a := by
  have := order.flip b a
  omega

theorem eq_iff (a b : α) : compare a b = 0 ↔ compare b a = 0 := by
  have := order.flip a b
  have := order.flip b a
  omega

theorem self (a : α) : compare a a = 0 := by
  have := order.flip a a
  omega

variable {a b c : α}

theorem lt_of_lt_of_le (first : compare a b < 0) (second : compare b c ≤ 0) : compare a c < 0 := by
  rw [order.lt_iff] at first ⊢
  apply Int.lt_of_not_ge
  intro back
  -- c ≤ a would bring b below a
  have := order.trans b c a second back
  omega

theorem lt_of_le_of_lt (first : compare a b ≤ 0) (second : compare b c < 0) : compare a c < 0 := by
  rw [order.lt_iff] at second ⊢
  apply Int.lt_of_not_ge
  intro back
  have := order.trans c a b back first
  omega

theorem eq_trans (first : compare a b = 0) (second : compare b c = 0) : compare a c = 0 := by
  have le := order.trans a b c (Int.le_of_eq first) (Int.le_of_eq second)
  have ge := order.trans c b a (Int.le_of_eq ((order.eq_iff b c).mp second))
    (Int.le_of_eq ((order.eq_iff a b).mp first))
  have := (order.flip c a).mp ge
  omega

end TotalPreorder

/-- Each element is at most the ones behind it. -/
def Sorted (compare : α → α → Int) (items : List α) : Prop :=
  items.Pairwise fun a b => compare a b ≤ 0

/-- Each element is below the ones behind it, so no two are equal. -/
def StrictlySorted (compare : α → α → Int) (items : List α) : Prop :=
  items.Pairwise fun a b => compare a b < 0

theorem StrictlySorted.sorted {compare : α → α → Int} {items : List α}
    (sorted : StrictlySorted compare items) :
    Sorted compare items :=
  sorted.imp Int.le_of_lt

section Search

/-- The loop of a binary search for the place where `sign` is zero: the place, if there is one, and
the position where the search ended. Only positions from `low` on and below `high` are looked at. -/
def searchFrom (sign : α → Int) (items : List α) : Nat → Nat → Nat → Option Nat × Nat
  | 0, low, _ => (none, low)
  | fuel + 1, low, high =>
    if low < high then
      let mid := low + (high - 1 - low) / 2
      match items[mid]? with
      | none => (none, low)
      | some item =>
        if sign item = 0 then (some mid, mid)
        else if sign item < 0 then searchFrom sign items fuel (mid + 1) high
        else searchFrom sign items fuel low mid
    else (none, low)

/-- Every round halves what is left, so the length is fuel enough. -/
def search (sign : α → Int) (items : List α) : Option Nat × Nat :=
  searchFrom sign items items.length 0 items.length

/-- The sign never gets smaller along the list. -/
def Rising (sign : α → Int) (items : List α) : Prop :=
  items.Pairwise fun a b => (0 ≤ sign a → 0 ≤ sign b) ∧ (0 < sign a → 0 < sign b)

/-- What a search finds. -/
structure Found (sign : α → Int) (items : List α) (result : Option Nat × Nat) : Prop where
  here : ∀ i, result.1 = some i → result.2 = i ∧ ∃ item, items[i]? = some item ∧ sign item = 0
  inside : result.2 ≤ items.length
  before : result.1 = none → ∀ item ∈ items.take result.2, sign item < 0
  behind : result.1 = none → ∀ item ∈ items.drop result.2, 0 < sign item

variable {sign : α → Int} {items : List α}

variable {mid : Nat} {item : α}

theorem Rising.before (rising : Rising sign items) (here : items[mid]? = some item)
    (below : sign item < 0) :
    ∀ other ∈ items.take (mid + 1), sign other < 0 := by
  intro other member
  rw [take_add_one, here, Option.toList_some, mem_append, mem_singleton] at member
  rcases member with earlier | rfl
  · -- an element in front is at most this one
    obtain ⟨inside, rfl⟩ := List.getElem?_eq_some_iff.mp here
    have pair : items = items.take mid ++ items[mid] :: items.drop (mid + 1) := by simp
    rw [Rising, pair, pairwise_append] at rising
    have := (rising.2.2 other earlier items[mid] mem_cons_self).1
    omega
  · exact below

theorem Rising.behind (rising : Rising sign items) (here : items[mid]? = some item)
    (above : 0 < sign item) :
    ∀ other ∈ items.drop mid, 0 < sign other := by
  intro other member
  obtain ⟨inside, rfl⟩ := List.getElem?_eq_some_iff.mp here
  rw [drop_eq_getElem_cons inside] at member
  rcases mem_cons.mp member with rfl | later
  · exact above
  · have pair : items = items.take mid ++ items[mid] :: items.drop (mid + 1) := by simp
    rw [Rising, pair, pairwise_append, pairwise_cons] at rising
    exact (rising.2.1.1 other later).2 above

/-- A search that ends between what is below and what is above. -/
theorem found_nothing {low : Nat} (inside : low ≤ items.length)
    (before : ∀ item ∈ items.take low, sign item < 0)
    (behind : ∀ item ∈ items.drop low, 0 < sign item) :
    Found sign items (none, low) where
  here := by
    intro i isSome
    cases isSome
  inside := inside
  before _ := before
  behind _ := behind

theorem found_searchFrom (rising : Rising sign items) (fuel low high : Nat)
    (enough : high ≤ low + fuel) (ordered : low ≤ high) (inside : high ≤ items.length)
    (before : ∀ item ∈ items.take low, sign item < 0)
    (behind : ∀ item ∈ items.drop high, 0 < sign item) :
    Found sign items (searchFrom sign items fuel low high) := by
  fun_induction searchFrom sign items fuel low high with
  | case1 low high =>
    have same : low = high := by omega
    exact found_nothing (by omega) before (same ▸ behind)
  | case2 fuel low high some mid missing =>
    rw [List.getElem?_eq_none_iff] at missing
    omega
  | case3 fuel low high some mid item here zero =>
    have below := (List.getElem?_eq_some_iff.mp here).1
    refine ⟨?_, Nat.le_of_lt below, ?_, ?_⟩
    · intro i isSome
      cases isSome
      exact ⟨rfl, item, here, zero⟩
    · intro isNone
      cases isNone
    · intro isNone
      cases isNone
  | case4 fuel low high some mid item here nonzero below ih =>
    exact ih (by omega) (by omega) inside (rising.before here below) behind
  | case5 fuel low high some mid item here nonzero notBelow ih =>
    exact ih (by omega) (by omega) (by omega) before (rising.behind here (by omega))
  | case6 fuel low high none =>
    have same : low = high := by omega
    exact found_nothing (by omega) before (same ▸ behind)

theorem found_search (rising : Rising sign items) : Found sign items (search sign items) := by
  apply found_searchFrom rising
  · omega
  · omega
  · omega
  · intro item member
    cases member
  · intro item member
    rw [drop_length] at member
    cases member

theorem rising_of_sorted {compare : α → α → Int} (order : TotalPreorder compare)
    (sorted : Sorted compare items) (item : α) :
    Rising (compare · item) items := by
  apply sorted.imp
  intro a b le
  constructor
  · intro high
    rw [← order.flip] at high ⊢
    exact order.trans item a b high le
  · intro high
    rw [← order.lt_iff] at high ⊢
    exact order.lt_of_lt_of_le high le

end Search

end Compare
