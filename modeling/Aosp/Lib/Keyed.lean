import Mathlib.Data.List.Nodup

/- Lists whose elements have keys that are all different. -/
namespace Keyed

open List

variable {α κ : Type} {key : α → κ} {items : List α} {k : κ}

theorem unique_filter {p : α → Bool} (unique : (items.map key).Nodup) :
    ((items.filter p).map key).Nodup :=
  unique.sublist (filter_sublist.map key)

theorem map_modify {f : α → α} (keeps : ∀ a, key (f a) = key a) (i : Nat) :
    (items.modify i f).map key = items.map key := by
  induction items generalizing i with
  | nil => cases i <;> rfl
  | cons a rest ih =>
    cases i with
    | zero => simp [keeps]
    | succ i => simp [ih]

variable [DecidableEq κ]

/-- The place of the first element with the key. -/
def find (key : α → κ) (k : κ) (items : List α) : Option Nat := items.findIdx? fun a => key a = k

theorem find_eq_none : find key k items = none ↔ ∀ a ∈ items, key a ≠ k := by
  simp [find]

theorem find_isSome : find key k items ≠ none ↔ ∃ a ∈ items, key a = k := by
  simp [find_eq_none]

theorem eraseIdx_find {i : Nat} (unique : (items.map key).Nodup)
    (found : find key k items = some i) :
    items.eraseIdx i = items.filter fun a => key a ≠ k := by
  have erased : items.eraseIdx i = items.eraseP fun a => key a = k := by
    rw [eraseP_eq_eraseIdx]
    change _ = match find key k items with | none => items | some i => items.eraseIdx i
    rw [found]
  rw [erased]
  clear erased found
  induction items with
  | nil => rfl
  | cons a rest ih =>
    rw [map_cons, nodup_cons] at unique
    by_cases here : key a = k
    · have others : ∀ b ∈ rest, key b ≠ k := fun b member same =>
        unique.1 (mem_map.mpr ⟨b, member, same.trans here.symm⟩)
      rw [eraseP_cons_of_pos (by simpa using here), filter_cons_of_neg (by simpa using here)]
      exact (filter_eq_self.mpr fun b member => by simpa using others b member).symm
    · rw [eraseP_cons_of_neg (by simpa using here), filter_cons_of_pos (by simpa using here),
        ih unique.2]

theorem filter_of_find_eq_none (nothing : find key k items = none) :
    items.filter (fun a => key a ≠ k) = items :=
  filter_eq_self.mpr fun a member => by simpa using find_eq_none.mp nothing a member

/-- An element is added behind the ones with other keys. -/
theorem unique_concat (a : α) (unique : (items.map key).Nodup) :
    ((items.filter (fun b => key b ≠ key a) ++ [a]).map key).Nodup := by
  rw [map_append, nodup_append]
  refine ⟨unique_filter unique, by simp, ?_⟩
  intro k member k' last
  obtain ⟨b, kept, rfl⟩ := mem_map.mp member
  simp only [mem_filter, decide_eq_true_eq] at kept
  simp only [map_cons, map_nil, mem_singleton] at last
  rw [last]
  exact kept.2

/-- The elements of a part are removed by their keys, one after the other. -/
theorem foldl_remove (unique : (items.map key).Nodup) (p : α → Bool) :
    (items.filter p).foldl (fun left a => left.filter fun b => key b ≠ key a) items =
      items.filter fun a => !p a := by
  have all (chosen left : List α) : chosen.foldl
      (fun left a => left.filter fun b => key b ≠ key a) left =
        left.filter fun b => decide (∀ a ∈ chosen, key b ≠ key a) := by
    induction chosen generalizing left with
    | nil => simp
    | cons a rest ih =>
      rw [foldl_cons, ih]
      simp [Bool.and_comm]
  rw [all]
  apply filter_congr
  intro b member
  have inj : ∀ a ∈ items, key b = key a → b = a := fun a here =>
    inj_on_of_nodup_map unique member here
  cases chosen : p b with
  | true =>
    rw [decide_eq_false_iff_not.mpr]
    · rfl
    · intro apart
      exact apart b (mem_filter.mpr ⟨member, chosen⟩) rfl
  | false =>
    rw [decide_eq_true_iff.mpr]
    · rfl
    · intro a here same
      rw [mem_filter] at here
      rw [inj a here.1 same, here.2] at chosen
      cases chosen

end Keyed
