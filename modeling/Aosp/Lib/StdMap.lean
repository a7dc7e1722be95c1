import Mathlib.Order.Lattice
import Mathlib.Data.List.Basic

/- An ordered map as the list of its entries; `List.lookup` finds a key. -/
namespace StdMap

variable {κ α : Type} [LinearOrder κ]

/-- `map[key] = value`. -/
def put (key : κ) (value : α) : List (κ × α) → List (κ × α)
  | [] => [(key, value)]
  | (k, v) :: rest =>
    if key < k then (key, value) :: (k, v) :: rest
    else if key = k then (key, value) :: rest
    else (k, v) :: put key value rest

def erase (key : κ) (map : List (κ × α)) : List (κ × α) := map.filter fun entry => entry.1 ≠ key

theorem lookup_cons (key k : κ) (v : α) (rest : List (κ × α)) :
    List.lookup key ((k, v) :: rest) = if key = k then some v else List.lookup key rest := by
  rw [List.lookup_cons]
  by_cases same : key = k
  · simp [same]
  · have apart : (key == k) = false := beq_false_of_ne same
    simp [apart, same]

theorem lookup_put (key other : κ) (value : α) (map : List (κ × α)) :
    List.lookup other (put key value map) = if other = key then some value
      else List.lookup other map := by
  induction map with
  | nil => simp [put, lookup_cons]
  | cons entry rest ih =>
    obtain ⟨k, v⟩ := entry
    unfold put
    split
    · rw [lookup_cons]
    · split
      · rename_i same
        subst same
        simp only [lookup_cons]
        split <;> rfl
      · rename_i apart
        simp only [lookup_cons, ih]
        by_cases here : other = k
        · subst here
          simp [Ne.symm apart]
        · simp [here]

theorem lookup_erase (key other : κ) (map : List (κ × α)) :
    List.lookup other (erase key map) = if other = key then none else List.lookup other map := by
  unfold erase
  induction map with
  | nil => simp
  | cons entry rest ih =>
    obtain ⟨k, v⟩ := entry
    by_cases gone : k = key
    · subst gone
      rw [List.filter_cons_of_neg (by simp), ih, lookup_cons]
      split <;> rfl
    · rw [List.filter_cons_of_pos (by simpa using gone), lookup_cons, lookup_cons, ih]
      by_cases here : other = k
      · subst here
        simp [gone]
      · simp [here]

end StdMap
