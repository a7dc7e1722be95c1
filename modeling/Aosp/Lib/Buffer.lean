import Aosp.Lib.Medium

/- A medium that is filled from its front: what has been written so far is a list, and zeros follow.
-/
namespace Layout

open Option List

/-- Part of a list is replaced. -/
def overwrite (bytes : List Byte) (address : Nat) (part : List Byte) : List Byte :=
  bytes.take address ++ part ++ bytes.drop (address + part.length)

variable {part : List Byte} {address : Nat}

section

variable {bytes : List Byte} (inside : address + part.length ≤ bytes.length)

include inside

theorem length_overwrite : (overwrite bytes address part).length = bytes.length := by
  simp only [overwrite, length_append, length_take, length_drop]
  omega

theorem getD_overwrite (a : Nat) :
    (overwrite bytes address part).getD a 0 =
      if address ≤ a ∧ a < address + part.length then part.getD (a - address) 0
      else bytes.getD a 0 := by
  have front : (bytes.take address).length = address := by
    simp
    omega
  simp only [overwrite, getD_eq_getElem?_getD]
  by_cases before : a < address
  · rw [if_neg (by omega), append_assoc, getElem?_append_left (by omega),
      getElem?_take_of_lt before]
  · by_cases within : a < address + part.length
    · rw [if_pos (by omega), append_assoc, getElem?_append_right (by omega), front,
        getElem?_append_left (by omega)]
    · rw [if_neg (by omega), getElem?_append_right (by simp; omega), length_append, getElem?_drop]
      congr 2
      omega

theorem overwrite_self : ((overwrite bytes address part).drop address).take part.length = part := by
  have front : (bytes.take address).length = address := by
    simp
    omega
  rw [overwrite, append_assoc, drop_left' front, take_left]

theorem overwrite_apart {i n : Nat} (apart : i + n ≤ address ∨ address + part.length ≤ i) :
    ((overwrite bytes address part).drop i).take n = (bytes.drop i).take n := by
  have length := length_overwrite inside
  apply ext_getElem?
  intro j
  rcases lt_or_ge j n with less | behind
  · rw [getElem?_take_of_lt less, getElem?_take_of_lt less, getElem?_drop, getElem?_drop]
    rcases lt_or_ge (i + j) bytes.length with within | out
    · have same := getD_overwrite inside (i + j)
      rw [if_neg (by omega)] at same
      have within' : i + j < (overwrite bytes address part).length := by omega
      rw [getD_eq_getElem?_getD, getD_eq_getElem?_getD, List.getElem?_eq_getElem within,
        List.getElem?_eq_getElem within', getD_some, getD_some] at same
      rw [List.getElem?_eq_getElem within, List.getElem?_eq_getElem within', same]
    · rw [List.getElem?_eq_none out, List.getElem?_eq_none (by omega)]
  · rw [List.getElem?_eq_none (by rw [length_take]; omega),
      List.getElem?_eq_none (by rw [length_take]; omega)]

end

variable {front back : List Byte}

theorem overwrite_append (inside : address + part.length ≤ front.length) :
    overwrite (front ++ back) address part = overwrite front address part ++ back := by
  rw [overwrite, overwrite, take_append_of_le_length (by omega), drop_append_of_le_length inside]
  simp

theorem overwrite_append_right :
    overwrite (front ++ back) (front.length + address) part =
      front ++ overwrite back address part := by
  rw [overwrite, overwrite, take_length_add_append, add_assoc]
  simp

@[simp] theorem overwrite_nil (bytes : List Byte) (address : Nat) :
    overwrite bytes address [] = bytes := by
  simp [overwrite]

theorem overwrite_overwrite {bytes first second : List Byte}
    (inside : address + first.length ≤ bytes.length) :
    overwrite (overwrite bytes address first) (address + first.length) second =
      overwrite bytes address (first ++ second) := by
  have front : (bytes.take address ++ first).length = address + first.length := by
    rw [length_append, length_take, min_eq_left (by omega)]
  have whole : overwrite bytes address first =
      (bytes.take address ++ first) ++ bytes.drop (address + first.length) := rfl
  rw [whole, ← front, ← add_zero (bytes.take address ++ first).length, overwrite_append_right,
    overwrite, overwrite]
  simp only [take_zero, nil_append, drop_drop, zero_add, front, length_append, append_assoc,
    add_assoc]

namespace Medium

/-- The bytes have been written, and nothing behind them. -/
def Filled (m : Medium) (bytes : List Byte) : Prop := ∀ a, m.byte a = bytes.getD a 0

variable {m : Medium} {bytes : List Byte}

theorem filled_nil {size : Nat} : Filled ⟨size, fun _ => 0⟩ [] := fun _ => rfl

theorem Filled.append (filled : m.Filled bytes) (more : List Byte) :
    (m.write ⟨bytes.length, more⟩).Filled (bytes ++ more) := by
  intro a
  simp only [write, Write.Covers, Write.stop, filled a, getD_eq_getElem?_getD]
  rcases lt_or_ge a bytes.length with before | behind
  · rw [if_neg (by omega), getElem?_append_left before]
  · rw [getElem?_append_right behind]
    split
    · rfl
    · rw [List.getElem?_eq_none behind, List.getElem?_eq_none (by omega)]

theorem Filled.zeros (filled : m.Filled bytes) (n : Nat) :
    m.Filled (bytes ++ List.replicate n 0) := by
  intro a
  rw [filled a]
  simp only [getD_eq_getElem?_getD]
  rcases lt_or_ge a bytes.length with before | behind
  · rw [getElem?_append_left before]
  · rw [getElem?_append_right behind, List.getElem?_eq_none behind, getElem?_replicate]
    split <;> rfl

variable {address : Nat} {part : List Byte}

theorem Filled.overwrite (filled : m.Filled bytes) (inside : address + part.length ≤ bytes.length) :
    (m.write ⟨address, part⟩).Filled (overwrite bytes address part) := by
  intro a
  rw [getD_overwrite inside]
  simp [write, Write.Covers, Write.stop, filled a]

variable {length i : Nat}

theorem getD_region (m : Medium) (inside : i < length) :
    (m.region address length).getD i 0 = m.byte (address + i) := by
  rw [Medium.region, getD_eq_getElem?_getD, getElem?_map, getElem?_range inside, map_some,
    getD_some]

theorem region_shorter {n : Medium} {a c part : Nat}
    (same : m.region a length = n.region c length) (shorter : part ≤ length) :
    m.region a part = n.region c part := by
  have inside : 0 + part ≤ length := by omega
  have front := congrArg (fun bytes => (bytes.drop 0).take part) same
  rwa [region_part _ inside, region_part _ inside] at front

/-- The first bytes are these. -/
def Begins (m : Medium) (bytes : List Byte) : Prop := ∀ a < bytes.length, m.byte a = bytes.getD a 0

theorem Filled.begins (filled : m.Filled bytes) : m.Begins bytes := fun a _ => filled a

variable {front back : List Byte}

theorem Begins.left (begins : m.Begins (front ++ back)) : m.Begins front := by
  intro a inside
  rw [begins a (by rw [length_append]; omega), getD_eq_getElem?_getD, getD_eq_getElem?_getD,
    getElem?_append_left inside]

theorem Begins.write (begins : m.Begins bytes) {w : Write} (behind : bytes.length ≤ w.address) :
    (m.write w).Begins bytes := by
  intro a inside
  have apart : ¬ w.Covers a := fun covers => Nat.not_le_of_lt inside (le_trans behind covers.1)
  simp [Medium.write, apart, begins a inside]

theorem Begins.region (begins : m.Begins bytes) (inside : address + length ≤ bytes.length) :
    m.region address length = (bytes.drop address).take length := by
  apply ext_getElem?
  intro i
  rcases lt_or_ge i length with less | behind
  · rw [Medium.region, getElem?_map, getElem?_range less, map_some, getElem?_take_of_lt less,
      getElem?_drop, begins _ (by omega), getD_eq_getElem?_getD,
      List.getElem?_eq_getElem (by omega), getD_some]
  · rw [List.getElem?_eq_none (by rwa [region_length]), List.getElem?_eq_none]
    simp
    omega

theorem Begins.region_part (begins : m.Begins (front ++ part ++ back)) :
    m.region front.length part.length = part := by
  rw [begins.region (by simp only [length_append]; omega), append_assoc, drop_left, take_left]

theorem Begins.region_last (begins : m.Begins (front ++ part)) :
    m.region front.length part.length = part := by
  rw [← append_nil (front ++ part)] at begins
  exact begins.region_part

end Medium

end Layout
