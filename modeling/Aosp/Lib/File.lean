import Mathlib.Data.List.GetD
import Aosp.Lib.Medium

/- Files that grow with what is written to them. Behind its end a file holds nothing, so that two
files with the same size and the same bytes are the same. -/
namespace Layout

open List

structure File where
  size : Nat
  byte : Nat → Byte
  beyond : ∀ a, size ≤ a → byte a = 0

namespace File

@[ext] theorem ext {left right : File} (size : left.size = right.size)
    (bytes : ∀ a, left.byte a = right.byte a) :
    left = right := by
  cases right
  cases size
  cases funext bytes
  rfl

def empty : File := ⟨0, fun _ => 0, fun _ _ => rfl⟩

variable (f : File)

/-- Writing nothing leaves a file as it is; other writes make room for themselves. -/
def pwrite (w : Write) : File where
  size := if w.bytes = [] then f.size else max f.size w.stop
  byte a := if w.Covers a then w.bytes.getD (a - w.address) 0 else f.byte a
  beyond a behind := by
    have outside : ¬ w.Covers a ∧ f.size ≤ a := by
      unfold Write.Covers Write.stop at *
      split at behind
      · rename_i nothing
        simp [nothing]
        omega
      · omega
    rw [if_neg outside.1]
    exact f.beyond a outside.2

def pwriteAll (writes : List Write) : File := writes.foldl pwrite f

def truncate (length : Nat) : File where
  size := length
  byte a := if a < length then f.byte a else 0
  beyond _ behind := if_neg (by omega)

/-- The bytes at an address. -/
def region (address length : Nat) : List Byte :=
  (List.range length).map fun i => f.byte (address + i)

/-- `ReadFully` at an address; `none` if the file ends before. -/
def read (address length : Nat) : Option (List Byte) :=
  if address + length ≤ f.size then some (f.region address length) else none

/-- The bytes are in the file, from an address on. -/
def Has (address : Nat) (bytes : List Byte) : Prop :=
  ∀ i b, bytes[i]? = some b → f.byte (address + i) = b ∧ address + i < f.size

section Has

variable {f} {g : File} {w : Write} {address : Nat} {bytes front back : List Byte}

theorem has_nil (f : File) (address : Nat) : f.Has address [] := fun i b found => by simp at found

theorem has_append :
    f.Has address (front ++ back) ↔ f.Has address front ∧ f.Has (address + front.length) back := by
  constructor
  · intro whole
    refine ⟨fun i b found => whole i b ?_, fun i b found => ?_⟩
    · rw [getElem?_append_left (List.getElem?_eq_some_iff.mp found).1, found]
    · have here := whole (front.length + i) b (by
        rw [getElem?_append_right (by omega), Nat.add_sub_cancel_left, found])
      rwa [add_assoc]
  · rintro ⟨first, second⟩ i b found
    rcases lt_or_ge i front.length with inFront | inBack
    · rw [getElem?_append_left inFront] at found
      exact first i b found
    · rw [getElem?_append_right inBack] at found
      have here := second (i - front.length) b found
      rwa [add_assoc, Nat.add_sub_cancel' inBack] at here

theorem Has.le_size (has : f.Has address bytes) (filled : bytes ≠ []) :
    address + bytes.length ≤ f.size := by
  have positive := length_pos_iff.mpr filled
  have last := (has (bytes.length - 1) _ (List.getElem?_eq_getElem (by omega))).2
  omega

theorem Has.region (has : f.Has address bytes) : f.region address bytes.length = bytes := by
  apply ext_getElem?
  intro i
  rcases lt_or_ge i bytes.length with inside | outside
  · have here := (has i _ (List.getElem?_eq_getElem inside)).1
    simp [File.region, inside, here]
  · rw [List.getElem?_eq_none (by simpa [File.region] using outside), List.getElem?_eq_none outside]

theorem has_pwrite (f : File) (w : Write) : (f.pwrite w).Has w.address w.bytes := by
  intro i b found
  have inside := (List.getElem?_eq_some_iff.mp found).1
  have filled : w.bytes ≠ [] := by
    intro nothing
    simp [nothing] at inside
  have covered : w.Covers (w.address + i) := ⟨by omega, by unfold Write.stop; omega⟩
  simp only [pwrite, covered, filled, ↓reduceIte, Nat.add_sub_cancel_left,
    getD_eq_getElem?_getD, found, Option.getD_some, true_and]
  exact lt_of_lt_of_le covered.2 (le_max_right _ _)

/-- What a write does not reach stays. -/
theorem Has.pwrite (has : f.Has address bytes)
    (apart : address + bytes.length ≤ w.address ∨ w.stop ≤ address) :
    (f.pwrite w).Has address bytes := by
  intro i b found
  have inside := (List.getElem?_eq_some_iff.mp found).1
  have outside : ¬ w.Covers (address + i) := by
    unfold Write.Covers
    omega
  obtain ⟨same, below⟩ := has i b found
  refine ⟨(if_neg outside).trans same, lt_of_lt_of_le below ?_⟩
  change f.size ≤ if w.bytes = [] then f.size else max f.size w.stop
  split
  · exact le_refl _
  · exact le_max_left _ _

theorem size_pwrite_lt {limit : Nat} (size : f.size < limit)
    (stop : address + bytes.length < limit) :
    (f.pwrite ⟨address, bytes⟩).size < limit := by
  change (if bytes = [] then f.size else max f.size (address + bytes.length)) < limit
  split <;> omega

theorem Has.truncate (has : f.Has address bytes) {length : Nat}
    (inside : address + bytes.length ≤ length) :
    (f.truncate length).Has address bytes := by
  intro i b found
  have := (List.getElem?_eq_some_iff.mp found).1
  have below : address + i < length := by omega
  exact ⟨(if_pos below).trans (has i b found).1, below⟩

theorem Has.unique (left : f.Has 0 bytes) (right : g.Has 0 bytes) (size : f.size = bytes.length)
    (size' : g.size = bytes.length) :
    f = g := by
  apply ext (size.trans size'.symm)
  intro a
  rcases lt_or_ge a bytes.length with inside | outside
  · have first := (left a _ (List.getElem?_eq_getElem inside)).1
    have second := (right a _ (List.getElem?_eq_getElem inside)).1
    rw [zero_add] at first second
    rw [first, second]
  · rw [f.beyond a (by omega), g.beyond a (by omega)]

end Has

@[simp] theorem pwrite_nil (f : File) (address : Nat) : f.pwrite ⟨address, []⟩ = f := by
  apply ext
  · rfl
  · intro a
    have outside : ¬ Write.Covers ⟨address, []⟩ a := by
      unfold Write.Covers Write.stop
      simp only [length_nil]
      omega
    exact if_neg outside

theorem pwrite_append (f : File) (address : Nat) (front back : List Byte) :
    (f.pwrite ⟨address, front⟩).pwrite ⟨address + front.length, back⟩ =
      f.pwrite ⟨address, front ++ back⟩ := by
  by_cases nothing : back = []
  · rw [nothing, pwrite_nil, append_nil]
  apply ext
  · simp only [pwrite, Write.stop, nothing, ↓reduceIte, append_eq_nil_iff, and_false, length_append]
    split
    · omega
    · omega
  · intro a
    have length : (front ++ back).length = front.length + back.length := length_append
    have whole : Write.Covers ⟨address, front ++ back⟩ a ↔ address ≤ a ∧
      a < address + (front ++ back).length := Iff.rfl
    have first : Write.Covers ⟨address, front⟩ a ↔ address ≤ a ∧
      a < address + front.length := Iff.rfl
    have second : Write.Covers ⟨address + front.length, back⟩ a ↔
        address + front.length ≤ a ∧ a < address + front.length + back.length := Iff.rfl
    simp only [pwrite]
    by_cases inSecond : Write.Covers ⟨address + front.length, back⟩ a
    · have bounds := second.mp inSecond
      rw [if_pos inSecond, if_pos (whole.mpr (by omega)), getD_append_right _ _ _ _ (by omega)]
      congr 1
      omega
    · rw [if_neg inSecond]
      rw [second] at inSecond
      by_cases inFirst : Write.Covers ⟨address, front⟩ a
      · have bounds := first.mp inFirst
        rw [if_pos inFirst, if_pos (whole.mpr (by omega)), getD_append _ _ _ _ (by omega)]
      · rw [if_neg inFirst, if_neg]
        rw [first] at inFirst
        rw [whole]
        omega

section Order

variable {v : Write}

theorem pwrite_comm (f : File) {w : Write} (apart : v.stop ≤ w.address ∨ w.stop ≤ v.address) :
    (f.pwrite v).pwrite w = (f.pwrite w).pwrite v := by
  apply ext
  · simp only [pwrite]
    by_cases first : v.bytes = []
    · simp [first]
    · by_cases second : w.bytes = []
      · simp [second]
      · simp only [first, second, ↓reduceIte]
        omega
  · intro a
    simp only [pwrite]
    by_cases first : v.Covers a
    · have second : ¬ w.Covers a := by
        unfold Write.Covers at *
        omega
      simp [second]
    · simp [first]

theorem pwriteAll_append (f : File) (front back : List Write) :
    f.pwriteAll (front ++ back) = (f.pwriteAll front).pwriteAll back := foldl_append

theorem pwriteAll_cons (f : File) (w : Write) (rest : List Write) :
    f.pwriteAll (w :: rest) = (f.pwrite w).pwriteAll rest := rfl

/-- A write that meets none of the others can be made after them. -/
theorem pwriteAll_comm {writes : List Write}
    (apart : ∀ w ∈ writes, v.stop ≤ w.address ∨ w.stop ≤ v.address) (f : File) :
    (f.pwrite v).pwriteAll writes = (f.pwriteAll writes).pwrite v := by
  induction writes generalizing f with
  | nil => rfl
  | cons w rest ih =>
    rw [pwriteAll_cons, pwrite_comm f (apart w mem_cons_self),
      ih (fun other member => apart other (mem_cons_of_mem _ member)), pwriteAll_cons]

end Order

end File

end Layout
