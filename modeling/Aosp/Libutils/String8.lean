import Mathlib.Data.List.TakeWhile
import Mathlib.Order.WellFounded
import Aosp.Lib.Buffer

/- `String8::find` and `String8::removeAll` of `String8.cpp`. -/
namespace Aosp.Libutils.String8

open List Layout

/-- `strstr`: how far into the text the other string first occurs. The text ends at its first zero.
-/
def strstr (text other : List Byte) : Option Nat :=
  ((text.takeWhile (· ≠ 0)).dropInfix? other).map fun found => found.1.length

/-- Where the source gives -1 there is no index. -/
def find (s other : List Byte) (start : Nat) : Option Nat :=
  if start ≥ s.length then none else (strstr (s.drop start) other).map (start + ·)

/-- The loop of `removeAll`, which searches the buffer that it moves the pieces in. -/
def removeLoop (other : List Byte) : Nat → List Byte → Nat → Nat → Option (List Byte × Nat)
  | 0, _, _, _ => none
  | fuel + 1, buf, index, tail =>
    if index < buf.length then
      let skip := other.length
      let next := (find buf other (index + skip)).getD buf.length
      let moved := (buf.drop (index + skip)).take (next - index - skip)
      removeLoop other fuel (overwrite buf tail moved) next (tail + (next - index - skip))
    else some (buf, tail)

/-- Whether something was removed, and the string that is left. `locked` tells whether `lockBuffer`
gets its memory. -/
def removeAll (locked : Bool) (fuel : Nat) (s other : List Byte) : Option (Bool × List Byte) :=
  match find s other 0 with
  | none => some (false, s)
  | some index =>
    if locked then (removeLoop other fuel s index index).map fun (buf, tail) =>
      (true, buf.take tail)
    else some (false, s)

/-- What stands between the leftmost occurrences of `other` that do not overlap. -/
inductive Pieces (other : List Byte) : List Byte → List (List Byte) → Prop
  | last {s : List Byte} (absent : ¬ other <:+: s) : Pieces other s [s]
  | cut {piece rest : List Byte} {pieces : List (List Byte)}
      (first : ∀ a b, piece ++ other ++ rest = a ++ other ++ b → piece.length ≤ a.length)
      (behind : Pieces other rest pieces) : Pieces other (piece ++ other ++ rest) (piece :: pieces)

/-- What `removeAll` is for: it comes to an end, tells whether the other string occurs, and leaves
the pieces between the occurrences. -/
def Removes (locked : Bool) (s other : List Byte) : Prop :=
  ∃ fuel removed left, removeAll locked fuel s other = some (removed, left) ∧
    (removed = true ↔ other <:+: s) ∧ (other ≠ [] → ∃ pieces, Pieces other s pieces ∧
    left = pieces.flatten)

variable {s : List Byte}

/-- A search over a text without zeros gives the first piece of it. -/
theorem strstr_cases (other : List Byte) (nulFree : 0 ∉ s) :
    strstr s other = none ∧ ¬ other <:+: s ∨ ∃ piece rest, strstr s other = some piece.length ∧
      s = piece ++ other ++ rest ∧ ∀ a b, s = a ++ other ++ b → piece.length ≤ a.length := by
  have text : s.takeWhile (· ≠ 0) = s :=
    takeWhile_eq_self_iff.mpr fun b member => decide_eq_true (ne_of_mem_of_not_mem member nulFree)
  rw [strstr, text]
  cases found : s.dropInfix? other with
  | none =>
    refine .inl ⟨rfl, fun ⟨a, b, whole⟩ => ?_⟩
    -- an occurrence as far to the left as possible would have been found
    obtain ⟨front, ⟨back, cut⟩, least⟩ := (measure List.length).wf.has_min
      {a | ∃ b, s = a ++ other ++ b} ⟨a, b, whole.symm⟩
    have first : s.dropInfix? other = some (front, back) := by
      refine dropInfix?_eq_some_iff.mpr ⟨⟨other, cut, beq_self_eq_true _⟩,
        fun a inside b split same => ?_⟩
      rw [eq_of_beq same] at split
      exact Nat.le_of_not_lt (least a ⟨b, split⟩)
    exact Option.some_ne_none _ (first.symm.trans found)
  | some split =>
    obtain ⟨⟨inside, whole, same⟩, first⟩ := dropInfix?_eq_some_iff.mp found
    obtain rfl := eq_of_beq same
    exact .inr ⟨split.1, split.2, rfl, whole, fun a b cut => first a inside b cut same⟩

/-- The empty string is found where the search starts, and the loop stays there. -/
theorem removeLoop_nil (nonempty : s ≠ []) (fuel : Nat) :
    find s [] 0 = some 0 ∧ removeLoop [] fuel s 0 0 = none := by
  have search : find s [] 0 = some 0 := by simp [find, strstr, nonempty]
  refine ⟨search, ?_⟩
  induction fuel with
  | zero => rfl
  | succ fuel ih =>
    rw [removeLoop, if_pos (length_pos_of_ne_nil nonempty)]
    simpa [search] using ih

theorem removeAll_nil (locked : Bool) (fuel : Nat) (left : List Byte) :
    removeAll locked fuel s [] ≠ some (true, left) := by
  by_cases empty : s = []
  · simp [removeAll, find, empty]
  · obtain ⟨search, stays⟩ := removeLoop_nil empty fuel
    cases locked <;> simp [removeAll, search, stays]

section

variable {other : List Byte} (nonempty : other ≠ [])

include nonempty

theorem find_behind (front rest : List Byte) :
    find (front ++ rest) other front.length = (strstr rest other).map (front.length + ·) := by
  unfold find
  split
  · rename_i nothing
    obtain rfl : rest = [] := by
      rw [length_append] at nothing
      exact eq_nil_of_length_eq_zero (by omega)
    cases other with
    | nil => exact absurd rfl nonempty
    | cons => rfl
  · rw [drop_left]

variable {index : Nat} {kept gap : List Byte} (behind : index + other.length = (kept ++ gap).length)

include behind

/-- One pass. The buffer holds what is kept, a gap that ends behind the occurrence that was found
last, and the rest of the string, whose first piece is moved. -/
theorem removeLoop_step (fuel : Nat) (piece more : List Byte)
    (next : ((strstr (piece ++ more) other).map ((kept ++ gap).length + ·)).getD
      (kept ++ gap ++ (piece ++ more)).length = (kept ++ gap ++ piece).length) :
    removeLoop other (fuel + 1) (kept ++ gap ++ (piece ++ more)) index kept.length =
      removeLoop other fuel (kept ++ piece ++ (gap ++ piece).drop piece.length ++ more)
        (kept ++ gap ++ piece).length (kept ++ piece).length := by
  have positive := length_pos_of_ne_nil nonempty
  have inside : index < (kept ++ gap ++ (piece ++ more)).length := by
    rw [length_append]
    omega
  have size : (kept ++ gap ++ piece).length - index - other.length = piece.length := by
    rw [length_append]
    omega
  have moved : overwrite (kept ++ gap ++ (piece ++ more)) kept.length piece =
      kept ++ piece ++ (gap ++ piece).drop piece.length ++ more := by
    have room : piece.length ≤ (gap ++ piece).length := by
      rw [length_append]
      omega
    rw [append_assoc kept, ← append_assoc gap, overwrite, take_left, drop_length_add_append,
      drop_append_of_le_length room]
    simp only [append_assoc]
  have tail : (kept ++ piece).length = kept.length + piece.length := length_append
  rw [removeLoop, if_pos inside, tail]
  simp only [behind, find_behind nonempty, next, size, drop_left, take_left, moved]

theorem removeLoop_pieces {fuel : Nat} {rest : List Byte} (enough : rest.length < fuel)
    (nulFree : 0 ∉ rest) :
    ∃ pieces stale, Pieces other rest pieces ∧
      removeLoop other (fuel + 1) (kept ++ gap ++ rest) index kept.length =
        some (kept ++ pieces.flatten ++ stale, (kept ++ pieces.flatten).length) := by
  induction fuel generalizing index kept gap rest with
  | zero => exact absurd enough (Nat.not_lt_zero _)
  | succ fuel ih =>
    obtain ⟨nothing, absent⟩ | ⟨piece, more, found, rfl, first⟩ := strstr_cases other nulFree
    · have step := removeLoop_step nonempty behind (fuel + 1) rest []
        (by rw [append_nil, nothing]; rfl)
      refine ⟨[rest], (gap ++ rest).drop rest.length, .last absent, ?_⟩
      rw [append_nil, append_nil] at step
      rw [step, removeLoop, if_neg (by simp; omega), flatten_singleton]
    · have positive := length_pos_of_ne_nil nonempty
      have step := removeLoop_step nonempty behind (fuel + 1) piece (other ++ more)
        (by rw [← append_assoc piece, found]; exact length_append.symm)
      have later : (kept ++ gap ++ piece).length + other.length =
          (kept ++ piece ++ ((gap ++ piece).drop piece.length ++ other)).length := by
        simp
        omega
      simp only [length_append] at enough
      obtain ⟨pieces, stale, cut, removed⟩ := ih later (by omega)
        fun member : 0 ∈ more => nulFree (mem_append_right _ member)
      refine ⟨piece :: pieces, stale, .cut first cut, ?_⟩
      rw [append_assoc piece, step]
      simpa using removed

end

/-- With memory for the buffer, and apart from the empty string, all occurrences are removed. -/
theorem removeAll_removes_iff (locked : Bool) (s other : List Byte) (nulFree : 0 ∉ s) :
    Removes locked s other ↔ other ≠ [] ∧ (other <:+: s → locked = true) := by
  constructor
  · rintro ⟨fuel, removed, left, run, tells, -⟩
    refine ⟨?_, fun occurs => ?_⟩
    · rintro rfl
      rw [tells.mpr nil_infix] at run
      exact removeAll_nil locked fuel left run
    · rw [tells.mpr occurs] at run
      cases locked with
      | true => rfl
      | false =>
        unfold removeAll at run
        split at run <;> cases run
  · rintro ⟨nonempty, lock⟩
    have search : find s other 0 = _ := find_behind nonempty [] s
    obtain ⟨nothing, absent⟩ | ⟨piece, rest, found, whole, first⟩ := strstr_cases other nulFree
    · rw [nothing] at search
      have ret : removeAll locked 0 s other = some (false, s) := by
        rw [removeAll, search]
        rfl
      exact ⟨0, false, s, ret, by simpa using absent, fun _ => ⟨[s], .last absent, by simp⟩⟩
    · have occurs : other <:+: s := ⟨piece, rest, whole.symm⟩
      rw [found, Option.map_some, length_nil, zero_add] at search
      subst whole
      have behind : piece.length + other.length = (piece ++ other).length := length_append.symm
      obtain ⟨pieces, stale, cut, removed⟩ := removeLoop_pieces nonempty behind
        (Nat.lt_succ_self _) fun member : 0 ∈ rest => nulFree (mem_append_right _ member)
      refine ⟨rest.length + 2, true, piece ++ pieces.flatten, ?_, iff_of_true rfl occurs,
        fun _ => ⟨_, .cut first cut, rfl⟩⟩
      rw [removeAll, search, lock occurs]
      dsimp only
      rw [if_pos rfl, removed, Option.map_some, take_left]

/-- An occurrence that overlaps the one before it stays. -/
theorem removeAll_removes_overlapping : Removes true [1, 1, 1] [1, 1] :=
  (removeAll_removes_iff true [1, 1, 1] [1, 1] (by decide)).mpr (by decide)

/-- Without a pattern the loop does not end, and in the empty string nothing is found. -/
theorem removeAll_nil_diverges :
    (∀ fuel, removeAll true fuel [1] [] = none) ∧ ¬ Removes true [1] [] ∧
    removeAll true 0 [] [] = some (false, []) := by
  refine ⟨fun fuel => ?_, ?_, rfl⟩
  · obtain ⟨search, stays⟩ := removeLoop_nil (cons_ne_nil 1 []) fuel
    exact congrArg (Option.map _) stays
  · rintro ⟨fuel, removed, left, run, tells, -⟩
    rw [tells.mpr nil_infix] at run
    exact removeAll_nil true fuel left run

end Aosp.Libutils.String8
