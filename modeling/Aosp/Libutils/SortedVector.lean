import Aosp.Lib.Compare

/- `SortedVectorImpl` of `VectorImpl.cpp`, on the contents of the vectors. `compare` is the
`do_compare` of the element type. -/
namespace Aosp.Libutils.SortedVector

open List Compare

variable {α : Type} (compare : α → α → Int)

/-- `_indexOrderOf`: the index of an equal element, none for `NAME_NOT_FOUND`, and the order. The
variable `h` of the loop is one below the upper end of the search. -/
def indexOrderOf (items : List α) (item : α) : Option Nat × Nat :=
  search (fun curr => compare curr item) items

def indexOf (items : List α) (item : α) : Option Nat := (indexOrderOf compare items item).1

/-- `add`: an equal element is replaced. -/
def add (items : List α) (item : α) : List α :=
  match indexOrderOf compare items item with
  | (none, order) => items.take order ++ item :: items.drop order
  | (some index, _) => items.set index item

/-- `merge` of any vector. -/
def mergeVector (items vector : List α) : List α := vector.foldl (add compare) items

/-- `merge` of a sorted vector. In an empty vector `arrayImpl` and `itemLocation(size() - 1)` do not
point to an element, and comparing with it has no meaning. -/
def merge (items vector : List α) : Option (List α) :=
  if vector = [] then some items
  else do
    let last ← vector.getLast?
    let front ← items.head?
    if compare last front ≤ 0 then some (vector ++ items)
    else do
      let first ← vector.head?
      let back ← items.getLast?
      if 0 ≤ compare first back then some (items ++ vector)
        else some (mergeVector compare items vector)

section Add

variable {compare} (order : TotalPreorder compare) {items : List α} {item : α}

include order

theorem found_indexOrderOf (sorted : Sorted compare items) (item : α) :
    Found (compare · item) items (indexOrderOf compare items item) :=
  found_search (rising_of_sorted order sorted item)

theorem add_between {front back : List α} (sorted : Sorted compare (front ++ back))
    (below : ∀ x ∈ front, compare x item < 0) (above : ∀ x ∈ back, 0 < compare x item) :
    add compare (front ++ back) item = front ++ item :: back := by
  have found := found_indexOrderOf order sorted item
  unfold add
  generalize indexOrderOf compare (front ++ back) item = result at found ⊢
  obtain ⟨index, place⟩ := result
  cases index with
  | some i =>
    obtain ⟨-, x, here, zero⟩ := found.here i rfl
    rcases mem_append.mp (mem_of_getElem? here) with inFront | inBack
    · have := below x inFront
      omega
    · have := above x inBack
      omega
  | none =>
    have before := found.before rfl
    have behind := found.behind rfl
    have inside := found.inside
    dsimp only at before behind inside ⊢
    rw [length_append] at inside
    have same : place = front.length := by
      rcases Nat.lt_trichotomy place front.length with less | same | more
      · -- the element at `place` would be on both sides
        have member : front[place] ∈ (front ++ back).drop place := by
          rw [drop_append_of_le_length (Nat.le_of_lt less), drop_eq_getElem_cons less]
          exact mem_append_left _ mem_cons_self
        have := behind _ member
        have := below _ (getElem_mem less)
        omega
      · exact same
      · have filled : 0 < back.length := by omega
        have member : back[0] ∈ (front ++ back).take place := by
          rw [take_append, mem_append]
          right
          have : place - front.length = (place - front.length - 1) + 1 := by omega
          rw [this]
          cases back with
          | nil => cases filled
          | cons x rest => exact mem_cons_self
        have := before _ member
        have := above _ (getElem_mem filled)
        omega
    rw [same, take_left, drop_left]

variable {x : α} {vector : List α}

section

variable (sorted : Sorted compare items)

include sorted

/-- What `add` does: it replaces an equal element or puts the item between the others. -/
theorem add_cases (item : α) :
    (∃ front old back, items = front ++ old :: back ∧ compare old item = 0 ∧
      add compare items item = front ++ item :: back) ∨
    (∃ front back, items = front ++ back ∧ (∀ x ∈ front, compare x item < 0) ∧
      (∀ x ∈ back, 0 < compare x item) ∧ add compare items item = front ++ item :: back) := by
  have found := found_indexOrderOf order sorted item
  unfold add
  generalize indexOrderOf compare items item = result at found ⊢
  obtain ⟨index, place⟩ := result
  cases index with
  | some i =>
    left
    obtain ⟨-, old, here, zero⟩ := found.here i rfl
    obtain ⟨inside, rfl⟩ := List.getElem?_eq_some_iff.mp here
    refine ⟨items.take i, items[i], items.drop (i + 1), by simp, zero, ?_⟩
    exact set_eq_take_cons_drop item inside
  | none =>
    right
    exact ⟨items.take place, items.drop place, (take_append_drop ..).symm, found.before rfl,
      found.behind rfl, rfl⟩

/-- What holds between all elements and does not tell equal elements apart is kept. -/
theorem add_pairwise {related : α → α → Prop}
    (left : ∀ a b c, compare a b = 0 → related b c → related a c)
    (right : ∀ a b c, related a b → compare b c = 0 → related a c)
    (lt : ∀ a b, compare a b < 0 → related a b) (pairs : items.Pairwise related) (item : α) :
    (add compare items item).Pairwise related := by
  rcases add_cases order sorted item with
    ⟨front, old, back, rfl, same, added⟩ | ⟨front, back, rfl, below, above, added⟩
  · rw [added]
    rw [pairwise_append, pairwise_cons] at pairs ⊢
    obtain ⟨inFront, ⟨behind, inBack⟩, across⟩ := pairs
    refine ⟨inFront, ⟨?_, inBack⟩, ?_⟩
    · intro x member
      exact left item old x ((order.eq_iff old item).mp same) (behind x member)
    · intro x member y among
      rcases mem_cons.mp among with rfl | later
      · exact right x old y (across x member old mem_cons_self) same
      · exact across x member y (mem_cons_of_mem _ later)
  · rw [added]
    rw [pairwise_append] at pairs
    obtain ⟨inFront, inBack, across⟩ := pairs
    rw [pairwise_append, pairwise_cons]
    refine ⟨inFront, ⟨?_, inBack⟩, ?_⟩
    · intro x member
      exact lt item x ((order.lt_iff item x).mpr (above x member))
    · intro x member y among
      rcases mem_cons.mp among with rfl | later
      · exact lt x y (below x member)
      · exact across x member y later

theorem add_sorted (item : α) : Sorted compare (add compare items item) := by
  apply add_pairwise order sorted _ _ _ sorted
  · intro a b c same le
    exact order.trans a b c (Int.le_of_eq same) le
  · intro a b c le same
    exact order.trans a b c le (Int.le_of_eq same)
  · intro a b lt
    exact Int.le_of_lt lt

/-- `add` keeps an equal of every element, and the item is there afterwards. -/
theorem exists_equal_add (member : x ∈ items ∨ x = item) :
    ∃ y ∈ add compare items item, compare x y = 0 := by
  have self := order.self
  rcases add_cases order sorted item with
    ⟨front, old, back, rfl, same, added⟩ | ⟨front, back, rfl, below, above, added⟩
  · rw [added]
    rcases member with member | rfl
    · rw [mem_append, mem_cons] at member
      rcases member with inFront | rfl | inBack
      · exact ⟨x, mem_append_left _ inFront, self x⟩
      · exact ⟨item, by simp, same⟩
      · exact ⟨x, by simp [inBack], self x⟩
    · exact ⟨x, by simp, self x⟩
  · rw [added]
    refine ⟨x, ?_, self x⟩
    rcases member with member | rfl
    · rcases mem_append.mp member with inFront | inBack
      · exact mem_append_left _ inFront
      · simp [inBack]
    · simp

theorem length_add_le (item : α) : (add compare items item).length ≤ items.length + 1 := by
  rcases add_cases order sorted item with
    ⟨front, old, back, rfl, same, added⟩ | ⟨front, back, rfl, below, above, added⟩
  · rw [added]
    simp
  · rw [added]
    simp
    omega

theorem length_add_of_equal (member : x ∈ items) (same : compare x item = 0) :
    (add compare items item).length = items.length := by
  rcases add_cases order sorted item with
    ⟨front, old, back, rfl, -, added⟩ | ⟨front, back, rfl, below, above, added⟩
  · rw [added]
    simp
  · rcases mem_append.mp member with inFront | inBack
    · have := below x inFront
      omega
    · have := above x inBack
      omega

theorem mergeVector_sorted (vector : List α) :
    Sorted compare (mergeVector compare items vector) := by
  induction vector generalizing items with
  | nil => exact sorted
  | cons item rest ih => exact ih (add_sorted order sorted item)

theorem length_mergeVector_le (vector : List α) :
    (mergeVector compare items vector).length ≤ items.length + vector.length := by
  induction vector generalizing items with
  | nil => exact Nat.le_refl _
  | cons item rest ih =>
    have first := length_add_le order sorted item
    have later := ih (add_sorted order sorted item)
    change (mergeVector compare (add compare items item) rest).length ≤ _
    simp
    omega

theorem exists_equal_mergeVector (member : x ∈ items ∨ x ∈ vector) :
    ∃ y ∈ mergeVector compare items vector, compare x y = 0 := by
  induction vector generalizing items x with
  | nil =>
    rcases member with member | member
    · exact ⟨x, member, order.self x⟩
    · cases member
  | cons item rest ih =>
    have sorted' := add_sorted order sorted item
    rw [mem_cons, ← or_assoc] at member
    rcases member with early | later
    · obtain ⟨y, inside, same⟩ := exists_equal_add order sorted early
      obtain ⟨z, inside', same'⟩ := ih sorted' (.inl inside)
      exact ⟨z, inside', order.eq_trans same same'⟩
    · exact ih sorted' (.inr later)

/-- An item that has an equal in front of it does not make the result longer. -/
theorem length_mergeVector_lt (front back : List α) {y : α} (member : y ∈ items ∨ y ∈ front)
    (same : compare y x = 0) :
    (mergeVector compare items (front ++ x :: back)).length <
      items.length + (front ++ x :: back).length := by
  have split : mergeVector compare items (front ++ x :: back) =
      mergeVector compare (add compare (mergeVector compare items front) x) back := foldl_append
  have sorted₁ := mergeVector_sorted order sorted front
  have short := length_mergeVector_le order sorted front
  obtain ⟨z, inside, equal⟩ := exists_equal_mergeVector order sorted member
  have kept := length_add_of_equal order sorted₁ inside
    (order.eq_trans ((order.eq_iff y z).mp equal) same)
  have rest := length_mergeVector_le order (add_sorted order sorted₁ x) back
  simp [split]
  omega

end

theorem add_strictlySorted (strict : StrictlySorted compare items) (item : α) :
    StrictlySorted compare (add compare items item) := by
  apply add_pairwise order strict.sorted _ _ _ strict
  · intro a b c same lt
    exact order.lt_of_le_of_lt (Int.le_of_eq same) lt
  · intro a b c lt same
    exact order.lt_of_lt_of_le lt (Int.le_of_eq same)
  · intro a b lt
    exact lt

theorem mergeVector_strictlySorted (strict : StrictlySorted compare items) (vector : List α) :
    StrictlySorted compare (mergeVector compare items vector) := by
  induction vector generalizing items with
  | nil => exact strict
  | cons item rest ih => exact ih (add_strictlySorted order strict item)

/-- Items in strict order, all between the front and the back, are added one behind the other. -/
theorem mergeVector_between (front back : List α) (sorted : Sorted compare (front ++ back))
    (strict : StrictlySorted compare vector) (below : ∀ x ∈ front, ∀ y ∈ vector, compare x y < 0)
    (above : ∀ x ∈ back, ∀ y ∈ vector, 0 < compare x y) :
    mergeVector compare (front ++ back) vector = front ++ vector ++ back := by
  induction vector generalizing front with
  | nil =>
    rw [append_nil]
    rfl
  | cons item rest ih =>
    have added := add_between order sorted (fun x member => below x member item mem_cons_self)
      (fun x member => above x member item mem_cons_self)
    have sorted' := add_sorted order sorted item
    rw [added, append_cons] at sorted'
    have strict' := pairwise_cons.mp strict
    change mergeVector compare (add compare (front ++ back) item) rest = _
    rw [added, append_cons, ih _ sorted' strict'.2]
    · simp
    · intro x member y among
      rcases mem_append.mp member with inFront | isItem
      · exact below x inFront y (mem_cons_of_mem _ among)
      · cases mem_singleton.mp isItem
        exact strict'.1 y among
    · intro x member y among
      exact above x member y (mem_cons_of_mem _ among)

end Add

section Merge

variable {compare} (order : TotalPreorder compare) {items vector : List α}

/-- The merge is as good as adding the elements of the vector one by one. -/
structure MergesLikeAdd (compare : α → α → Int) (items vector : List α) : Prop where
  merged : merge compare items vector = some (mergeVector compare items vector)
  strict : StrictlySorted compare items → StrictlySorted compare (mergeVector compare items vector)
  found : StrictlySorted compare items → ∀ x ∈ mergeVector compare items vector,
    ∃ i, indexOf compare (mergeVector compare items vector) x = some i ∧
    (mergeVector compare items vector)[i]? = some x

/-- Either vector may come first, but then the boundary elements are not equal and the merged vector
has no equal elements. Only a vector with elements may be merged into. -/
def MergeSafe (compare : α → α → Int) (items vector : List α) : Prop :=
  vector = [] ∨ ∃ front back first last, items.head? = some front ∧ items.getLast? = some back ∧
    vector.head? = some first ∧ vector.getLast? = some last ∧
    (0 < compare last front ∧ compare first back < 0 ∨
      StrictlySorted compare vector ∧ (compare last front < 0 ∨ 0 < compare first back))

/-- In a sorted vector that is not in strict order two elements are equal. -/
theorem exists_equal_pair (sorted : Sorted compare vector)
    (repeated : ¬ StrictlySorted compare vector) :
    ∃ front x back, vector = front ++ x :: back ∧ ∃ y ∈ front, compare y x = 0 := by
  unfold StrictlySorted at repeated
  rw [pairwise_iff_getElem] at repeated
  push Not at repeated
  obtain ⟨i, j, inside, inside', less, notBelow⟩ := repeated
  have le := pairwise_iff_getElem.mp sorted i j inside inside' less
  refine ⟨vector.take j, vector[j], vector.drop (j + 1), by simp, vector[i], ?_, by omega⟩
  exact mem_take_iff_getElem.mpr ⟨i, by omega, rfl⟩

variable {front back first last : α}

theorem merge_eq (isFront : items.head? = some front) (isBack : items.getLast? = some back)
    (isFirst : vector.head? = some first) (isLast : vector.getLast? = some last) :
    merge compare items vector = some (if compare last front ≤ 0 then vector ++ items
      else if 0 ≤ compare first back then items ++ vector
      else mergeVector compare items vector) := by
  have nonempty : vector ≠ [] := by
    rintro rfl
    cases isFirst
  unfold merge
  rw [if_neg nonempty, isFront, isBack, isFirst, isLast]
  dsimp only [Option.bind_eq_bind, Option.bind_some]
  split
  · rfl
  · split
    · rfl
    · rfl

include order

variable {x : α}

theorem indexOf_of_mem (strict : StrictlySorted compare items) (member : x ∈ items) :
    ∃ i, indexOf compare items x = some i ∧ items[i]? = some x := by
  have found := found_indexOrderOf order strict.sorted x
  unfold indexOf
  generalize indexOrderOf compare items x = result at found ⊢
  obtain ⟨index, place⟩ := result
  cases index with
  | none =>
    have self := order.self x
    have split : x ∈ items.take place ∨ x ∈ items.drop place := by
      rwa [← mem_append, take_append_drop]
    rcases split with early | late
    · have := found.before rfl x early
      omega
    · have := found.behind rfl x late
      omega
  | some i =>
    obtain ⟨-, y, here, same⟩ := found.here i rfl
    refine ⟨i, rfl, ?_⟩
    obtain ⟨j, inside, rfl⟩ := getElem_of_mem member
    obtain ⟨inside', rfl⟩ := List.getElem?_eq_some_iff.mp here
    have pairs := pairwise_iff_getElem.mp strict
    rcases Nat.lt_trichotomy i j with less | rfl | more
    · have := pairs i j inside' inside less
      omega
    · exact here
    · have := pairs j i inside inside' more
      have := (order.eq_iff _ _).mp same
      omega

section

variable (sorted : Sorted compare items)

include sorted

theorem head_le (isHead : items.head? = some front) (member : x ∈ items) : compare front x ≤ 0 := by
  cases items with
  | nil => cases isHead
  | cons first rest =>
    cases isHead
    rcases mem_cons.mp member with rfl | later
    · exact Int.le_of_eq (order.self x)
    · exact (pairwise_cons.mp sorted).1 x later

theorem le_getLast (isLast : items.getLast? = some back) (member : x ∈ items) :
    compare x back ≤ 0 := by
  obtain ⟨front, rfl⟩ := getLast?_eq_some_iff.mp isLast
  rcases mem_append.mp member with early | isBack
  · exact (pairwise_append.mp sorted).2.2 x early back mem_cons_self
  · rw [mem_singleton.mp isBack]
    exact Int.le_of_eq (order.self back)

theorem mergeVector_before (strict : StrictlySorted compare vector)
    (isFront : items.head? = some front) (isLast : vector.getLast? = some last)
    (apart : compare last front < 0) :
    mergeVector compare items vector = vector ++ items := by
  have between := mergeVector_between order [] items sorted strict (by simp) ?_
  · simpa using between
  · intro x member y among
    rw [← order.lt_iff]
    apply order.lt_of_le_of_lt (le_getLast order strict.sorted isLast among)
    exact order.lt_of_lt_of_le apart (head_le order sorted isFront member)

theorem mergeVector_behind (strict : StrictlySorted compare vector)
    (isBack : items.getLast? = some back) (isFirst : vector.head? = some first)
    (apart : 0 < compare first back) :
    mergeVector compare items vector = items ++ vector := by
  have between := mergeVector_between order items [] (by simpa using sorted) strict ?_
    (by simp)
  · simpa using between
  · intro x member y among
    apply order.lt_of_le_of_lt (le_getLast order sorted isBack member)
    rw [← order.lt_iff] at apart
    exact order.lt_of_lt_of_le apart (head_le order strict.sorted isFirst among)

/-- Where the merge takes a shortcut, it can only be right if no two elements are equal. -/
theorem mergeSafe_of_merged (sorted' : Sorted compare vector)
    (merged : merge compare items vector = some (mergeVector compare items vector)) :
    MergeSafe compare items vector := by
  by_cases empty : vector = []
  · exact .inl empty
  right
  have isFirst := head?_eq_some_head empty
  have isLast := getLast?_eq_some_getLast empty
  generalize vector.head empty = first at isFirst
  generalize vector.getLast empty = last at isLast
  by_cases nothing : items = []
  · rw [nothing] at merged
    simp [merge, empty] at merged
  have isFront := head?_eq_some_head nothing
  have isBack := getLast?_eq_some_getLast nothing
  generalize items.head nothing = front at isFront
  generalize items.getLast nothing = back at isBack
  refine ⟨front, back, first, last, isFront, isBack, isFirst, isLast, ?_⟩
  -- a bulk insertion is as long as both vectors together
  have strict (long : (mergeVector compare items vector).length = items.length + vector.length) :
      StrictlySorted compare vector := by
    by_contra repeated
    obtain ⟨early, x, late, rfl, y, member, same⟩ := exists_equal_pair sorted' repeated
    have := length_mergeVector_lt order sorted early late (.inr member) same
    omega
  rw [merge_eq isFront isBack isFirst isLast, Option.some.injEq] at merged
  split at merged
  · have long := congrArg List.length merged
    rw [length_append] at long
    refine .inr ⟨strict (by omega), .inl ?_⟩
    by_contra notBelow
    have same : compare last front = 0 := by omega
    obtain ⟨early, rfl⟩ := getLast?_eq_some_iff.mp isLast
    have := length_mergeVector_lt order sorted early []
      (.inl (mem_of_mem_head? isFront)) ((order.eq_iff last front).mp same)
    omega
  · split at merged
    · have long := congrArg List.length merged
      rw [length_append] at long
      refine .inr ⟨strict (by omega), .inr ?_⟩
      by_contra notAbove
      have same : compare first back = 0 := by omega
      obtain ⟨late, rfl⟩ := head?_eq_some_iff.mp isFirst
      have := length_mergeVector_lt order sorted [] late
        (.inl (mem_of_mem_getLast? isBack)) ((order.eq_iff first back).mp same)
      rw [nil_append] at this
      omega
    · exact .inl ⟨by omega, by omega⟩

theorem merged_of_mergeSafe (safe : MergeSafe compare items vector) :
    merge compare items vector = some (mergeVector compare items vector) := by
  rcases safe with rfl | ⟨front, back, first, last, isFront, isBack, isFirst, isLast, safe⟩
  · rfl
  rw [merge_eq isFront isBack isFirst isLast]
  rcases safe with ⟨notBefore, notBehind⟩ | ⟨strict, before | behind⟩
  · rw [if_neg (by omega), if_neg (by omega)]
  · rw [if_pos (by omega), mergeVector_before order sorted strict isFront isLast before]
  · -- the whole vector lies behind, so its last element is not before the first one
    have above := head_le order strict.sorted isFirst (mem_of_mem_getLast? isLast)
    have inside := head_le order sorted isFront (mem_of_mem_getLast? isBack)
    rw [← order.lt_iff] at behind
    have notBefore : 0 < compare last front := by
      rw [← order.lt_iff]
      exact order.lt_of_le_of_lt inside (order.lt_of_lt_of_le behind above)
    rw [order.lt_iff] at behind
    rw [if_neg (by omega), if_pos (by omega),
      mergeVector_behind order sorted strict isBack isFirst behind]

end

theorem merge_mergesLikeAdd_iff (sorted : Sorted compare items) (sorted' : Sorted compare vector) :
    MergesLikeAdd compare items vector ↔ MergeSafe compare items vector := by
  constructor
  · intro same
    exact mergeSafe_of_merged order sorted sorted' same.merged
  · intro safe
    refine ⟨merged_of_mergeSafe order sorted safe, ?_, ?_⟩
    · intro strict
      exact mergeVector_strictlySorted order strict vector
    · intro strict x member
      exact indexOf_of_mem order (mergeVector_strictlySorted order strict vector) member

end Merge

section Keys

variable {compare} (order : TotalPreorder compare) (exact : ∀ a b, compare a b = 0 → a = b)
  {items vector : List α}

include order exact

variable {x : α}

theorem mem_add (sorted : Sorted compare items) {item : α} :
    x ∈ add compare items item ↔ x ∈ items ∨ x = item := by
  rcases add_cases order sorted item with
    ⟨front, old, back, rfl, same, added⟩ | ⟨front, back, rfl, below, above, added⟩
  · cases exact old item same
    rw [added, mem_append, mem_cons]
    tauto
  · rw [added, mem_append, mem_append, mem_cons]
    tauto

theorem mem_mergeVector (sorted : Sorted compare items) :
    x ∈ mergeVector compare items vector ↔ x ∈ items ∨ x ∈ vector := by
  induction vector generalizing items with
  | nil => simp [mergeVector]
  | cons item rest ih =>
    change x ∈ mergeVector compare (add compare items item) rest ↔ _
    rw [ih (add_sorted order sorted item), mem_add order exact sorted, mem_cons, or_assoc]

/-- A vector that was filled by `add` finds exactly what was added. -/
theorem indexOf_isSome_iff (added : List α) (x : α) :
    (indexOf compare (mergeVector compare [] added) x).isSome ↔ x ∈ added := by
  have empty : StrictlySorted compare [] := List.Pairwise.nil
  have strict := mergeVector_strictlySorted order empty added
  have members : x ∈ mergeVector compare [] added ↔ x ∈ [] ∨ x ∈ added :=
    mem_mergeVector order exact empty.sorted
  rw [mem_nil_iff, false_or] at members
  rw [← members]
  constructor
  · intro isSome
    obtain ⟨i, isIndex⟩ := Option.isSome_iff_exists.mp isSome
    obtain ⟨-, y, here, same⟩ := (found_indexOrderOf order strict.sorted x).here i isIndex
    rw [← exact y x same]
    exact mem_of_getElem? here
  · intro member
    obtain ⟨i, isIndex, -⟩ := indexOf_of_mem order strict member
    rw [isIndex]
    rfl

end Keys

/-- Numbers in their usual order. -/
def compareInt (a b : Int) : Int := a - b

theorem totalPreorder_compareInt : TotalPreorder compareInt where
  flip a b := by
    unfold compareInt
    omega
  trans a b c := by
    unfold compareInt
    omega

/-- An equal element at the boundary is there twice after the merge, and merging into an empty
vector compares with an element that is not there. -/
theorem merge_keeps_equal_elements :
    merge compareInt [1, 2] [2, 3] = some [1, 2, 2, 3] ∧
      mergeVector compareInt [1, 2] [2, 3] = [1, 2, 3] ∧
      merge compareInt [] [1] = none ∧ mergeVector compareInt [] [1] = [1] := by
  decide

theorem merge_mergesLikeAdd_interleaved : (Sorted compareInt [1, 4] ∧ Sorted compareInt [2, 4, 5]) ∧
      (MergesLikeAdd compareInt [1, 4] [2, 4, 5] ↔ MergeSafe compareInt [1, 4] [2, 4, 5]) ∧
      merge compareInt [1, 4] [2, 4, 5] = some [1, 2, 4, 5] := by
  have sorted : Sorted compareInt [1, 4] ∧ Sorted compareInt [2, 4, 5] := by
    simp [Sorted, compareInt]
  exact ⟨sorted, merge_mergesLikeAdd_iff totalPreorder_compareInt sorted.1 sorted.2, by decide⟩

end Aosp.Libutils.SortedVector
