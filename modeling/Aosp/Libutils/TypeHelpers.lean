import Aosp.Libutils.SharedBuffer
import Mathlib.Data.List.Induction

/- The loops of `TypeHelpers.h` that construct, copy, move and destroy rows of elements. Each of
them has one equation: what it makes of a row that is written as the parts before, in and after the
items it is for. -/
namespace Aosp.Libutils.Vectors

open Heap List

variable {α : Type}

/-- Where the elements an operation copies are: in memory of the caller, or in a buffer. A null
pointer is the empty row. -/
inductive Source (α : Type) where
  | outside (values : List α)
  | inside (b i : Nat)

namespace Source

def load (src : Source α) (h : Heap α) (k : Nat) : Except Fault α :=
  match src with
  | outside values => Fallible.index .outside values k
  | inside b i => h.load b (i + k)

/-- The same pointer, `n` items further. -/
def advance (src : Source α) (n : Nat) : Source α :=
  match src with
  | outside values => outside (values.drop n)
  | inside b i => inside b (i + n)

/-- `item != prototype` as pointers. -/
def isAt (src : Source α) (b i : Nat) : Bool :=
  match src with
  | outside _ => false
  | inside c j => c == b && j == i

end Source

section Program

variable (t : ElementType α)

/-- `n` elements are constructed one behind the other, each from the value found when its turn
comes. -/
def fill (value : Heap α → Nat → Except Fault α) (h : Heap α) (b i : Nat) :
    Nat → Except Fault (Heap α)
  | 0 => .ok h
  | n + 1 => do
    let h ← fill value h b i n
    let a ← value h n
    h.construct t b (i + n) a

/-- `_do_construct`. A trivial constructor runs nothing and leaves the bytes that are there. -/
def doConstruct (h : Heap α) (b i n : Nat) : Except Fault (Heap α) :=
  fill t (fun h k => do
    let c ← h.cell b (i + k)
    .ok (if t.trivialCtor then c.value else t.initial)) h b i n

/-- `_do_copy`. `memcpy`, for a type with a trivial copy, leaves a copy of each element as well. -/
def doCopy (h : Heap α) (b i : Nat) (src : Source α) (n : Nat) : Except Fault (Heap α) :=
  fill t src.load h b i n

/-- `_do_splat`. -/
def doSplat (h : Heap α) (b i : Nat) (item : Source α) (n : Nat) : Except Fault (Heap α) :=
  fill t (fun h _ => item.load h 0) h b i n

def destroyType (h : Heap α) (b i : Nat) : Nat → Except Fault (Heap α)
  | 0 => .ok h
  | n + 1 => do
    let h ← destroyType h b i n
    h.destroy b (i + n)

/-- `_do_destroy`. -/
def doDestroy (h : Heap α) (b i n : Nat) : Except Fault (Heap α) :=
  if t.trivialDtor then .ok h else destroyType h b i n

def useTrivialMove : Bool := (t.trivialDtor && t.trivialCopy) || t.trivialMove

/-- `new(d) TYPE(*s)`, or `*d = *s` for a type that is copied byte by byte. -/
def copyItem (h : Heap α) (b d s : Nat) : Except Fault (Heap α) :=
  if t.trivialCopy then do
    let a ← h.load b s
    h.assign b d a
  else if d = s then .error .selfCopied
  else do
    let a ← h.load b s
    h.construct t b d a

/-- The body of the loops of `move_forward_type` and `move_backward_type`. -/
def moveItem (h : Heap α) (b d s : Nat) : Except Fault (Heap α) := do
  let h ← copyItem t h b d s
  doDestroy t h b s 1

/-- A cell whose element has been moved away. -/
def vacated (c : Cell α) : Cell α := if t.trivialDtor then c else { c with alive := false }

/-- `memmove` within a buffer. The elements move with their bytes, and one of a type with a
destructor may not be overwritten. -/
def memmove (h : Heap α) (b d s n : Nat) : Except Fault (Heap α) := do
  let sb ← h.buffer b
  let block := (sb.cells.drop s).take n
  let rest := sb.cells.take s ++ block.map (vacated t) ++ sb.cells.drop (s + n)
  if sb.cells.length < s + n ∨ sb.cells.length < d + n then .error .outside
  else if ((rest.drop d).take n).any fun c => c.alive && !t.trivialDtor then .error .overwritten
  else .ok (h.put b { sb with cells := rest.take d ++ block ++ rest.drop (d + n) })

/-- `move_forward_type` without a trivial move: the last element first. -/
def moveForwardType (h : Heap α) (b d s : Nat) : Nat → Except Fault (Heap α)
  | 0 => .ok h
  | n + 1 => do
    let h ← moveItem t h b (d + n) (s + n)
    moveForwardType h b d s n

def doMoveForward (h : Heap α) (b d s n : Nat) : Except Fault (Heap α) :=
  if useTrivialMove t then memmove t h b d s n else moveForwardType t h b d s n

/-- `move_backward_type` without a trivial move: the first element first. -/
def moveBackwardType (h : Heap α) (b d s : Nat) : Nat → Except Fault (Heap α)
  | 0 => .ok h
  | n + 1 => do
    let h ← moveBackwardType h b d s n
    moveItem t h b (d + n) (s + n)

def doMoveBackward (h : Heap α) (b d s n : Nat) : Except Fault (Heap α) :=
  if useTrivialMove t then memmove t h b d s n else moveBackwardType t h b d s n

end Program

variable {t : ElementType α} {h : Heap α} {b i refs : Nat} {front gap back : List (Cell α)}

variable {value : Heap α → Nat → Except Fault α} {values : List α}

section

variable (here : h.buffers b = some ⟨refs, front ++ (gap ++ back)⟩) (place : front.length = i)
  (size : gap.length = values.length) (spare : t.Spare gap)
  (gives : ∀ k a, values[k]? = some a → value
    (h.put b ⟨refs, front ++ ((values.take k).map live ++ (gap.drop k ++ back))⟩) k = .ok a)

include here place size spare gives

theorem fill_take : ∀ n ≤ values.length, fill t value h b i n =
      .ok (h.put b ⟨refs, front ++ ((values.take n).map live ++ (gap.drop n ++ back))⟩) := by
  intro n
  induction n with
  | zero =>
    intro _
    rw [fill, take_zero, map_nil, nil_append, drop_zero, put_same here]
  | succ n ih =>
    intro inside
    have isValue : values[n]? = some values[n] := List.getElem?_eq_getElem inside
    have isCell : gap.drop n = gap[n] :: gap.drop (n + 1) := drop_eq_getElem_cons (by omega)
    have usable : t.Spare [gap[n]] := spare.mono fun c isHere =>
      mem_singleton.mp isHere ▸ getElem_mem _
    rw [fill, ih (by omega)]
    change (value _ n >>= _) = _
    rw [gives n _ isValue]
    change Heap.construct t _ b (i + n) values[n] = _
    have there :
        (h.put b ⟨refs, front ++ ((values.take n).map live ++ (gap.drop n ++ back))⟩).buffers b
        = some ⟨refs, (front ++ (values.take n).map live) ++ gap[n] ::
        (gap.drop (n + 1) ++ back)⟩ := by
      rw [put_buffers_self, isCell, append_assoc, cons_append]
    have atEnd : (front ++ (values.take n).map live).length = i + n := by
      simp [place]
      omega
    rw [construct_eq there atEnd usable, put_put, take_add_one, isValue]
    simp only [Option.toList_some, map_append, map_cons, map_nil, append_assoc, cons_append,
      nil_append]

theorem fill_eq :
    fill t value h b i values.length =
      .ok (h.put b ⟨refs, front ++ (values.map live ++ back)⟩) := by
  rw [fill_take here place size spare gives _ (Nat.le_refl _), take_length,
    drop_eq_nil_of_le (Nat.le_of_eq size), nil_append]

end

namespace Source

/-- The elements that can be read there. -/
def Holds (src : Source α) (h : Heap α) (items : List α) : Prop :=
  ∀ k a, items[k]? = some a → src.load h k = .ok a

/-- Nothing is read from the buffer. -/
def Avoids (src : Source α) (b : Nat) : Prop :=
  match src with
  | outside _ => True
  | inside c _ => c ≠ b

variable {src : Source α}

theorem load_congr {h' : Heap α} (same : ∀ c i, src = inside c i →
      (h'.buffers c).map SharedBuffer.cells = (h.buffers c).map SharedBuffer.cells) (k : Nat) :
    src.load h' k = src.load h k := by
  cases src with
  | outside values => rfl
  | inside c i =>
    simp only [load, Heap.load, Heap.cell, Heap.buffer]
    cases isNew : h'.buffers c <;> cases isOld : h.buffers c <;> simp_all [bind, Except.bind]

theorem load_put (avoids : src.Avoids b) (sb : SharedBuffer α) (k : Nat) :
    src.load (h.put b sb) k = src.load h k := by
  refine load_congr (fun c i isInside => ?_) k
  subst isInside
  rw [put_buffers_of_ne avoids]

theorem holds_outside (values : List α) : (outside values).Holds h values := by
  intro k a here
  exact (Fallible.index_eq_ok ..).mpr here

theorem holds_inside {items : List α}
    (here : h.buffers b = some ⟨refs, front ++ (items.map live ++ back)⟩)
    (place : front.length = i) :
    (inside b i).Holds h items := by
  intro k a isItem
  obtain ⟨inRange, rfl⟩ := List.getElem?_eq_some_iff.mp isItem
  have parts : items.map live = (items.take k).map live ++ live items[k] ::
      (items.drop (k + 1)).map live := by
    rw [← map_cons, ← map_append, ← drop_eq_getElem_cons inRange, take_append_drop]
  have there : h.buffers b = some ⟨refs, (front ++ (items.take k).map live) ++
      live items[k] :: ((items.drop (k + 1)).map live ++ back)⟩ := by
    rw [here, parts]
    simp
  refine load_eq there ?_
  simp [place]
  omega

end Source

variable {items : List α}

theorem doCopy_eq {src : Source α} (here : h.buffers b = some ⟨refs, front ++ (gap ++ back)⟩)
    (place : front.length = i) (size : gap.length = items.length) (spare : t.Spare gap)
    (avoids : src.Avoids b) (holds : src.Holds h items) :
    doCopy t h b i src items.length = .ok (h.put b ⟨refs, front ++ (items.map live ++ back)⟩) :=
  fill_eq here place size spare fun k a isItem =>
    (Source.load_put avoids _ k).trans (holds k a isItem)

variable {a : α}

theorem doSplat_eq {item : Source α} (here : h.buffers b = some ⟨refs, front ++ (gap ++ back)⟩)
    (place : front.length = i) (spare : t.Spare gap) (avoids : item.Avoids b)
    (holds : item.Holds h [a]) :
    doSplat t h b i item gap.length =
      .ok (h.put b ⟨refs, front ++ ((List.replicate gap.length a).map live ++ back)⟩) := by
  have size : gap.length = (List.replicate gap.length a).length := length_replicate.symm
  have filled : fill t (fun h _ => item.load h 0) h b i (List.replicate gap.length a).length = _ :=
    fill_eq here place size spare fun k value isItem => by
      rw [Source.load_put avoids, eq_of_mem_replicate (mem_of_getElem? isItem)]
      exact holds 0 a rfl
  rw [← size] at filled
  exact filled

/-- The elements a constructor makes; without one, what the memory happened to hold. -/
def ElementType.Constructed (t : ElementType α) (values : List α) : Prop :=
  t.trivialCtor = false → values = List.replicate values.length t.initial

theorem doConstruct_eq (here : h.buffers b = some ⟨refs, front ++ (gap ++ back)⟩)
    (place : front.length = i) (spare : t.Spare gap) :
    ∃ values, values.length = gap.length ∧ t.Constructed values ∧
      doConstruct t h b i gap.length =
      .ok (h.put b ⟨refs, front ++ (values.map live ++ back)⟩) := by
  let value : Cell α → α := fun c => if t.trivialCtor then c.value else t.initial
  have size : (gap.map value).length = gap.length := length_map _
  refine ⟨gap.map value, size, ?_, ?_⟩
  · intro constructs
    simp [value, constructs]
  · rw [← size]
    refine fill_eq here place size.symm spare fun k a isItem => ?_
    rw [getElem?_map, Option.map_eq_some_iff] at isItem
    obtain ⟨c, isCell, rfl⟩ := isItem
    obtain ⟨inside, rfl⟩ := List.getElem?_eq_some_iff.mp isCell
    have there : (h.put b ⟨refs, front ++ (((gap.map value).take k).map live ++
        (gap.drop k ++ back))⟩).buffers b = some ⟨refs,
          (front ++ ((gap.map value).take k).map live) ++ gap[k] ::
          (gap.drop (k + 1) ++ back)⟩ := by
      rw [put_buffers_self, drop_eq_getElem_cons inside, append_assoc, cons_append]
    have atEnd : (front ++ ((gap.map value).take k).map live).length = i + k := by
      simp [place]
      omega
    rw [cell_eq there atEnd]
    rfl

section

variable (here : h.buffers b = some ⟨refs, front ++ (items.map live ++ back)⟩)
  (place : front.length = i)

include here place

theorem destroyType_take : ∀ n ≤ items.length, destroyType h b i n = .ok (h.put b ⟨refs,
      front ++ ((items.take n).map (⟨·, false⟩) ++ ((items.drop n).map live ++ back))⟩) := by
  intro n
  induction n with
  | zero =>
    intro _
    rw [destroyType, take_zero, map_nil, nil_append, drop_zero, put_same here]
  | succ n ih =>
    intro inside
    have there : (h.put b ⟨refs, front ++ ((items.take n).map (⟨·, false⟩) ++
        ((items.drop n).map live ++ back))⟩).buffers b =
        some ⟨refs, (front ++ (items.take n).map (⟨·, false⟩)) ++
            live items[n] :: ((items.drop (n + 1)).map live ++ back)⟩ := by
      rw [put_buffers_self, drop_eq_getElem_cons inside, append_assoc, map_cons, cons_append]
    have atEnd : (front ++ (items.take n).map (⟨·, false⟩ : α → Cell α)).length = i + n := by
      simp [place]
      omega
    rw [destroyType, ih (by omega)]
    change Heap.destroy _ b (i + n) = _
    rw [destroy_eq there atEnd, put_put, take_add_one, List.getElem?_eq_getElem inside]
    simp only [Option.toList_some, map_append, map_cons, map_nil, append_assoc, cons_append,
      nil_append]

theorem doDestroy_eq : ∃ gone, gone.length = items.length ∧ t.Spare gone ∧
      doDestroy t h b i items.length = .ok (h.put b ⟨refs, front ++ (gone ++ back)⟩) := by
  unfold doDestroy
  by_cases trivial : t.trivialDtor = true
  · exact ⟨items.map live, length_map _, .inl trivial, by
      rw [if_pos trivial, put_same here]⟩
  · refine ⟨items.map (⟨·, false⟩), length_map _, .inr ?_, ?_⟩
    · intro c member
      obtain ⟨a, -, rfl⟩ := mem_map.mp member
      rfl
    · rw [if_neg trivial, destroyType_take here place _ (Nat.le_refl _), take_length,
        drop_length, map_nil, nil_append]

end

theorem spare_vacated (c : Cell α) : t.Spare [vacated t c] := by
  by_cases trivial : t.trivialDtor = true
  · exact .inl trivial
  · refine .inr fun c' isHere => ?_
    rw [mem_singleton.mp isHere, vacated, if_neg trivial]

theorem spare_map_vacated (cells : List (Cell α)) : t.Spare (cells.map (vacated t)) := by
  induction cells with
  | nil => exact spare_nil
  | cons c cells ih => exact spare_cons.mpr ⟨spare_vacated c, ih⟩

/-- The end of a move: the element is destroyed where it came from. -/
theorem doDestroy_one (here : h.buffers b = some ⟨refs, front ++ live a :: back⟩)
    (place : front.length = i) :
    doDestroy t h b i 1 = .ok (h.put b ⟨refs, front ++ vacated t (live a) :: back⟩) := by
  unfold doDestroy vacated
  split
  · rw [put_same here]
  · exact destroy_eq here place

variable {d s : Nat} {cell : Cell α} {before after : List (Cell α)}

theorem copyItem_eq (distinct : d ≠ s) (source : h.buffers b = some ⟨refs, front ++ live a :: back⟩)
    (sourcePlace : front.length = s) (target : h.buffers b = some ⟨refs, before ++ cell :: after⟩)
    (targetPlace : before.length = d) (spare : t.Spare [cell]) :
    copyItem t h b d s = .ok (h.put b ⟨refs, before ++ live a :: after⟩) := by
  unfold copyItem
  rw [load_eq source sourcePlace, if_neg distinct]
  change (if _ then h.assign b d a else h.construct t b d a) = _
  rw [assign_eq target targetPlace, construct_eq target targetPlace spare, ite_self]

theorem moveItem_forward
    (here : h.buffers b = some ⟨refs, front ++ live a :: (gap ++ cell :: back)⟩)
    (source : front.length = s) (target : front.length + 1 + gap.length = d)
    (spare : t.Spare [cell]) :
    moveItem t h b d s = .ok (h.put b ⟨refs, front ++ vacated t (live a) ::
      (gap ++ live a :: back)⟩) := by
  have there : h.buffers b = some ⟨refs, (front ++ live a :: gap) ++ cell :: back⟩ := by
    simp [here]
  have place : (front ++ live a :: gap).length = d := by
    simp
    omega
  have moved : (h.put b ⟨refs, (front ++ live a :: gap) ++ live a :: back⟩).buffers b =
      some ⟨refs, front ++ live a :: (gap ++ live a :: back)⟩ := by
    rw [put_buffers_self, append_assoc, cons_append]
  rw [moveItem, copyItem_eq (by omega) here source there place spare]
  change doDestroy t _ b s 1 = _
  rw [doDestroy_one moved source, put_put]

theorem moveItem_backward
    (here : h.buffers b = some ⟨refs, front ++ cell :: (gap ++ live a :: back)⟩)
    (target : front.length = d) (source : front.length + 1 + gap.length = s)
    (spare : t.Spare [cell]) :
    moveItem t h b d s = .ok (h.put b ⟨refs, front ++ live a ::
      (gap ++ vacated t (live a) :: back)⟩) := by
  have there : h.buffers b = some ⟨refs, (front ++ cell :: gap) ++ live a :: back⟩ := by
    simp [here]
  have place : (front ++ cell :: gap).length = s := by
    simp
    omega
  have moved : (h.put b ⟨refs, front ++ live a :: (gap ++ live a :: back)⟩).buffers b =
      some ⟨refs, (front ++ live a :: gap) ++ live a :: back⟩ := by
    rw [put_buffers_self, append_assoc, cons_append]
  have place' : (front ++ live a :: gap).length = s := by
    simp
    omega
  rw [moveItem, copyItem_eq (by omega) there place here target spare]
  change doDestroy t _ b s 1 = _
  rw [doDestroy_one moved place', put_put, append_assoc, cons_append]

/-- The elements from the last to the first are moved over the gap behind them. -/
theorem moveForwardType_eq (positive : gap ≠ [])
    (here : h.buffers b = some ⟨refs, front ++ (items.map live ++ (gap ++ back))⟩)
    (place : front.length = i) (spare : t.Spare gap) :
    ∃ left, left.length = gap.length ∧ t.Spare left ∧
      moveForwardType t h b (i + gap.length) i items.length =
        .ok (h.put b ⟨refs, front ++ (left ++ (items.map live ++ back))⟩) := by
  induction items using List.reverseRecOn generalizing h gap back with
  | nil =>
    exact ⟨gap, rfl, spare, congrArg Except.ok (put_same here).symm⟩
  | append_singleton items a ih =>
    obtain ⟨others, cell, rfl⟩ : ∃ others cell, gap = others ++ [cell] :=
      ⟨gap.dropLast, gap.getLast positive, (dropLast_append_getLast positive).symm⟩
    obtain ⟨spareOthers, spareCell⟩ := spare_append.mp spare
    have there : h.buffers b = some ⟨refs, (front ++ items.map live) ++ live a ::
        (others ++ cell :: back)⟩ := by
      simp [here]
    have moved : moveItem t h b (i + (others ++ [cell]).length + items.length) (i + items.length) =
        _ :=
      moveItem_forward there (by simp [place])
        (by simp [place]; omega)
        spareCell
    have next : (h.put b ⟨refs, (front ++ items.map live) ++ vacated t (live a) ::
        (others ++ live a :: back)⟩).buffers b = some ⟨refs, front ++ (items.map live ++
          ((vacated t (live a) :: others) ++ (live a :: back)))⟩ := by
      rw [put_buffers_self, append_assoc, cons_append]
    have same : (vacated t (live a) :: others).length = (others ++ [cell]).length := by simp
    obtain ⟨left, size, spareLeft, rest⟩ := ih (cons_ne_nil _ _) next
      (spare_cons.mpr ⟨spare_vacated _, spareOthers⟩)
    refine ⟨left, size.trans same, spareLeft, ?_⟩
    have more : (items ++ [a]).length = items.length + 1 := length_append
    rw [more, moveForwardType, moved]
    change moveForwardType t _ b _ i items.length = _
    rw [← same, rest]
    simp

/-- The elements from the first to the last are moved over the gap before them. -/
theorem moveBackwardType_eq (positive : gap ≠ [])
    (here : h.buffers b = some ⟨refs, front ++ (gap ++ (items.map live ++ back))⟩)
    (place : front.length = i) (spare : t.Spare gap) :
    ∃ left, left.length = gap.length ∧ t.Spare left ∧
      moveBackwardType t h b i (i + gap.length) items.length =
        .ok (h.put b ⟨refs, front ++ (items.map live ++ (left ++ back))⟩) := by
  induction items using List.reverseRecOn generalizing back with
  | nil =>
    exact ⟨gap, rfl, spare, congrArg Except.ok (put_same here).symm⟩
  | append_singleton items a ih =>
    have before : h.buffers b =
        some ⟨refs, front ++ (gap ++ (items.map live ++ (live a :: back)))⟩ := by
      simp [here]
    obtain ⟨left, size, spareLeft, first⟩ := ih before
    obtain ⟨cell, others, rfl⟩ : ∃ cell others, left = cell :: others := by
      cases left with
      | nil => exact absurd (length_eq_zero_iff.mp size.symm) positive
      | cons cell others => exact ⟨cell, others, rfl⟩
    obtain ⟨spareCell, spareOthers⟩ := spare_cons.mp spareLeft
    have there : (h.put b ⟨refs, front ++ (items.map live ++ ((cell :: others) ++
        live a :: back))⟩).buffers b = some ⟨refs, (front ++ items.map live) ++
          cell :: (others ++ live a :: back)⟩ := by
      rw [put_buffers_self, append_assoc, cons_append]
    have moved : moveItem t _ b (i + items.length) (i + gap.length + items.length) = _ :=
      moveItem_backward there (by simp [place])
        (by rw [length_append, length_map, ← size, length_cons]; omega) spareCell
    refine ⟨others ++ [vacated t (live a)], by rw [← size]; simp,
      spare_append.mpr ⟨spareOthers, spare_vacated _⟩, ?_⟩
    rw [length_append, length_singleton, moveBackwardType, first]
    change moveItem t _ b _ _ = _
    rw [moved]
    simp

/-- `memmove` of the row `block`, whose new place lies in the memory that is spare once the row has
left it. -/
theorem memmove_eq {block : List (Cell α)} {n : Nat} (first covered last : List (Cell α))
    (here : h.buffers b = some ⟨refs, before ++ (block ++ after)⟩)
    (source : before.length = s) (size : block.length = n)
    (again : before ++ (block.map (vacated t) ++ after) = first ++ (covered ++ last))
    (target : first.length = d) (size' : covered.length = n) (spare : t.Spare covered) :
    memmove t h b d s n = .ok (h.put b ⟨refs, first ++ (block ++ last)⟩) := by
  subst source size target
  have isBlock : ((before ++ (block ++ after)).drop before.length).take block.length = block := by
    rw [drop_left, take_left]
  have isRest : (before ++ (block ++ after)).take before.length ++ block.map (vacated t) ++
      (before ++ (block ++ after)).drop (before.length + block.length) =
      first ++ (covered ++ last) := by
    rw [take_left, ← drop_drop, drop_left, drop_left, append_assoc, again]
  have isOver : ((first ++ (covered ++ last)).drop first.length).take block.length = covered := by
    rw [drop_left, ← size', take_left]
  have isLast : (first ++ (covered ++ last)).drop (first.length + block.length) = last := by
    rw [← drop_drop, drop_left, ← size', drop_left]
  have lengths := congrArg List.length again
  simp only [length_append, length_map] at lengths
  have usable : (covered.any fun c => c.alive && !t.trivialDtor) = false := by
    rcases spare with trivial | dead
    · simp [trivial]
    · rw [any_eq_false]
      intro c member
      simp [dead c member]
  unfold memmove
  rw [buffer_eq here]
  change (if _ then _ else if _ then _ else Except.ok (h.put b _)) = _
  rw [isBlock, isRest, isOver, usable, if_neg, if_neg Bool.false_ne_true, take_left, isLast,
    append_assoc]
  simp only [length_append]
  omega

/-- `_do_move_forward`. A row that is moved by nothing stays where it is only if it is moved with
`memmove`. -/
theorem doMoveForward_eq (moves : gap ≠ [] ∨ useTrivialMove t = true)
    (here : h.buffers b = some ⟨refs, front ++ (items.map live ++ (gap ++ back))⟩)
    (place : front.length = i) (spare : t.Spare gap) :
    ∃ left, left.length = gap.length ∧ t.Spare left ∧
      doMoveForward t h b (i + gap.length) i items.length =
        .ok (h.put b ⟨refs, front ++ (left ++ (items.map live ++ back))⟩) := by
  unfold doMoveForward
  by_cases trivial : useTrivialMove t = true
  · have allSpare : t.Spare ((items.map live).map (vacated t) ++ gap) :=
      spare_append.mpr ⟨spare_map_vacated _, spare⟩
    generalize room : (items.map live).map (vacated t) ++ gap = cells at allSpare
    have total : cells.length = items.length + gap.length := by
      rw [← room]
      simp
    refine ⟨cells.take gap.length, by rw [length_take]; omega, allSpare.mono (take_subset _ _), ?_⟩
    rw [if_pos trivial, memmove_eq (front ++ cells.take gap.length)
      (cells.drop gap.length) back here place (length_map _), append_assoc]
    · rw [append_assoc, ← append_assoc (cells.take _), take_append_drop, ← room, append_assoc]
    · simp [place]
      omega
    · simp
      omega
    · exact allSpare.mono (drop_subset _ _)
  · rw [if_neg trivial]
    exact moveForwardType_eq (moves.resolve_right trivial) here place spare

theorem doMoveBackward_eq (moves : gap ≠ [] ∨ useTrivialMove t = true)
    (here : h.buffers b = some ⟨refs, front ++ (gap ++ (items.map live ++ back))⟩)
    (place : front.length = i) (spare : t.Spare gap) :
    ∃ left, left.length = gap.length ∧ t.Spare left ∧
      doMoveBackward t h b i (i + gap.length) items.length =
        .ok (h.put b ⟨refs, front ++ (items.map live ++ (left ++ back))⟩) := by
  unfold doMoveBackward
  by_cases trivial : useTrivialMove t = true
  · have allSpare : t.Spare (gap ++ (items.map live).map (vacated t)) :=
      spare_append.mpr ⟨spare, spare_map_vacated _⟩
    generalize room : gap ++ (items.map live).map (vacated t) = cells at allSpare
    have total : cells.length = gap.length + items.length := by
      rw [← room]
      simp
    have there : h.buffers b = some ⟨refs, (front ++ gap) ++ (items.map live ++ back)⟩ := by
      simp [here]
    refine ⟨cells.drop items.length, by rw [length_drop]; omega,
      allSpare.mono (drop_subset _ _), ?_⟩
    rw [if_pos trivial, memmove_eq front (cells.take items.length)
      (cells.drop items.length ++ back) there (by simp [place]) (length_map _) _ place]
    · simp
      omega
    · exact allSpare.mono (take_subset _ _)
    · rw [append_assoc, ← append_assoc gap, room, ← append_assoc (cells.take _), take_append_drop]
  · rw [if_neg trivial]
    exact moveBackwardType_eq (moves.resolve_right trivial) here place spare

end Aosp.Libutils.Vectors
