import Mathlib.Data.BitVec
import Aosp.Lib.Fallible
import Mathlib.Logic.Function.Basic

/- `SharedBuffer` and the memory the vectors live in. Every buffer is a row of item sized cells,
and every cell remembers whether an element is alive in it, which the program does not: a step
that would construct over an element, destroy one that is not there or give back the memory of
one is a fault. -/
namespace Aosp.Libutils.Vectors

open List Function

inductive Fault where
  /-- `LOG_ALWAYS_FATAL_IF` -/
  | fatal
  /-- a buffer that is not allocated -/
  | freed
  /-- an item outside its buffer -/
  | outside
  /-- an element that does not exist is read or destroyed -/
  | missing
  /-- an element is constructed where one is alive -/
  | overwritten
  /-- an element is copy constructed from the memory it is constructed in -/
  | selfCopied
  /-- a buffer is given back with an element alive in it -/
  | leaked
deriving DecidableEq

def sizeMax : Nat := 2 ^ 64 - 1

def sizeofSharedBuffer : Nat := 24

/-- Sizes from here on end the program in `SharedBuffer::alloc`. -/
def allocLimit : Nat := sizeMax - sizeofSharedBuffer

def kMinVectorCapacity : Nat := 4

/-- What `VectorImpl` is told about its elements: `mItemSize`, `mFlags` and `has_trivial_move`, with
the element `TYPE()` is. -/
structure ElementType (α : Type) where
  itemSize : Nat
  trivialCtor : Bool
  trivialDtor : Bool
  trivialCopy : Bool
  trivialMove : Bool
  initial : α
  positive : 0 < itemSize
  small : kMinVectorCapacity * itemSize < allocLimit

structure Cell (α : Type) where
  value : α
  alive : Bool
deriving DecidableEq

structure SharedBuffer (α : Type) where
  refs : Nat
  cells : List (Cell α)

/-- `next` is a buffer that has not been handed out yet. -/
structure Heap (α : Type) where
  buffers : Nat → Option (SharedBuffer α)
  next : Nat

variable {α : Type}

def live (a : α) : Cell α := ⟨a, true⟩

namespace Heap

variable (h : Heap α)

def put (b : Nat) (sb : SharedBuffer α) : Heap α :=
  { h with buffers := Function.update h.buffers b (some sb) }

def free (b : Nat) : Heap α := { h with buffers := Function.update h.buffers b none }

/-- A buffer that is handed out. -/
def adopt (sb : SharedBuffer α) : Heap α where
  buffers := Function.update h.buffers h.next (some sb)
  next := h.next + 1

def buffer (b : Nat) : Except Fault (SharedBuffer α) :=
  match h.buffers b with
  | some sb => .ok sb
  | none => .error .freed

variable (b i : Nat)

def cell : Except Fault (Cell α) := do
  let sb ← h.buffer b
  Fallible.index .outside sb.cells i

def setCell (c : Cell α) : Except Fault (Heap α) := do
  let sb ← h.buffer b
  .ok (h.put b { sb with cells := sb.cells.set i c })

/-- `*p` as a value. -/
def load : Except Fault α := do
  let c ← h.cell b i
  if c.alive then .ok c.value else .error .missing

/-- `new(p) TYPE(a)`. An element without a destructor may end by its memory being used again. -/
def construct (t : ElementType α) (h : Heap α) (b i : Nat) (a : α) : Except Fault (Heap α) := do
  let c ← h.cell b i
  if c.alive && !t.trivialDtor then .error .overwritten else h.setCell b i (live a)

/-- `p->~TYPE()`. -/
def destroy : Except Fault (Heap α) := do
  let c ← h.cell b i
  if c.alive then h.setCell b i { c with alive := false } else .error .missing

/-- `*p = a` for a type that is copied byte by byte. -/
def assign (a : α) : Except Fault (Heap α) := do
  let _ ← h.cell b i
  h.setCell b i (live a)

end Heap

/-- The memory `malloc` hands out for a buffer, whatever was there before. -/
def unusedCells (junk : Nat → Nat → α) (b capacity : Nat) : List (Cell α) :=
  (List.range capacity).map fun i => ⟨junk b i, false⟩

section Program

variable (t : ElementType α) (junk : Nat → Nat → α)

variable (h : Heap α)

/-- `SharedBuffer::alloc` of memory for `capacity` items. -/
def alloc (capacity : Nat) : Except Fault (Nat × Heap α) :=
  if capacity * t.itemSize < allocLimit then
    .ok (h.next, h.adopt ⟨1, unusedCells junk h.next capacity⟩)
  else .error .fatal

/-- `SharedBuffer::dealloc`. -/
def dealloc (b : Nat) : Except Fault (Heap α) := do
  let sb ← h.buffer b
  if sb.cells.all fun c => t.trivialDtor || !c.alive then .ok (h.free b) else .error .leaked

/-- `acquire` on the 32 bit counter. -/
def acquire (b : Nat) : Except Fault (Heap α) := do
  let sb ← h.buffer b
  .ok (h.put b { sb with refs := (sb.refs + 1) % 2 ^ 32 })

/-- `release`: the count before it. -/
def release (b : Nat) (keepStorage : Bool) : Except Fault (Nat × Heap α) := do
  let sb ← h.buffer b
  if sb.refs = 1 then do
    let h := h.put b { sb with refs := 0 }
    let h ← if keepStorage then .ok h else dealloc t h b
    .ok (1, h)
  else .ok (sb.refs, h.put b { sb with refs := (sb.refs + (2 ^ 32 - 1)) % 2 ^ 32 })

/-- `editResize` to `capacity` items. `realloc` may move the buffer, and always does here. -/
def editResize (b capacity : Nat) : Except Fault (Nat × Heap α) := do
  let sb ← h.buffer b
  if sb.refs = 1 then
    if sb.cells.length = capacity then .ok (b, h)
    else if capacity * t.itemSize < allocLimit then
      let cells := sb.cells.take capacity ++ (unusedCells junk h.next capacity).drop sb.cells.length
      .ok (h.next, (h.free b).adopt { sb with cells })
    else .error .fatal
  else do
    let (c, h) ← alloc t junk h capacity
    let fresh ← h.buffer c
    let cells := sb.cells.take capacity ++ fresh.cells.drop sb.cells.length
    let (_, h) ← release t (h.put c { fresh with cells }) b false
    .ok (c, h)

end Program

/-- No element is lost when the cells are used. -/
def ElementType.Spare (t : ElementType α) (cells : List (Cell α)) : Prop :=
  t.trivialDtor = true ∨ ∀ c ∈ cells, c.alive = false

section Spare

variable {t : ElementType α} {cells more : List (Cell α)}

theorem ElementType.Spare.mono (spare : t.Spare cells) (fewer : more ⊆ cells) : t.Spare more :=
  spare.imp_right fun dead c member => dead c (fewer member)

@[simp] theorem spare_nil : t.Spare ([] : List (Cell α)) := .inr (by simp)

@[simp] theorem spare_append : t.Spare (cells ++ more) ↔ t.Spare cells ∧ t.Spare more := by
  unfold ElementType.Spare
  rw [forall_mem_append, or_and_left]

theorem spare_cons {c : Cell α} : t.Spare (c :: cells) ↔ t.Spare [c] ∧ t.Spare cells := by
  rw [← singleton_append, spare_append]

theorem spare_unusedCells (junk : Nat → Nat → α) (b capacity : Nat) :
    t.Spare (unusedCells junk b capacity) := by
  refine .inr fun c member => ?_
  obtain ⟨i, -, rfl⟩ := mem_map.mp member
  rfl

@[simp] theorem length_unusedCells (junk : Nat → Nat → α) (b capacity : Nat) :
    (unusedCells junk b capacity).length = capacity := by
  simp [unusedCells]

end Spare

namespace Heap

variable {h : Heap α} {t : ElementType α} {b c i : Nat} {sb : SharedBuffer α}

@[simp] theorem put_buffers_self : (h.put b sb).buffers b = some sb := update_self ..

theorem put_buffers_of_ne (other : c ≠ b) : (h.put b sb).buffers c = h.buffers c :=
  update_of_ne other ..

@[simp] theorem put_put (old : SharedBuffer α) : (h.put b old).put b sb = h.put b sb := by
  unfold put
  rw [update_idem]

theorem put_same (here : h.buffers b = some sb) : h.put b sb = h := by
  unfold put
  rw [← here, update_eq_self]

@[simp] theorem put_free (h : Heap α) (b : Nat) (sb : SharedBuffer α) :
    (h.put b sb).free b = h.free b := by
  unfold put free
  rw [update_idem]

@[simp] theorem adopt_buffers_next : (h.adopt sb).buffers h.next = some sb := update_self ..

theorem adopt_buffers_of_ne (other : c ≠ h.next) : (h.adopt sb).buffers c = h.buffers c :=
  update_of_ne other ..

@[simp] theorem adopt_put (h : Heap α) (old sb : SharedBuffer α) :
    (h.adopt old).put h.next sb = h.adopt sb := by
  unfold put adopt
  rw [update_idem]

theorem buffer_eq (here : h.buffers b = some sb) : h.buffer b = .ok sb := by
  unfold buffer
  rw [here]

variable {refs : Nat} {front back : List (Cell α)} {item : Cell α}

section

variable (here : h.buffers b = some ⟨refs, front ++ item :: back⟩) (place : front.length = i)

include here place

theorem cell_eq : h.cell b i = .ok item := by
  unfold cell
  rw [buffer_eq here]
  change Fallible.index _ _ _ = _
  rw [Fallible.index_eq_ok, ← place, getElem?_append_right (le_refl _), Nat.sub_self]
  rfl

theorem setCell_eq (new : Cell α) :
    h.setCell b i new = .ok (h.put b ⟨refs, front ++ new :: back⟩) := by
  unfold setCell
  rw [buffer_eq here, ← place]
  change Except.ok (h.put b ⟨refs, (front ++ item :: back).set front.length new⟩) = _
  rw [set_append_right _ _ (le_refl _), Nat.sub_self, set_cons_zero]

end

theorem load_eq {a : α} (here : h.buffers b = some ⟨refs, front ++ live a :: back⟩)
    (place : front.length = i) :
    h.load b i = .ok a := by
  unfold load
  rw [cell_eq here place]
  rfl

theorem construct_eq (here : h.buffers b = some ⟨refs, front ++ item :: back⟩)
    (place : front.length = i) (spare : t.Spare [item]) (a : α) :
    h.construct t b i a = .ok (h.put b ⟨refs, front ++ live a :: back⟩) := by
  have usable : (item.alive && !t.trivialDtor) = false := by
    rcases spare with trivial | dead
    · simp [trivial]
    · simp [dead item (mem_singleton_self _)]
  unfold construct
  rw [cell_eq here place]
  change (if (item.alive && !t.trivialDtor) = true then _ else _) = _
  rw [usable, if_neg Bool.false_ne_true, setCell_eq here place]

theorem destroy_eq {a : α} (here : h.buffers b = some ⟨refs, front ++ live a :: back⟩)
    (place : front.length = i) :
    h.destroy b i = .ok (h.put b ⟨refs, front ++ ⟨a, false⟩ :: back⟩) := by
  unfold destroy
  rw [cell_eq here place]
  exact setCell_eq here place _

theorem assign_eq (here : h.buffers b = some ⟨refs, front ++ item :: back⟩)
    (place : front.length = i) (a : α) :
    h.assign b i a = .ok (h.put b ⟨refs, front ++ live a :: back⟩) := by
  unfold assign
  rw [cell_eq here place]
  exact setCell_eq here place _

end Heap

end Aosp.Libutils.Vectors
