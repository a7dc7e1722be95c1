import Aosp.Libutils.TypeHelpers

/- `VectorImpl` of `VectorImpl.cpp`. The methods are given the memory and the vector and return both
as they leave them. -/
namespace Aosp.Libutils.Vectors

variable {α : Type}

/-- `mStorage` names a buffer, or is null. -/
structure VectorImpl where
  storage : Option Nat
  count : Nat
deriving DecidableEq

/-- What the methods return in place of an index. -/
inductive Status where
  | ok (value : Nat)
  | badIndex
  | badValue
  | noMemory
deriving DecidableEq

def checkedAdd (a b : Nat) : Except Fault Nat :=
  if a + b < 2 ^ 64 then .ok (a + b) else .error .fatal

def checkedMul (a b : Nat) : Except Fault Nat :=
  if a * b < 2 ^ 64 then .ok (a * b) else .error .fatal

namespace VectorImpl

/-- The elements behind `mStorage`. -/
def data (v : VectorImpl) : Source α :=
  match v.storage with
  | some b => .inside b 0
  | none => .outside []

def array (v : VectorImpl) : Except Fault Nat :=
  match v.storage with
  | some b => .ok b
  | none => .error .freed

def capacity (h : Heap α) (v : VectorImpl) : Except Fault Nat :=
  match v.storage with
  | some b => do
    let sb ← h.buffer b
    .ok sb.cells.length
  | none => .ok 0

def itemLocation (h : Heap α) (v : VectorImpl) (index : Nat) : Except Fault (Option (Nat × Nat)) := do
  let cap ← capacity h v
  if index < cap then .ok (v.storage.map (·, index)) else .ok none

end VectorImpl

section Methods

variable (t : ElementType α) (junk : Nat → Nat → α)

variable (h : Heap α) (v : VectorImpl)

def releaseStorage : Except Fault (Heap α) :=
  match v.storage with
  | some b => do
    let (before, h) ← release t h b true
    if before = 1 then do
      let h ← doDestroy t h b 0 v.count
      dealloc t h b
    else .ok h
  | none => .ok h

variable (newCapacity : Nat)

/-- The elements are copied to a new buffer, which takes the place of the old one. -/
def copyStorage : Except Fault (Heap α × VectorImpl) := do
  let (c, h) ← alloc t junk h newCapacity
  let h ← doCopy t h c 0 v.data v.count
  let h ← releaseStorage t h v
  .ok (h, { v with storage := some c })

def editArrayImpl : Except Fault (Heap α × VectorImpl) :=
  match v.storage with
  | some b => do
    let sb ← h.buffer b
    if sb.refs = 1 then .ok (h, v) else copyStorage t junk h v sb.cells.length
  | none => .ok (h, v)

def editItemLocation (index : Nat) : Except Fault (Option (Nat × Nat) × Heap α × VectorImpl) := do
  let cap ← v.capacity h
  if index < cap then do
    let (h, v) ← editArrayImpl t junk h v
    .ok (v.storage.map (·, index), h, v)
  else .ok (none, h, v)

/-- `editItemLocation` and what the caller does with the element found there. -/
def editItem (index : Nat) (change : α → α) : Except Fault (Heap α × VectorImpl) := do
  let (location, h, v) ← editItemLocation t junk h v index
  match location with
  | some (b, i) =>
    if index < v.count then do
      let a ← h.load b i
      let h ← h.assign b i (change a)
      .ok (h, v)
    else .ok (h, v)
  | none => .ok (h, v)

/-- The part that `_grow` and `_shrink` have in common when they take a new buffer: the elements
before `index` keep their place, the `n` elements from `first` on go to `dest`. -/
def rebuild (newCapacity index first dest n : Nat) : Except Fault (Heap α × VectorImpl) := do
  let (c, h) ← alloc t junk h newCapacity
  let h ← (if index ≠ 0 then doCopy t h c 0 v.data index else .ok h)
  let h ← (if n ≠ 0 then doCopy t h c dest (v.data.advance first) n else .ok h)
  let h ← releaseStorage t h v
  .ok (h, { v with storage := some c })

/-- The choice between `editResize` and a new buffer, which `_grow` and `_shrink` make alike. `last`
says that no element has to change its place. -/
def reallocate (last : Bool) (index first dest n : Nat) : Except Fault (Heap α × VectorImpl) :=
  match v.storage, last && t.trivialCopy && t.trivialDtor with
  | some b, true => do
    let (c, h) ← editResize t junk h b newCapacity
    .ok (h, { v with storage := some c })
  | _, _ => rebuild t junk h v newCapacity index first dest n

/-- `_grow` when the buffer is too small. -/
def growStorage (index amount newSize : Nat) : Except Fault (Heap α × VectorImpl) := do
  let newCapacity ← checkedAdd newSize (newSize / 2)
  let newCapacity ← checkedAdd newCapacity 1
  let newCapacity := max kMinVectorCapacity newCapacity
  let _ ← checkedMul newCapacity t.itemSize
  reallocate t junk h v newCapacity (v.count == index) index index (index + amount)
    (v.count - index)

variable (index amount : Nat)

/-- `_grow` when the buffer is large enough. -/
def growInPlace : Except Fault (Heap α × VectorImpl) := do
  let (h, v) ← editArrayImpl t junk h v
  if index ≠ v.count then do
    let b ← v.array
    let h ← doMoveForward t h b (index + amount) index (v.count - index)
    .ok (h, v)
  else .ok (h, v)

/-- `_grow`. -/
def grow : Except Fault (Option (Nat × Nat) × Heap α × VectorImpl) := do
  let newSize ← checkedAdd v.count amount
  let cap ← v.capacity h
  let (h, v) ← (if cap < newSize then growStorage t junk h v index amount newSize
    else growInPlace t junk h v index amount)
  let v := { v with count := newSize }
  let location ← v.itemLocation h index
  .ok (location, h, v)

/-- `_shrink` when the buffer is kept. -/
def shrinkInPlace (index amount newSize : Nat) : Except Fault (Heap α × VectorImpl) := do
  let (h, v) ← editArrayImpl t junk h v
  let b ← v.array
  let h ← doDestroy t h b index amount
  if index ≠ newSize then do
    let h ← doMoveBackward t h b index (index + amount) (newSize - index)
    .ok (h, v)
  else .ok (h, v)

/-- `_shrink`. -/
def shrink : Except Fault (Heap α × VectorImpl) :=
  match v.storage with
  | none => .ok (h, v)
  | some _ =>
    if v.count < amount then .error .fatal
    else do
      let newSize := v.count - amount
      let cap ← v.capacity h
      let (h, v) ← (if newSize < cap / 2 then
          reallocate t junk h v (max kMinVectorCapacity (newSize * 2)) (index == newSize) index
            (index + amount) index (newSize - index)
        else shrinkInPlace t junk h v index amount newSize)
      .ok (h, { v with count := newSize })

/-- `insertArrayAt` and `insertAt`, which differ in how the new items are made. -/
def insertWith (make : Heap α → Nat → Nat → Except Fault (Heap α)) (h : Heap α) (v : VectorImpl)
    (index length : Nat) : Except Fault (Status × Heap α × VectorImpl) :=
  if v.count < index then .ok (.badIndex, h, v)
  else do
    let (location, h, v) ← grow t junk h v index length
    match location with
    | some (b, i) => do
      let h ← make h b i
      .ok (.ok index, h, v)
    | none => .ok (.noMemory, h, v)

def insertArrayAt (array : Source α) (index length : Nat) :
    Except Fault (Status × Heap α × VectorImpl) :=
  insertWith t junk (fun h b i => doCopy t h b i array length) h v index length

/-- `insertAt`; no item is `insertAt(index, numItems)`. -/
def insertAt (item : Option (Source α)) (index numItems : Nat) :
    Except Fault (Status × Heap α × VectorImpl) :=
  match item with
  | some item => insertWith t junk (fun h b i => doSplat t h b i item numItems) h v index numItems
  | none => insertWith t junk (fun h b i => doConstruct t h b i numItems) h v index numItems

def push (item : Option (Source α)) : Except Fault (Status × Heap α × VectorImpl) :=
  insertAt t junk h v item v.count 1

def removeItemsAt (index count : Nat) : Except Fault (Status × Heap α × VectorImpl) := do
  let stop ← checkedAdd index count
  if v.count < stop then .ok (.badValue, h, v)
  else do
    let (h, v) ← shrink t junk h v index count
    .ok (.ok index, h, v)

def pop : Except Fault (Status × Heap α × VectorImpl) :=
  if v.count ≠ 0 then removeItemsAt t junk h v (v.count - 1) 1 else .ok (.ok 0, h, v)

def clear : Except Fault (Heap α × VectorImpl) :=
  shrink t junk h v 0 v.count

/-- `replaceAt`; no prototype is `replaceAt(index)`. -/
def replaceAt (prototype : Option (Source α)) (index : Nat) :
    Except Fault (Status × Heap α × VectorImpl) :=
  if v.count ≤ index then .ok (.badIndex, h, v)
  else do
    let (location, h, v) ← editItemLocation t junk h v index
    match location, prototype with
    | some (b, i), some prototype =>
      if prototype.isAt b i then .ok (.ok index, h, v)
      else do
        let h ← doDestroy t h b i 1
        let h ← doCopy t h b i prototype 1
        .ok (.ok index, h, v)
    | some (b, i), none => do
      let h ← doDestroy t h b i 1
      let h ← doConstruct t h b i 1
      .ok (.ok index, h, v)
    | none, some _ => .ok (.noMemory, h, v)
    | none, none => .ok (.ok index, h, v)

def setCapacity : Except Fault (Status × Heap α × VectorImpl) :=
  if newCapacity ≤ v.count then do
    let cap ← v.capacity h
    .ok (.ok cap, h, v)
  else do
    let _ ← checkedMul newCapacity t.itemSize
    let (h, v) ← copyStorage t junk h v newCapacity
    .ok (.ok newCapacity, h, v)

def resize (size : Nat) : Except Fault (Status × Heap α × VectorImpl) := do
  let (result, h, v) ← (if v.count < size then insertAt t junk h v none v.count (size - v.count)
    else if size < v.count then removeItemsAt t junk h v size (v.count - size)
    else .ok (.ok 0, h, v))
  match result with
  | .ok _ => .ok (.ok size, h, v)
  | failed => .ok (failed, h, v)

/-- The inner loop of `sort` on the item `k`, whose place is taken by a copy of the item before it.
The index returned is the one whose element has been copied away. -/
def shiftLoop (cmp : α → α → Int) (temp : α) (h : Heap α) (b : Nat) :
    Nat → Except Fault (Nat × Heap α)
  | 0 => do
    let h ← doDestroy t h b 1 1
    let h ← doCopy t h b 1 (.inside b 0) 1
    .ok (0, h)
  | j + 1 => do
    let h ← doDestroy t h b (j + 2) 1
    let h ← doCopy t h b (j + 2) (.inside b (j + 1)) 1
    let curr ← h.load b j
    if 0 < cmp curr temp then shiftLoop cmp temp h b j else .ok (j + 1, h)

/-- The item `k + 1` goes to its place among the items before it. `temp` is a copy of it outside the
buffer. -/
def sink (cmp : α → α → Int) (h : Heap α) (b k : Nat) : Except Fault (Heap α) := do
  let temp ← h.load b (k + 1)
  let (next, h) ← shiftLoop t cmp temp h b k
  let h ← doDestroy t h b next 1
  doCopy t h b next (.outside [temp]) 1

/-- The outer loop of `sort` with `i = k + 1`. `edited` says that `temp` is not null: the buffer is
copied before the first change. -/
def sortLoop (cmp : α → α → Int) (edited : Bool) (h : Heap α) (v : VectorImpl) (k : Nat) :
    Nat → Except Fault (Heap α × VectorImpl)
  | 0 => .ok (h, v)
  | n + 1 => do
    let b ← v.array
    let item ← h.load b (k + 1)
    let curr ← h.load b k
    if 0 < cmp curr item then do
      let (h, v) ← (if edited then .ok (h, v) else editArrayImpl t junk h v)
      let b ← v.array
      let h ← sink t cmp h b k
      sortLoop cmp true h v (k + 1) n
    else sortLoop cmp edited h v (k + 1) n

def sort (cmp : α → α → Int) (h : Heap α) (v : VectorImpl) : Except Fault (Heap α × VectorImpl) :=
  if 1 < v.count then sortLoop t junk cmp false h v 0 (v.count - 1) else .ok (h, v)

/-- `VectorImpl(const VectorImpl& rhs)`. -/
def copyConstruct (rhs : VectorImpl) : Except Fault (Heap α × VectorImpl) :=
  match rhs.storage with
  | some b => do
    let h ← acquire h b
    .ok (h, rhs)
  | none => .ok (h, rhs)

/-- `operator =` for another vector. -/
def assignFrom (v rhs : VectorImpl) : Except Fault (Heap α × VectorImpl) := do
  let h ← releaseStorage t h v
  if rhs.count ≠ 0 then do
    let b ← rhs.array
    let h ← acquire h b
    .ok (h, rhs)
  else .ok (h, ⟨none, 0⟩)

/-- `finish_vector`. -/
def finishVector : Except Fault (Heap α × VectorImpl) := do
  let h ← releaseStorage t h v
  .ok (h, ⟨none, 0⟩)

end Methods

end Aosp.Libutils.Vectors
