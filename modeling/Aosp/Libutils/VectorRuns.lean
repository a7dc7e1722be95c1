import Aosp.Libutils.VectorMemory
import Aosp.Libutils.VectorSort

namespace Aosp.Libutils.Vectors

open List

variable {α : Type}

/-- The items an operation is given: memory of the caller, or elements of a vector. -/
inductive Arg (α : Type) where
  | outside (values : List α)
  | elements (vector first : Nat)

inductive Op (α : Type) where
  | create (v : Nat)
  | copy (v rhs : Nat)
  | assign (v rhs : Nat)
  | destroy (v : Nat)
  | insertArrayAt (v : Nat) (array : Arg α) (index length : Nat)
  | insertAt (v : Nat) (item : Option (Arg α)) (index numItems : Nat)
  | push (v : Nat) (item : Option (Arg α))
  | pop (v : Nat)
  | replaceAt (v : Nat) (prototype : Option (Arg α)) (index : Nat)
  | removeItemsAt (v index count : Nat)
  | clear (v : Nat)
  | editItem (v index : Nat) (change : α → α)
  | setCapacity (v newCapacity : Nat)
  | resize (v size : Nat)
  | sort (v : Nat) (cmp : α → α → Int)

namespace Memory

variable (m : Memory α) (v : Nat)

def vector : Except Fault VectorImpl :=
  match slot m.vectors v with
  | some x => .ok x
  | none => .error .freed

/-- A method of the vector in the slot. -/
def call (method : Heap α → VectorImpl → Except Fault (Heap α × VectorImpl)) :
    Except Fault (Memory α) := do
  let x ← m.vector v
  let (h, x) ← method m.heap x
  .ok ⟨h, m.vectors.set v (some x)⟩

/-- A constructor, on a slot that is empty. -/
def construct (constructor : Heap α → Except Fault (Heap α × VectorImpl)) :
    Except Fault (Memory α) :=
  match m.vectors[v]? with
  | some none => do
    let (h, x) ← constructor m.heap
    .ok ⟨h, m.vectors.set v (some x)⟩
  | _ => .error .overwritten

end Memory

def Arg.source (m : Memory α) : Arg α → Except Fault (Source α)
  | outside values => .ok (.outside values)
  | elements w first => do
    let x ← m.vector w
    .ok (x.data.advance first)

def Arg.sourceOf (m : Memory α) : Option (Arg α) → Except Fault (Option (Source α))
  | some arg => do
    let source ← arg.source m
    .ok (some source)
  | none => .ok none

section Program

variable (t : ElementType α) (junk : Nat → Nat → α)

def Memory.step (m : Memory α) : Op α → Except Fault (Memory α)
  | .create v => m.construct v fun h => .ok (h, ⟨none, 0⟩)
  | .copy v rhs => do
    let y ← m.vector rhs
    m.construct v fun h => copyConstruct h y
  | .assign v rhs =>
    if v = rhs then m.call v fun h x => .ok (h, x)
    else do
      let y ← m.vector rhs
      m.call v fun h x => assignFrom t h x y
  | .destroy v => do
    let x ← m.vector v
    let (h, _) ← finishVector t m.heap x
    .ok ⟨h, m.vectors.set v none⟩
  | .insertArrayAt v array index length => do
    let source ← array.source m
    m.call v fun h x => ignoreStatus (insertArrayAt t junk h x source index length)
  | .insertAt v item index numItems => do
    let source ← Arg.sourceOf m item
    m.call v fun h x => ignoreStatus (insertAt t junk h x source index numItems)
  | .push v item => do
    let source ← Arg.sourceOf m item
    m.call v fun h x => ignoreStatus (push t junk h x source)
  | .pop v => m.call v fun h x => ignoreStatus (pop t junk h x)
  | .replaceAt v prototype index => do
    let source ← Arg.sourceOf m prototype
    m.call v fun h x => ignoreStatus (replaceAt t junk h x source index)
  | .removeItemsAt v index count => m.call v fun h x =>
    ignoreStatus (removeItemsAt t junk h x index count)
  | .clear v => m.call v fun h x => clear t junk h x
  | .editItem v index change => m.call v fun h x => editItem t junk h x index change
  | .setCapacity v newCapacity => m.call v fun h x =>
    ignoreStatus (setCapacity t junk h x newCapacity)
  | .resize v size => m.call v fun h x => ignoreStatus (resize t junk h x size)
  | .sort v cmp => m.call v fun h x => sort t junk cmp h x

def Memory.run (m : Memory α) : List (Op α) → Except Fault (Memory α)
  | [] => .ok m
  | op :: ops => do
    let m ← m.step t junk op
    m.run ops

end Program

/-- No vector has been constructed. -/
def Memory.start (n : Nat) : Memory α := ⟨⟨fun _ => none, 0⟩, List.replicate n none⟩

/-- The items a constructor makes. A trivial one leaves any items. -/
def made (t : ElementType α) (any : Nat → α) (n : Nat) : List α :=
  (List.range n).map fun k => if t.trivialCtor then any k else t.initial

variable (lists : List (Option (List α)))

/-- The items an argument names, which are not in the list `v` itself. -/
def Arg.items (v n : Nat) : Arg α → Option (List α)
  | outside values => if n ≤ values.length then some (values.take n) else none
  | elements w first =>
    if w = v then none
    else do
      let l ← slot lists w
      if first + n ≤ l.length then some ((l.drop first).take n) else none

/-- `n` times the item of the argument, or `n` items that are constructed. -/
def Arg.itemsOf (t : ElementType α) (any : Nat → α) (lists : List (Option (List α))) (v n : Nat) :
    Option (Arg α) → Option (List α)
  | some arg => do
    let l ← arg.items lists v 1
    let a ← l.head?
    some (List.replicate n a)
  | none => some (made t any n)

/-- One list changes. -/
def update (v : Nat) (f : List α → List α) : Option (List (Option (List α))) := do
  let l ← slot lists v
  some (lists.set v (some (f l)))

/-- A list in a slot that is empty. -/
def insertList (v : Nat) (l : List α) : Option (List (Option (List α))) :=
  match lists[v]? with
  | some none => some (lists.set v (some l))
  | _ => none

/-- An operation on the lists; none if it is not one on the lists there are. -/
def listStep (t : ElementType α) (any : Nat → α) (lists : List (Option (List α))) :
    Op α → Option (List (Option (List α)))
  | .create v => insertList lists v []
  | .copy v rhs => do
    let l ← slot lists rhs
    insertList lists v l
  | .assign v rhs => do
    let l ← slot lists rhs
    update lists v fun _ => l
  | .destroy v => do
    let _ ← slot lists v
    some (lists.set v none)
  | .insertArrayAt v array index length => do
    let new ← array.items lists v length
    update lists v (inserted · index new)
  | .insertAt v item index numItems => do
    let new ← Arg.itemsOf t any lists v numItems item
    update lists v (inserted · index new)
  | .push v item => do
    let new ← Arg.itemsOf t any lists v 1 item
    update lists v (· ++ new)
  | .pop v => update lists v List.dropLast
  | .replaceAt v prototype index => do
    let new ← Arg.itemsOf t any lists v 1 prototype
    let a ← new.head?
    update lists v (·.set index a)
  | .removeItemsAt v index count =>
    update lists v fun l => if index + count ≤ l.length then without l index count else l
  | .clear v => update lists v fun _ => []
  | .editItem v index change => update lists v (·.modify index change)
  | .setCapacity v _ => update lists v id
  | .resize v size =>
    update lists v fun l => if l.length < size then l ++ made t any (size - l.length)
      else l.take size
  | .sort v cmp => update lists v (sortList cmp)

/-- A run on the lists. -/
inductive ListRun (t : ElementType α) :
    List (Op α) → List (Option (List α)) → List (Option (List α)) → Prop
  | nil (lists : List (Option (List α))) : ListRun t [] lists lists
  | cons {op : Op α} {ops : List (Op α)} {lists next last : List (Option (List α))} (any : Nat → α)
      (step : listStep t any lists op = some next) (rest : ListRun t ops next last) :
      ListRun t (op :: ops) lists last

/-- The property holds of every operation and the lists it is applied to, whatever items the trivial
constructors have left. -/
def Along (t : ElementType α) (holds : List (Option (List α)) → Op α → Prop) :
    List (Op α) → List (Option (List α)) → Prop
  | [], _ => True
  | op :: ops, lists => holds lists op ∧ ∀ any next, listStep t any lists op = some next →
    Along t holds ops next

/-- The operation is one on the lists there are. -/
def Proper (t : ElementType α) (lists : List (Option (List α))) (op : Op α) : Prop :=
  ∀ any, (listStep t any lists op).isSome

/-- The capacity an operation asks for at most, on a vector with these items. -/
def Op.capacity (l : List α) : Op α → Nat
  | .insertArrayAt _ _ _ length | .insertAt _ _ _ length => grownCapacity (l.length + length)
  | .push _ _ => grownCapacity (l.length + 1)
  | .resize _ size => grownCapacity size
  | .setCapacity _ newCapacity => newCapacity
  | _ => 0

/-- There is memory for what the operation asks for, and a `size_t` holds the sum of what it is
given. -/
def Affordable (t : ElementType α) (lists : List (Option (List α))) : Op α → Prop
  | .removeItemsAt _ index count => index + count < 2 ^ 64
  | op@(.insertArrayAt v _ _ _) | op@(.insertAt v _ _ _) | op@(.push v _) | op@(.resize v _)
  | op@(.setCapacity v _) => ∀ l, slot lists v = some l → op.capacity l * t.itemSize < allocLimit
  | _ => True

/-- The operation does not insert an empty row in front of an element or remove one there, unless
such a row is moved with `memmove`. -/
def MovesItems (t : ElementType α) (lists : List (Option (List α))) : Op α → Prop
  | .insertArrayAt v _ index length | .insertAt v _ index length | .removeItemsAt v index length =>
    ∀ l, slot lists v = some l → RowMoves t l index length
  | _ => True

variable {t : ElementType α} {junk : Nat → Nat → α} {m : Memory α} {lists : List (Option (List α))}
  {v : Nat} {l : List α}

/-- Where the run of the program and that of the lists have come to after an operation, unless the
operation has ended the program for want of memory. -/
def Keeps (t : ElementType α) (lists : List (Option (List α))) (op : Op α)
    (result : Except Fault (Memory α)) : Prop :=
  (result = .error .fatal ∧ ¬ Affordable t lists op) ∨
  ∃ m' any lists', result = .ok m' ∧ listStep t any lists op = some lists' ∧ Refines t m' lists'

theorem Refines.vector_eq (refines : Refines t m lists) (list : slot lists v = some l) :
    ∃ x, m.vector v = .ok x ∧ slot m.vectors v = some x ∧ Stored t m.heap x l := by
  obtain ⟨x, here, stored⟩ := refines.exists_vector list
  exact ⟨x, by rw [Memory.vector, here], here, stored⟩

variable {affordable : Prop}

theorem Refines.keeps (refines : Refines t m lists) (list : slot lists v = some l) (op : Op α)
    (method : Heap α → VectorImpl → Except Fault (Heap α × VectorImpl)) {Result : List α → Prop}
    (leaves : ∀ x, slot m.vectors v = some x → Stored t m.heap x l →
      Leaves t m.heap x affordable Result (method m.heap x))
    (affords : Affordable t lists op → affordable)
    (steps : ∀ result, Result result → ∃ any,
      listStep t any lists op = some (lists.set v (some result))) :
    Keeps t lists op (m.call v method) := by
  obtain ⟨x, isVector, here, stored⟩ := refines.vector_eq list
  rw [Memory.call, isVector]
  change Keeps t lists op (method m.heap x >>= _)
  rcases leaves x here stored with ⟨failed, unaffordable⟩ | ⟨h', x', result, done, isResult, edited⟩
  · rw [failed]
    exact .inl ⟨rfl, fun enough => unaffordable (affords enough)⟩
  · rw [done]
    obtain ⟨any, step⟩ := steps result isResult
    exact .inr ⟨_, any, _, rfl, step, refines.edited here edited⟩

theorem update_eq (list : slot lists v = some l) (f : List α → List α) :
    update lists v f = some (lists.set v (some (f l))) := by
  rw [update, list]
  rfl

theorem isSome_update (f : List α → List α) (proper : (update lists v f).isSome) :
    ∃ l, slot lists v = some l := by
  rw [update] at proper
  cases list : slot lists v with
  | none => rw [list] at proper; cases proper
  | some l => exact ⟨l, rfl⟩

variable {arg : Arg α} {n : Nat} {new : List α} {x : VectorImpl}

theorem Arg.length_items (isNew : arg.items lists v n = some new) : new.length = n := by
  cases arg with
  | outside values =>
    rw [items, Option.ite_none_right_eq_some] at isNew
    rw [← Option.some.inj isNew.2, length_take_of_le isNew.1]
  | elements w first =>
    rw [items, Option.ite_none_left_eq_some] at isNew
    obtain ⟨l, -, isNew⟩ := Option.bind_eq_some_iff.mp isNew.2
    rw [Option.ite_none_right_eq_some] at isNew
    rw [← Option.some.inj isNew.2, length_take, length_drop]
    omega

/-- The items of an argument can be read where it points, while the vector `v` is changed. -/
theorem Refines.source_eq (refines : Refines t m lists) (isNew : arg.items lists v n = some new) :
    ∃ source, arg.source m = .ok source ∧ source.Holds m.heap new ∧
      ∀ x, slot m.vectors v = some x → source.Apart m.heap x.storage := by
  cases arg with
  | outside values =>
    rw [Arg.items, Option.ite_none_right_eq_some] at isNew
    cases isNew.2
    exact ⟨_, rfl, (Source.holds_outside values).take n, fun _ _ => trivial⟩
  | elements w first =>
    rw [Arg.items, Option.ite_none_left_eq_some] at isNew
    obtain ⟨distinct, isNew⟩ := isNew
    obtain ⟨l, list, isNew⟩ := Option.bind_eq_some_iff.mp isNew
    rw [Option.ite_none_right_eq_some] at isNew
    cases isNew.2
    obtain ⟨y, isVector, other, stored⟩ := refines.vector_eq list
    refine ⟨y.data.advance first, ?_, (stored.holds_data.advance first).take n, fun x here => ?_⟩
    · rw [Arg.source, isVector]
      rfl
    · unfold VectorImpl.data
      cases storage : y.storage with
      | none => trivial
      | some b =>
        obtain ⟨refs, rest, buffer, -⟩ := stored.buffer b storage
        exact ⟨refines.fresh.ne_next buffer, fun mine sb isBuffer =>
          refines.shared here other (Ne.symm distinct) mine storage isBuffer⟩

theorem Refines.vacant (refines : Refines t m lists) (empty : lists[v]? = some none) :
    m.vectors[v]? = some none := by
  have inside : v < m.vectors.length := by
    rw [refines.size]
    exact (List.getElem?_eq_some_iff.mp empty).1
  have stored := refines.stored v
  rw [slot, slot, empty, List.getElem?_eq_getElem inside] at stored
  rw [List.getElem?_eq_getElem inside]
  cases here : m.vectors[v] with
  | none => rfl
  | some x => rw [here] at stored; exact stored.elim

theorem Refines.place (refines : Refines t m lists) (vacant : (owners m.vectors)[v]? = some none)
    (storage : x.storage = none) (stored : Stored t m.heap x l) :
    Refines t ⟨m.heap, m.vectors.set v (some x)⟩ (lists.set v (some l)) := by
  have inside : v < lists.length := by
    rw [← refines.size, ← length_map (fun v : Option VectorImpl => v.bind VectorImpl.storage)]
    exact (List.getElem?_eq_some_iff.mp vacant).1
  refine refines.set inside refines.fresh stored (fun _ _ _ _ _ kept => kept) ?_ refines.positive
  change Counted.Exact ((owners m.vectors).set v x.storage) _
  rw [storage, set_same vacant]
  exact refines.exact

variable {h : Heap α}

theorem acquire_eq {b : Nat} {sb : SharedBuffer α} (here : h.buffers b = some sb)
    (few : sb.refs + 1 < 2 ^ 32) :
    acquire h b = .ok (h.put b { sb with refs := sb.refs + 1 }) := by
  rw [acquire, Heap.buffer_eq here]
  change Except.ok (h.put b { sb with refs := (sb.refs + 1) % 2 ^ 32 }) = _
  rw [Nat.mod_eq_of_lt few]

variable {rhs : Nat} {y : VectorImpl}

theorem Refines.copy_eq (refines : Refines t m lists)
    (vacant : (owners m.vectors)[v]? = some none) (other : slot m.vectors rhs = some y)
    (list : slot lists rhs = some l) :
    ∃ h', copyConstruct m.heap y = .ok (h', y) ∧
      Refines t ⟨h', m.vectors.set v (some y)⟩ (lists.set v (some l)) := by
  unfold copyConstruct
  cases storage : y.storage with
  | none => exact ⟨m.heap, rfl, refines.place vacant storage (refines.stored_of other list)⟩
  | some b =>
    obtain ⟨sb, buffer, few, shared⟩ := refines.share vacant other list storage
    refine ⟨_, ?_, shared⟩
    change (acquire m.heap b >>= _) = _
    rw [acquire_eq buffer few]
    rfl

theorem Refines.assign_eq (refines : Refines t m lists) (distinct : v ≠ rhs)
    (here : slot m.vectors v = some x) (other : slot m.vectors rhs = some y) {old : List α}
    (mine : slot lists v = some old) (list : slot lists rhs = some l) :
    ∃ h' x', assignFrom t m.heap x y = .ok (h', x') ∧
      Refines t ⟨h', m.vectors.set v (some x')⟩ (lists.set v (some l)) := by
  have stored := refines.stored_of other list
  have released : Refines t ⟨m.heap.dropOwner x.storage, m.vectors.set v (some ⟨none, 0⟩)⟩
      (lists.set v (some [])) :=
    refines.release here rfl fun h => ⟨rfl, fun _ => rfl, nofun⟩
  unfold assignFrom
  rw [releaseStorage_eq (refines.stored_of here mine)]
  change ∃ h' x', (if y.count ≠ 0 then _ else _) = _ ∧ _
  by_cases empty : l = []
  · subst empty
    refine ⟨_, ⟨none, 0⟩, ?_, released⟩
    rw [stored.count, if_neg (not_not.mpr length_nil)]
  · cases storage : y.storage with
    | none => exact absurd (stored.empty storage) empty
    | some b =>
      have vacant : (owners (m.vectors.set v (some ⟨none, 0⟩)))[v]? = some none := by
        rw [owners_set, getElem?_set_self]
        · rfl
        · rw [owners, length_map]
          exact lt_of_slot_eq_some here
      obtain ⟨sb, buffer, few, shared⟩ := released.share vacant
        (by rw [slot_set_of_ne distinct]; exact other)
        (by rw [slot_set_of_ne distinct]; exact list) storage
      rw [set_set, set_set] at shared
      refine ⟨_, y, ?_, shared⟩
      rw [stored.count, if_pos (fun nothing => empty (length_eq_zero_iff.mp nothing)),
        VectorImpl.array, storage]
      change (acquire _ b >>= _) = _
      rw [acquire_eq buffer few]
      rfl

theorem exists_made (isNew : t.Constructed new) : ∃ any, made t any new.length = new := by
  refine ⟨fun k => new.getD k t.initial, ?_⟩
  unfold made
  cases trivial : t.trivialCtor with
  | true =>
    refine ext_getElem (by simp) fun k _ inside => ?_
    simp [inside]
  | false =>
    rw [isNew trivial]
    simp [map_const']

theorem Arg.exists_item {any : Nat → α} (proper : (Arg.itemsOf t any lists v n (some arg)).isSome) :
    ∃ a, arg.items lists v 1 = some [a] ∧
      ∀ any n, Arg.itemsOf t any lists v n (some arg) = some (List.replicate n a) := by
  cases isNew : arg.items lists v 1 with
  | none =>
    rw [itemsOf, isNew] at proper
    cases proper
  | some new =>
    obtain ⟨a, rfl⟩ := length_eq_one_iff.mp (Arg.length_items isNew)
    refine ⟨a, rfl, fun any n => ?_⟩
    rw [itemsOf, isNew]
    rfl

theorem isSome_of_bind {β γ : Type} {first : Option β} {next : β → Option γ}
    (proper : (first >>= next).isSome) :
    ∃ b, first = some b ∧ (next b).isSome := by
  cases first with
  | none => cases proper
  | some b => exact ⟨b, rfl, proper⟩

section

variable (refines : Refines t m lists) {op : Op α} {item : Option (Arg α)}

include refines

/-- A method that takes an item, and the list that it leaves with `n` such items. -/
theorem Refines.keeps_items {next : List α → Option (List (Option (List α)))}
    {f : List α → List α}
    (isStep : ∀ any, listStep t any lists op = Arg.itemsOf t any lists v n item >>= next)
    (proper : Proper t lists op)
    (updates : ∀ new, new.length = n → next new = some (lists.set v (some (f new))))
    (list : slot lists v = some l)
    (method : Option (Source α) → Heap α → VectorImpl → Except Fault (Heap α × VectorImpl))
    (default : ∀ x, Stored t m.heap x l → Leaves t m.heap x affordable
      (fun result => ∃ new, t.Constructed new ∧ new.length = n ∧ result = f new)
      (method none m.heap x))
    (given : ∀ a source x, source.Apart m.heap x.storage → source.Holds m.heap [a] →
      Stored t m.heap x l → Leaves t m.heap x affordable (· = f (List.replicate n a))
      (method (some source) m.heap x))
    (affords : Affordable t lists op → affordable) :
    Keeps t lists op (Arg.sourceOf m item >>= fun source => m.call v (method source)) := by
  cases item with
  | none =>
    refine refines.keeps list op (method none) (fun x _ => default x) affords ?_
    rintro result ⟨new, constructed, rfl, rfl⟩
    obtain ⟨any, isMade⟩ := exists_made constructed
    refine ⟨any, ?_⟩
    rw [isStep, Arg.itemsOf, isMade]
    exact updates new rfl
  | some arg =>
    have steps := proper fun _ => t.initial
    rw [isStep] at steps
    obtain ⟨new, isNew, -⟩ := isSome_of_bind steps
    obtain ⟨a, isItem, isItems⟩ := Arg.exists_item (Option.isSome_of_mem isNew)
    obtain ⟨source, isSource, holds, apart⟩ := refines.source_eq isItem
    rw [Arg.sourceOf, isSource]
    refine refines.keeps list op (method (some source))
      (fun x here stored => given a source x (apart x here) holds stored) affords
      fun result isResult => ⟨fun _ => a, ?_⟩
    rw [isStep, isItems, isResult]
    exact updates _ length_replicate

variable {index length : Nat}

theorem Refines.step_insertArrayAt {array : Arg α}
    (proper : Proper t lists (.insertArrayAt v array index length))
    (moves : MovesItems t lists (.insertArrayAt v array index length)) :
    Keeps t lists (.insertArrayAt v array index length)
      (m.step t junk (.insertArrayAt v array index length)) := by
  obtain ⟨new, isNew, updates⟩ := isSome_of_bind (proper fun _ => t.initial)
  obtain ⟨l, list⟩ := isSome_update _ updates
  obtain ⟨source, isSource, holds, apart⟩ := refines.source_eq isNew
  have rowMoves := moves l list
  obtain rfl := Arg.length_items isNew
  have ends : ∀ x, slot m.vectors v = some x → Stored t m.heap x l →
      Leaves t m.heap x (grownCapacity (l.length + new.length) * t.itemSize < allocLimit)
        (· = inserted l index new) (ignoreStatus
        (insertArrayAt t junk m.heap x source index new.length)) := by
    intro x here stored
    refine (insertWith_leaves junk stored refines.fresh
      (fun h b i => doCopy t h b i source new.length) (· = new)
      rowMoves ⟨new, rfl, rfl⟩ fun h' c gap back inside rehomed size spare => ?_).imp ?_
    · obtain ⟨avoids, still⟩ := (apart x here).rehomed rehomed holds
      exact ⟨new, rfl, rfl, doCopy_eq rehomed.here (length_front inside) size spare avoids still⟩
    · rintro result ⟨new', rfl, -, isResult⟩
      exact isResult
  rw [Memory.step, isSource]
  refine refines.keeps list _
    (fun h x => ignoreStatus (insertArrayAt t junk h x source index new.length))
    ends (fun affordable => affordable l list) fun result isResult => ⟨fun _ => t.initial, ?_⟩
  rw [listStep, isNew]
  exact (update_eq list _).trans (by rw [isResult])

theorem Refines.step_insertAt (proper : Proper t lists (.insertAt v item index length))
    (moves : MovesItems t lists (.insertAt v item index length)) :
    Keeps t lists (.insertAt v item index length)
      (m.step t junk (.insertAt v item index length)) := by
  obtain ⟨new, isNew, updates⟩ := isSome_of_bind (proper fun _ => t.initial)
  obtain ⟨l, list⟩ := isSome_update _ updates
  exact refines.keeps_items (fun _ => rfl) proper
    (fun new _ => update_eq list (inserted · index new)) list
    (fun source h x => ignoreStatus (insertAt t junk h x source index length))
    (fun x stored => insertAt_default_leaves junk stored refines.fresh (moves l list))
    (fun a source x apart holds stored => insertAt_item_leaves junk stored refines.fresh apart holds
    (moves l list)) fun affordable => affordable l list

theorem Refines.step_push (proper : Proper t lists (.push v item)) :
    Keeps t lists (.push v item) (m.step t junk (.push v item)) := by
  obtain ⟨new, isNew, updates⟩ := isSome_of_bind (proper fun _ => t.initial)
  obtain ⟨l, list⟩ := isSome_update _ updates
  exact refines.keeps_items (fun _ => rfl) proper (fun _ _ => update_eq list _) list
    (fun source h x => ignoreStatus (push t junk h x source))
    (fun x stored => by
    rw [push, stored.count]; exact insertAt_end_leaves junk stored refines.fresh 1)
    (fun a source x apart holds stored => push_item_leaves junk stored refines.fresh apart holds)
    fun affordable => affordable l list

theorem Refines.step_replaceAt (proper : Proper t lists (.replaceAt v item index)) :
    Keeps t lists (.replaceAt v item index) (m.step t junk (.replaceAt v item index)) := by
  obtain ⟨new, isNew, rest⟩ := isSome_of_bind (proper fun _ => t.initial)
  obtain ⟨_, -, updates⟩ := isSome_of_bind rest
  obtain ⟨l, list⟩ := isSome_update _ updates
  refine refines.keeps_items (n := 1) (f := fun new => new.head?.elim l (l.set index))
    (fun _ => rfl) proper
    (fun new one => ?_) list (fun source h x => ignoreStatus (replaceAt t junk h x source index))
    (fun x stored => (replaceAt_default_leaves junk stored refines.fresh).imp ?_)
    (fun a source x apart holds stored => replaceAt_item_leaves junk stored refines.fresh apart
    holds) fun _ => trivial
  · obtain ⟨a, rfl⟩ := length_eq_one_iff.mp one
    exact update_eq list _
  · rintro result ⟨a, constructed, isResult⟩
    exact ⟨[a], constructed, rfl, isResult⟩

theorem Refines.keeps_update {f : List α → List α}
    (isUpdate : ∀ any, listStep t any lists op = update lists v f) (proper : Proper t lists op)
    (method : Heap α → VectorImpl → Except Fault (Heap α × VectorImpl)) {affordable : List α → Prop}
    (leaves : ∀ l x, slot lists v = some l → Stored t m.heap x l →
      Leaves t m.heap x (affordable l) (· = f l) (method m.heap x))
    (affords : ∀ l, slot lists v = some l → Affordable t lists op → affordable l) :
    Keeps t lists op (m.call v method) := by
  have updates := proper fun _ => t.initial
  rw [isUpdate] at updates
  obtain ⟨l, list⟩ := isSome_update _ updates
  refine refines.keeps list op method (fun x _ stored => leaves l x list stored) (affords l list)
    fun result isResult => ⟨fun _ => t.initial, ?_⟩
  rw [isUpdate, update_eq list, isResult]

theorem Refines.step_resize {size : Nat} (proper : Proper t lists (.resize v size)) :
    Keeps t lists (.resize v size) (m.step t junk (.resize v size)) := by
  obtain ⟨l, list⟩ := isSome_update _ (proper fun _ => t.initial)
  refine refines.keeps list _ (fun h x => ignoreStatus (resize t junk h x size))
    (fun x _ stored => resize_leaves junk stored refines.fresh size)
    (fun affordable => affordable l list) ?_
  rintro result ⟨new, constructed, isSize, isResult⟩
  obtain ⟨any, isMade⟩ := exists_made constructed
  refine ⟨any, ?_⟩
  rw [isSize] at isMade
  rw [listStep, update_eq list, isMade, isResult]

theorem Refines.step_construct
    (isStep : ∀ any, listStep t any lists op = insertList lists v l) (proper : Proper t lists op)
    (constructor : Heap α → Except Fault (Heap α × VectorImpl))
    (constructs : (owners m.vectors)[v]? = some none → ∃ h' x, constructor m.heap = .ok (h', x) ∧
      Refines t ⟨h', m.vectors.set v (some x)⟩ (lists.set v (some l))) :
    Keeps t lists op (m.construct v constructor) := by
  have steps := proper fun _ => t.initial
  rw [isStep, insertList] at steps
  split at steps
  · rename_i empty
    have vacant := refines.vacant empty
    obtain ⟨h', x, constructed, refines'⟩ := constructs (by rw [owners, getElem?_map, vacant]; rfl)
    refine .inr ⟨_, fun _ => t.initial, _, ?_, ?_, refines'⟩
    · rw [Memory.construct, vacant]
      rw [constructed]
      rfl
    · rw [isStep, insertList, empty]
  · cases steps

theorem Refines.step_copy (proper : Proper t lists (.copy v rhs)) :
    Keeps t lists (.copy v rhs) (m.step t junk (.copy v rhs)) := by
  obtain ⟨l, list, -⟩ := isSome_of_bind (proper fun _ => t.initial)
  obtain ⟨y, isVector, other, -⟩ := refines.vector_eq list
  rw [Memory.step, isVector]
  refine refines.step_construct (l := l) (fun any => ?_) proper (fun h => copyConstruct h y)
    fun vacant => ?_
  · rw [listStep, list]
    rfl
  · obtain ⟨h', copied, refines'⟩ := refines.copy_eq vacant other list
    exact ⟨h', y, copied, refines'⟩

theorem Refines.step_assign (proper : Proper t lists (.assign v rhs)) :
    Keeps t lists (.assign v rhs) (m.step t junk (.assign v rhs)) := by
  obtain ⟨l, list, updates⟩ := isSome_of_bind (proper fun _ => t.initial)
  obtain ⟨old, mine⟩ := isSome_update _ updates
  have isStep : ∀ any, listStep t any lists (.assign v rhs) = some (lists.set v (some l)) := by
    intro any
    rw [listStep, list]
    exact update_eq mine _
  rw [Memory.step]
  by_cases same : v = rhs
  · subst same
    rw [if_pos rfl]
    have ends : ∀ x, slot m.vectors v = some x → Stored t m.heap x l →
        Leaves t m.heap x True (· = l) (.ok (m.heap, x)) :=
      fun x _ stored => .inr ⟨_, x, l, rfl, rfl, Edited.unchanged stored⟩
    exact refines.keeps list _ (fun h x => .ok (h, x)) ends (fun _ => trivial)
      fun result isResult => ⟨fun _ => t.initial, isResult ▸ isStep _⟩
  · obtain ⟨x, isX, here, -⟩ := refines.vector_eq mine
    obtain ⟨y, isY, other, -⟩ := refines.vector_eq list
    obtain ⟨h', x', assigned, refines'⟩ := refines.assign_eq same here other mine list
    refine .inr ⟨_, fun _ => t.initial, _, ?_, isStep _, refines'⟩
    rw [if_neg same, isY]
    change (m.vector v >>= _) = _
    rw [isX]
    change (assignFrom t m.heap x y >>= _) = _
    rw [assigned]
    rfl

theorem Refines.step_destroy (proper : Proper t lists (.destroy v)) :
    Keeps t lists (.destroy v) (m.step t junk (.destroy v)) := by
  obtain ⟨l, list, -⟩ := isSome_of_bind (proper fun _ => t.initial)
  obtain ⟨x, isVector, here, stored⟩ := refines.vector_eq list
  have released : Refines t ⟨m.heap.dropOwner x.storage, m.vectors.set v none⟩ (lists.set v none) :=
    refines.release here rfl fun _ => trivial
  refine .inr ⟨_, fun _ => t.initial, _, ?_, ?_, released⟩
  · rw [Memory.step, isVector]
    change (finishVector t m.heap x >>= _) = _
    rw [finishVector, releaseStorage_eq stored]
    rfl
  · rw [listStep, list]
    rfl

theorem Refines.step (op : Op α) (proper : Proper t lists op) (moves : MovesItems t lists op) :
    Keeps t lists op (m.step t junk op) := by
  have fresh := refines.fresh
  cases op with
  | create v =>
    exact refines.step_construct (fun _ => rfl) proper (fun h => .ok (h, ⟨none, 0⟩)) fun vacant =>
      ⟨m.heap, ⟨none, 0⟩, rfl, refines.place vacant rfl ⟨rfl, fun _ => rfl, nofun⟩⟩
  | copy v rhs => exact refines.step_copy proper
  | assign v rhs => exact refines.step_assign proper
  | destroy v => exact refines.step_destroy proper
  | insertArrayAt v array index length => exact refines.step_insertArrayAt proper moves
  | insertAt v item index numItems => exact refines.step_insertAt proper moves
  | push v item => exact refines.step_push proper
  | pop v =>
    exact refines.keeps_update (fun _ => rfl) proper (fun h x => ignoreStatus (pop t junk h x))
      (fun l x _ stored => pop_leaves junk stored fresh) fun _ _ _ => trivial
  | replaceAt v prototype index => exact refines.step_replaceAt proper
  | removeItemsAt v index count =>
    exact refines.keeps_update (fun _ => rfl) proper
      (fun h x => ignoreStatus (removeItemsAt t junk h x index count))
      (fun l x list stored => removeItemsAt_leaves junk stored fresh (moves l list))
      fun _ _ affordable => affordable
  | clear v =>
    exact refines.keeps_update (fun _ => rfl) proper (fun h x => clear t junk h x)
      (fun l x _ stored => clear_leaves junk stored fresh) fun _ _ _ => trivial
  | editItem v index change =>
    exact refines.keeps_update (fun _ => rfl) proper (fun h x => editItem t junk h x index change)
      (fun l x _ stored => editItem_leaves junk stored fresh index change) fun _ _ _ => trivial
  | setCapacity v newCapacity =>
    exact refines.keeps_update (fun _ => rfl) proper
      (fun h x => ignoreStatus (setCapacity t junk h x newCapacity))
      (fun l x _ stored => setCapacity_leaves junk stored fresh newCapacity)
      fun l list affordable => affordable l list
  | resize v size => exact refines.step_resize proper
  | sort v cmp =>
    exact refines.keeps_update (fun _ => rfl) proper (fun h x => sort t junk cmp h x)
      (fun l x _ stored => by
        obtain ⟨h', v', sorted, edited, -⟩ := sort_eq junk stored fresh cmp
        exact .inr ⟨h', v', _, sorted, rfl, edited⟩) fun _ _ _ => trivial

theorem Refines.run (ops : List (Op α)) (proper : Along t (Proper t) ops lists)
    (moves : Along t (MovesItems t) ops lists) :
    (m.run t junk ops = .error .fatal ∧ ¬ Along t (Affordable t) ops lists) ∨
    ∃ m' lists', m.run t junk ops = .ok m' ∧ ListRun t ops lists lists' ∧ Refines t m' lists' := by
  induction ops generalizing m lists with
  | nil => exact .inr ⟨m, lists, rfl, .nil lists, refines⟩
  | cons op ops ih =>
    rw [Memory.run]
    have kept : Keeps t lists op (m.step t junk op) := refines.step op proper.1 moves.1
    rcases kept with ⟨failed, unaffordable⟩ | ⟨m', any, next, done, step, refines'⟩
    · rw [failed]
      exact .inl ⟨rfl, fun affordable => unaffordable affordable.1⟩
    · rw [done]
      rcases ih refines' (proper.2 any next step) (moves.2 any next step) with
        ⟨failed, unaffordable⟩ | ⟨m'', last, finished, rest, refines''⟩
      · exact .inl ⟨failed, fun affordable => unaffordable (affordable.2 any next step)⟩
      · exact .inr ⟨m'', last, finished, .cons any step rest, refines''⟩

end

theorem refines_start (t : ElementType α) (few : n < 2 ^ 32) :
    Refines t (Memory.start n) (List.replicate n none) where
  fresh _ _ := rfl
  size := by
    rw [Memory.start, length_replicate, length_replicate]
  stored i := by
    have empty : ∀ β, slot (List.replicate n (none : Option β)) i = none := by
      intro β
      unfold slot
      rw [getElem?_replicate]
      split <;> rfl
    rw [Memory.start, empty, empty]
    trivial
  exact b := by
    rw [Memory.start, owners, map_replicate, count_replicate]
    rfl
  positive _ _ := nofun
  few := by
    rw [length_replicate]
    exact few

/-- The elements behind `mStorage`. -/
def VectorImpl.items (h : Heap α) (v : VectorImpl) : List α :=
  match v.storage with
  | some b =>
    match h.buffers b with
    | some sb => (sb.cells.take v.count).map Cell.value
    | none => []
  | none => []

def Memory.contents (m : Memory α) : List (Option (List α)) :=
  m.vectors.map fun v => v.map (VectorImpl.items m.heap)

/-- The vectors have the elements of the lists, and the memory holds these elements and no others:
every buffer belongs to a vector, and in a buffer of a type with a destructor just the vector's
elements are alive. -/
structure Invisible (t : ElementType α) (m : Memory α) (lists : List (Option (List α))) : Prop where
  contents : m.contents = lists
  owned : ∀ b, m.heap.buffers b ≠ none → ∃ i v, slot m.vectors i = some v ∧ v.storage = some b
  alive : t.trivialDtor = false → ∀ i v b sb, slot m.vectors i = some v → v.storage = some b →
    m.heap.buffers b = some sb →
    sb.cells.map Cell.alive = List.replicate v.count true ++
    List.replicate (sb.cells.length - v.count) false

theorem Stored.items_eq (stored : Stored t h x l) : x.items h = l := by
  unfold VectorImpl.items
  cases storage : x.storage with
  | none => exact (stored.empty storage).symm
  | some b =>
    obtain ⟨refs, rest, here, -⟩ := stored.buffer b storage
    simp only [here]
    rw [stored.count, take_append_of_le_length (by simp), take_of_length_le (by simp), map_map]
    exact map_id l

theorem Refines.invisible (refines : Refines t m lists) : Invisible t m lists where
  contents := by
    refine ext_getElem? fun i => ?_
    have stored := refines.stored i
    rw [Memory.contents, getElem?_map]
    rcases lt_or_ge i lists.length with inside | outside
    · have inside' : i < m.vectors.length := by
        rw [refines.size]
        exact inside
      rw [slot, slot, List.getElem?_eq_getElem inside', List.getElem?_eq_getElem inside] at stored
      rw [List.getElem?_eq_getElem inside', List.getElem?_eq_getElem inside]
      cases isVector : m.vectors[i] with
      | none =>
        cases isList : lists[i] with
        | none => rfl
        | some l => rw [isVector, isList] at stored; exact stored.elim
      | some x =>
        cases isList : lists[i] with
        | none => rw [isVector, isList] at stored; exact stored.elim
        | some l =>
          rw [isVector, isList] at stored
          change some (some (x.items m.heap)) = _
          rw [stored.items_eq]
    · rw [List.getElem?_eq_none outside, List.getElem?_eq_none
        (by rw [refines.size]; exact outside)]
      rfl
  owned b allocated := by
    cases buffer : m.heap.buffers b with
    | none => exact absurd buffer allocated
    | some sb =>
      have counted : 0 < m.heap.refsAt b := by
        rw [Heap.refsAt_eq buffer]
        exact refines.positive b sb buffer
      obtain ⟨v, member, isStorage⟩ := mem_map.mp (refines.exact.exists_owner counted)
      obtain ⟨x, rfl, storage⟩ := Option.bind_eq_some_iff.mp isStorage
      obtain ⟨i, inside, here⟩ := mem_iff_getElem.mp member
      exact ⟨i, x, slot_eq_some.mpr (List.getElem?_eq_some_iff.mpr ⟨inside, here⟩), storage⟩
  alive destructs i x b sb here storage buffer := by
    have stored := refines.stored i
    rw [here] at stored
    cases list : slot lists i with
    | none => rw [list] at stored; exact stored.elim
    | some l =>
      rw [list] at stored
      obtain ⟨refs, rest, there, spare, -⟩ := Stored.buffer stored b storage
      rw [buffer] at there
      cases there
      have dead : ∀ c ∈ rest, c.alive = false :=
        spare.resolve_left (by rw [destructs]; exact Bool.false_ne_true)
      have count : x.count = l.length := Stored.count stored
      rw [map_append, length_append, length_map, count, Nat.add_sub_cancel_left,
        map_map, map_congr_left dead, map_const']
      exact congrArg (· ++ _) (map_const' ..)

/-- Whatever is done to any number of vectors, each of them has the elements of a list to which the
same has been done and of which no other list knows. No element is constructed over another one or
destroyed twice, and none is left behind: the memory holds the elements of the vectors that exist.
The exceptions are rows of no items that elements have to be moved over, and counts of owners that
have wrapped around; a run that asks for more memory than there is ends the program. -/
theorem copyOnWrite_invisible (t : ElementType α) (junk : Nat → Nat → α) (ops : List (Op α))
    (n : Nat) (few : n < 2 ^ 32) (proper : Along t (Proper t) ops (List.replicate n none))
    (moves : Along t (MovesItems t) ops (List.replicate n none)) :
    ((Memory.start n).run t junk ops = .error .fatal ∧
      ¬ Along t (Affordable t) ops (List.replicate n none)) ∨
      ∃ m lists, (Memory.start n).run t junk ops = .ok m ∧
      ListRun t ops (List.replicate n none) lists ∧ Invisible t m lists := by
  rcases (refines_start t few).run ops proper moves with failed | ⟨m, lists, done, listRun, refines⟩
  · exact .inl failed
  · exact .inr ⟨m, lists, done, listRun, refines.invisible⟩

/-- A class with constructors and a destructor, without any of the traits. -/
def classType : ElementType Nat := ⟨8, false, false, false, false, 0, by decide, by decide⟩

/-- A vector is copied, the copy changed and then copied itself. -/
def copyAndPush : List (Op Nat) :=
  [.create 0, .push 0 (some (.outside [1])), .copy 1 0, .push 1 (some (.outside [2])), .copy 2 1]

theorem copyAndPush_along : Along classType (Proper classType) copyAndPush (List.replicate 3 none) ∧
    Along classType (MovesItems classType) copyAndPush (List.replicate 3 none) := by
  constructor
  · refine ⟨fun _ => rfl, fun _ _ step => ?_⟩
    cases step
    refine ⟨fun _ => rfl, fun _ _ step => ?_⟩
    cases step
    refine ⟨fun _ => rfl, fun _ _ step => ?_⟩
    cases step
    refine ⟨fun _ => rfl, fun _ _ step => ?_⟩
    cases step
    exact ⟨fun _ => rfl, fun _ _ _ => trivial⟩
  · exact ⟨trivial, fun _ _ _ => ⟨trivial, fun _ _ _ => ⟨trivial, fun _ _ _ =>
      ⟨trivial, fun _ _ _ => ⟨trivial, fun _ _ _ => trivial⟩⟩⟩⟩⟩

theorem copyOnWrite_invisible_copyAndPush :
    ((Memory.start 3).run classType (fun _ _ => 0) copyAndPush = .error .fatal ∧
      ¬ Along classType (Affordable classType) copyAndPush (List.replicate 3 none)) ∨
    ∃ m lists, (Memory.start 3).run classType (fun _ _ => 0) copyAndPush = .ok m ∧
      ListRun classType copyAndPush (List.replicate 3 none) lists ∧ Invisible classType m lists :=
  copyOnWrite_invisible classType (fun _ _ => 0) copyAndPush 3 (by decide) copyAndPush_along.1
    copyAndPush_along.2

/-- Only the trait of a trivial copy constructor: an item is copied with an assignment. -/
def assignedType : ElementType Nat := ⟨8, false, false, true, false, 0, by decide, by decide⟩

/-- A vector of two items. -/
def twoPushes : List (Op Nat) :=
  [.create 0, .push 0 (some (.outside [1])), .push 0 (some (.outside [2]))]

/-- Inserting or removing no items in front of an element moves every later element onto itself: it
is constructed over the living element and then destroyed. Where the copy is an assignment the run
goes on, and the vector destroys the dead elements once more. -/
theorem emptyRow_destroys :
    ListRun classType (twoPushes ++ [.insertArrayAt 0 (.outside []) 0 0]) [none] [some [1, 2]] ∧
    ListRun classType (twoPushes ++ [.removeItemsAt 0 0 0]) [none] [some [1, 2]] ∧
    (Memory.start 1).run classType (fun _ _ => 0)
    (twoPushes ++ [.insertArrayAt 0 (.outside []) 0 0]) =
      .error .selfCopied ∧ (Memory.start 1).run classType
      (fun _ _ => 0) (twoPushes ++ [.removeItemsAt 0 0 0]) =
      .error .selfCopied ∧ ListRun assignedType (twoPushes ++ [.removeItemsAt 0 0 0, .destroy 0])
      [none] [none] ∧
    (Memory.start 1).run assignedType (fun _ _ => 0)
    (twoPushes ++ [.removeItemsAt 0 0 0, .destroy 0]) =
      .error .missing := by
  have unset : Nat → Nat := fun _ => 0
  refine ⟨?_, ?_, rfl, rfl, ?_, rfl⟩
  · exact .cons unset rfl (.cons unset rfl (.cons unset rfl (.cons unset rfl (.nil _))))
  · exact .cons unset rfl (.cons unset rfl (.cons unset rfl (.cons unset rfl (.nil _))))
  · exact .cons unset rfl (.cons unset rfl (.cons unset rfl
      (.cons unset rfl (.cons unset rfl (.nil _)))))

/-- `sort` leaves a stable sort of the vector's elements. No other vector changes, and nothing at
all when the elements are in order. -/
theorem sort_stable {cmp : α → α → Int} (order : Compare.TotalPreorder cmp)
    (refines : Refines t m lists) (list : slot lists v = some l) :
    ∃ m' sorted, m.step t junk (.sort v cmp) = .ok m' ∧
      Refines t m' (lists.set v (some sorted)) ∧ m'.contents = m.contents.set v (some sorted) ∧
      sorted.Perm l ∧
      sorted.Pairwise (fun a b => cmp a b ≤ 0) ∧
      (∀ a, (sorted.filter fun b => cmp a b = 0) = l.filter fun b => cmp a b = 0) ∧
      (l.Pairwise (fun a b => cmp a b ≤ 0) → m' = m) := by
  obtain ⟨x, isVector, here, stored⟩ := refines.vector_eq list
  obtain ⟨h', x', done, edited, unchanged⟩ := sort_eq junk stored refines.fresh cmp
  have refines' := refines.edited here edited
  refine ⟨_, sortList cmp l, ?_, refines', ?_, ?_, sortList_sorted l order, sortList_stable l order,
    fun ordered => ?_⟩
  · rw [Memory.step, Memory.call, isVector]
    change (sort t junk cmp m.heap x >>= _) = _
    rw [done]
    rfl
  · rw [refines'.invisible.contents, refines.invisible.contents]
  · exact ((reverse_perm _).trans (perm_insertionSort _ _)).trans (reverse_perm l)
  · obtain ⟨rfl, rfl⟩ := unchanged ordered.isChain
    rw [set_same (slot_eq_some.mp here)]

/-- One of two vectors that share their storage is sorted, in descending order. -/
theorem sort_stable_copyAndPush :
    ∃ m m' sorted,
    (Memory.start 3).run classType (fun _ _ => 0) copyAndPush = .ok m ∧
    m.vectors[1]? = m.vectors[2]? ∧
    m.step classType (fun _ _ => 0) (.sort 1 fun a b => (b : Int) - a) = .ok m' ∧
    sorted.Perm [1, 2] ∧
    m'.contents = [some [1], some sorted, some [1, 2]] := by
  obtain ⟨m, done, shared, before⟩ : ∃ m, (Memory.start 3).run classType
      (fun _ _ => 0) copyAndPush = .ok m ∧
    m.vectors[1]? = m.vectors[2]? ∧ m.contents = [some [1], some [1, 2], some [1, 2]] :=
    ⟨_, rfl, rfl, rfl⟩
  rcases (refines_start classType (by decide)).run copyAndPush copyAndPush_along.1
    copyAndPush_along.2 with
    ⟨failed, -⟩ | ⟨m', lists, done', listRun, refines⟩
  · exact nomatch done.symm.trans failed
  cases done.symm.trans done'
  have list : slot lists 1 = some [1, 2] := by
    repeat
      cases listRun
      rename_i step listRun
      cases step
    cases listRun
    rfl
  have order : Compare.TotalPreorder fun a b : Nat => (b : Int) - a :=
    ⟨fun a b => by omega, fun a b c _ _ => by omega⟩
  obtain ⟨m', sorted, step, -, contents, perm, -⟩ := sort_stable order refines list
  rw [before] at contents
  exact ⟨m, m', sorted, done, shared, step, perm, contents⟩

end Aosp.Libutils.Vectors
