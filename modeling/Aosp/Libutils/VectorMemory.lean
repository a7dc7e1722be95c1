import Aosp.Lib.Counted
import Aosp.Libutils.VectorEdits

/- Several vectors in one memory, against lists that have nothing to do with each other. A vector is
called by the number of its slot; a slot is empty before its vector is constructed and after it has
been destroyed. -/
namespace Aosp.Libutils.Vectors

open Heap List
open Function (update update_self update_of_ne)

variable {α β : Type}

structure Memory (α : Type) where
  heap : Heap α
  vectors : List (Option VectorImpl)

/-- What is in a slot. -/
def slot (slots : List (Option β)) (i : Nat) : Option β := slots[i]?.join

variable {slots : List (Option β)} {x : β}

theorem slot_eq_some {i : Nat} : slot slots i = some x ↔ slots[i]? = some (some x) := by
  unfold slot
  rw [Option.join_eq_some_iff]

theorem slot_set_self {i : Nat} (inside : i < slots.length) (y : Option β) :
    slot (slots.set i y) i = y := by
  unfold slot
  rw [getElem?_set_self inside]
  rfl

theorem slot_set_of_ne {i j : Nat} (other : i ≠ j) (y : Option β) :
    slot (slots.set i y) j = slot slots j := by
  unfold slot
  rw [getElem?_set_ne other]

theorem set_same {values : List β} {i : Nat} (here : values[i]? = some x) :
    values.set i x = values := by
  obtain ⟨inside, rfl⟩ := List.getElem?_eq_some_iff.mp here
  exact set_getElem_self inside

theorem lt_of_slot_eq_some {i : Nat} (here : slot slots i = some x) : i < slots.length :=
  (List.getElem?_eq_some_iff.mp (slot_eq_some.mp here)).1

/-- The buffer each slot names. -/
def owners (vectors : List (Option VectorImpl)) : List (Option Nat) :=
  vectors.map fun v => v.bind VectorImpl.storage

theorem owners_getElem? {vectors : List (Option VectorImpl)} {i : Nat} {v : VectorImpl}
    (here : slot vectors i = some v) :
    (owners vectors)[i]? = some v.storage := by
  rw [owners, getElem?_map, slot_eq_some.mp here]
  rfl

theorem owners_set (vectors : List (Option VectorImpl)) (i : Nat) (v : Option VectorImpl) :
    owners (vectors.set i v) = (owners vectors).set i (v.bind VectorImpl.storage) :=
  map_set

def Heap.refsAt (h : Heap α) (b : Nat) : Nat :=
  match h.buffers b with
  | some sb => sb.refs
  | none => 0

/-- A slot of the memory and a slot of the lists. -/
def SlotStored (t : ElementType α) (h : Heap α) : Option VectorImpl → Option (List α) → Prop
  | some v, some items => Stored t h v items
  | none, none => True
  | _, _ => False

/-- Every vector has the elements of its list, and every buffer is counted as often as it is used.
-/
structure Refines (t : ElementType α) (m : Memory α) (lists : List (Option (List α))) : Prop where
  fresh : m.heap.Fresh
  size : m.vectors.length = lists.length
  stored : ∀ i, SlotStored t m.heap (slot m.vectors i) (slot lists i)
  exact : Counted.Exact (owners m.vectors) m.heap.refsAt
  positive : ∀ b sb, m.heap.buffers b = some sb → 0 < sb.refs
  few : lists.length < 2 ^ 32

variable {t : ElementType α} {m : Memory α} {h : Heap α} {lists : List (Option (List α))}
  {i b : Nat} {v : VectorImpl} {items : List α}

variable {sb : SharedBuffer α}

theorem Heap.refsAt_eq (here : h.buffers b = some sb) : h.refsAt b = sb.refs := by
  unfold refsAt
  rw [here]

theorem Heap.refsAt_put (sb : SharedBuffer α) :
    (h.put b sb).refsAt = update h.refsAt b sb.refs := by
  funext c
  by_cases same : c = b
  · subst same
    rw [refsAt_eq put_buffers_self, update_self]
  · rw [update_of_ne same, refsAt, put_buffers_of_ne same]
    rfl

theorem Heap.refsAt_free : (h.free b).refsAt = update h.refsAt b 0 := by
  funext c
  by_cases same : c = b
  · subst same
    simp [refsAt, free]
  · simp [refsAt, free, update_of_ne same]

theorem Heap.refsAt_adopt (sb : SharedBuffer α) :
    (h.adopt sb).refsAt = update h.refsAt h.next sb.refs :=
  refsAt_put sb

theorem Heap.refsAt_dropOwner (here : h.buffers b = some sb) :
    (h.dropOwner (some b)).refsAt = update h.refsAt b (h.refsAt b - 1) := by
  rw [dropOwner_eq here, refsAt_eq here]
  split
  · rename_i last
    rw [refsAt_free, last]
  · exact refsAt_put _

theorem Heap.Fresh.put (fresh : h.Fresh) {old : SharedBuffer α} (here : h.buffers b = some old)
    (sb : SharedBuffer α) :
    (h.put b sb).Fresh := by
  intro c large
  rw [put_buffers_of_ne]
  · exact fresh c large
  · intro same
    subst same
    rw [fresh c large] at here
    cases here

theorem Heap.Fresh.dropOwner (fresh : h.Fresh) (storage : Option Nat) :
    (h.dropOwner storage).Fresh := by
  intro c large
  rw [dropOwner_next] at large
  have gone := fresh c large
  by_cases own : storage = some c
  · rw [own, Heap.dropOwner, gone]
    exact gone
  · rw [dropOwner_buffers_of_ne own]
    exact gone

theorem Heap.Fresh.adopt (fresh : h.Fresh) (sb : SharedBuffer α) : (h.adopt sb).Fresh := by
  intro c large
  have above : h.next + 1 ≤ c := large
  rw [adopt_buffers_of_ne (by omega)]
  exact fresh c (by omega)

namespace Refines

section

variable (refines : Refines t m lists)

include refines

theorem stored_of (here : slot m.vectors i = some v) (list : slot lists i = some items) :
    Stored t m.heap v items := by
  have stored := refines.stored i
  rw [here, list] at stored
  exact stored

theorem exists_vector (list : slot lists i = some items) :
    ∃ v, slot m.vectors i = some v ∧ Stored t m.heap v items := by
  have stored := refines.stored i
  rw [list] at stored
  cases here : slot m.vectors i with
  | none => rw [here] at stored; exact stored.elim
  | some v => rw [here] at stored; exact ⟨v, rfl, stored⟩

theorem shared {j : Nat} {w : VectorImpl} (here : slot m.vectors i = some v)
    (other : slot m.vectors j = some w) (distinct : i ≠ j) (mine : v.storage = some b)
    (also : w.storage = some b) {sb : SharedBuffer α} (buffer : m.heap.buffers b = some sb) :
    sb.refs ≠ 1 := by
  have first := owners_getElem? here
  have second := owners_getElem? other
  rw [mine] at first
  rw [also] at second
  rw [← refsAt_eq buffer]
  exact refines.exact.shared first second distinct

/-- A slot and the memory change; every other vector keeps its elements. -/
theorem set {h' : Heap α} {y : Option VectorImpl} {z : Option (List α)}
    (inside : i < lists.length) (fresh : h'.Fresh) (mine : SlotStored t h' y z)
    (others : ∀ j w l, i ≠ j → slot m.vectors j = some w → Stored t m.heap w l → Stored t h' w l)
    (exact : Counted.Exact ((owners m.vectors).set i (y.bind VectorImpl.storage)) h'.refsAt)
    (positive : ∀ b sb, h'.buffers b = some sb → 0 < sb.refs) :
    Refines t ⟨h', m.vectors.set i y⟩ (lists.set i z) where
  fresh := fresh
  size := by
    rw [length_set, length_set]
    exact refines.size
  stored j := by
    by_cases same : i = j
    · subst same
      rw [slot_set_self (by rw [refines.size]; exact inside), slot_set_self inside]
      exact mine
    · rw [slot_set_of_ne same, slot_set_of_ne same]
      have stored := refines.stored j
      cases isVector : slot m.vectors j with
      | none =>
        rw [isVector] at stored
        cases isList : slot lists j with
        | none => trivial
        | some l => rw [isList] at stored; exact stored
      | some w =>
        rw [isVector] at stored
        cases isList : slot lists j with
        | none => rw [isList] at stored; exact stored
        | some l => rw [isList] at stored; exact others j w l same isVector stored
  exact := by
    rw [owners_set]
    exact exact
  positive := positive
  few := by
    rw [length_set]
    exact refines.few

end

end Refines

/-- The elements do not depend on the count of their buffer. -/
theorem Stored.put_refs (stored : Stored t h v items) (here : h.buffers b = some sb) {refs : Nat}
    (positive : 0 < refs) (bounded : refs < 2 ^ 32) :
    Stored t (h.put b { sb with refs }) v items where
  count := stored.count
  empty := stored.empty
  buffer c isStorage := by
    by_cases same : c = b
    · subst same
      obtain ⟨refs', rest, there, spare, room, -⟩ := stored.buffer c isStorage
      rw [here] at there
      cases there
      exact ⟨refs, rest, put_buffers_self, spare, room, positive, bounded⟩
    · rw [put_buffers_of_ne same]
      exact stored.buffer c isStorage

theorem Stored.dropOwner (stored : Stored t h v items) {storage : Option Nat}
    (kept : ∀ b sb, storage = some b → v.storage = some b → h.buffers b = some sb → sb.refs ≠ 1) :
    Stored t (h.dropOwner storage) v items := by
  by_cases shared : storage.isSome ∧ v.storage = storage
  · obtain ⟨isSome, same⟩ := shared
    obtain ⟨b, rfl⟩ := Option.isSome_iff_exists.mp isSome
    obtain ⟨refs, rest, here, -, -, positive, bounded⟩ := stored.buffer b same
    have many : refs ≠ 1 := kept b _ rfl same here
    rw [dropOwner_eq here, if_neg many]
    exact stored.put_refs here (show 0 < refs - 1 by omega) (show refs - 1 < 2 ^ 32 by omega)
  · refine stored.congr fun c isStorage => dropOwner_buffers_of_ne fun same => shared ?_
    rw [same, isStorage]
    exact ⟨rfl, rfl⟩

theorem positive_dropOwner (positive : ∀ b sb, h.buffers b = some sb → 0 < sb.refs)
    (storage : Option Nat) :
    ∀ b sb, (h.dropOwner storage).buffers b = some sb → 0 < sb.refs := by
  intro c sb here
  by_cases own : storage = some c
  · subst own
    cases isBuffer : h.buffers c with
    | none =>
      rw [Heap.dropOwner, isBuffer] at here
      exact positive c sb here
    | some old =>
      have used := positive c old isBuffer
      rw [dropOwner_eq isBuffer] at here
      split at here
      · have gone : (h.free c).buffers c = none := update_self ..
        rw [gone] at here
        cases here
      · rw [put_buffers_self] at here
        cases here
        change 0 < old.refs - 1
        omega
  · rw [dropOwner_buffers_of_ne own] at here
    exact positive c sb here

theorem positive_put (positive : ∀ b sb, h.buffers b = some sb → 0 < sb.refs)
    {new : SharedBuffer α} (used : 0 < new.refs) :
    ∀ c sb, (h.put b new).buffers c = some sb → 0 < sb.refs := by
  intro c sb here
  by_cases same : c = b
  · subst same
    rw [put_buffers_self] at here
    cases here
    exact used
  · rw [put_buffers_of_ne same] at here
    exact positive c sb here

namespace Refines

section

variable (refines : Refines t m lists)

include refines

/-- A vector gives up its buffer; what is left of it has none. -/
theorem release (here : slot m.vectors i = some v) {y : Option VectorImpl} {z : Option (List α)}
    (nothing : y.bind VectorImpl.storage = none) (mine : ∀ h, SlotStored t h y z) :
    Refines t ⟨m.heap.dropOwner v.storage, m.vectors.set i y⟩ (lists.set i z) := by
  have owner := owners_getElem? here
  refine refines.set (by rw [← refines.size]; exact lt_of_slot_eq_some here)
    (refines.fresh.dropOwner _) (mine _) ?_ ?_ (positive_dropOwner refines.positive _)
  · intro j w l distinct other stored
    exact stored.dropOwner fun b sb mine also buffer =>
      refines.shared here other distinct mine also buffer
  · rw [nothing]
    cases storage : v.storage with
    | none =>
      rw [storage] at owner
      rw [set_same owner]
      exact refines.exact
    | some b =>
      rw [storage] at owner
      have counted := refines.exact.positive owner
      cases buffer : m.heap.buffers b with
      | none =>
        rw [Heap.refsAt, buffer] at counted
        exact absurd counted (lt_irrefl 0)
      | some sb =>
        rw [refsAt_dropOwner buffer]
        exact refines.exact.release owner

/-- A slot without a buffer takes a share in the buffer of another vector. -/
theorem share {j : Nat} {w : VectorImpl}
    (vacant : (owners m.vectors)[i]? = some none) (other : slot m.vectors j = some w)
    (list : slot lists j = some items) (storage : w.storage = some b) :
    ∃ sb, m.heap.buffers b = some sb ∧ sb.refs + 1 < 2 ^ 32 ∧
      Refines t ⟨m.heap.put b { sb with refs := sb.refs + 1 }, m.vectors.set i (some w)⟩
        (lists.set i (some items)) := by
  have stored := refines.stored_of other list
  obtain ⟨refs, rest, buffer, -⟩ := stored.buffer b storage
  have inside : i < (owners m.vectors).length := (List.getElem?_eq_some_iff.mp vacant).1
  have sameSize : (owners m.vectors).length = lists.length := (length_map _).trans refines.size
  have counted := refines.exact.acquire vacant b
  rw [refsAt_eq buffer] at counted
  have few : refs + 1 < 2 ^ 32 := by
    have most := counted.le_length b
    rw [update_self, length_set, sameSize] at most
    exact lt_of_le_of_lt most refines.few
  have used : 0 < refs + 1 := Nat.succ_pos _
  refine ⟨_, buffer, few, refines.set (by rw [← sameSize]; exact inside)
    (refines.fresh.put buffer _) (stored.put_refs buffer used few) ?_ ?_
    (positive_put refines.positive used)⟩
  · intro _ _ _ _ _ kept
    exact kept.put_refs buffer used few
  · rw [refsAt_put]
    change Counted.Exact ((owners m.vectors).set i w.storage) _
    rw [storage]
    exact counted

variable {rest : List (Cell α)}

/-- A slot without a buffer takes one that is handed out. -/
theorem adopt (vacant : (owners m.vectors)[i]? = some none)
    (spare : t.Spare rest) (room : (items.length + rest.length) * t.itemSize < allocLimit) :
    Refines t ⟨m.heap.adopt ⟨1, items.map live ++ rest⟩,
      m.vectors.set i (some ⟨some m.heap.next, items.length⟩)⟩ (lists.set i (some items)) := by
  have inside : i < (owners m.vectors).length := (List.getElem?_eq_some_iff.mp vacant).1
  have sameSize : (owners m.vectors).length = lists.length := (length_map _).trans refines.size
  have unused : m.heap.refsAt m.heap.next = 0 := by
    rw [Heap.refsAt, refines.fresh _ (le_refl _)]
  refine refines.set (by rw [← sameSize]; exact inside) (refines.fresh.adopt _) ?_ ?_ ?_
    (positive_put refines.positive one_pos)
  · refine ⟨rfl, nofun, fun c isStorage => ?_⟩
    cases isStorage
    exact ⟨1, rest, adopt_buffers_next, spare, room, one_pos, by decide⟩
  · intro _ _ _ _ _ kept
    exact kept.adopt refines.fresh _
  · rw [refsAt_adopt]
    have counted := refines.exact.acquire vacant m.heap.next
    rwa [unused] at counted

/-- A vector changes a buffer that it alone owns. -/
theorem rewrite (here : slot m.vectors i = some v) (storage : v.storage = some b)
    {old : List (Cell α)} (only : m.heap.buffers b = some ⟨1, old⟩) (spare : t.Spare rest)
    (room : (items.length + rest.length) * t.itemSize < allocLimit) :
    Refines t ⟨m.heap.put b ⟨1, items.map live ++ rest⟩,
      m.vectors.set i (some ⟨some b, items.length⟩)⟩
      (lists.set i (some items)) := by
  refine refines.set (by rw [← refines.size]; exact lt_of_slot_eq_some here)
    (refines.fresh.put only _) ?_ ?_ ?_ (positive_put refines.positive one_pos)
  · refine ⟨rfl, nofun, fun c isStorage => ?_⟩
    cases isStorage
    exact ⟨1, rest, put_buffers_self, spare, room, one_pos, by decide⟩
  · intro j w l distinct other kept
    refine kept.congr fun c isStorage => put_buffers_of_ne fun same => ?_
    subst same
    exact refines.shared here other distinct storage isStorage only rfl
  · have owner := owners_getElem? here
    rw [storage] at owner
    have single : m.heap.refsAt b = 1 := refsAt_eq only
    have unchanged : update m.heap.refsAt b 1 = m.heap.refsAt := by
      rw [← single, Function.update_eq_self]
    change Counted.Exact ((owners m.vectors).set i (some b)) _
    rw [refsAt_put, unchanged, set_same owner]
    exact refines.exact

/-- A method that edits its vector does the same to its list, and nothing else. -/
theorem edited (here : slot m.vectors i = some v) {h' : Heap α}
    {v' : VectorImpl} (edited : Edited t m.heap v items h' v') :
    Refines t ⟨h', m.vectors.set i (some v')⟩ (lists.set i (some items)) := by
  have inside : i < lists.length := by
    rw [← refines.size]
    exact lt_of_slot_eq_some here
  rcases edited with ⟨rfl, rfl, stored⟩ | ⟨c, rest, rfl, rehomed, spare, room⟩
  · refine refines.set inside refines.fresh stored (fun _ _ _ _ _ kept => kept) ?_ refines.positive
    have owner := owners_getElem? here
    change Counted.Exact ((owners m.vectors).set i v'.storage) _
    rw [set_same owner]
    exact refines.exact
  · cases rehomed with
    | inPlace owner only => exact refines.rewrite here owner only spare room
    | moved =>
      -- the vector gives up its buffer and takes the new one
      have released : Refines t ⟨m.heap.dropOwner v.storage, m.vectors.set i (some ⟨none, 0⟩)⟩
          (lists.set i (some [])) :=
        refines.release here rfl fun h =>
          ⟨rfl, fun _ => rfl, nofun⟩
      have vacant : (owners (m.vectors.set i (some ⟨none, 0⟩)))[i]? = some none := by
        rw [owners_set, getElem?_set_self]
        · rfl
        · rw [owners, length_map, refines.size]
          exact inside
      have adopted := released.adopt vacant spare room
      rwa [set_set, set_set, dropOwner_next] at adopted

end

end Refines

end Aosp.Libutils.Vectors
