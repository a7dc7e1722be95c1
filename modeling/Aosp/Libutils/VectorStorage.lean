import Aosp.Libutils.VectorImpl

/- How a method may change the memory: it works on a buffer that its vector alone owns, either the
one the vector had or one that is handed out for it while the vector gives up its share in the old
one. -/
namespace Aosp.Libutils.Vectors

open Heap List Source Function

variable {α : Type} {t : ElementType α} {junk : Nat → Nat → α} {h h' : Heap α} {v : VectorImpl}
  {items : List α}

namespace Heap

def Fresh (h : Heap α) : Prop := ∀ b, h.next ≤ b → h.buffers b = none

variable {b : Nat} {sb : SharedBuffer α}

theorem Fresh.ne_next (fresh : h.Fresh) (here : h.buffers b = some sb) : b ≠ h.next := by
  intro same
  rw [same, fresh _ (le_refl _)] at here
  cases here

/-- One owner less; the last one takes the buffer with it. -/
def dropOwner (h : Heap α) (storage : Option Nat) : Heap α :=
  match storage with
  | none => h
  | some b =>
    match h.buffers b with
    | none => h
    | some sb => if sb.refs = 1 then h.free b else h.put b { sb with refs := sb.refs - 1 }

theorem dropOwner_eq (here : h.buffers b = some sb) :
    h.dropOwner (some b) = if sb.refs = 1 then h.free b
      else h.put b { sb with refs := sb.refs - 1 } := by
  simp [dropOwner, here]

@[simp] theorem dropOwner_next (storage : Option Nat) : (h.dropOwner storage).next = h.next := by
  unfold dropOwner
  split
  · rfl
  · split
    · rfl
    · split <;> rfl

variable {storage : Option Nat}

theorem dropOwner_buffers_of_ne {c : Nat} (other : storage ≠ some c) :
    (h.dropOwner storage).buffers c = h.buffers c := by
  unfold dropOwner
  split
  · rfl
  · rename_i b
    have distinct : c ≠ b := fun same => other (congrArg some same.symm)
    split
    · rfl
    · split
      · exact update_of_ne distinct ..
      · exact update_of_ne distinct ..

/-- Giving up a share and taking a new buffer can be done in any order. -/
theorem adopt_dropOwner (other : storage ≠ some h.next) (sb : SharedBuffer α) :
    (h.adopt sb).dropOwner storage = (h.dropOwner storage).adopt sb := by
  cases storage with
  | none => rfl
  | some b =>
    have distinct : b ≠ h.next := fun same => other (congrArg some same)
    have kept : (h.adopt sb).buffers b = h.buffers b := update_of_ne distinct ..
    cases here : h.buffers b with
    | none => simp only [dropOwner, kept, here]
    | some old =>
      rw [dropOwner_eq (kept.trans here), dropOwner_eq here]
      split
      · simp only [free, adopt, update_comm distinct]
      · simp only [put, adopt, update_comm distinct]

end Heap

/-- The vector has the elements, at the front of its buffer, and no other element is in there. -/
structure Stored (t : ElementType α) (h : Heap α) (v : VectorImpl) (items : List α) : Prop where
  count : v.count = items.length
  empty : v.storage = none → items = []
  buffer : ∀ b, v.storage = some b → ∃ refs rest,
    h.buffers b = some ⟨refs, items.map live ++ rest⟩ ∧
    t.Spare rest ∧ (items.length + rest.length) * t.itemSize < allocLimit ∧ 0 < refs ∧ refs < 2 ^ 32

namespace Stored

theorem ne_next (stored : Stored t h v items) (fresh : h.Fresh) : v.storage ≠ some h.next := by
  intro isNext
  obtain ⟨refs, rest, here, -⟩ := stored.buffer _ isNext
  exact fresh.ne_next here rfl

theorem congr (stored : Stored t h v items)
    (same : ∀ b, v.storage = some b → h'.buffers b = h.buffers b) :
    Stored t h' v items where
  count := stored.count
  empty := stored.empty
  buffer b isStorage := by
    rw [same b isStorage]
    exact stored.buffer b isStorage

theorem holds_data (stored : Stored t h v items) : (v.data : Source α).Holds h items := by
  unfold VectorImpl.data
  cases storage : v.storage with
  | none =>
    rw [stored.empty storage]
    exact holds_outside []
  | some b =>
    obtain ⟨refs, rest, here, -⟩ := stored.buffer b storage
    have there : h.buffers b = some ⟨refs, [] ++ (items.map live ++ rest)⟩ := here
    exact holds_inside there rfl

theorem avoids_data {c : Nat} (other : v.storage ≠ some c) : (v.data : Source α).Avoids c := by
  unfold VectorImpl.data
  cases storage : v.storage with
  | none => trivial
  | some b => exact fun same => other (storage.trans (congrArg some same))

end Stored

variable {src : Source α}

theorem Source.Holds.take (holds : src.Holds h items) (n : Nat) : src.Holds h (items.take n) := by
  intro k a isItem
  rw [getElem?_take, Option.ite_none_right_eq_some] at isItem
  exact holds k a isItem.2

theorem Source.Holds.advance (holds : src.Holds h items) (n : Nat) :
    (src.advance n).Holds h (items.drop n) := by
  intro k a isItem
  rw [getElem?_drop] at isItem
  have loaded := holds _ _ isItem
  cases src with
  | outside values =>
    rw [advance, load, Fallible.index_eq_ok, getElem?_drop]
    exact (Fallible.index_eq_ok ..).mp loaded
  | inside b i =>
    rw [advance, load, add_assoc]
    exact loaded

variable {b : Nat}

theorem Source.Avoids.advance (avoids : src.Avoids b) (n : Nat) : (src.advance n).Avoids b := by
  cases src with
  | outside values => trivial
  | inside c i => exact avoids

theorem dealloc_eq {refs : Nat} {cells : List (Cell α)} (here : h.buffers b = some ⟨refs, cells⟩)
    (spare : t.Spare cells) :
    dealloc t h b = .ok (h.free b) := by
  have dead : (cells.all fun c => t.trivialDtor || !c.alive) = true := by
    rw [all_eq_true]
    intro c member
    rcases spare with trivial | dead
    · simp [trivial]
    · simp [dead c member]
  unfold dealloc
  rw [buffer_eq here]
  exact if_pos dead

theorem release_eq {sb : SharedBuffer α} {keepStorage : Bool} (here : h.buffers b = some sb)
    (positive : 0 < sb.refs) (bounded : sb.refs < 2 ^ 32)
    (kept : sb.refs = 1 → keepStorage = true) :
    release t h b keepStorage = .ok (sb.refs, h.put b { sb with refs := sb.refs - 1 }) := by
  unfold release
  rw [buffer_eq here]
  by_cases last : sb.refs = 1
  · rw [kept last]
    change (if sb.refs = 1 then _ else _) = _
    rw [last]
    rfl
  · have wrapped : (sb.refs + (2 ^ 32 - 1)) % 2 ^ 32 = sb.refs - 1 := by omega
    change (if sb.refs = 1 then _ else _) = _
    rw [if_neg last, wrapped]

/-- `release_storage` destroys the elements when their last owner gives them up, and then only. -/
theorem releaseStorage_eq (stored : Stored t h v items) :
    releaseStorage t h v = .ok (h.dropOwner v.storage) := by
  unfold releaseStorage
  cases storage : v.storage with
  | none => rfl
  | some b =>
    obtain ⟨refs, rest, here, spare, -, positive, bounded⟩ := stored.buffer b storage
    rw [dropOwner_eq here]
    dsimp only
    rw [release_eq here positive bounded fun _ => rfl]
    change (if refs = 1 then _ else _) = _
    by_cases last : refs = 1
    · rw [if_pos last, if_pos last, stored.count]
      have there : (h.put b ⟨refs - 1, items.map live ++ rest⟩).buffers b =
          some ⟨refs - 1, [] ++ (items.map live ++ rest)⟩ := put_buffers_self
      obtain ⟨gone, -, spareGone, destroyed⟩ := doDestroy_eq there rfl
      change (doDestroy t (h.put b ⟨refs - 1, items.map live ++ rest⟩) b ([] : List (Cell α)).length
        items.length >>= _) = _
      rw [destroyed, put_put]
      change dealloc t (h.put b ⟨refs - 1, gone ++ rest⟩) b = _
      rw [dealloc_eq put_buffers_self (spare_append.mpr ⟨spareGone, spare⟩), put_free]
    · rw [if_neg last, if_neg last]

/-- What a method that works on the vector's buffer has made of the memory: `c` is the vector's
buffer now, its own and with these cells. -/
inductive Rehomed (h : Heap α) (storage : Option Nat) : Heap α → Nat → List (Cell α) → Prop
  | inPlace {b : Nat} {old : List (Cell α)} (owner : storage = some b)
      (only : h.buffers b = some ⟨1, old⟩) (cells : List (Cell α)) :
      Rehomed h storage (h.put b ⟨1, cells⟩) b cells
  | moved (cells : List (Cell α)) : Rehomed h storage ((h.dropOwner storage).adopt ⟨1, cells⟩)
    h.next cells

namespace Rehomed

variable {storage : Option Nat} {c : Nat} {cells : List (Cell α)}

theorem here (rehomed : Rehomed h storage h' c cells) : h'.buffers c = some ⟨1, cells⟩ := by
  cases rehomed with
  | inPlace => exact put_buffers_self
  | moved =>
    have found : ((h.dropOwner storage).adopt ⟨1, cells⟩).buffers (h.dropOwner storage).next = _ :=
      adopt_buffers_next
    rwa [dropOwner_next] at found

theorem put (rehomed : Rehomed h storage h' c cells) (new : List (Cell α)) :
    Rehomed h storage (h'.put c ⟨1, new⟩) c new := by
  cases rehomed with
  | inPlace owner only =>
    rw [put_put]
    exact .inPlace owner only new
  | moved =>
    have replaced := adopt_put (h.dropOwner storage) ⟨1, cells⟩ ⟨1, new⟩
    rw [dropOwner_next] at replaced
    rw [replaced]
    exact .moved new

end Rehomed

/-- Elements that a method can still read after it has provided for its own buffer: they are outside
the vector, though their buffer may be one that the vector shares. -/
def Source.Apart (src : Source α) (h : Heap α) (storage : Option Nat) : Prop :=
  match src with
  | outside _ => True
  | inside c _ => c ≠ h.next ∧ (storage = some c → ∀ sb, h.buffers c = some sb → sb.refs ≠ 1)

theorem Source.Apart.rehomed {storage : Option Nat} {c : Nat} {cells : List (Cell α)}
    (apart : src.Apart h storage) (rehomed : Rehomed h storage h' c cells)
    (holds : src.Holds h items) :
    src.Avoids c ∧ src.Holds h' items := by
  cases src with
  | outside values => exact ⟨trivial, holds⟩
  | inside d i =>
    obtain ⟨notNext, shared⟩ := apart
    cases rehomed with
    | inPlace owner only =>
      have distinct : d ≠ c := by
        intro same
        subst same
        exact shared owner _ only rfl
      have avoids : (inside d i : Source α).Avoids c := distinct
      exact ⟨avoids, fun k a isItem => (load_put avoids _ k).trans (holds k a isItem)⟩
    | moved =>
      refine ⟨notNext, fun k a isItem => (load_congr ?_ k).trans (holds k a isItem)⟩
      intro d' i' same
      cases same
      rw [adopt_buffers_of_ne (by rw [dropOwner_next]; exact notNext)]
      by_cases own : storage = some d
      · subst own
        cases isBuffer : h.buffers d with
        | none => simp only [Heap.dropOwner, isBuffer]
        | some sb =>
          rw [dropOwner_eq isBuffer, if_neg (shared rfl sb isBuffer), put_buffers_self]
          rfl
      · rw [dropOwner_buffers_of_ne own]

end Aosp.Libutils.Vectors
