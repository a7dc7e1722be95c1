import Aosp.Libutils.VectorEdits
import Aosp.Lib.Compare
import Mathlib.Data.List.Sort

/- `VectorImpl::sort`: an insertion sort that starts from the front and looks for the place of each
item from the back. -/
namespace Aosp.Libutils.Vectors

open Heap List

variable {α : Type} {t : ElementType α} {h h' : Heap α} {v : VectorImpl} {items : List α}
  (cmp : α → α → Int)

/-- The items in the order of the comparison, equal ones in the order they had. -/
def sortList (items : List α) : List α :=
  (items.reverse.insertionSort fun a b => cmp b a ≤ 0).reverse

variable (sorted : List α)

/-- The item behind the last one that is not above it. -/
def insertLast (item : α) : List α :=
  (sorted.reverse.orderedInsert (fun a b => cmp b a ≤ 0) item).reverse

theorem sortList_concat (items : List α) (item : α) :
    sortList cmp (items ++ [item]) = insertLast cmp (sortList cmp items) item := by
  simp [sortList, insertLast]

theorem foldl_insertLast (items : List α) :
    items.foldl (insertLast cmp) [] = sortList cmp items := by
  induction items using List.reverseRecOn with
  | nil => rfl
  | append_singleton items item ih =>
    simp [ih, sortList_concat]

theorem insertLast_concat (last item : α) :
    insertLast cmp (sorted ++ [last]) item =
      if 0 < cmp last item then insertLast cmp sorted item ++ [last]
      else sorted ++ [last] ++ [item] := by
  unfold insertLast
  rw [reverse_append, reverse_singleton, singleton_append, orderedInsert_cons]
  by_cases above : 0 < cmp last item
  · rw [if_pos above, if_neg (not_le.mpr above), reverse_cons]
  · rw [if_neg above, if_pos (not_lt.mp above)]
    simp

theorem length_insertLast (item : α) : (insertLast cmp sorted item).length = sorted.length + 1 := by
  rw [insertLast, length_reverse, orderedInsert_length, length_reverse]

theorem length_foldl_insertLast (sorted later : List α) :
    (later.foldl (insertLast cmp) sorted).length = sorted.length + later.length := by
  induction later generalizing sorted with
  | nil => rfl
  | cons item later ih =>
    simp [ih, length_insertLast]
    omega

variable {cmp}

variable {b : Nat} {front back : List (Cell α)}

variable {other : Cell α}

/-- One round of the inner loop: the item at `k` is copied over the one behind it. -/
theorem copyUp_eq {a : α} {k : Nat} (isLive : other.alive = true)
    (here : h.buffers b = some ⟨1, front ++ live a :: (other :: back)⟩) (place : front.length = k) :
    (doDestroy t h b (k + 1) 1 >>= fun h => doCopy t h b (k + 1) (.inside b k) 1) =
      .ok (h.put b ⟨1, front ++ live a :: (live a :: back)⟩) := by
  obtain ⟨value, alive⟩ := other
  cases isLive
  have second : h.buffers b = some ⟨1, (front ++ [live a]) ++ live value :: back⟩ := by
    rw [here, append_assoc]
    rfl
  have place' : (front ++ [live a]).length = k + 1 := by
    rw [length_append, place]
    rfl
  have destroyed : (h.put b ⟨1, (front ++ [live a]) ++ vacated t (live value) :: back⟩).buffers b =
      some ⟨1, front ++ live a :: (vacated t (live value) :: back)⟩ := by
    rw [put_buffers_self, append_assoc]
    rfl
  rw [doDestroy_one second place']
  change (Heap.load _ b k >>= fun a => Heap.construct t _ b (k + 1) a) = _
  rw [load_eq destroyed place]
  change Heap.construct t _ b (k + 1) a = _
  rw [construct_eq put_buffers_self place' (spare_vacated _), put_put, append_assoc]
  rfl

/-- The inner loop leaves a place for the item behind the last one that is not above it. -/
theorem shiftLoop_eq {temp last : α} (sorted : List α) (isLive : other.alive = true)
    (above : 0 < cmp last temp)
    (here : h.buffers b = some ⟨1, sorted.map live ++ live last :: (other :: back)⟩) :
    ∃ kept copied moved, insertLast cmp (sorted ++ [last]) temp = kept ++ temp :: moved ∧
      shiftLoop t cmp temp h b sorted.length = .ok (kept.length,
        h.put b ⟨1, kept.map live ++ live copied :: (moved.map live ++ back)⟩) := by
  induction sorted using List.reverseRecOn generalizing h last other back with
  | nil =>
    refine ⟨[], last, [last], ?_, ?_⟩
    · rw [insertLast_concat, if_pos above]
      rfl
    · obtain ⟨h₁, destroyed, copied⟩ := (Fallible.bind_eq_ok ..).mp
        (copyUp_eq (k := 0) isLive here rfl)
      change (doDestroy t h b (0 + 1) 1 >>= _) = _
      rw [destroyed]
      change (doCopy t h₁ b (0 + 1) (.inside b 0) 1 >>= _) = _
      rw [copied]
      rfl
  | append_singleton sorted item ih =>
    have there : h.buffers b = some ⟨1, (sorted ++ [item]).map live ++ live last ::
      (other :: back)⟩ := here
    have size : (sorted ++ [item]).length = sorted.length + 1 := length_append
    obtain ⟨h₁, destroyed, copied⟩ := (Fallible.bind_eq_ok ..).mp
      (copyUp_eq isLive there (by rw [length_map, size]))
    have next : (h.put b ⟨1, (sorted ++ [item]).map live ++ live last ::
        (live last :: back)⟩).buffers b =
        some ⟨1, sorted.map live ++ live item :: (live last :: (live last :: back))⟩ := by
      rw [put_buffers_self, map_append, append_assoc]
      rfl
    rw [size, shiftLoop, destroyed]
    change ∃ kept copied moved, _ ∧
        (doCopy t h₁ b (sorted.length + 1 + 1) (.inside b (sorted.length + 1)) 1 >>= _) = _
    rw [copied]
    change ∃ kept copied moved, _ ∧ (Heap.load _ b sorted.length >>= _) = _
    rw [load_eq next (length_map _), insertLast_concat, if_pos above]
    change ∃ kept copied moved, _ ∧ (if 0 < cmp item temp then _ else _) = _
    by_cases above' : 0 < cmp item temp
    · obtain ⟨kept, copied, moved, inserted, rest⟩ :=
        ih (show (live last).alive = true from rfl) above' next
      refine ⟨kept, copied, moved ++ [last], ?_, ?_⟩
      · simp [inserted]
      · rw [if_pos above', rest, put_put, map_append, append_assoc]
        rfl
    · refine ⟨sorted ++ [item], last, [last], ?_, ?_⟩
      · rw [insertLast_concat, if_neg above', append_assoc]
        rfl
      · rw [if_neg above', size]
        rfl

variable {item : α}

/-- An item that is below the one before it goes to its place among those before it. -/
theorem sink_eq {last : α} {sorted : List α} (above : 0 < cmp last item)
    (here : h.buffers b = some ⟨1, (sorted ++ [last]).map live ++ live item :: back⟩) :
    sink t cmp h b sorted.length =
      .ok (h.put b ⟨1, (insertLast cmp (sorted ++ [last]) item).map live ++ back⟩) := by
  have there : h.buffers b = some ⟨1, sorted.map live ++ live last :: (live item :: back)⟩ := by
    simp [here]
  obtain ⟨kept, copied, moved, inserted, shifted⟩ := shiftLoop_eq sorted rfl above there
  unfold sink
  rw [load_eq here (by rw [length_map, length_append]; rfl)]
  change (shiftLoop t cmp item h b sorted.length >>= _) = _
  rw [shifted]
  change (doDestroy t _ b kept.length 1 >>= _) = _
  rw [doDestroy_one put_buffers_self (length_map _), put_put]
  change Heap.construct t _ b kept.length item = _
  rw [construct_eq put_buffers_self (length_map _) (spare_vacated _), put_put, inserted, map_append,
    append_assoc]
  rfl

variable {junk : Nat → Nat → α} {sorted later : List α} {last : α}

variable {c : Nat} {rest : List (Cell α)}

theorem load_pair {refs : Nat}
    (here : h.buffers c = some ⟨refs, (sorted ++ [last] ++ item :: later).map live ++ rest⟩) :
    h.load c (sorted.length + 1) = .ok item ∧ h.load c sorted.length = .ok last := by
  constructor
  · have there : h.buffers c = some ⟨refs, (sorted ++ [last]).map live ++ live item ::
        (later.map live ++ rest)⟩ := by
      simp [here]
    exact load_eq there (by rw [length_map, length_append]; rfl)
  · have there : h.buffers c = some ⟨refs, sorted.map live ++ live last ::
        ((item :: later).map live ++ rest)⟩ := by
      simp [here]
    exact load_eq there (length_map _)

/-- The outer loop once the vector has a buffer of its own. -/
theorem sortLoop_edited {storage : Option Nat} {count : Nat}
    (rehomed : Rehomed h storage h' c ((sorted ++ [last] ++ later).map live ++ rest)) :
    ∃ h'', sortLoop t junk cmp true h' ⟨some c, count⟩ sorted.length later.length =
      .ok (h'', ⟨some c, count⟩) ∧
      Rehomed h storage h'' c ((later.foldl (insertLast cmp) (sorted ++ [last])).map live ++
      rest) := by
  induction later generalizing h' sorted last with
  | nil =>
    rw [append_nil] at rehomed
    exact ⟨h', rfl, rehomed⟩
  | cons item later ih =>
    obtain ⟨isItem, isLast⟩ := load_pair rehomed.here
    change ∃ h'', (h'.load c (sorted.length + 1) >>= _) = _ ∧ _
    rw [isItem]
    rw [isLast, foldl_cons]
    change ∃ h'', (if 0 < cmp last item then _ else _) = _ ∧ _
    by_cases above : 0 < cmp last item
    · have here : h'.buffers c = some ⟨1, (sorted ++ [last]).map live ++ live item ::
          (later.map live ++ rest)⟩ := by
        simp [rehomed.here]
      have sunk := sink_eq (t := t) above here
      have size : (insertLast cmp (sorted ++ [last]) item).length = sorted.length + 1 + 1 := by
        simp [length_insertLast]
      obtain ⟨front, last', isFront⟩ : ∃ front last', insertLast cmp (sorted ++ [last]) item =
          front ++ [last'] :=
        ⟨_, _, (dropLast_append_getLast (ne_nil_of_length_pos (by omega))).symm⟩
      rw [isFront] at sunk size ⊢
      rw [length_append] at size
      have next := rehomed.put ((front ++ [last'] ++ later).map live ++ rest)
      obtain ⟨h'', sorted', result⟩ := ih next
      refine ⟨h'', ?_, result⟩
      rw [if_pos above]
      change (sink t cmp h' c sorted.length >>= _) = _
      rw [sunk, ← append_assoc, ← map_append, ← Nat.succ.inj size]
      exact sorted'
    · rw [if_neg above, insertLast_concat, if_neg above]
      rw [append_cons] at rehomed
      obtain ⟨h'', sorted', result⟩ := ih rehomed
      rw [length_append] at sorted'
      exact ⟨h'', sorted', result⟩

/-- The outer loop as long as the items are in order, with the first change as its end. -/
theorem sortLoop_eq (junk : Nat → Nat → α) (fresh : h.Fresh)
    (stored : Stored t h v (sorted ++ [last] ++ later)) :
    ∃ h' v', sortLoop t junk cmp false h v sorted.length later.length = .ok (h', v') ∧
      Edited t h v (later.foldl (insertLast cmp) (sorted ++ [last])) h' v' ∧
      ((last :: later).IsChain (fun a b => cmp a b ≤ 0) → h' = h ∧ v' = v) := by
  induction later generalizing sorted last with
  | nil =>
    rw [append_nil] at stored
    exact ⟨h, v, rfl, Edited.unchanged stored, fun _ => ⟨rfl, rfl⟩⟩
  | cons item later ih =>
    cases storage : v.storage with
    | none => exact absurd (stored.empty storage) (by simp)
    | some b =>
      obtain ⟨refs, rest, here, -⟩ := stored.buffer b storage
      obtain ⟨isItem, isLast⟩ := load_pair here
      rw [length_cons, sortLoop, VectorImpl.array, storage]
      change ∃ h' v', (h.load b (sorted.length + 1) >>= _) = _ ∧ _
      rw [isItem]
      rw [isLast, foldl_cons]
      change ∃ h' v', (if 0 < cmp last item then _ else _) = _ ∧ _
      by_cases above : 0 < cmp last item
      · -- from here on the loop runs as if it had started on the buffer of its own
        obtain ⟨h₁, c, rest', edited, rehomed, spare, -, room⟩ :=
          editArrayImpl_eq junk stored fresh storage
        obtain ⟨h₂, finished, result⟩ := sortLoop_edited rehomed
        obtain ⟨isItem', isLast'⟩ := load_pair rehomed.here
        have size := length_foldl_insertLast cmp (sorted ++ [last]) (item :: later)
        rw [← length_append, foldl_cons] at size
        refine ⟨h₂, _, ?_, .inr ⟨c, rest', rfl, result, spare, by rwa [size]⟩, fun ordered => ?_⟩
        rotate_left
        · exact absurd above (not_lt.mpr (isChain_cons_cons.mp ordered).1)
        rw [size, ← finished, if_pos above, length_cons]
        change (editArrayImpl t junk h v >>= _) = (h₁.load c (sorted.length + 1) >>= _)
        rw [edited, isItem']
        rw [isLast']
        change _ = (if 0 < cmp last item then _ else _)
        rw [if_pos above]
        rfl
      · rw [if_neg above, insertLast_concat, if_neg above]
        rw [append_cons] at stored
        obtain ⟨h', v', sorted', result, unchanged⟩ := ih stored
        rw [length_append] at sorted'
        exact ⟨h', v', sorted', result, fun ordered => unchanged (isChain_cons_cons.mp ordered).2⟩

theorem sort_eq (junk : Nat → Nat → α) (stored : Stored t h v items) (fresh : h.Fresh)
    (cmp : α → α → Int) :
    ∃ h' v', sort t junk cmp h v = .ok (h', v') ∧ Edited t h v (sortList cmp items) h' v' ∧
      (items.IsChain (fun a b => cmp a b ≤ 0) → h' = h ∧ v' = v) := by
  unfold sort
  rw [stored.count, ← foldl_insertLast]
  match items, stored with
  | [], stored => exact ⟨h, v, rfl, Edited.unchanged stored, fun _ => ⟨rfl, rfl⟩⟩
  | [first], stored => exact ⟨h, v, rfl, Edited.unchanged stored, fun _ => ⟨rfl, rfl⟩⟩
  | first :: second :: later, stored =>
    exact sortLoop_eq junk fresh (show Stored t h v ([] ++ [first] ++ second :: later) from stored)

section Stable

variable (order : Compare.TotalPreorder cmp) (items)

include order

theorem sortList_sorted : (sortList cmp items).Pairwise fun a b => cmp a b ≤ 0 := by
  have : Std.Total fun a b => cmp b a ≤ 0 := ⟨fun a b => by
    have := order.flip a b
    omega⟩
  have : IsTrans α fun a b => cmp b a ≤ 0 := ⟨fun a b c first second =>
    order.trans c b a second first⟩
  exact pairwise_reverse.mpr (pairwise_insertionSort _ _)

/-- Items that are equal to one item are equal to each other, so that a stable sort leaves them in
their order. -/
theorem sortList_stable (a : α) :
    (sortList cmp items).filter (fun b => cmp a b = 0) = items.filter fun b => cmp a b = 0 := by
  have equal : (items.reverse.filter fun b => cmp a b = 0).Pairwise fun b c => cmp c b ≤ 0 := by
    refine pairwise_of_forall_mem_list fun b inB c inC => ?_
    rw [mem_filter, decide_eq_true_eq] at inB inC
    exact le_of_eq (order.eq_trans ((order.eq_iff a c).mp inC.2) inB.2)
  have kept := (sublist_insertionSort equal filter_sublist).filter fun b => cmp a b = 0
  have same := ((perm_insertionSort (fun a b => cmp b a ≤ 0) items.reverse).filter fun b =>
    cmp a b = 0).length_eq
  rw [filter_filter, funext fun b => Bool.and_self (decide (cmp a b = 0))] at kept
  rw [sortList, filter_reverse, ← kept.eq_of_length same.symm, filter_reverse, reverse_reverse]

end Stable

end Aosp.Libutils.Vectors
