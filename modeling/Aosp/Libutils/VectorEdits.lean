import Aosp.Libutils.VectorMethods

namespace Aosp.Libutils.Vectors

open List

variable {α : Type} {t : ElementType α} {h h' : Heap α} {v : VectorImpl} {items : List α}
  {index length : Nat}

theorem Edited.unchanged (stored : Stored t h v items) : Edited t h v items h v :=
  .inl ⟨rfl, rfl, stored⟩

/-- How a method ends: it leaves one of the results in its vector, or it ends the program because it
cannot afford what it is asked for. -/
def Leaves (t : ElementType α) (h : Heap α) (v : VectorImpl) (affordable : Prop)
    (Result : List α → Prop) (ended : Except Fault (Heap α × VectorImpl)) : Prop :=
  (ended = .error .fatal ∧ ¬ affordable) ∨
  ∃ h' v' result, ended = .ok (h', v') ∧ Result result ∧ Edited t h v result h' v'

theorem Leaves.imp {affordable : Prop} {Result Result' : List α → Prop}
    {ended : Except Fault (Heap α × VectorImpl)} (leaves : Leaves t h v affordable Result ended)
    (weaker : ∀ result, Result result → Result' result) :
    Leaves t h v affordable Result' ended := by
  rcases leaves with failed | ⟨h', v', result, done, isResult, edited⟩
  · exact .inl failed
  · exact .inr ⟨h', v', result, done, weaker result isResult, edited⟩

def ignoreStatus (result : Except Fault (Status × Heap α × VectorImpl)) :
    Except Fault (Heap α × VectorImpl) := do
  let (_, h, v) ← result
  .ok (h, v)

/-- The items with a row of new ones in front of the item `index`, if there is such a place. -/
def inserted (items : List α) (index : Nat) (new : List α) : List α :=
  if index ≤ items.length then items.take index ++ (new ++ items.drop index) else items

/-- Elements do not have to be moved by nothing, except with `memmove`. -/
def RowMoves (t : ElementType α) (items : List α) (index length : Nat) : Prop :=
  length = 0 → useTrivialMove t = false → items.length ≤ index

theorem RowMoves.cases (moves : RowMoves t items index length) (inside : index ≤ items.length) :
    length ≠ 0 ∨ index = items.length ∨ useTrivialMove t = true := by
  by_cases filled : length = 0
  · cases trivial : useTrivialMove t with
    | true => exact .inr (.inr rfl)
    | false => exact .inr (.inl (Nat.le_antisymm inside (moves filled trivial)))
  · exact .inl filled

theorem length_front (inside : index ≤ items.length) :
    ((items.take index).map live).length = index := by
  simp
  omega

theorem inserted_length (new : List α) : inserted items items.length new = items ++ new := by
  rw [inserted, if_pos (Nat.le_refl _), take_length, drop_length, append_nil]

/-- `resize` turns the index of what it has called into its own result. -/
theorem ignoreStatus_resize (junk : Nat → Nat → α) (size : Nat) :
    ignoreStatus (resize t junk h v size) =
      ignoreStatus (if v.count < size then insertAt t junk h v none v.count (size - v.count)
        else if size < v.count then removeItemsAt t junk h v size (v.count - size)
        else .ok (.ok 0, h, v)) := by
  unfold resize
  generalize (if v.count < size then insertAt t junk h v none v.count (size - v.count)
    else if size < v.count then removeItemsAt t junk h v size (v.count - size)
    else .ok (.ok 0, h, v)) = inner
  cases inner with
  | error fault => rfl
  | ok ended =>
    obtain ⟨status, h', v'⟩ := ended
    cases status <;> rfl

variable {a : α}

/-- The elements with another one at `index`. -/
def replaced (items : List α) (index : Nat) (a : α) : List α :=
  items.take index ++ (a :: items.drop (index + 1))

section

variable (inside : index < items.length)

include inside

theorem length_replaced (a : α) : (replaced items index a).length = items.length := by
  simp [replaced]
  omega

theorem map_live_eq : items.map live =
    (items.take index).map live ++ (live items[index] :: (items.drop (index + 1)).map live) := by
  rw [← map_cons, ← map_append, ← drop_eq_getElem_cons inside, take_append_drop]

theorem edited_replaced {c : Nat} {rest : List (Cell α)}
    (rehomed : Rehomed h v.storage h' c ((items.take index).map live ++
      (live items[index] :: ((items.drop (index + 1)).map live ++ rest))))
    (spare : t.Spare rest) (room : (items.length + rest.length) * t.itemSize < allocLimit) (a : α) :
    Edited t h v (replaced items index a) (h'.put c ⟨1, (items.take index).map live ++
      (live a :: ((items.drop (index + 1)).map live ++ rest))⟩) ⟨some c, items.length⟩ := by
  have size := length_replaced inside a
  refine .inr ⟨c, rest, by rw [size], ?_, spare, by rwa [size]⟩
  rw [replaced, map_append, append_assoc]
  exact rehomed.put _

theorem replaced_eq_set (a : α) : replaced items index a = items.set index a := by
  rw [replaced, set_eq_take_append_cons_drop, if_pos inside]

end

variable (junk : Nat → Nat → α) (stored : Stored t h v items) {newCapacity : Nat}

include stored

theorem setCapacity_fatal
    (large : items.length < newCapacity) (beyond : allocLimit ≤ newCapacity * t.itemSize) :
    setCapacity t junk h v newCapacity = .error .fatal := by
  unfold setCapacity checkedMul
  rw [stored.count, if_neg (Nat.not_le.mpr large)]
  split
  · rw [copyStorage, alloc, if_neg (Nat.not_lt.mpr beyond)]
    rfl
  · rfl

theorem replaceAt_outside (prototype : Option (Source α)) (outside : items.length ≤ index) :
    ignoreStatus (replaceAt t junk h v prototype index) = .ok (h, v) := by
  rw [replaceAt, stored.count, if_pos outside]
  rfl

variable (fresh : h.Fresh) {item prototype : Source α} {count : Nat}

include fresh

variable (make : Heap α → Nat → Nat → Except Fault (Heap α)) (New : List α → Prop)

/-- The gap is opened, and `make` fills it. -/
theorem insertWith_eq (inside : index ≤ items.length)
    (provided : Provided t h v (items.length + length))
    (moves : length ≠ 0 ∨ index = items.length ∨ useTrivialMove t = true)
    (nothing : length = 0 → New [])
    (makes : ∀ h' c gap back, Rehomed h v.storage h' c
      ((items.take index).map live ++ (gap ++ back)) → gap.length = length → t.Spare gap →
      ∃ new, New new ∧ new.length = length ∧ make h' c index =
      .ok (h'.put c ⟨1, (items.take index).map live ++ (new.map live ++ back)⟩)) :
    ∃ status h' v' new, insertWith t junk make h v index length = .ok (status, h', v') ∧ New new ∧
      new.length = length ∧ Edited t h v (items.take index ++ (new ++ items.drop index)) h' v' := by
  unfold insertWith
  rw [stored.count, if_neg (Nat.not_lt.mpr inside)]
  rcases grow_eq junk stored fresh inside provided moves with ⟨vacant, grown⟩ |
    ⟨location, h', v', grown, ⟨c, gap, rest, rfl, rehomed, sizeGap, spareGap, spareRest, room⟩,
    isLocation⟩
  · rw [grown]
    refine ⟨.noMemory, h, v, [], rfl, nothing vacant, vacant.symm, ?_⟩
    rw [nil_append, take_append_drop]
    exact Edited.unchanged stored
  · rw [grown]
    have filled : ∀ new : List α, new.length = length →
        Edited t h v (items.take index ++ (new ++ items.drop index))
        (h'.put c ⟨1, (items.take index).map live ++
        (new.map live ++ ((items.drop index).map live ++ rest))⟩)
        ⟨some c, items.length + length⟩ := by
      intro new size
      have total : (items.take index ++ (new ++ items.drop index)).length =
          items.length + length := by
        simp
        omega
      refine .inr ⟨c, rest, by rw [total], ?_, spareRest, by rwa [total]⟩
      rw [map_append, map_append, append_assoc, append_assoc]
      exact rehomed.put _
    rcases isLocation with rfl | ⟨vacant, rfl⟩
    · obtain ⟨new, isNew, sizeNew, made⟩ := makes h' c gap _ rehomed sizeGap spareGap
      refine ⟨.ok index, _, _, new, ?_, isNew, sizeNew, filled new sizeNew⟩
      change (make h' c index >>= _) = _
      rw [made]
      rfl
    · have noGap : gap = [] := length_eq_zero_iff.mp (sizeGap.trans vacant)
      have whole := filled [] vacant.symm
      rw [map_nil, nil_append, nil_append] at whole
      rw [noGap, nil_append] at rehomed
      refine ⟨.noMemory, h', _, [], rfl, nothing vacant, vacant.symm, ?_⟩
      rwa [Heap.put_same rehomed.here] at whole

theorem insertWith_leaves (moves : RowMoves t items index length)
    (possible : ∃ new, New new ∧ new.length = length)
    (makes : ∀ h' c gap back, index ≤ items.length →
      Rehomed h v.storage h' c ((items.take index).map live ++ (gap ++ back)) →
      gap.length = length → t.Spare gap → ∃ new, New new ∧ new.length = length ∧
      make h' c index = .ok (h'.put c ⟨1, (items.take index).map live ++ (new.map live ++ back)⟩)) :
    Leaves t h v (grownCapacity (items.length + length) * t.itemSize < allocLimit)
      (fun result => ∃ new, New new ∧ new.length = length ∧ result = inserted items index new)
      (ignoreStatus (insertWith t junk make h v index length)) := by
  by_cases inside : index ≤ items.length
  · by_cases provided : Provided t h v (items.length + length)
    · obtain ⟨status, h', v', new, done, isNew, size, edited⟩ :=
        insertWith_eq junk stored fresh make New inside provided (moves.cases inside)
        (fun nothing => by
          obtain ⟨new, isNew, size⟩ := possible
          rwa [length_eq_zero_iff.mp (size.trans nothing)] at isNew)
        (fun h' c gap back => makes h' c gap back inside)
      refine .inr ⟨h', v', _, by rw [done]; rfl, ⟨new, isNew, size, rfl⟩, ?_⟩
      rwa [inserted, if_pos inside]
    · refine .inl ⟨by
        rw [insertWith, stored.count, if_neg (Nat.not_lt.mpr inside),
          grow_fatal junk stored provided]
        rfl, fun affordable => ?_⟩
      exact provided fun _ _ _ => affordable
  · obtain ⟨new, isNew, size⟩ := possible
    refine .inr ⟨h, v, items, ?_, ⟨new, isNew, size, by rw [inserted, if_neg inside]⟩,
      Edited.unchanged stored⟩
    rw [insertWith, stored.count, if_pos (Nat.lt_of_not_le inside)]
    rfl

theorem insertAt_item_leaves (apart : item.Apart h v.storage) (holds : item.Holds h [a])
    (moves : RowMoves t items index length) :
    Leaves t h v (grownCapacity (items.length + length) * t.itemSize < allocLimit)
      (· = inserted items index (List.replicate length a))
      (ignoreStatus (insertAt t junk h v (some item) index length)) := by
  refine (insertWith_leaves junk stored fresh (fun h b i => doSplat t h b i item length)
    (· = List.replicate length a) moves ⟨_, rfl, length_replicate⟩
    fun h' c gap back inside rehomed size spare => ?_).imp ?_
  · obtain ⟨avoids, still⟩ := apart.rehomed rehomed holds
    have made := doSplat_eq rehomed.here (length_front inside) spare avoids still
    rw [size] at made
    exact ⟨_, rfl, length_replicate, made⟩
  · rintro result ⟨new, rfl, -, isResult⟩
    exact isResult

theorem insertAt_default_leaves (moves : RowMoves t items index length) :
    Leaves t h v (grownCapacity (items.length + length) * t.itemSize < allocLimit)
      (fun result => ∃ new, t.Constructed new ∧ new.length = length ∧
      result = inserted items index new)
      (ignoreStatus (insertAt t junk h v none index length)) :=
  insertWith_leaves junk stored fresh (fun h b i => doConstruct t h b i length) t.Constructed moves
    ⟨List.replicate length t.initial, fun _ => by simp, length_replicate⟩
    fun h' c gap back inside rehomed size spare => by
      obtain ⟨new, sizeNew, isNew, made⟩ := doConstruct_eq rehomed.here (length_front inside) spare
      rw [size] at sizeNew made
      exact ⟨new, isNew, sizeNew, made⟩

theorem removeItemsAt_leaves (moves : RowMoves t items index count) :
    Leaves t h v (index + count < 2 ^ 64)
      (· = if index + count ≤ items.length then without items index count else items)
      (ignoreStatus (removeItemsAt t junk h v index count)) := by
  unfold removeItemsAt checkedAdd
  by_cases sum : index + count < 2 ^ 64
  · refine .inr ?_
    rw [if_pos sum]
    change ∃ h' v' result, ignoreStatus (if v.count < index + count then _ else _) = _ ∧ _
    rw [stored.count]
    by_cases inside : index + count ≤ items.length
    · obtain ⟨h', v', shrunk, edited⟩ := shrink_eq junk stored fresh inside (moves.cases (by omega))
      refine ⟨h', v', _, ?_, (if_pos inside).symm, edited⟩
      rw [if_neg (Nat.not_lt.mpr inside), shrunk]
      rfl
    · refine ⟨h, v, items, ?_, (if_neg inside).symm, Edited.unchanged stored⟩
      rw [if_pos (Nat.lt_of_not_le inside)]
      rfl
  · refine .inl ⟨?_, sum⟩
    rw [if_neg sum]
    rfl

theorem editItemLocation_eq (inside : index < items.length) :
    ∃ h' c rest, editItemLocation t junk h v index =
        .ok (some (c, index), h', ⟨some c, items.length⟩) ∧
        Rehomed h v.storage h' c ((items.take index).map live ++
        (live items[index] :: ((items.drop (index + 1)).map live ++ rest))) ∧
      t.Spare rest ∧ (items.length + rest.length) * t.itemSize < allocLimit := by
  cases storage : v.storage with
  | none =>
    rw [stored.empty storage] at inside
    exact absurd inside (Nat.not_lt_zero _)
  | some b =>
    obtain ⟨h', c, rest, edited, rehomed, spare, isCap, room⟩ :=
      editArrayImpl_eq junk stored fresh storage
    rw [map_live_eq inside, append_assoc, storage] at rehomed
    refine ⟨h', c, rest, ?_, rehomed, spare, room⟩
    unfold editItemLocation
    rw [isCap]
    change (if index < items.length + rest.length then _ else _) = _
    rw [if_pos (by omega), edited]
    rfl

theorem replaceAt_item (apart : prototype.Apart h v.storage) (holds : prototype.Holds h [a])
    (inside : index < items.length) :
    ∃ status h' v', replaceAt t junk h v (some prototype) index = .ok (status, h', v') ∧
      Edited t h v (replaced items index a) h' v' := by
  obtain ⟨h', c, rest, located, rehomed, spare, room⟩ :=
    editItemLocation_eq junk stored fresh inside
  have place : ((items.take index).map live).length = index := length_front (Nat.le_of_lt inside)
  have away := (rehomed.put ((items.take index).map live ++
    ([vacated t (live items[index])] ++ ((items.drop (index + 1)).map live ++ rest))))
  obtain ⟨avoids, still⟩ := apart.rehomed away holds
  have copied : doCopy t _ c index prototype 1 = _ :=
    doCopy_eq away.here place rfl (spare_vacated (live items[index])) avoids still
  rw [singleton_append, Heap.put_put] at copied
  have outside : prototype.isAt c index = false := by
    cases prototype with
    | outside values => rfl
    | inside d j =>
      have distinct : d ≠ c := avoids
      simp [Source.isAt, distinct]
  refine ⟨.ok index, _, _, ?_, edited_replaced inside rehomed spare room a⟩
  unfold replaceAt
  rw [stored.count, if_neg (Nat.not_le.mpr inside), located]
  change (if prototype.isAt c index then _ else doDestroy t h' c index 1 >>= _) = _
  rw [outside, doDestroy_one rehomed.here place]
  change (doCopy t _ c index prototype 1 >>= _) = _
  rw [copied]
  rfl

theorem replaceAt_default (inside : index < items.length) :
    ∃ status h' v' a, replaceAt t junk h v none index = .ok (status, h', v') ∧ t.Constructed [a] ∧
      Edited t h v (replaced items index a) h' v' := by
  obtain ⟨h', c, rest, located, rehomed, spare, room⟩ :=
    editItemLocation_eq junk stored fresh inside
  have place : ((items.take index).map live).length = index := length_front (Nat.le_of_lt inside)
  have away := (rehomed.put ((items.take index).map live ++
    ([vacated t (live items[index])] ++ ((items.drop (index + 1)).map live ++ rest))))
  obtain ⟨values, one, isNew, made⟩ := doConstruct_eq away.here place
    (spare_vacated (live items[index]))
  obtain ⟨a, rfl⟩ := length_eq_one_iff.mp one
  rw [singleton_append, Heap.put_put] at made
  refine ⟨.ok index, _, _, a, ?_, isNew, edited_replaced inside rehomed spare room a⟩
  unfold replaceAt
  rw [stored.count, if_neg (Nat.not_le.mpr inside), located]
  change (doDestroy t h' c index 1 >>= _) = _
  rw [doDestroy_one rehomed.here place]
  change (doConstruct t _ c index [vacated t (live items[index])].length >>= _) = _
  rw [made]
  rfl

theorem setCapacity_eq
    (affordable : items.length < newCapacity → newCapacity * t.itemSize < allocLimit) :
    ∃ status h' v', setCapacity t junk h v newCapacity = .ok (status, h', v') ∧
      Edited t h v items h' v' := by
  unfold setCapacity
  rw [stored.count]
  by_cases small : newCapacity ≤ items.length
  · rw [if_pos small]
    obtain ⟨cap, isCap, -⟩ := stored.exists_capacity
    rw [isCap]
    exact ⟨_, h, v, rfl, Edited.unchanged stored⟩
  · have room := affordable (Nat.lt_of_not_le small)
    have limit : allocLimit < 2 ^ 64 := by decide
    obtain ⟨rest, spareRest, total, copied⟩ :=
      copyStorage_eq junk stored fresh room (Nat.le_of_not_le small)
    refine ⟨.ok newCapacity, _, _, ?_, .inr ⟨h.next, rest, rfl, .moved _,
      spareRest, by rwa [total]⟩⟩
    unfold checkedMul
    rw [if_neg small, if_pos (by omega)]
    rw [copied]
    rfl

theorem replaceAt_item_leaves (apart : prototype.Apart h v.storage)
    (holds : prototype.Holds h [a]) :
    Leaves t h v True (· = items.set index a)
      (ignoreStatus (replaceAt t junk h v (some prototype) index)) := by
  rcases Nat.lt_or_ge index items.length with inside | outside
  · obtain ⟨status, h', v', done, edited⟩ := replaceAt_item junk stored fresh apart holds inside
    rw [replaced_eq_set inside] at edited
    exact .inr ⟨h', v', _, by rw [done]; rfl, rfl, edited⟩
  · refine .inr ⟨h, v, items, replaceAt_outside junk stored _ outside, ?_, Edited.unchanged stored⟩
    exact (set_eq_of_length_le outside).symm

theorem replaceAt_default_leaves :
    Leaves t h v True (fun result => ∃ a, t.Constructed [a] ∧ result = items.set index a)
      (ignoreStatus (replaceAt t junk h v none index)) := by
  rcases Nat.lt_or_ge index items.length with inside | outside
  · obtain ⟨status, h', v', a, done, isNew, edited⟩ := replaceAt_default junk stored fresh inside
    rw [replaced_eq_set inside] at edited
    exact .inr ⟨h', v', _, by rw [done]; rfl, ⟨a, isNew, rfl⟩, edited⟩
  · refine .inr ⟨h, v, items, replaceAt_outside junk stored _ outside,
      ⟨t.initial, fun _ => rfl, ?_⟩, Edited.unchanged stored⟩
    exact (set_eq_of_length_le outside).symm

theorem setCapacity_leaves (newCapacity : Nat) :
    Leaves t h v (newCapacity * t.itemSize < allocLimit) (· = items)
      (ignoreStatus (setCapacity t junk h v newCapacity)) := by
  by_cases affordable : items.length < newCapacity → newCapacity * t.itemSize < allocLimit
  · obtain ⟨status, h', v', done, edited⟩ := setCapacity_eq junk stored fresh affordable
    exact .inr ⟨h', v', items, by rw [done]; rfl, rfl, edited⟩
  · simp only [Classical.not_imp, Nat.not_lt] at affordable
    refine .inl ⟨?_, Nat.not_lt.mpr affordable.2⟩
    rw [setCapacity_fatal junk stored affordable.1 affordable.2]
    rfl

theorem clear_leaves : Leaves t h v True (· = []) (clear t junk h v) := by
  have all : without items 0 items.length = [] := by
    simp [without]
  have moves : items.length ≠ 0 ∨ 0 = items.length ∨ useTrivialMove t = true := by
    omega
  obtain ⟨h', v', done, edited⟩ := shrink_eq junk stored fresh (by omega) moves
  rw [all] at edited
  exact .inr ⟨h', v', [], by rw [clear, stored.count, done], rfl, edited⟩

theorem removeItemsAt_inside (inside : index + count ≤ items.length) (filled : count ≠ 0) :
    Leaves t h v True (· = without items index count)
      (ignoreStatus (removeItemsAt t junk h v index count)) := by
  obtain ⟨cap, -, fits, room⟩ := stored.exists_capacity
  have bounded := Nat.lt_of_le_of_lt fits (lt_of_room room)
  have ended : Leaves t h v (index + count < 2 ^ 64) _
      (ignoreStatus (removeItemsAt t junk h v index count)) :=
    removeItemsAt_leaves junk stored fresh fun nothing => absurd nothing filled
  rcases ended with ⟨-, unaffordable⟩ | done
  · exact absurd (Nat.lt_of_le_of_lt inside bounded) unaffordable
  · rw [if_pos inside] at done
    exact .inr done

theorem pop_leaves : Leaves t h v True (· = items.dropLast) (ignoreStatus (pop t junk h v)) := by
  unfold pop
  rw [stored.count]
  by_cases nothing : items.length = 0
  · rw [length_eq_zero_iff.mp nothing]
    rw [length_eq_zero_iff.mp nothing] at stored
    exact .inr ⟨h, v, [], rfl, rfl, Edited.unchanged stored⟩
  · have last : without items (items.length - 1) 1 = items.dropLast := by
      rw [without, Nat.sub_add_cancel (Nat.pos_of_ne_zero nothing), drop_length, append_nil,
        dropLast_eq_take]
    rw [if_pos nothing, ← last]
    exact removeItemsAt_inside junk stored fresh (by omega) Nat.one_ne_zero

theorem push_item_leaves (apart : item.Apart h v.storage) (holds : item.Holds h [a]) :
    Leaves t h v (grownCapacity (items.length + 1) * t.itemSize < allocLimit) (· = items ++ [a])
      (ignoreStatus (push t junk h v (some item))) := by
  rw [push, stored.count, ← inserted_length]
  exact insertAt_item_leaves junk stored fresh apart holds fun nothing =>
    absurd nothing Nat.one_ne_zero

theorem insertAt_end_leaves (length : Nat) :
    Leaves t h v (grownCapacity (items.length + length) * t.itemSize < allocLimit)
      (fun result => ∃ new, t.Constructed new ∧ new.length = length ∧ result = items ++ new)
      (ignoreStatus (insertAt t junk h v none items.length length)) := by
  refine (insertAt_default_leaves junk stored fresh fun _ _ => Nat.le_refl _).imp ?_
  rintro result ⟨new, isNew, size, rfl⟩
  exact ⟨new, isNew, size, inserted_length new⟩

theorem resize_leaves (size : Nat) :
    Leaves t h v (grownCapacity size * t.itemSize < allocLimit)
      (fun result => ∃ new, t.Constructed new ∧ new.length = size - items.length ∧
        result = if items.length < size then items ++ new else items.take size)
      (ignoreStatus (resize t junk h v size)) := by
  rw [ignoreStatus_resize, stored.count]
  by_cases more : items.length < size
  · obtain ⟨length, rfl⟩ : ∃ length, size = items.length + length := ⟨size - items.length, by omega⟩
    rw [if_pos more, Nat.add_sub_cancel_left]
    refine (insertAt_end_leaves junk stored fresh length).imp ?_
    rintro result ⟨new, isNew, isSize, rfl⟩
    exact ⟨new, isNew, isSize, (if_pos more).symm⟩
  · have nothing : t.Constructed ([] : List α) ∧ ([] : List α).length = size - items.length :=
      ⟨fun _ => rfl, by rw [length_nil]; omega⟩
    rw [if_neg more]
    by_cases less : size < items.length
    · have front : without items size (items.length - size) = items.take size := by
        rw [without, Nat.add_sub_cancel' (Nat.le_of_lt less), drop_length, append_nil]
      rw [if_pos less]
      have ended : Leaves t h v True (· = without items size (items.length - size)) _ :=
        removeItemsAt_inside junk stored fresh (by omega) (by omega)
      rcases ended with ⟨-, impossible⟩ | ⟨h', v', result, done, isResult, edited⟩
      · exact absurd trivial impossible
      · refine .inr ⟨h', v', result, done, ⟨[], nothing.1, nothing.2, ?_⟩, edited⟩
        rw [isResult, front, if_neg more]
    · rw [if_neg less]
      refine .inr ⟨h, v, items, rfl, ⟨[], nothing.1, nothing.2, ?_⟩, Edited.unchanged stored⟩
      rw [if_neg more, take_of_length_le (by omega)]

theorem editItem_leaves (index : Nat) (change : α → α) :
    Leaves t h v True (· = items.modify index change) (editItem t junk h v index change) := by
  rcases Nat.lt_or_ge index items.length with inside | outside
  · obtain ⟨h', c, rest, located, rehomed, spare, room⟩ :=
      editItemLocation_eq junk stored fresh inside
    have place : ((items.take index).map live).length = index := length_front (Nat.le_of_lt inside)
    have edited := edited_replaced inside rehomed spare room (change items[index])
    refine .inr ⟨_, _, _, ?_, ?_, edited⟩
    · rw [editItem, located]
      change (if index < items.length then _ else _) = _
      rw [if_pos inside, Heap.load_eq rehomed.here place]
      change (h'.assign c index _ >>= _) = _
      rw [Heap.assign_eq rehomed.here place]
      rfl
    · rw [replaced, modify_eq_take_cons_drop inside]
  · have same : items.modify index change = items := modify_eq_self outside
    rw [same]
    unfold editItem editItemLocation
    obtain ⟨cap, isCap, -⟩ := stored.exists_capacity
    rw [isCap]
    by_cases spare : index < cap
    · cases storage : v.storage with
      | none =>
        rw [VectorImpl.capacity, storage] at isCap
        cases isCap
        exact absurd spare (Nat.not_lt_zero _)
      | some b =>
        obtain ⟨h', c, rest, edited, rehomed, spareRest, -, room⟩ :=
          editArrayImpl_eq junk stored fresh storage
        refine .inr ⟨h', _, items, ?_, rfl, .inr ⟨c, rest, rfl, rehomed, spareRest, room⟩⟩
        change ((if index < cap then _ else _ : Except Fault _) >>= _) = _
        rw [if_pos spare, edited]
        change (if index < items.length then _ else _) = _
        rw [if_neg (Nat.not_lt.mpr outside)]
    · refine .inr ⟨h, v, items, ?_, rfl, Edited.unchanged stored⟩
      change ((if index < cap then _ else _ : Except Fault _) >>= _) = _
      rw [if_neg spare]
      rfl

end Aosp.Libutils.Vectors
