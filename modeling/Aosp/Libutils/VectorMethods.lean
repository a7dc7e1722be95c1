import Aosp.Libutils.VectorStorage

/- What `_grow` and `_shrink` make of the elements: they open a gap in front of an element, or close
the one that is left when elements are destroyed, whichever way they get at their memory. -/
namespace Aosp.Libutils.Vectors

open Heap List VectorImpl

variable {α : Type} {t : ElementType α} {junk : Nat → Nat → α} {h h' : Heap α} {v v' : VectorImpl}
  {items : List α}

variable {cells : List (Cell α)} {b : Nat}

theorem alloc_eq {capacity : Nat} (room : capacity * t.itemSize < allocLimit) :
    alloc t junk h capacity = .ok (h.next, h.adopt ⟨1, unusedCells junk h.next capacity⟩) :=
  if_pos room

theorem advance_zero_data (v : VectorImpl) : (v.data.advance 0 : Source α) = v.data := by
  unfold data Source.advance
  cases v.storage <;> rfl

/-- `rebuild` without its two tests for an empty row, which copies nothing anyway. -/
theorem rebuild_def (newCapacity index first dest n : Nat) :
    rebuild t junk h v newCapacity index first dest n = (do
      let (c, h) ← alloc t junk h newCapacity
      let h ← doCopy t h c 0 v.data index
      let h ← doCopy t h c dest (v.data.advance first) n
      let h ← releaseStorage t h v
      .ok (h, { v with storage := some c })) := by
  have untested (h : Heap α) (c i m : Nat) (src : Source α) :
      (if m ≠ 0 then doCopy t h c i src m else .ok h) = doCopy t h c i src m := by
    cases m with
    | zero => rfl
    | succ m => rfl
  unfold rebuild
  simp [untested]

variable {rest : List (Cell α)} {k n dest newCapacity : Nat}

theorem capacity_eq {refs : Nat}
    (storage : v.storage = some b) (here : h.buffers b = some ⟨refs, items.map live ++ rest⟩) :
    v.capacity h = .ok (items.length + rest.length) := by
  unfold capacity
  rw [storage]
  change (h.buffer b >>= _) = _
  rw [buffer_eq here]
  change Except.ok (items.map live ++ rest).length = _
  simp

/-- The cells that `editResize` leaves start with the elements that still fit. -/
theorem take_resized {unused : List (Cell α)} (isCells : cells = items.map live ++ rest)
    (size : unused.length = newCapacity) (kept : k ≤ items.length) (fits : k ≤ newCapacity) :
    ∃ rest', cells.take newCapacity ++ unused.drop cells.length = (items.take k).map live ++ rest' ∧
      k + rest'.length = newCapacity := by
  have start : cells.take k = (items.take k).map live := by
    rw [isCells, take_append_of_le_length (by rw [length_map]; exact kept), map_take]
  have large : k ≤ cells.length := by
    simp [isCells]
    omega
  refine ⟨(cells.take newCapacity ++ unused.drop cells.length).drop k, ?_, ?_⟩
  · rw [← start]
    conv_lhs => rw [← take_append_drop k (cells.take newCapacity ++ unused.drop cells.length)]
    rw [take_append_of_le_length (by rw [length_take]; omega), take_take, Nat.min_eq_left fits]
  · simp [size]
    omega

/-- The capacity `_grow` asks for. -/
def grownCapacity (newSize : Nat) : Nat := max kMinVectorCapacity (newSize + newSize / 2 + 1)

/-- There is room for `amount` elements in front of the element `index`. -/
def Opened (t : ElementType α) (h : Heap α) (v : VectorImpl) (items : List α) (index amount : Nat)
    (h' : Heap α) (v' : VectorImpl) : Prop :=
  ∃ c gap rest, v' = ⟨some c, items.length⟩ ∧
    Rehomed h v.storage h' c ((items.take index).map live ++
    (gap ++ ((items.drop index).map live ++ rest))) ∧
    gap.length = amount ∧ t.Spare gap ∧ t.Spare rest ∧
    (items.length + amount + rest.length) * t.itemSize < allocLimit

/-- The memory that `_grow` needs for `newSize` items can be had. -/
def Provided (t : ElementType α) (h : Heap α) (v : VectorImpl) (newSize : Nat) : Prop :=
  ∀ cap, v.capacity h = .ok cap → cap < newSize → grownCapacity newSize * t.itemSize < allocLimit

variable {index amount : Nat}

theorem Opened.itemLocation_eq (opened : Opened t h v items index amount h' v')
    (inside : index ≤ items.length) (count : Nat) :
    ∃ location, VectorImpl.itemLocation h' { v' with count } index = .ok location ∧
      (location = v'.storage.map (·, index) ∨ amount = 0 ∧ location = none) := by
  obtain ⟨c, gap, rest, rfl, rehomed, sizeGap, -⟩ := opened
  have isCap : capacity h' ⟨some c, count⟩ = .ok ((items.take index).map live ++
      (gap ++ ((items.drop index).map live ++ rest))).length := by
    change (h'.buffer c >>= _) = _
    rw [buffer_eq rehomed.here]
    rfl
  unfold itemLocation
  rw [isCap]
  change ∃ location, (if index < _ then _ else _) = _ ∧ _
  split
  · exact ⟨_, rfl, .inl rfl⟩
  · rename_i beyond
    refine ⟨none, rfl, .inr ⟨?_, rfl⟩⟩
    simp only [length_append, length_map, length_take] at beyond
    omega

theorem lt_of_room (room : n * t.itemSize < allocLimit) : n < 2 ^ 64 := by
  have limit : allocLimit < 2 ^ 64 := by decide
  have atLeast : n ≤ n * t.itemSize := Nat.le_mul_of_pos_right _ t.positive
  omega

/-- The memory and the vector after a method that leaves it with these elements. -/
def Edited (t : ElementType α) (h : Heap α) (v : VectorImpl) (result : List α) (h' : Heap α)
    (v' : VectorImpl) : Prop :=
  (h' = h ∧ v' = v ∧ Stored t h v result) ∨
  ∃ c rest, v' = ⟨some c, result.length⟩ ∧ Rehomed h v.storage h' c (result.map live ++ rest) ∧
    t.Spare rest ∧ (result.length + rest.length) * t.itemSize < allocLimit

/-- The elements without `amount` of them from `index` on. -/
def without (items : List α) (index amount : Nat) : List α :=
  items.take index ++ items.drop (index + amount)

theorem length_without (inside : index + amount ≤ items.length) :
    (without items index amount).length = items.length - amount := by
  simp [without]
  omega

variable (junk) (stored : Stored t h v items)

include stored

theorem Stored.exists_capacity :
    ∃ cap, v.capacity h = .ok cap ∧ items.length ≤ cap ∧ cap * t.itemSize < allocLimit := by
  cases storage : v.storage with
  | none =>
    refine ⟨0, by rw [capacity, storage], ?_, by rw [Nat.zero_mul]; decide⟩
    exact Nat.le_of_eq (congrArg List.length (stored.empty storage))
  | some b =>
    obtain ⟨refs, rest, here, -, room, -⟩ := stored.buffer b storage
    exact ⟨_, capacity_eq storage here, Nat.le_add_right _ _, room⟩

theorem growStorage_fatal {newSize : Nat}
    (beyond : allocLimit ≤ grownCapacity newSize * t.itemSize) :
    growStorage t junk h v index amount newSize = .error .fatal := by
  unfold growStorage checkedAdd
  split
  · change ((if newSize + newSize / 2 + 1 < 2 ^ 64 then _ else _ : Except Fault Nat) >>= _) = _
    split
    · change ((if grownCapacity newSize * t.itemSize < 2 ^ 64 then _ else _
        : Except Fault Nat) >>= _) = _
      split
      · have refused : alloc t junk h (grownCapacity newSize) = .error .fatal :=
          if_neg (Nat.not_lt.mpr beyond)
        change reallocate t junk h v (grownCapacity newSize) _ _ _ _ _ = _
        unfold reallocate
        split
        · rename_i b storage _
          obtain ⟨refs, rest, here, -, room, -⟩ := stored.buffer b storage
          unfold editResize
          rw [buffer_eq here]
          change ((if refs = 1 then _ else _ : Except Fault (Nat × Heap α)) >>= _) = _
          split
          · rw [if_neg, if_neg (Nat.not_lt.mpr beyond)]
            · rfl
            · intro same
              rw [← same, length_append, length_map] at beyond
              exact Nat.not_lt.mpr beyond room
          · rw [refused]
            rfl
        · rw [rebuild, refused]
          rfl
      · rfl
    · rfl
  · rfl

theorem grow_fatal (missing : ¬ Provided t h v (items.length + amount)) :
    grow t junk h v index amount = .error .fatal := by
  simp only [Provided, not_forall] at missing
  obtain ⟨cap, isCap, small, beyond⟩ := missing
  unfold grow checkedAdd
  rw [stored.count]
  split
  · rw [isCap]
    change ((if cap < items.length + amount then _ else _ : Except Fault _) >>= _) = _
    rw [if_pos small, growStorage_fatal junk stored (Nat.not_lt.mp beyond)]
    rfl
  · rfl

variable (fresh : h.Fresh)

include fresh

theorem Stored.adopt (sb : SharedBuffer α) : Stored t (h.adopt sb) v items :=
  stored.congr fun _ isStorage => adopt_buffers_of_ne fun same =>
    stored.ne_next fresh (isStorage.trans (congrArg some same))

/-- Elements of the vector are copied to the buffer that has just been handed out. -/
theorem doCopy_adopt (front : List (Cell α)) {gap : List (Cell α)} (back : List (Cell α))
    (first : Nat) (place : front.length = dest) (size : gap.length = n) (spare : t.Spare gap)
    (suffix : first + n ≤ items.length) :
    doCopy t (h.adopt ⟨1, front ++ (gap ++ back)⟩) h.next dest (v.data.advance first) n =
      .ok (h.adopt ⟨1, front ++ (((items.drop first).take n).map live ++ back)⟩) := by
  have size' : ((items.drop first).take n).length = n := by
    simp
    omega
  have avoids : (v.data.advance first : Source α).Avoids h.next :=
    (Stored.avoids_data (stored.ne_next fresh)).advance first
  have holds := ((stored.adopt fresh ⟨1, front ++ (gap ++ back)⟩).holds_data.advance first).take n
  have copied := doCopy_eq adopt_buffers_next place (size.trans size'.symm) spare avoids holds
  rwa [size', adopt_put] at copied

theorem rebuild_eq (first n : Nat) {index : Nat} (room : newCapacity * t.itemSize < allocLimit)
    (inside : index ≤ items.length) (suffix : first + n ≤ items.length) (order : index ≤ dest)
    (fits : dest + n ≤ newCapacity) :
    ∃ gap rest, gap.length = dest - index ∧ t.Spare gap ∧ t.Spare rest ∧
      dest + n + rest.length = newCapacity ∧ rebuild t junk h v newCapacity index first dest n =
        .ok ((h.dropOwner v.storage).adopt ⟨1, (items.take index).map live ++
          (gap ++ (((items.drop first).take n).map live ++ rest))⟩,
          ⟨some h.next, items.length⟩) := by
  have spareUnused : t.Spare (unusedCells junk h.next newCapacity) := spare_unusedCells ..
  have isUnused : alloc t junk h newCapacity = _ := alloc_eq room
  generalize unused : unusedCells junk h.next newCapacity = cells at spareUnused isUnused
  have size : cells.length = newCapacity := by
    rw [← unused, length_unusedCells]
  obtain ⟨before, gap, after, rest, rfl, sizeBefore, sizeGap, sizeAfter, total⟩ :
      ∃ w x y z, cells = w ++ (x ++ (y ++ z)) ∧ w.length = index ∧ x.length = dest - index ∧
        y.length = n ∧ index + (dest - index) + n + z.length = cells.length := by
    refine ⟨cells.take index, (cells.drop index).take (dest - index),
      ((cells.drop index).drop (dest - index)).take n,
      ((cells.drop index).drop (dest - index)).drop n, ?_, ?_, ?_, ?_, ?_⟩
    · simp only [take_append_drop]
    all_goals
      simp only [length_take, length_drop]
      omega
  obtain ⟨spareBefore, spareGap, spareAfter, spareRest⟩ :
      t.Spare before ∧ t.Spare gap ∧ t.Spare after ∧ t.Spare rest := by
    simpa only [spare_append] using spareUnused
  have first' : doCopy t (h.adopt ⟨1, before ++ (gap ++ (after ++ rest))⟩) h.next 0 v.data index =
      .ok (h.adopt ⟨1, (items.take index).map live ++ (gap ++ (after ++ rest))⟩) := by
    have copied := doCopy_adopt stored fresh [] (gap ++ (after ++ rest)) 0 rfl sizeBefore
      spareBefore (by omega)
    rwa [advance_zero_data] at copied
  have second : doCopy t (h.adopt ⟨1, (items.take index).map live ++ (gap ++ (after ++ rest))⟩)
      h.next dest (v.data.advance first) n = .ok (h.adopt ⟨1, (items.take index).map live ++
        (gap ++ (((items.drop first).take n).map live ++ rest))⟩) := by
    have place : ((items.take index).map live ++ gap).length = dest := by
      simp
      omega
    have copied := doCopy_adopt stored fresh _ rest first place sizeAfter spareAfter suffix
    rwa [append_assoc, append_assoc] at copied
  refine ⟨gap, rest, sizeGap, spareGap, spareRest, by omega, ?_⟩
  rw [rebuild_def, isUnused]
  change (doCopy t _ h.next 0 v.data index >>= _) = _
  rw [first']
  change (doCopy t _ h.next dest (v.data.advance first) n >>= _) = _
  rw [second]
  change (releaseStorage t _ v >>= _) = _
  rw [releaseStorage_eq (stored.adopt fresh _), adopt_dropOwner (stored.ne_next fresh),
    ← stored.count]
  rfl

theorem copyStorage_eq
    (room : newCapacity * t.itemSize < allocLimit) (fits : items.length ≤ newCapacity) :
    ∃ rest, t.Spare rest ∧ items.length + rest.length = newCapacity ∧
      copyStorage t junk h v newCapacity = .ok ((h.dropOwner v.storage).adopt
        ⟨1, items.map live ++ rest⟩, ⟨some h.next, items.length⟩) := by
  -- the second row of `rebuild` is empty
  obtain ⟨gap, rest, sizeGap, -, spare, total, rebuilt⟩ := rebuild_eq junk stored fresh 0 0 room
    (Nat.le_refl _) (Nat.zero_le _) (Nat.le_refl items.length) fits
  have noGap : gap = [] := length_eq_zero_iff.mp (by omega)
  rw [noGap, take_length, take_zero, map_nil, rebuild_def, ← stored.count] at rebuilt
  rw [← stored.count]
  exact ⟨rest, spare, by rw [stored.count]; exact total, rebuilt⟩

/-- `editArrayImpl`: a buffer of the vector's own, of the same size and with the same elements. -/
theorem editArrayImpl_eq (storage : v.storage = some b) :
    ∃ h' c rest, editArrayImpl t junk h v = .ok (h', ⟨some c, items.length⟩) ∧
      Rehomed h v.storage h' c (items.map live ++ rest) ∧ t.Spare rest ∧
      v.capacity h = .ok (items.length + rest.length) ∧
      (items.length + rest.length) * t.itemSize < allocLimit := by
  obtain ⟨refs, rest, here, spare, room, positive, bounded⟩ := stored.buffer b storage
  have capacity := capacity_eq storage here
  by_cases only : refs = 1
  · subst only
    refine ⟨h, b, rest, ?_, ?_, spare, capacity, room⟩
    · unfold editArrayImpl
      rw [storage]
      change (h.buffer b >>= _) = _
      rw [buffer_eq here]
      change Except.ok (h, v) = _
      rw [← storage, ← stored.count]
    · have inPlace := Rehomed.inPlace storage here (items.map live ++ rest)
      rwa [put_same here] at inPlace
  · obtain ⟨rest', spareRest, total, copied⟩ :=
      copyStorage_eq junk stored fresh room (Nat.le_add_right _ _)
    refine ⟨_, h.next, rest', ?_, .moved (items.map live ++ rest'), spareRest, ?_, ?_⟩
    · unfold editArrayImpl
      rw [storage]
      change (h.buffer b >>= _) = _
      rw [buffer_eq here]
      change (if refs = 1 then _ else copyStorage t junk h v (items.map live ++ rest).length) = _
      rw [if_neg only, length_append, length_map, copied, storage]
    · rw [capacity, total]
    · rw [total]
      exact room

theorem editResize_eq (storage : v.storage = some b)
    (room : newCapacity * t.itemSize < allocLimit) (kept : k ≤ items.length)
    (fits : k ≤ newCapacity) :
    ∃ h' c rest, editResize t junk h b newCapacity = .ok (c, h') ∧
      Rehomed h v.storage h' c ((items.take k).map live ++ rest) ∧
      k + rest.length = newCapacity := by
  obtain ⟨refs, rest, here, -, -, positive, bounded⟩ := stored.buffer b storage
  generalize isCells : items.map live ++ rest = cells at here
  obtain ⟨rest', resized, total⟩ := take_resized isCells.symm
    (length_unusedCells junk h.next newCapacity) kept fits
  unfold editResize
  rw [buffer_eq here]
  change ∃ h' c rest, (if refs = 1 then _ else _) = _ ∧ _
  by_cases only : refs = 1
  · subst only
    by_cases same : cells.length = newCapacity
    · have whole : (items.take k).map live ++ rest' = cells := by
        rw [← resized, ← same, take_length, drop_eq_nil_of_le
          (Nat.le_of_eq (length_unusedCells ..)), append_nil]
      refine ⟨h, b, rest', if_pos same, ?_, total⟩
      have inPlace := Rehomed.inPlace storage here cells
      rwa [put_same here, ← whole] at inPlace
    · have given : (h.free b).adopt ⟨1, (items.take k).map live ++ rest'⟩ =
          (h.dropOwner v.storage).adopt ⟨1, (items.take k).map live ++ rest'⟩ := by
        rw [storage, dropOwner_eq here, if_pos rfl]
      refine ⟨_, h.next, rest', ?_, .moved _, total⟩
      rw [← given, ← resized]
      exact (if_neg same).trans (if_pos room)
  · rw [if_neg only, alloc_eq room]
    refine ⟨_, h.next, rest', ?_, .moved _, total⟩
    have there : (h.adopt ⟨1, (items.take k).map live ++ rest'⟩).buffers b =
        some ⟨refs, cells⟩ := by
      rw [adopt_buffers_of_ne (fresh.ne_next here)]
      exact here
    change (Heap.buffer (h.adopt _) h.next >>= _) = _
    rw [buffer_eq adopt_buffers_next]
    change (release t ((h.adopt _).put h.next ⟨1, cells.take newCapacity ++ _⟩) b false >>= _) = _
    rw [adopt_put, resized, release_eq there positive bounded (fun is => absurd is only),
      ← adopt_dropOwner (stored.ne_next fresh), storage, dropOwner_eq there, if_neg only]
    rfl

/-- The two ways to get at a buffer of another size leave the same elements. -/
theorem reallocate_eq (last : Bool) (first dest n : Nat) {index : Nat}
    (room : newCapacity * t.itemSize < allocLimit) (inside : index ≤ items.length)
    (suffix : first + n ≤ items.length) (order : index ≤ dest) (fits : dest + n ≤ newCapacity)
    (isLast : last = true → n = 0) :
    ∃ h' c gap rest,
      reallocate t junk h v newCapacity last index first dest n = .ok (h', ⟨some c, items.length⟩) ∧
      Rehomed h v.storage h' c ((items.take index).map live ++
        (gap ++ (((items.drop first).take n).map live ++ rest))) ∧
      gap.length = dest - index ∧ t.Spare gap ∧ t.Spare rest ∧
      dest + n + rest.length = newCapacity := by
  unfold reallocate
  split
  · rename_i b storage resizes
    simp only [Bool.and_eq_true] at resizes
    obtain ⟨⟨lastTrue, -⟩, trivial⟩ := resizes
    have nothing : n = 0 := isLast lastTrue
    obtain ⟨h', c, rest, resized, rehomed, total⟩ :=
      editResize_eq junk stored fresh storage room inside (by omega)
    refine ⟨h', c, rest.take (dest - index), rest.drop (dest - index), ?_, ?_, ?_, .inl trivial,
      .inl trivial, ?_⟩
    · rw [resized, ← stored.count]
      rfl
    · rwa [nothing, take_zero, map_nil, nil_append, take_append_drop]
    · simp
      omega
    · simp
      omega
  · obtain ⟨gap, rest, sizeGap, spareGap, spareRest, total, rebuilt⟩ :=
      rebuild_eq junk stored fresh first n room inside suffix order fits
    exact ⟨_, h.next, gap, rest, rebuilt, .moved _, sizeGap, spareGap, spareRest, total⟩

theorem growInPlace_eq {cap : Nat} (storage : v.storage = some b) (isCap : v.capacity h = .ok cap)
    (enough : items.length + amount ≤ cap) (inside : index ≤ items.length)
    (moves : amount ≠ 0 ∨ index = items.length ∨ useTrivialMove t = true) :
    ∃ h' v', growInPlace t junk h v index amount = .ok (h', v') ∧
      Opened t h v items index amount h' v' := by
  obtain ⟨h', c, rest, edited, rehomed, spare, isCap', room⟩ :=
    editArrayImpl_eq junk stored fresh storage
  have size : cap = items.length + rest.length := Except.ok.inj (isCap.symm.trans isCap')
  obtain ⟨gap, back, isRest, sizeGap, total⟩ : ∃ gap back, rest = gap ++ back ∧
      gap.length = amount ∧ amount + back.length = rest.length := by
    refine ⟨rest.take amount, rest.drop amount, (take_append_drop ..).symm, ?_, ?_⟩
    · simp
      omega
    · simp
      omega
  subst isRest
  obtain ⟨spareGap, spareBack⟩ := spare_append.mp spare
  have bound : (items.length + amount + back.length) * t.itemSize < allocLimit := by
    rwa [Nat.add_assoc, total]
  unfold growInPlace
  rw [edited]
  change ∃ h' v', (if index ≠ items.length then _ else _) = _ ∧ _
  by_cases atEnd : index = items.length
  · refine ⟨h', _, if_neg (not_not.mpr atEnd), c, gap, back, rfl, ?_, sizeGap, spareGap,
      spareBack, bound⟩
    rwa [atEnd, take_length, drop_length, map_nil]
  · have here : h'.buffers c = some ⟨1, (items.take index).map live ++
        ((items.drop index).map live ++ (gap ++ back))⟩ := by
      rw [rehomed.here, ← append_assoc ((items.take index).map live), ← map_append,
        take_append_drop]
    obtain ⟨left, sizeLeft, spareLeft, moved⟩ := doMoveForward_eq (i := index) (by
        rcases moves with filled | last | trivial
        · exact .inl (ne_nil_of_length_pos (by omega))
        · exact absurd last atEnd
        · exact .inr trivial)
      here (by rw [length_map, length_take]; omega) spareGap
    refine ⟨_, _, ?_, c, left, back, rfl, rehomed.put _, sizeLeft.trans sizeGap, spareLeft,
      spareBack, bound⟩
    rw [if_pos atEnd]
    change (doMoveForward t h' c (index + amount) index (items.length - index) >>= _) = _
    rw [length_drop, sizeGap] at moved
    rw [moved]
    rfl

theorem growStorage_eq (inside : index ≤ items.length)
    (affordable : grownCapacity (items.length + amount) * t.itemSize < allocLimit) :
    ∃ h' v', growStorage t junk h v index amount (items.length + amount) = .ok (h', v') ∧
      Opened t h v items index amount h' v' := by
  have limit : allocLimit < 2 ^ 64 := by decide
  have atLeast : grownCapacity (items.length + amount) ≤
      grownCapacity (items.length + amount) * t.itemSize := Nat.le_mul_of_pos_right _ t.positive
  have large : items.length + amount + (items.length + amount) / 2 + 1 ≤
      grownCapacity (items.length + amount) := Nat.le_max_right ..
  obtain ⟨h', c, gap, rest, reallocated, rehomed, sizeGap, spareGap, spareRest, total⟩ :=
    reallocate_eq junk stored fresh (v.count == index) index (index + amount)
      (items.length - index) affordable inside (by omega) (Nat.le_add_right _ _) (by omega)
      (fun isLast => by rw [beq_iff_eq, stored.count] at isLast; omega)
  have all : (items.drop index).take (items.length - index) = items.drop index :=
    take_of_length_le (Nat.le_of_eq length_drop)
  refine ⟨h', _, ?_, c, gap, rest, rfl, ?_, by omega, spareGap, spareRest, ?_⟩
  · unfold growStorage checkedAdd checkedMul
    rw [if_pos (by omega)]
    change ((if _ then _ else _ : Except Fault Nat) >>= _) = _
    rw [if_pos (by omega)]
    change ((if grownCapacity (items.length + amount) * t.itemSize < 2 ^ 64 then _ else _
      : Except Fault Nat) >>= _) = _
    rw [if_pos (by omega)]
    rw [← reallocated, stored.count]
    rfl
  · rwa [all] at rehomed
  · rwa [show items.length + amount + rest.length = grownCapacity (items.length + amount) by omega]

/-- `_grow`. Where nothing is to be inserted into a vector without a buffer, or behind the last item
of a full one, it has no place to return. -/
theorem grow_eq (inside : index ≤ items.length)
    (provided : Provided t h v (items.length + amount))
    (moves : amount ≠ 0 ∨ index = items.length ∨ useTrivialMove t = true) :
    (amount = 0 ∧ grow t junk h v index amount = .ok (none, h, v)) ∨ ∃ location h' v',
      grow t junk h v index amount =
        .ok (location, h', { v' with count := items.length + amount }) ∧
      Opened t h v items index amount h' v' ∧
      (location = v'.storage.map (·, index) ∨ amount = 0 ∧ location = none) := by
  obtain ⟨cap, isCap, -, room⟩ := stored.exists_capacity
  have sum : checkedAdd v.count amount = .ok (items.length + amount) := by
    unfold checkedAdd
    rw [stored.count, if_pos]
    rcases Nat.lt_or_ge cap (items.length + amount) with small | large
    · have := lt_of_room (provided cap isCap small)
      have : items.length + amount + (items.length + amount) / 2 + 1 ≤
        grownCapacity (items.length + amount) := Nat.le_max_right ..
      omega
    · exact Nat.lt_of_le_of_lt large (lt_of_room room)
  -- whichever branch opens the gap, the rest of the method is the same
  have finish : (∃ h' v', (if cap < items.length + amount then
          growStorage t junk h v index amount (items.length + amount)
        else growInPlace t junk h v index amount) = .ok (h', v') ∧
        Opened t h v items index amount h' v') →
      ∃ location h' v', grow t junk h v index amount =
        .ok (location, h', { v' with count := items.length + amount }) ∧
        Opened t h v items index amount h' v' ∧
        (location = v'.storage.map (·, index) ∨ amount = 0 ∧ location = none) := by
    rintro ⟨h', v', ready, opened⟩
    obtain ⟨location, located, isLocation⟩ := opened.itemLocation_eq inside (items.length + amount)
    refine ⟨location, h', v', ?_, opened, isLocation⟩
    unfold grow
    rw [sum]
    rw [isCap]
    change ((if cap < items.length + amount then _ else _ : Except Fault _) >>= _) = _
    rw [ready]
    change (itemLocation h' _ index >>= _) = _
    rw [located]
    rfl
  rcases Nat.lt_or_ge cap (items.length + amount) with small | large
  · refine .inr (finish ?_)
    rw [if_pos small]
    exact growStorage_eq junk stored fresh inside (provided cap isCap small)
  · cases storage : v.storage with
    | some b =>
      refine .inr (finish ?_)
      rw [if_neg (Nat.not_lt.mpr large)]
      exact growInPlace_eq junk stored fresh storage isCap large inside moves
    | none =>
      have noCap : cap = 0 := by
        rw [capacity, storage] at isCap
        exact (Except.ok.inj isCap).symm
      have nothing : amount = 0 := by omega
      have count : v.count = 0 := by
        rw [stored.count]
        omega
      have index0 : index = 0 := by omega
      refine .inl ⟨nothing, ?_⟩
      obtain ⟨storage', count'⟩ := v
      subst storage count nothing index0
      rfl

theorem shrinkInPlace_eq (storage : v.storage = some b) (inside : index + amount ≤ items.length)
    (moves : amount ≠ 0 ∨ index = items.length ∨ useTrivialMove t = true) :
    ∃ h' c rest, shrinkInPlace t junk h v index amount (items.length - amount) =
      .ok (h', ⟨some c, items.length⟩) ∧
      Rehomed h v.storage h' c ((without items index amount).map live ++ rest) ∧ t.Spare rest ∧
      ((without items index amount).length + rest.length) * t.itemSize < allocLimit := by
  obtain ⟨h', c, rest, edited, rehomed, spare, -, room⟩ :=
    editArrayImpl_eq junk stored fresh storage
  have size := length_without inside
  have place : ((items.take index).map live).length = index := by
    simp
    omega
  have removed : ((items.drop index).take amount).length = amount := by
    simp
    omega
  have here : h'.buffers c = some ⟨1, (items.take index).map live ++
      (((items.drop index).take amount).map live ++
      ((items.drop (index + amount)).map live ++ rest))⟩ := by
    rw [rehomed.here, ← append_assoc (((items.drop index).take amount).map live),
      ← map_append, ← drop_drop, take_append_drop,
      ← append_assoc ((items.take index).map live), ← map_append, take_append_drop]
  obtain ⟨gone, sizeGone, spareGone, destroyed⟩ := doDestroy_eq here place
  rw [removed] at destroyed sizeGone
  unfold shrinkInPlace
  rw [edited]
  change ∃ h'' c' rest', (doDestroy t h' c index amount >>= _) = _ ∧ _
  rw [destroyed]
  change ∃ h'' c' rest', (if index ≠ items.length - amount then _ else _) = _ ∧ _
  by_cases last : index = items.length - amount
  · have tail : items.drop (index + amount) = [] := drop_eq_nil_of_le (by omega)
    refine ⟨_, c, gone ++ rest, if_neg (not_not.mpr last), ?_,
      spare_append.mpr ⟨spareGone, spare⟩, ?_⟩
    · rw [without, tail, append_nil]
      exact rehomed.put _
    · rwa [size, length_append, sizeGone, show items.length - amount + (amount + rest.length) =
        items.length + rest.length by omega]
  · have there : (h'.put c ⟨1, (items.take index).map live ++
        (gone ++ ((items.drop (index + amount)).map live ++ rest))⟩).buffers c = _ :=
      put_buffers_self
    obtain ⟨left, sizeLeft, spareLeft, moved⟩ := doMoveBackward_eq (by
        rcases moves with filled | atEnd | trivial
        · exact .inl (ne_nil_of_length_pos (by omega))
        · omega
        · exact .inr trivial)
      there place spareGone
    refine ⟨_, c, left ++ rest, ?_, rehomed.put _, spare_append.mpr ⟨spareLeft, spare⟩, ?_⟩
    · rw [if_pos last]
      rw [sizeGone, length_drop, show items.length - (index + amount) =
        items.length - amount - index by omega] at moved
      rw [moved, put_put, without, map_append, append_assoc]
      rfl
    · rwa [size, length_append, sizeLeft, sizeGone,
        show items.length - amount + (amount + rest.length) = items.length + rest.length by omega]

theorem shrink_eq (inside : index + amount ≤ items.length)
    (moves : amount ≠ 0 ∨ index = items.length ∨ useTrivialMove t = true) :
    ∃ h' v', shrink t junk h v index amount = .ok (h', v') ∧
      Edited t h v (without items index amount) h' v' := by
  have size := length_without inside
  unfold shrink
  cases storage : v.storage with
  | none =>
    refine ⟨h, v, rfl, .inl ⟨rfl, rfl, ?_⟩⟩
    have noItems := stored.empty storage
    subst noItems
    rwa [without, take_nil, drop_nil]
  | some b =>
    obtain ⟨refs, rest, here, -, room, -⟩ := stored.buffer b storage
    rw [stored.count, if_neg (by omega), capacity_eq storage here]
    change ∃ h' v', ((if items.length - amount < (items.length + rest.length) / 2 then _ else _
      : Except Fault _) >>= _) = _ ∧ _
    split
    · have affordable : max kMinVectorCapacity ((items.length - amount) * 2) * t.itemSize <
          allocLimit := by
        rcases Nat.le_total kMinVectorCapacity ((items.length - amount) * 2) with less | more
        · exact Nat.lt_of_le_of_lt (Nat.mul_le_mul_right _ (by omega)) room
        · rw [Nat.max_eq_left more]
          exact t.small
      obtain ⟨h', c, gap, rest', reallocated, rehomed, sizeGap, -, spareRest, total⟩ :=
        reallocate_eq junk stored fresh (index == items.length - amount) (index + amount) index
          (items.length - amount - index) affordable (by omega) (by omega) (Nat.le_refl _)
          (by have := Nat.le_max_right kMinVectorCapacity ((items.length - amount) * 2); omega)
          (fun isLast => by rw [beq_iff_eq] at isLast; omega)
      have noGap : gap = [] := length_eq_zero_iff.mp (by omega)
      have all : (items.drop (index + amount)).take (items.length - amount - index) =
          items.drop (index + amount) := take_of_length_le (by rw [length_drop]; omega)
      rw [noGap, all, nil_append, ← append_assoc, ← map_append] at rehomed
      refine ⟨h', _, ?_, .inr ⟨c, rest', rfl, rehomed, spareRest, ?_⟩⟩
      · rw [reallocated, size]
        rfl
      · rwa [size, show items.length - amount + rest'.length =
          max kMinVectorCapacity ((items.length - amount) * 2) by omega]
    · obtain ⟨h', c, rest', shrunk, rehomed, spareRest, bound⟩ :=
        shrinkInPlace_eq junk stored fresh storage inside moves
      refine ⟨h', _, ?_, .inr ⟨c, rest', rfl, rehomed, spareRest, bound⟩⟩
      rw [shrunk, size]
      rfl

end Aosp.Libutils.Vectors
