import Aosp.Lib.Buffer
import Aosp.Fastboot.DataUpdater

namespace Aosp.Fastboot

open List Layout Fallible DataUpdater Medium

section WellFormed

variable (b : BootImg) (m : Medium)

/-- A member of 32 bits. -/
def field (address : Nat) : Nat := leValue (m.region address 4)

def entryAt (table i : Nat) : Nat := table + i * b.entrySize

def fragmentSize (table i : Nat) : Nat := field m (entryAt b table i + b.ramdiskSizeAt)

def fragmentOffset (table i : Nat) : Nat := field m (entryAt b table i + b.ramdiskOffsetAt)

/-- The sizes in front of an index, added up. -/
def before (size : Nat → Nat) (i : Nat) : Nat := ((List.range i).map size).sum

def HasFooter : Prop :=
  b.footerSize ≤ m.size ∧ m.region (m.size - b.footerSize) b.footerMagic.length = b.footerMagic

def Sections.total (z : Sections) : Nat := z.o + z.p + z.q + z.r + z.s

/-- A header of version 4; sections in whole pages, inside the image and of less than 2^32 bytes; a
table of entries of this size; fragments one behind the other in the order of the table; a footer,
if there is one, behind all sections. -/
structure WellFormed (z : Sections) : Prop where
  stored : Stored b m z
  entrySize : z.entrySize = b.entrySize
  tableSize : word m b.tableSizeAt = .ok (z.entryNum * b.entrySize)
  header : b.hdrV4Size ≤ z.o
  ramdisk : z.ramdiskSize ≤ z.p
  dtb : field m b.dtbSizeAt ≤ z.q
  table : z.entryNum * b.entrySize ≤ z.r
  bootconfig : field m b.bootconfigSizeAt ≤ z.s
  u32 : z.total < 2 ^ 32
  contiguous : ∀ i < z.entryNum, fragmentOffset b m z.table i = before (fragmentSize b m z.table) i
  summed : before (fragmentSize b m z.table) z.entryNum = z.ramdiskSize
  footer : HasFooter b m → z.total ≤ m.size - b.footerSize

end WellFormed

theorem field_lt (m : Medium) (address : Nat) : field m address < 2 ^ 32 := by
  have less := leValue_lt (m.region address 4)
  rwa [region_length] at less

theorem before_succ (size : Nat → Nat) (i : Nat) :
    before size (i + 1) = before size i + size i := by
  rw [before, before, range_succ, map_append, sum_append, map_singleton, sum_singleton]

variable {i : Nat}

theorem before_le (size : Nat → Nat) {j : Nat} (le : i ≤ j) : before size i ≤ before size j := by
  induction le with
  | refl => exact Nat.le_refl _
  | step _ ih =>
    rw [before_succ]
    omega

variable {size : Nat → Nat} {n : Nat}

theorem before_congr {size' : Nat → Nat} (same : ∀ i < n, size i = size' i) :
    before size n = before size' n := by
  rw [before]
  congr 1
  exact map_congr_left fun i inside => same i (mem_range.mp inside)

theorem before_change (size : Nat → Nat) (k new : Nat) (inside : k < n) :
    before (fun i => if i = k then new else size i) n + size k = before size n + new := by
  induction n with
  | zero => omega
  | succ n ih =>
    rw [before_succ, before_succ]
    rcases Nat.lt_succ_iff_lt_or_eq.mp inside with less | same
    · rw [if_neg (by omega)]
      omega
    · subst same
      have same : before (fun i => if i = k then new else size i) k = before size k :=
        before_congr fun i less => if_neg (by omega)
      rw [if_pos rfl]
      omega

theorem u32_add (a c : Nat) : u32 (u32 a + c) = u32 (a + c) := Nat.mod_add_mod a (2 ^ 32) c

theorem u32_add_right (a c : Nat) : u32 (a + u32 c) = u32 (a + c) := Nat.add_mod_mod a c (2 ^ 32)

/-- Not in the member at this address. -/
def Outside (address a : Nat) : Prop := a < address ∨ address + 4 ≤ a

section Member

variable {bytes : List Byte} {address value : Nat} (inside : address + 4 ≤ bytes.length)

include inside

theorem length_setMember : (overwrite bytes address (leBytes 4 value)).length = bytes.length :=
  length_overwrite (by rwa [leBytes_length])

theorem leValue_setMember :
    leValue (((overwrite bytes address (leBytes 4 value)).drop address).take 4) = u32 value := by
  have self : ((overwrite bytes address (leBytes 4 value)).drop address).take _ = _ :=
    overwrite_self (by rwa [leBytes_length])
  rw [leBytes_length] at self
  rw [self, leValue_leBytes]
  rfl

theorem setMember_apart {i n : Nat} (apart : i + n ≤ address ∨ address + 4 ≤ i) :
    ((overwrite bytes address (leBytes 4 value)).drop i).take n = (bytes.drop i).take n :=
  overwrite_apart (by rwa [leBytes_length]) (by rwa [leBytes_length])

theorem getD_setMember {a : Nat} (outside : Outside address a) :
    (overwrite bytes address (leBytes 4 value)).getD a 0 = bytes.getD a 0 := by
  unfold Outside at outside
  rw [getD_overwrite (by rwa [leBytes_length]), leBytes_length, if_neg (by omega)]

end Member

/-- The new buffer has these bytes so far. -/
structure Assembling (old : Medium) (bytes : List Byte) (u : DataUpdater) : Prop where
  sized : u.Sized old
  filled : u.newData.Filled bytes
  newPos : u.newPos = bytes.length

namespace Assembling

variable {old : Medium} {bytes : List Byte} {u u' : DataUpdater}

theorem start : Assembling old [] (DataUpdater.start old) :=
  ⟨sized_start, filled_nil, rfl⟩

variable {n : Nat}

section

variable (assembling : Assembling old bytes u)

include assembling

theorem copy (run : u.copy old n = .ok u') :
    Assembling old (bytes ++ old.region u.oldPos n) u' ∧ u'.oldPos = u.oldPos + n := by
  refine ⟨⟨assembling.sized.copy run, ?_, ?_⟩, ?_⟩
  all_goals obtain ⟨-, -, rfl⟩ := (copy_eq_ok assembling.sized).mp run
  · rw [copied, assembling.newPos]
    exact assembling.filled.append _
  · rw [copied, assembling.newPos, length_append, region_length]
  · rfl

theorem replace {more : List Byte} (run : u.replace old n more = .ok u') :
    Assembling old (bytes ++ more.take (u32 more.length)) u' ∧ u'.oldPos = u.oldPos + n := by
  refine ⟨⟨assembling.sized.replace run, ?_, ?_⟩, ?_⟩
  all_goals obtain ⟨-, -, rfl⟩ := (replace_eq_ok assembling.sized).mp run
  · rw [replaced, assembling.newPos]
    exact assembling.filled.append _
  · rw [replaced, assembling.newPos, length_append]
  · rfl

theorem skip {oldSkip newSkip : Nat} (run : u.skip old oldSkip newSkip = .ok u') :
    Assembling old (bytes ++ List.replicate newSkip 0) u' ∧ u'.oldPos = u.oldPos + oldSkip := by
  refine ⟨⟨assembling.sized.skip run, ?_, ?_⟩, ?_⟩
  all_goals obtain ⟨-, -, rfl⟩ := skip_eq_ok.mp run
  · exact assembling.filled.zeros newSkip
  · simp [← assembling.newPos]
  · rfl

variable {address value : Nat}

theorem setField (inside : address + 4 ≤ bytes.length) (run : setField u address value = .ok u') :
    Assembling old (overwrite bytes address (leBytes 4 value)) u' ∧ u'.oldPos = u.oldPos := by
  refine ⟨⟨assembling.sized.setField run, ?_, ?_⟩, ?_⟩
  all_goals obtain ⟨-, rfl⟩ := setField_eq_ok.mp run
  · exact assembling.filled.overwrite (by rwa [leBytes_length])
  · rw [length_setMember inside]
    exact assembling.newPos
  · rfl

theorem word (inside : address + 4 ≤ bytes.length) (read : word u.newData address = .ok value) :
    value = leValue ((bytes.drop address).take 4) := by
  obtain ⟨-, rfl⟩ := word_eq_ok.mp read
  rw [assembling.filled.begins.region inside]

end

end Assembling

section Parts

variable (b : BootImg) (old : Medium) (newRamdisk : List Byte) (start table replaceIdx : Nat)

/-- The contents of a fragment of the new image. -/
def newFragment (i : Nat) : List Byte :=
  if i = replaceIdx then newRamdisk.take (u32 newRamdisk.length)
  else old.region (start + before (fragmentSize b old table) i) (fragmentSize b old table i)

def newFragmentSize (i : Nat) : Nat :=
  if i = replaceIdx then u32 newRamdisk.length else fragmentSize b old table i

/-- The offset of a fragment of the new image. -/
def newOffset (i : Nat) : Nat := before (newFragmentSize b old newRamdisk table replaceIdx) i

/-- An entry of the new table. -/
def newEntry (i : Nat) : List Byte :=
  let moved := overwrite (old.region (entryAt b table i) b.entrySize) b.ramdiskOffsetAt
    (leBytes 4 (u32 (newOffset b old newRamdisk table replaceIdx i)))
  if i = replaceIdx then overwrite moved b.ramdiskSizeAt (leBytes 4 (u32 newRamdisk.length))
    else moved

/-- The parts of this kind from an index on. -/
def partsFrom (part : Nat → List Byte) (idx count : Nat) : List Byte :=
  ((List.range' idx count).map part).flatten

end Parts

theorem partsFrom_succ (part : Nat → List Byte) (idx count : Nat) :
    partsFrom part idx (count + 1) = part idx ++ partsFrom part (idx + 1) count := by
  simp only [partsFrom, range'_succ, map_cons, flatten_cons]

theorem partsFrom_add (part : Nat → List Byte) (idx first second : Nat) :
    partsFrom part idx (first + second) = partsFrom part idx first ++
      partsFrom part (idx + first) second := by
  induction first generalizing idx with
  | zero => rw [Nat.zero_add]; rfl
  | succ first ih =>
    rw [Nat.add_right_comm, partsFrom_succ, ih (idx + 1), partsFrom_succ, append_assoc,
      Nat.add_right_comm idx 1, Nat.add_assoc idx first 1]

theorem partsFrom_split (part : Nat → List Byte) (inside : i < n) :
    partsFrom part 0 n = partsFrom part 0 i ++ part i ++ partsFrom part (i + 1) (n - i - 1) := by
  obtain ⟨rest, rfl⟩ := Nat.exists_eq_add_of_lt inside
  rw [Nat.add_assoc, partsFrom_add, Nat.zero_add, partsFrom_succ, append_assoc]
  congr 3
  omega

theorem length_partsFrom {part : Nat → List Byte} (sizes : ∀ i, (part i).length = size i)
    (n : Nat) :
    (partsFrom part 0 n).length = before size n := by
  induction n with
  | zero => rfl
  | succ n ih =>
    rw [partsFrom_add, length_append, ih, before_succ, ← sizes]
    simp [partsFrom]

section Loops

variable {b : BootImg} {old : Medium} {newRamdisk : List Byte} {table replaceIdx : Nat}

theorem length_newFragment (start i : Nat) :
    (newFragment b old newRamdisk start table replaceIdx i).length =
      newFragmentSize b old newRamdisk table replaceIdx i := by
  unfold newFragment newFragmentSize
  split
  · exact length_take_u32 newRamdisk
  · exact region_length ..

theorem offset_inside (b : BootImg) : b.ramdiskOffsetAt + 4 ≤ b.entrySize :=
  b.entry_inside _ (by simp)

theorem size_inside (b : BootImg) : b.ramdiskSizeAt + 4 ≤ b.entrySize := b.entry_inside _ (by simp)

theorem offset_room (b : BootImg) (old : Medium) (address : Nat) :
    b.ramdiskOffsetAt + 4 ≤ (old.region address b.entrySize).length := by
  rw [region_length]
  exact offset_inside b

theorem size_room (b : BootImg) (old : Medium) (address value : Nat) :
    b.ramdiskSizeAt + 4 ≤
    (overwrite (old.region address b.entrySize) b.ramdiskOffsetAt (leBytes 4 value)).length := by
  rw [length_setMember (offset_room b old address), region_length]
  exact size_inside b

theorem length_newEntry (i : Nat) :
    (newEntry b old newRamdisk table replaceIdx i).length = b.entrySize := by
  unfold newEntry
  split
  · rw [length_setMember (size_room ..), length_setMember (offset_room ..), region_length]
  · rw [length_setMember (offset_room ..), region_length]

variable {idx count total : Nat} {u u' : DataUpdater} {bytes : List Byte}

theorem assembling_copyFragments {start total' : Nat} (assembling : Assembling old bytes u)
    (oldPos : u.oldPos = start + before (fragmentSize b old table) idx)
    (running : total = u32 (newOffset b old newRamdisk table replaceIdx idx))
    (run : copyFragments b old newRamdisk table replaceIdx idx count (u, total) =
      .ok (u', total')) :
    Assembling old (bytes ++ partsFrom (newFragment b old newRamdisk start table replaceIdx) idx
      count) u' ∧
      u'.oldPos = start + before (fragmentSize b old table) (idx + count) ∧
      total' = u32 (newOffset b old newRamdisk table replaceIdx (idx + count)) := by
  induction count generalizing idx u total bytes with
  | zero =>
    cases run
    rw [partsFrom, range'_zero, map_nil, flatten_nil, append_nil]
    exact ⟨assembling, oldPos, running⟩
  | succ count ih =>
    rw [copyFragments, bind_eq_ok] at run
    obtain ⟨size, read, run⟩ := run
    have isSize : fragmentSize b old table idx = size := (word_eq_ok.mp read).2
    rw [partsFrom_succ, ← append_assoc, Nat.add_comm count 1, ← Nat.add_assoc]
    split at run
    · rename_i same
      obtain ⟨u₁, replaced, run⟩ := (bind_eq_ok _ _ _).mp run
      obtain ⟨assembling', oldPos'⟩ := assembling.replace replaced
      have isPart : newFragment b old newRamdisk start table replaceIdx idx =
          newRamdisk.take (u32 newRamdisk.length) := if_pos same
      rw [isPart]
      refine ih assembling' ?_ ?_ run
      · rw [oldPos', oldPos, before_succ, isSize, Nat.add_assoc]
      · rw [newOffset, before_succ, newFragmentSize, if_pos same, u32_add_right, running, u32_add]
        rfl
    · rename_i different
      obtain ⟨u₁, copied, run⟩ := (bind_eq_ok _ _ _).mp run
      obtain ⟨assembling', oldPos'⟩ := assembling.copy copied
      have isPart : newFragment b old newRamdisk start table replaceIdx idx =
          old.region u.oldPos size := by
        rw [newFragment, if_neg different, oldPos, isSize]
      rw [isPart]
      refine ih assembling' ?_ ?_ run
      · rw [oldPos', oldPos, before_succ, isSize, Nat.add_assoc]
      · rw [newOffset, before_succ, newFragmentSize, if_neg different, isSize, running, u32_add]
        rfl

theorem size_newEntry (i : Nat) :
    leValue (((newEntry b old newRamdisk table replaceIdx i).drop b.ramdiskSizeAt).take 4) =
      newFragmentSize b old newRamdisk table replaceIdx i := by
  have apart := b.entry_apart
  unfold newEntry newFragmentSize
  split
  · rw [leValue_setMember (size_room ..)]
    exact Nat.mod_mod _ _
  · rw [setMember_apart (offset_room ..) (by omega), region_part _ (size_inside b)]
    rfl

theorem offset_newEntry (i : Nat) :
    leValue (((newEntry b old newRamdisk table replaceIdx i).drop b.ramdiskOffsetAt).take 4) =
      u32 (newOffset b old newRamdisk table replaceIdx i) := by
  have apart := b.entry_apart
  unfold newEntry
  split
  · rw [setMember_apart (size_room ..) (by omega), leValue_setMember (offset_room ..)]
    exact Nat.mod_mod _ _
  · rw [leValue_setMember (offset_room ..)]
    exact Nat.mod_mod _ _

theorem getD_newEntry {i a : Nat} (inside : a < b.entrySize) (offset : Outside b.ramdiskOffsetAt a)
    (size : i = replaceIdx → Outside b.ramdiskSizeAt a) :
    (newEntry b old newRamdisk table replaceIdx i).getD a 0 = old.byte (entryAt b table i + a) := by
  unfold newEntry
  split
  · rename_i same
    rw [getD_setMember (size_room ..) (size same), getD_setMember (offset_room ..) offset,
      getD_region _ inside]
  · rw [getD_setMember (offset_room ..) offset, getD_region _ inside]

/-- An entry behind what has been written gets its new members. -/
theorem assembling_patchEntry {size oldPos : Nat}
    (assembling : Assembling old (bytes ++ old.region (entryAt b table idx) b.entrySize) u)
    (isOld : u.oldPos = oldPos)
    (running : total = u32 (newOffset b old newRamdisk table replaceIdx idx))
    (run : patchEntry b newRamdisk replaceIdx idx bytes.length total u = .ok (u', size)) :
    Assembling old (bytes ++ newEntry b old newRamdisk table replaceIdx idx) u' ∧
      u'.oldPos = oldPos ∧
      size = newFragmentSize b old newRamdisk table replaceIdx idx := by
  have inOffset := offset_inside b
  have inSize := size_inside b
  have length : (bytes ++ old.region (entryAt b table idx) b.entrySize).length =
      bytes.length + b.entrySize := by
    rw [length_append, region_length]
  simp only [patchEntry, bind_eq_ok] at run
  obtain ⟨u₁, offset, u₂, sizeField, _, read, returned⟩ := run
  cases returned
  obtain ⟨moved, oldPos₁⟩ := assembling.setField (by omega) offset
  rw [overwrite_append_right] at moved
  have done : Assembling old (bytes ++ newEntry b old newRamdisk table replaceIdx idx) u' ∧
      u'.oldPos = u₁.oldPos := by
    unfold patchSize at sizeField
    unfold newEntry
    split at sizeField
    · rename_i same
      have room := size_room b old (entryAt b table idx) total
      obtain ⟨sized, oldPos₂⟩ := moved.setField (by rw [length_append]; omega) sizeField
      rw [overwrite_append_right] at sized
      rw [if_pos same, ← running]
      exact ⟨sized, oldPos₂⟩
    · rename_i different
      cases sizeField
      rw [if_neg different, ← running]
      exact ⟨moved, rfl⟩
  refine ⟨done.1, done.2.trans (oldPos₁.trans isOld), ?_⟩
  have value := done.1.word (by rw [length_append, length_newEntry]; omega) read
  rw [value, drop_length_add_append, size_newEntry]

theorem assembling_copyTable (assembling : Assembling old bytes u)
    (oldPos : u.oldPos = entryAt b table idx)
    (running : total = u32 (newOffset b old newRamdisk table replaceIdx idx))
    (run : copyTable b old newRamdisk b.entrySize replaceIdx idx count (u, total) = .ok u') :
    Assembling old (bytes ++ partsFrom (newEntry b old newRamdisk table replaceIdx) idx count) u' ∧
      u'.oldPos = entryAt b table (idx + count) := by
  induction count generalizing idx u total bytes with
  | zero =>
    cases run
    rw [partsFrom, range'_zero, map_nil, flatten_nil, append_nil]
    exact ⟨assembling, oldPos⟩
  | succ count ih =>
    simp only [copyTable, bind_eq_ok] at run
    obtain ⟨u₁, copied, ⟨u₂, size⟩, patched, run⟩ := run
    obtain ⟨assembling₁, oldPos₁⟩ := assembling.copy copied
    rw [oldPos] at assembling₁ oldPos₁
    rw [assembling.newPos] at patched
    obtain ⟨assembling₂, oldPos₂, rfl⟩ := assembling_patchEntry assembling₁ oldPos₁ running patched
    rw [partsFrom_succ, ← append_assoc, Nat.add_comm count 1, ← Nat.add_assoc]
    refine ih assembling₂ ?_ ?_ run
    · rw [oldPos₂, entryAt, entryAt, Nat.succ_mul, Nat.add_assoc]
    · rw [newOffset, before_succ, running, u32_add]
      rfl

end Loops

section Image

variable (b : BootImg) (old : Medium) (z : Sections) (newRamdisk : List Byte) (replaceIdx : Nat)

/-- The size of all fragments of the new image. -/
def newRamdiskSize : Nat := newOffset b old newRamdisk z.table replaceIdx z.entryNum

def newHeader : List Byte :=
  overwrite (old.region 0 z.o) b.vendorRamdiskSizeAt
    (leBytes 4 (newRamdiskSize b old z newRamdisk replaceIdx))

def newFragments : List Byte :=
  partsFrom (newFragment b old newRamdisk z.o z.table replaceIdx) 0 z.entryNum

def newTable : List Byte := partsFrom (newEntry b old newRamdisk z.table replaceIdx) 0 z.entryNum

/-- Up to the table. -/
def newFront (newP : Nat) : List Byte :=
  newHeader b old z newRamdisk replaceIdx ++ newFragments b old z newRamdisk replaceIdx ++
    List.replicate (newP - newRamdiskSize b old z newRamdisk replaceIdx) 0 ++
    old.region (z.o + z.p) z.q

/-- All sections. -/
def newImage (newP : Nat) : List Byte :=
  newFront b old z newRamdisk replaceIdx newP ++ newTable b old z newRamdisk replaceIdx ++
    old.region (z.table + z.entryNum * b.entrySize) (z.r - z.entryNum * b.entrySize) ++
    old.region (z.table + z.r) z.s

end Image

section Run

variable {b : BootImg} {old : Medium} {z : Sections} {newRamdisk : List Byte} {replaceIdx : Nat}

/-- The new ramdisk section. -/
structure NewSection (b : BootImg) (old : Medium) (z : Sections) (newRamdisk : List Byte)
  (replaceIdx newP : Nat) : Prop where
  rounded : roundUp (newRamdiskSize b old z newRamdisk replaceIdx) z.pageSize = .ok newP
  large : newRamdiskSize b old z newRamdisk replaceIdx ≤ newP
  u32 : z.o + newP < 2 ^ 32

theorem vendorRamdiskSize_inside (b : BootImg) : b.vendorRamdiskSizeAt + 4 ≤ b.hdrV4Size :=
  Nat.le_trans (b.v3_inside _ (by simp)) b.v3_v4

theorem header_room (image : WellFormed b old z) :
    b.vendorRamdiskSizeAt + 4 ≤ (old.region 0 z.o).length := by
  rw [region_length]
  exact Nat.le_trans (vendorRamdiskSize_inside b) image.header

theorem length_newFragments :
    (newFragments b old z newRamdisk replaceIdx).length =
      newRamdiskSize b old z newRamdisk replaceIdx :=
  length_partsFrom (length_newFragment _) _

theorem pageSize_overwrite (image : WellFormed b old z) (value : Nat) (back : List Byte) :
    leValue (((overwrite (old.region 0 z.o) b.vendorRamdiskSizeAt (leBytes 4 value) ++ back).drop
      b.pageSizeAt).take 4) =
      z.pageSize := by
  have page := Nat.le_trans (b.v3_inside b.pageSizeAt (by simp)) b.v3_v4
  have header := image.header
  have apart := b.apart b.pageSizeAt (by simp)
  have length := @length_setMember _ _ value (header_room image)
  rw [region_length] at length
  rw [drop_append_of_le_length (by omega), take_append_of_le_length (by rw [length_drop]; omega),
    setMember_apart (header_room image) (by omega), region_part _ (by omega), Nat.zero_add]
  exact (word_eq_ok.mp image.stored.accepted.page).2

variable {newP : Nat}

/-- If the new cursor is where the source expects it, nothing has wrapped. -/
theorem no_wrap {o size pageSize : Nat} (rounded : roundUp (u32 size) pageSize = .ok newP)
    (checked : u32 (o + newP) = o + size + sub32 newP (u32 size)) :
    size ≤ newP ∧ o + newP < 2 ^ 32 := by
  have bound : newP < 2 ^ 32 := by
    obtain ⟨-, rfl⟩ := roundUp_eq_ok.mp rounded
    exact Nat.lt_of_le_of_lt (Nat.div_mul_le_self _ _) (Nat.mod_lt _ (by decide))
  unfold u32 sub32 at *
  omega

theorem assembling_fragments {u₁ u₂ u₃ : DataUpdater} {total : Nat} (image : WellFormed b old z)
    (copied : (DataUpdater.start old).copy old z.o = .ok u₁)
    (fragments : copyFragments b old newRamdisk z.table replaceIdx 0 z.entryNum (u₁, 0) =
      .ok (u₂, total))
    (sizeField : setField u₂ b.vendorRamdiskSizeAt total = .ok u₃) :
    Assembling old (overwrite (old.region 0 z.o) b.vendorRamdiskSizeAt
        (leBytes 4 (u32 (newRamdiskSize b old z newRamdisk replaceIdx))) ++
        newFragments b old z newRamdisk replaceIdx)
      u₃ ∧ u₃.oldPos = z.o + z.ramdiskSize := by
  have inside := vendorRamdiskSize_inside b
  have header := image.header
  obtain ⟨assembling₁, oldPos₁⟩ := Assembling.start.copy copied
  have oldPos₁' : u₁.oldPos = z.o + before (fragmentSize b old z.table) 0 :=
    oldPos₁.trans (Nat.zero_add _)
  obtain ⟨assembling₂, oldPos₂, rfl⟩ := assembling_copyFragments assembling₁ oldPos₁' rfl fragments
  rw [Nat.zero_add] at oldPos₂ sizeField
  obtain ⟨assembling₃, oldPos₃⟩ := assembling₂.setField
    (by rw [length_append, nil_append, region_length]; omega) sizeField
  rw [nil_append, overwrite_append (by rw [leBytes_length, region_length]; omega)] at assembling₃
  exact ⟨assembling₃, by rw [oldPos₃, oldPos₂, image.summed]⟩

variable {u : DataUpdater}

theorem assembling_rebuild (image : WellFormed b old z)
    (run : rebuild b old z newRamdisk replaceIdx = .ok (u, newP)) :
    NewSection b old z newRamdisk replaceIdx newP ∧
      Assembling old (newFront b old z newRamdisk replaceIdx newP) u ∧ u.oldPos = z.table := by
  have inside := vendorRamdiskSize_inside b
  have inPage := Nat.le_trans (b.v3_inside b.pageSizeAt (by simp)) b.v3_v4
  have header := image.header
  have padding := image.ramdisk
  have fits := image.u32
  unfold Sections.total at fits
  simp only [rebuild, bind_eq_ok] at run
  obtain ⟨u₁, copied, ⟨u₂, total⟩, fragments, u₃, sizeField, newSize, isSize, page, isPage, newP',
      rounded, u₄, skipped, _, checked, u₅, dtb, returned⟩ := run
  cases returned
  obtain ⟨assembling₃, oldPos₃⟩ := assembling_fragments image copied fragments sizeField
  have length := @length_setMember _ _ (u32 (newRamdiskSize b old z newRamdisk replaceIdx))
    (header_room image)
  rw [region_length] at length
  have pageSame := assembling₃.word (by rw [length_append]; omega) isPage
  rw [pageSize_overwrite image] at pageSame
  subst pageSame
  have size := assembling₃.word (by rw [length_append]; omega) isSize
  rw [drop_append_of_le_length (by omega), take_append_of_le_length (by rw [length_drop]; omega),
    leValue_setMember (header_room image)] at size
  replace size : newSize = u32 (newRamdiskSize b old z newRamdisk replaceIdx) :=
    size.trans (Nat.mod_mod _ _)
  subst size
  obtain ⟨assembling₄, oldPos₄⟩ := assembling₃.skip skipped
  have newPos := (checkOffset_eq_ok.mp checked).2.trans assembling₄.newPos
  simp only [length_append, length_replicate, length, length_newFragments] at newPos
  obtain ⟨large, u32_newP⟩ := no_wrap rounded newPos
  have exact : u32 (newRamdiskSize b old z newRamdisk replaceIdx) =
      newRamdiskSize b old z newRamdisk replaceIdx :=
    Nat.mod_eq_of_lt (by omega)
  rw [exact] at rounded assembling₄
  have skipNew : sub32 newP (newRamdiskSize b old z newRamdisk replaceIdx) =
      newP - newRamdiskSize b old z newRamdisk replaceIdx := by
    unfold sub32
    omega
  have skipOld : sub32 z.p z.ramdiskSize = z.p - z.ramdiskSize := by
    unfold sub32
    omega
  have atDtb : u₄.oldPos = z.o + z.p := by
    omega
  obtain ⟨assembling₅, oldPos₅⟩ := assembling₄.copy dtb
  rw [skipNew, atDtb] at assembling₅
  exact ⟨⟨rounded, large, u32_newP⟩, assembling₅, by rw [oldPos₅, atDtb]; rfl⟩

/-- Where the footer is looked for: an offset is of 32 bits. -/
def footerAt (b : BootImg) (old : Medium) : Nat := u32 (old.size - b.footerSize)

/-- A footer is found. -/
def FooterFound (b : BootImg) (old : Medium) : Prop :=
  b.footerSize ≤ old.size ∧ old.region (footerAt b old) b.footerMagic.length = b.footerMagic

/-- What `copy_avb_footer` makes of the new buffer. -/
structure Footed (b : BootImg) (old m new : Medium) : Prop where
  copied : FooterFound b old → new = m.write ⟨footerAt b old,
    old.region (footerAt b old) b.footerSize⟩
  kept : ¬ FooterFound b old → new = m

theorem footed_copyAvbFooter {u' : DataUpdater} (sized : u.Sized old)
    (run : copyAvbFooter b old u = .ok u') :
    Footed b old u.newData u'.newData := by
  unfold copyAvbFooter at run
  split at run
  · rename_i small
    cases run
    exact ⟨fun found => absurd found.1 (Nat.not_le_of_lt small), fun _ => rfl⟩
  · rename_i large
    simp only [bind_eq_ok] at run
    obtain ⟨u₁, sought, found, magic, run⟩ := run
    unfold seek at sought
    split at sought
    · cases sought
    · rename_i inside
      cases sought
      have isFound := (holds_eq_ok.mp magic).2
      cases found with
      | false =>
        cases run
        exact ⟨fun there => absurd there.2 (of_decide_eq_false isFound), fun _ => rfl⟩
      | true =>
        have there : FooterFound b old := ⟨Nat.le_of_not_lt large, of_decide_eq_true isFound⟩
        obtain ⟨-, -, rfl⟩ := (copy_eq_ok
          (u := { u with oldPos := u32 (old.size - b.footerSize), newPos := u32 (old.size -
          b.footerSize) }) ⟨sized.size, Nat.le_of_not_lt inside, Nat.le_of_not_lt inside⟩).mp run
        exact ⟨fun _ => rfl, fun absent => absurd there absent⟩

theorem size_footed {m new : Medium} (footed : Footed b old m new) : new.size = m.size := by
  by_cases found : FooterFound b old
  · rw [footed.copied found]
    rfl
  · rw [footed.kept found]

/-- What a run has put together in front of the footer. -/
structure Built (b : BootImg) (old : Medium) (z : Sections) (newRamdisk : List Byte)
  (replaceIdx newP : Nat) (built : Medium) : Prop where
  newSection : NewSection b old z newRamdisk replaceIdx newP
  size : built.size = old.size
  filled : built.Filled (newImage b old z newRamdisk replaceIdx newP)
  u32 : z.o + newP + z.q + z.r < 2 ^ 32
  inside : (newImage b old z newRamdisk replaceIdx newP).length ≤ old.size

theorem length_entries {table n : Nat} :
    (partsFrom (newEntry b old newRamdisk table replaceIdx) 0 n).length = n * b.entrySize := by
  rw [length_partsFrom length_newEntry, before, map_const', sum_replicate_nat, length_range]

theorem length_newTable :
    (newTable b old z newRamdisk replaceIdx).length = z.entryNum * b.entrySize :=
  length_entries

section

variable (image : WellFormed b old z)

include image

theorem length_newHeader : (newHeader b old z newRamdisk replaceIdx).length = z.o := by
  rw [newHeader, length_setMember (header_room image), region_length]

theorem length_newFront (newSection : NewSection b old z newRamdisk replaceIdx newP) :
    (newFront b old z newRamdisk replaceIdx newP).length = z.o + newP + z.q := by
  have large := newSection.large
  simp only [newFront, length_append, length_newHeader image, length_newFragments, length_replicate,
    region_length]
  omega

theorem length_newImage (newSection : NewSection b old z newRamdisk replaceIdx newP) :
    (newImage b old z newRamdisk replaceIdx newP).length = z.o + newP + z.q + z.r + z.s := by
  have table := image.table
  simp only [newImage, length_append, length_newFront image newSection, length_newTable,
    region_length]
  omega

variable {new : Medium}

theorem built_finishImage (newSection : NewSection b old z newRamdisk replaceIdx newP)
    (assembling : Assembling old (newFront b old z newRamdisk replaceIdx newP ++
      newTable b old z newRamdisk replaceIdx) u)
    (oldPos : u.oldPos = z.table + z.entryNum * b.entrySize)
    (run : finishImage b old z newP u = .ok new) :
    ∃ built, Built b old z newRamdisk replaceIdx newP built ∧ Footed b old built new := by
  have table := image.table
  have fits := image.u32
  unfold Sections.total at fits
  simp only [finishImage, bind_eq_ok] at run
  obtain ⟨u₁, padded, _, checked, u₂, bootconfig, u₃, footer, returned⟩ := run
  cases returned
  have padding : sub32 z.r (u32 (z.entryNum * z.entrySize)) = z.r - z.entryNum * b.entrySize := by
    rw [image.entrySize, u32]
    unfold sub32
    omega
  rw [padding] at padded
  obtain ⟨assembling₁, oldPos₁⟩ := assembling.copy padded
  rw [oldPos] at assembling₁ oldPos₁
  have atBootconfig : u₁.oldPos = z.table + z.r := by omega
  have newPos := (checkOffset_eq_ok.mp checked).2.trans assembling₁.newPos
  simp only [length_append, length_newFront image newSection, length_newTable] at newPos
  obtain ⟨assembling₂, -⟩ := assembling₁.copy bootconfig
  rw [atBootconfig] at assembling₂
  refine ⟨u₂.newData, ⟨newSection, assembling₂.sized.size, assembling₂.filled, ?_, ?_⟩,
    footed_copyAvbFooter assembling₂.sized footer⟩
  · unfold u32 at newPos
    omega
  · exact assembling₂.newPos ▸ assembling₂.sized.newInside

theorem built_of_ok {name : List Byte}
    (run : replaceVendorRamdiskFragment b name old newRamdisk = .ok new) :
    ∃ replaceIdx newP built, Seen b old name z.table z.entryNum (some replaceIdx) ∧
      Built b old z newRamdisk replaceIdx newP built ∧ Footed b old built new := by
  simp only [replaceVendorRamdiskFragment, bind_eq_ok] at run
  obtain ⟨z', isSections, replaceIdx, found, ⟨u, newP⟩, rebuilt, u₁, copied, finished⟩ := run
  cases isSections.symm.trans (sections_eq_ok.mpr image.stored)
  obtain ⟨newSection, assembling, oldPos⟩ := assembling_rebuild image rebuilt
  rw [image.entrySize] at copied
  have oldPos' : u.oldPos = entryAt b z.table 0 := by simp [oldPos, entryAt]
  obtain ⟨assembling₁, oldPos₁⟩ := assembling_copyTable assembling oldPos' rfl copied
  rw [Nat.zero_add] at oldPos₁
  obtain ⟨built, isBuilt, footed⟩ := built_finishImage image newSection assembling₁ oldPos₁ finished
  exact ⟨replaceIdx, newP, built, (findUniqueRamdisk_eq_ok found).1, isBuilt, footed⟩

end

end Run

section Default

variable {b : BootImg} {old : Medium} {newRamdisk : List Byte} {u u' : DataUpdater} {z : Front}

theorem sized_resetTable {version : Nat} (sized : u.Sized old)
    (run : fromV4 version u (resetTable b u) = .ok u') :
    u'.Sized old := by
  unfold fromV4 at run
  split at run
  · simp only [resetTable, bind_eq_ok] at run
    obtain ⟨u₁, first, u₂, second, _, -, _, -, third⟩ := run
    exact ((sized.setField first).setField second).setField third
  · cases run
    exact sized

theorem sized_replaceFront (run : replaceFront b old newRamdisk = .ok z) : z.u.Sized old := by
  simp only [replaceFront, bind_eq_ok] at run
  obtain ⟨_, -, _, -, _, -, _, -, _, -, _, -, _, -, _, -, u₁, header, u₂, field, _, -, u₃, block,
    u₄, replaced, _, -, _, -, _, -, u₅, skipped, _, -, u₆, dtb, returned⟩ := run
  cases returned
  have sized₂ := (sized_start.copy header).setField field
  exact (((sized_resetTable sized₂ block).replace replaced).skip skipped).copy dtb

theorem sized_writeEntry {entry : Nat} (sized : u.Sized old)
    (run : writeEntry b u entry = .ok u') :
    u'.Sized old := by
  simp only [writeEntry, bind_eq_ok, poke_eq_ok] at run
  obtain ⟨_, -, u₁, first, u₂, second, u₃, third, _, ⟨-, rfl⟩, _, ⟨-, rfl⟩, returned⟩ := run
  cases returned
  have sized₃ := ((sized.setField first).setField second).setField third
  exact ⟨sized₃.size, sized₃.oldInside, sized₃.newInside⟩

theorem sized_replaceTable {version : Nat} (sized : z.u.Sized old)
    (run : fromV4 version z.u (replaceTable b old z) = .ok u) :
    u.Sized old := by
  unfold fromV4 at run
  split at run
  · simp only [replaceTable, skipTable, bind_eq_ok] at run
    obtain ⟨_, ⟨_, -, _, -, _, -, _, -, _, -, _, -, _, -, u₁, skipped, _, -, returned⟩, u₂, entry,
      bootconfig⟩ := run
    cases returned
    exact (sized_writeEntry (sized.skip skipped) entry).copy bootconfig
  · cases run
    exact sized

/-- An image that `replace_default_vendor_ramdisk` returns has the size of the old one. -/
theorem size_replaceDefaultVendorRamdisk {new : Medium}
    (run : replaceDefaultVendorRamdisk b old newRamdisk = .ok new) :
    new.size = old.size := by
  simp only [replaceDefaultVendorRamdisk, bind_eq_ok] at run
  obtain ⟨z, front, _, -, u₁, table, u₂, footer, returned⟩ := run
  cases returned
  have sized := sized_replaceTable (sized_replaceFront front) table
  exact (size_footed (footed_copyAvbFooter sized footer)).trans sized.size

end Default

end Aosp.Fastboot
