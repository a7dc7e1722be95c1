import Mathlib.Tactic.Common
import Aosp.Fastboot.VendorBoot

/- What the accesses and the methods of `DataUpdater` do, and when they succeed. -/
namespace Aosp.Fastboot

open Layout Fallible

section Accesses

variable {m m' : Medium} {a : Nat}

theorem checked_eq_ok {α : Type} {condition : Prop} [Decidable condition] {fault : Fault}
    {value result : α} :
    (if condition then .ok value else .error fault : Except Fault α) = .ok result ↔ condition ∧
      value = result := by
  by_cases holds : condition
  · simp [holds]
  · simp [holds]

variable {value : Nat}

theorem word_eq_ok :
    word m a = .ok value ↔ a + 4 ≤ m.size ∧ leValue (m.region a 4) = value := checked_eq_ok

theorem word_lt (read : word m a = .ok value) : value < 2 ^ 32 := by
  obtain ⟨-, rfl⟩ := word_eq_ok.mp read
  have := leValue_lt (m.region a 4)
  rwa [Medium.region_length] at this

variable {bytes : List Byte}

theorem poke_eq_ok :
    poke m a bytes = .ok m' ↔ a + bytes.length ≤ m.size ∧ m.write ⟨a, bytes⟩ = m' := checked_eq_ok

theorem holds_eq_ok {found : Bool} :
    holds m a bytes = .ok found ↔
      a + bytes.length ≤ m.size ∧ decide (m.region a bytes.length = bytes) = found :=
  checked_eq_ok

variable {pageSize rounded : Nat}

theorem roundUp_eq_ok : roundUp value pageSize = .ok rounded ↔
      pageSize ≠ 0 ∧ u32 (value + pageSize - 1) / pageSize * pageSize = rounded := by
  unfold roundUp
  split <;> simp_all

end Accesses

namespace DataUpdater

variable {old : Medium} {u u' : DataUpdater} {n : Nat}

/-- The buffers are of the same size and the cursors are in them. -/
structure Sized (old : Medium) (u : DataUpdater) : Prop where
  size : u.newData.size = old.size
  oldInside : u.oldPos ≤ old.size
  newInside : u.newPos ≤ old.size

theorem sized_start : Sized old (start old) := ⟨rfl, Nat.zero_le _, Nat.zero_le _⟩

/-- `n` bytes of the old buffer have been copied. -/
def copied (old : Medium) (u : DataUpdater) (n : Nat) : DataUpdater :=
  ⟨u.newData.write ⟨u.newPos, old.region u.oldPos n⟩, u.oldPos + n, u.newPos + n⟩

/-- `n` bytes of the old buffer have been left out and others written. -/
def replaced (u : DataUpdater) (n : Nat) (bytes : List Byte) : DataUpdater :=
  ⟨u.newData.write ⟨u.newPos, bytes⟩, u.oldPos + n, u.newPos + bytes.length⟩

theorem length_take_u32 (bytes : List Byte) :
    (bytes.take (u32 bytes.length)).length = u32 bytes.length := by
  rw [List.length_take]
  exact min_eq_left (Nat.mod_le _ _)

variable {done : Unit}

theorem checkAdvance_eq_ok {op : String} {current : Nat} :
    checkAdvance old op current n = .ok done ↔ current + n ≤ old.size := by
  unfold checkAdvance
  split
  · simp_all
  · simp_all

theorem copied_zero (old : Medium) (u : DataUpdater) : copied old u 0 = u := by
  unfold copied
  rw [Medium.region_zero, Medium.write_nil]
  simp

theorem copy_eq_ok (sized : Sized old u) :
    u.copy old n = .ok u' ↔ u.oldPos + n ≤ old.size ∧ u.newPos + n ≤ old.size ∧
      copied old u n = u' := by
  unfold copy
  split
  · rename_i nothing
    subst nothing
    rw [copied_zero, Except.ok.injEq, add_zero, add_zero, and_iff_right sized.oldInside,
      and_iff_right sized.newInside]
  · simp [bind_eq_ok, checkAdvance_eq_ok, copied]

variable {bytes : List Byte}

theorem replace_eq_ok (sized : Sized old u) :
    u.replace old n bytes = .ok u' ↔ u.oldPos + n ≤ old.size ∧
      u.newPos + u32 bytes.length ≤ old.size ∧
      u.replaced n (bytes.take (u32 bytes.length)) = u' := by
  unfold replace
  simp only [bind_eq_ok, checkAdvance_eq_ok, exists_const]
  apply and_congr_right
  intro _
  split
  · rename_i vacant
    have := sized.newInside
    have nothing : bytes.take (u32 bytes.length) = [] := by
      simp [vacant]
    rw [nothing, vacant, replaced, Medium.write_nil, Except.ok.injEq]
    exact (and_iff_right this).symm
  · simp only [bind_eq_ok, checkAdvance_eq_ok, exists_const, Except.ok.injEq, replaced,
      length_take_u32]

variable {oldSkip newSkip : Nat}

theorem skip_eq_ok :
    u.skip old oldSkip newSkip = .ok u' ↔ u.oldPos + oldSkip ≤ old.size ∧
      u.newPos + newSkip ≤ old.size ∧
      ⟨u.newData, u.oldPos + oldSkip, u.newPos + newSkip⟩ = u' := by
  unfold skip
  simp [bind_eq_ok, checkAdvance_eq_ok]

theorem checkOffset_eq_ok {oldOffset newOffset : Nat} :
    u.checkOffset oldOffset newOffset = .ok done ↔ oldOffset = u.oldPos ∧ newOffset = u.newPos := by
  unfold checkOffset
  split
  · simp_all
  · split
    · simp_all
    · simp_all

variable (sized : Sized old u)
include sized

theorem Sized.copied (oldRoom : u.oldPos + n ≤ old.size) (newRoom : u.newPos + n ≤ old.size) :
    Sized old (copied old u n) := ⟨sized.size, oldRoom, newRoom⟩

theorem Sized.copy (run : u.copy old n = .ok u') : Sized old u' := by
  obtain ⟨oldRoom, newRoom, rfl⟩ := (copy_eq_ok sized).mp run
  exact sized.copied oldRoom newRoom

theorem Sized.replace (run : u.replace old n bytes = .ok u') : Sized old u' := by
  obtain ⟨oldRoom, newRoom, rfl⟩ := (replace_eq_ok sized).mp run
  refine ⟨sized.size, oldRoom, ?_⟩
  rw [replaced, length_take_u32]
  exact newRoom

theorem Sized.skip (run : u.skip old oldSkip newSkip = .ok u') : Sized old u' := by
  obtain ⟨oldRoom, newRoom, rfl⟩ := skip_eq_ok.mp run
  exact ⟨sized.size, oldRoom, newRoom⟩

end DataUpdater

variable {address value : Nat}

theorem setField_eq_ok {u u' : DataUpdater} :
    setField u address value = .ok u' ↔ address + 4 ≤ u.newData.size ∧
      { u with newData := u.newData.write ⟨address, leBytes 4 value⟩ } = u' := by
  unfold setField
  simp [bind_eq_ok, poke_eq_ok]

theorem DataUpdater.Sized.setField {old : Medium} {u u' : DataUpdater} (sized : Sized old u)
    (run : setField u address value = .ok u') :
    Sized old u' := by
  obtain ⟨room, rfl⟩ := setField_eq_ok.mp run
  exact ⟨sized.size, sized.oldInside, sized.newInside⟩

section Header

variable {b : BootImg} {m : Medium} {version hdrSize : Nat} {done : Unit}

theorem getVendorBootHeaderSize_eq_ok : getVendorBootHeaderSize b m = .ok hdrSize ↔
      (word m b.headerVersionAt = .ok 3 ∧ b.hdrV3Size = hdrSize) ∨
        (word m b.headerVersionAt = .ok 4 ∧ b.hdrV4Size = hdrSize) := by
  unfold getVendorBootHeaderSize
  rw [bind_eq_ok]
  constructor
  · rintro ⟨found, read, returned⟩
    split at returned
    · rename_i three
      cases returned
      exact .inl ⟨three ▸ read, rfl⟩
    · split at returned
      · rename_i four
        cases returned
        exact .inr ⟨four ▸ read, rfl⟩
      · cases returned
  · rintro (⟨read, rfl⟩ | ⟨read, rfl⟩)
    · exact ⟨3, read, rfl⟩
    · exact ⟨4, read, rfl⟩

theorem v3_le (header : getVendorBootHeaderSize b m = .ok hdrSize) : b.hdrV3Size ≤ hdrSize := by
  rcases getVendorBootHeaderSize_eq_ok.mp header with ⟨-, rfl⟩ | ⟨-, rfl⟩
  · exact le_refl _
  · exact b.v3_v4

/-- What an image with an accepted header has. -/
structure Accepted (b : BootImg) (m : Medium) (version hdrSize pageSize : Nat) : Prop where
  header : getVendorBootHeaderSize b m = .ok hdrSize
  large : hdrSize ≤ m.size
  magic : m.region b.magicAt b.magic.length = b.magic
  page : word m b.pageSizeAt = .ok pageSize
  positive : pageSize ≠ 0
  found : ∃ found, word m b.headerVersionAt = .ok found ∧ version ≤ found

theorem checkVendorBootHdr_eq_ok :
    checkVendorBootHdr b m version = .ok done ↔ ∃ hdrSize pageSize,
      Accepted b m version hdrSize pageSize := by
  unfold checkVendorBootHdr
  simp only [bind_eq_ok, demand_eq_ok, decide_eq_true_eq, exists_const]
  constructor
  · rintro ⟨-, hdrSize, header, large, found, magic, same, pageSize, page, positive, version',
      read, atLeast⟩
    have same' := (holds_eq_ok.mp magic).2
    rw [same, decide_eq_true_eq] at same'
    exact ⟨hdrSize, pageSize, header, large, same', page, positive, version', read, atLeast⟩
  · rintro ⟨hdrSize, pageSize, header, large, magic, page, positive, version', read, atLeast⟩
    have least := v3_le header
    have inside := b.magic_inside
    refine ⟨by omega, hdrSize, header, large, true, ?_, rfl, pageSize, page, positive, version',
      read, atLeast⟩
    exact holds_eq_ok.mpr ⟨by omega, decide_eq_true magic⟩

theorem Accepted.hdrV4 {pageSize : Nat} (accepted : Accepted b m 4 hdrSize pageSize) :
    hdrSize = b.hdrV4Size := by
  obtain ⟨found, read, atLeast⟩ := accepted.found
  rcases getVendorBootHeaderSize_eq_ok.mp accepted.header with ⟨three, -⟩ | ⟨-, same⟩
  · cases read.symm.trans three
    omega
  · exact same.symm

/-- The sections of an image, as they are read. -/
structure Stored (b : BootImg) (m : Medium) (z : Sections) : Prop where
  accepted : Accepted b m 4 b.hdrV4Size z.pageSize
  ramdiskSize : word m b.vendorRamdiskSizeAt = .ok z.ramdiskSize
  o : roundUp b.hdrV4Size z.pageSize = .ok z.o
  p : roundUp z.ramdiskSize z.pageSize = .ok z.p
  q : ∃ dtbSize, word m b.dtbSizeAt = .ok dtbSize ∧ roundUp dtbSize z.pageSize = .ok z.q
  r : ∃ tableSize, word m b.tableSizeAt = .ok tableSize ∧ roundUp tableSize z.pageSize = .ok z.r
  s : ∃ bootconfigSize, word m b.bootconfigSizeAt = .ok bootconfigSize ∧
    roundUp bootconfigSize z.pageSize = .ok z.s
  total : z.o + z.p + z.q + z.r + z.s ≤ m.size
  entryNum : word m b.tableEntryNumAt = .ok z.entryNum
  entries : z.entryNum * b.entrySize ≤ z.o + z.p + z.q + z.r
  entrySize : word m b.tableEntrySizeAt = .ok z.entrySize

theorem sections_eq_ok {z : Sections} : sections b m = .ok z ↔ Stored b m z := by
  unfold sections
  simp only [bind_eq_ok, demand_eq_ok, decide_eq_true_eq, exists_const, checkVendorBootHdr_eq_ok,
    Except.ok.injEq]
  constructor
  · rintro ⟨⟨hdrSize, pageSize, accepted⟩, hdrSize', header, pageSize', page, ramdiskSize, size, o,
      isO, p, isP,
      dtbSize, dtb, q, isQ, tableSize, table, r, isR, bootconfigSize, bootconfig, s, isS, total,
      num, isNum, entries, entrySize, isSize, rfl⟩
    cases header.symm.trans accepted.header
    cases page.symm.trans accepted.page
    cases accepted.hdrV4
    exact ⟨accepted, size, isO, isP, ⟨_, dtb, isQ⟩, ⟨_, table, isR⟩, ⟨_, bootconfig, isS⟩, total,
      isNum, entries, isSize⟩
  · rintro ⟨accepted, size, isO, isP, ⟨_, dtb, isQ⟩, ⟨_, table, isR⟩, ⟨_, bootconfig, isS⟩, total,
      isNum, entries, isSize⟩
    exact ⟨⟨_, _, accepted⟩, _, accepted.header, _, accepted.page, _, size, _, isO, _, isP, _, dtb,
      _, isQ, _, table, _, isR, _, bootconfig, _, isS, total, _, isNum, entries, _, isSize, rfl⟩

variable {name : List Byte} {table : Nat}

/-- The name of an entry. -/
def nameAt (b : BootImg) (table i : Nat) : Nat := table + i * b.entrySize + b.ramdiskNameAt

def Named (b : BootImg) (m : Medium) (name : List Byte) (table i : Nat) : Prop :=
  strnlen m b.nameSize (nameAt b table i) = .ok name

/-- What the scan knows in front of an entry. -/
def Seen (b : BootImg) (m : Medium) (name : List Byte) (table idx : Nat) : Option Nat → Prop
  | none => ∀ j < idx, ¬ Named b m name table j
  | some k => k < idx ∧ Named b m name table k ∧ ∀ j < idx, Named b m name table j → j = k

variable {idx : Nat} {ret : Option Nat}

theorem Seen.other (seen : Seen b m name table idx ret) (other : ¬ Named b m name table idx) :
    Seen b m name table (idx + 1) ret := by
  cases ret with
  | none =>
    intro j less named
    rcases Nat.lt_succ_iff_lt_or_eq.mp less with before | same
    · exact seen j before named
    · exact other (same ▸ named)
  | some k =>
    obtain ⟨less, named, only⟩ := seen
    refine ⟨by omega, named, fun j less' named' => ?_⟩
    rcases Nat.lt_succ_iff_lt_or_eq.mp less' with before | same
    · exact only j before named'
    · exact absurd (same ▸ named') other

theorem Seen.first (seen : Seen b m name table idx none) (named : Named b m name table idx) :
    Seen b m name table (idx + 1) (some idx) := by
  refine ⟨by omega, named, fun j less named' => ?_⟩
  rcases Nat.lt_succ_iff_lt_or_eq.mp less with before | same
  · exact absurd named' (seen j before)
  · exact same

/-- All names are inside if the scan ends without an error. -/
theorem findFrom_eq_ok {count : Nat} {found : Option Nat} (seen : Seen b m name table idx ret)
    (run : findFrom b m name table ret idx count = .ok found) :
    Seen b m name table (idx + count) found ∧
      ∀ i, idx ≤ i → i < idx + count → ∃ bytes,
      strnlen m b.nameSize (nameAt b table i) = .ok bytes := by
  induction count generalizing idx ret with
  | zero =>
    cases run
    exact ⟨seen, fun i low high => by omega⟩
  | succ count ih =>
    rw [findFrom, bind_eq_ok] at run
    obtain ⟨entryName, read, run⟩ := run
    have each {found : Option Nat} (later : Seen b m name table (idx + 1 + count) found ∧
        ∀ i, idx + 1 ≤ i → i < idx + 1 + count →
        ∃ bytes, strnlen m b.nameSize (nameAt b table i) = .ok bytes) :
        Seen b m name table (idx + (count + 1)) found ∧
        ∀ i, idx ≤ i → i < idx + (count + 1) →
        ∃ bytes, strnlen m b.nameSize (nameAt b table i) = .ok bytes := by
      rw [show idx + (count + 1) = idx + 1 + count by omega]
      refine ⟨later.1, fun i low high => ?_⟩
      rcases eq_or_lt_of_le low with rfl | behind
      · exact ⟨entryName, read⟩
      · exact later.2 i behind high
    split at run
    · rename_i same
      subst same
      cases ret with
      | none => exact each (ih (seen.first read) run)
      | some k => cases run
    · rename_i different
      refine each (ih (seen.other ?_) run)
      intro named
      cases named.symm.trans read
      exact different rfl

theorem findUniqueRamdisk_eq_ok {size : Nat}
    (run : findUniqueRamdisk b m name table size = .ok idx) :
    Seen b m name table size (some idx) ∧ ∀ i < size, ∃ bytes,
      strnlen m b.nameSize (nameAt b table i) = .ok bytes := by
  rw [findUniqueRamdisk, bind_eq_ok] at run
  obtain ⟨found, scanned, run⟩ := run
  have start : Seen b m name table 0 none := fun _ less => absurd less (Nat.not_lt_zero _)
  obtain ⟨seen, names⟩ := findFrom_eq_ok start scanned
  rw [zero_add] at seen names
  cases found with
  | none => cases run
  | some k =>
    cases run
    exact ⟨seen, fun i less => names i (Nat.zero_le i) less⟩

end Header

end Aosp.Fastboot
