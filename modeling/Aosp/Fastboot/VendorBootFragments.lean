import Aosp.Fastboot.Assembled

namespace Aosp.Fastboot

open List Layout Fallible Medium

section Read

variable (b : BootImg) (m : Medium) (z : Sections)

def dtb : List Byte := m.region (z.o + z.p) (field m b.dtbSizeAt)

def bootconfig : List Byte := m.region (z.table + z.r) (field m b.bootconfigSizeAt)

def fragment (i : Nat) : List Byte :=
  m.region (z.o + fragmentOffset b m z.table i) (fragmentSize b m z.table i)

def footer : List Byte := m.region (m.size - b.footerSize) b.footerSize

end Read

/-- The headers have the same bytes, the size of the ramdisk aside. -/
structure HeaderKept (b : BootImg) (old new : Medium) : Prop where
  size : new.size = old.size
  bytes : ∀ a < b.hdrV4Size, Outside b.vendorRamdiskSizeAt a → new.byte a = old.byte a

/-- The new image is well formed, and what is read from it is the same but for the fragment `k`. -/
structure FragmentReplaced (b : BootImg) (old new : Medium) (z z' : Sections) (k : Nat)
  (newRamdisk : List Byte) : Prop where
  wellFormed : WellFormed b new z'
  header : HeaderKept b old new
  dtb : dtb b new z' = dtb b old z
  bootconfig : bootconfig b new z' = bootconfig b old z
  hasFooter : HasFooter b new ↔ HasFooter b old
  footer : HasFooter b old → footer b new = footer b old
  entryNum : z'.entryNum = z.entryNum
  replaced : fragment b new z' k = newRamdisk
  others : ∀ i < z.entryNum, i ≠ k → fragment b new z' i = fragment b old z i
  entries : ∀ i < z.entryNum, ∀ a < b.entrySize, Outside b.ramdiskOffsetAt a →
    (i = k → Outside b.ramdiskSizeAt a) → new.byte (entryAt b z'.table i + a) =
    old.byte (entryAt b z.table i + a)

namespace HeaderKept

variable {b : BootImg} {old new : Medium}

theorem region (kept : HeaderKept b old new) {a n : Nat} (inside : a + n ≤ b.hdrV4Size)
    (apart : a + n ≤ b.vendorRamdiskSizeAt ∨ b.vendorRamdiskSizeAt + 4 ≤ a) :
    new.region a n = old.region a n := by
  apply region_congr
  intro i low high
  refine kept.bytes i (by omega) ?_
  unfold Outside
  omega

/-- The members apart from the size of the ramdisk. -/
theorem members (b : BootImg) :
    ∀ f ∈ [b.headerVersionAt, b.pageSizeAt, b.dtbSizeAt, b.tableSizeAt, b.tableEntryNumAt,
    b.tableEntrySizeAt, b.bootconfigSizeAt],
    f + 4 ≤ b.hdrV4Size ∧ (f + 4 ≤ b.vendorRamdiskSizeAt ∨ b.vendorRamdiskSizeAt + 4 ≤ f) := by
  have v3 := b.v3_inside
  have v4 := b.v4_inside
  have apart := b.apart
  simp only [mem_cons, not_mem_nil, or_false, forall_eq_or_imp, forall_eq] at *
  omega

variable {f : Nat}

section

variable (kept : HeaderKept b old new)
  (member : f ∈ [b.headerVersionAt, b.pageSizeAt, b.dtbSizeAt, b.tableSizeAt, b.tableEntryNumAt,
    b.tableEntrySizeAt, b.bootconfigSizeAt])

include kept member

theorem field : field new f = field old f := by
  obtain ⟨inside, apart⟩ := members b f member
  unfold Fastboot.field
  rw [kept.region inside apart]

theorem word : word new f = word old f := by
  obtain ⟨inside, apart⟩ := members b f member
  unfold Fastboot.word
  rw [kept.size, kept.region inside apart]

end

theorem accepted (kept : HeaderKept b old new) {version hdrSize pageSize : Nat}
    (accepted : Accepted b old version hdrSize pageSize) :
    Accepted b new version hdrSize pageSize where
  header := by
    rw [getVendorBootHeaderSize, kept.word (by simp)]
    exact accepted.header
  large := kept.size ▸ accepted.large
  magic := by
    rw [kept.region (Nat.le_trans b.magic_inside b.v3_v4) b.magic_apart]
    exact accepted.magic
  page := by
    rw [kept.word (by simp)]
    exact accepted.page
  positive := accepted.positive
  found := by
    rw [kept.word (by simp)]
    exact accepted.found

variable {z : Sections}

/-- The sections are read as they were, the ramdisk aside. -/
theorem stored (kept : HeaderKept b old new) {ramdiskSize p : Nat} (stored : Stored b old z)
    (isSize : Fastboot.word new b.vendorRamdiskSizeAt = .ok ramdiskSize)
    (isP : roundUp ramdiskSize z.pageSize = .ok p) (total : z.o + p + z.q + z.r + z.s ≤ old.size)
    (entries : z.entryNum * b.entrySize ≤ z.r) :
    Stored b new { z with ramdiskSize, p } where
  accepted := kept.accepted stored.accepted
  ramdiskSize := isSize
  o := stored.o
  p := isP
  q := by
    rw [kept.word (by simp)]
    exact stored.q
  r := by
    rw [kept.word (by simp)]
    exact stored.r
  s := by
    rw [kept.word (by simp)]
    exact stored.s
  total := kept.size ▸ total
  entryNum := by
    rw [kept.word (by simp)]
    exact stored.entryNum
  entries := by
    dsimp only
    omega
  entrySize := by
    rw [kept.word (by simp)]
    exact stored.entrySize

/-- Nothing else can be read. -/
theorem sections_eq (kept : HeaderKept b old new) {z' : Sections} (stored : Stored b old z)
    (stored' : Stored b new z') :
    z' = { z with ramdiskSize := z'.ramdiskSize, p := z'.p } := by
  obtain ⟨pageSize, ramdiskSize, entryNum, entrySize, o, p, q, r, s⟩ := z'
  have page := (kept.word (by simp)).symm.trans stored'.accepted.page
  cases page.symm.trans stored.accepted.page
  have entryNum := (kept.word (by simp)).symm.trans stored'.entryNum
  cases entryNum.symm.trans stored.entryNum
  have entrySize := (kept.word (by simp)).symm.trans stored'.entrySize
  cases entrySize.symm.trans stored.entrySize
  cases stored'.o.symm.trans stored.o
  obtain ⟨_, isSize, isQ⟩ := stored.q
  obtain ⟨_, isSize', isQ'⟩ := stored'.q
  cases ((kept.word (by simp)).symm.trans isSize').symm.trans isSize
  cases isQ'.symm.trans isQ
  obtain ⟨_, isSize, isR⟩ := stored.r
  obtain ⟨_, isSize', isR'⟩ := stored'.r
  cases ((kept.word (by simp)).symm.trans isSize').symm.trans isSize
  cases isR'.symm.trans isR
  obtain ⟨_, isSize, isS⟩ := stored.s
  obtain ⟨_, isSize', isS'⟩ := stored'.s
  cases ((kept.word (by simp)).symm.trans isSize').symm.trans isSize
  cases isS'.symm.trans isS
  rfl

end HeaderKept

section ReadBack

variable {b : BootImg} {old new : Medium} {z : Sections} {newRamdisk : List Byte} {k newP : Nat}

/-- The sections of the new image. -/
def newSections (b : BootImg) (old : Medium) (z : Sections) (newRamdisk : List Byte)
    (k newP : Nat) : Sections :=
  { z with ramdiskSize := newRamdiskSize b old z newRamdisk k, p := newP }

section

variable (image : WellFormed b old z) (size : new.size = old.size)
  (begins : new.Begins (newHeader b old z newRamdisk k))

include image size begins

theorem headerKept_of_begins : HeaderKept b old new := by
  have header := image.header
  refine ⟨size, fun a less outside => ?_⟩
  rw [begins a (by rw [length_newHeader image]; omega), newHeader,
    getD_setMember (header_room image) outside, getD_region _ (by omega), Nat.zero_add]

theorem ramdiskSize_of_begins (u32 : newRamdiskSize b old z newRamdisk k < 2 ^ 32) :
    word new b.vendorRamdiskSizeAt = .ok (newRamdiskSize b old z newRamdisk k) := by
  have inside := vendorRamdiskSize_inside b
  have header := image.header
  have large := image.stored.accepted.large
  refine word_eq_ok.mpr ⟨by omega, ?_⟩
  rw [begins.region (by rw [length_newHeader image]; omega), newHeader,
    leValue_setMember (header_room image)]
  exact Nat.mod_eq_of_lt u32

end

/-- The parts of the new image with their places. -/
structure Laid (b : BootImg) (old new : Medium) (z : Sections) (newRamdisk : List Byte)
  (k newP : Nat) : Prop where
  header : new.Begins (newHeader b old z newRamdisk k)
  fragments : ∀ i < z.entryNum, new.region (z.o + newOffset b old newRamdisk z.table k i)
    (newFragmentSize b old newRamdisk z.table k i) = newFragment b old newRamdisk z.o z.table k i
  dtb : new.region (z.o + newP) z.q = old.region (z.o + z.p) z.q
  entries : ∀ i < z.entryNum, new.region (entryAt b (z.o + newP + z.q) i) b.entrySize =
    newEntry b old newRamdisk z.table k i
  bootconfig : new.region (z.o + newP + z.q + z.r) z.s = old.region (z.table + z.r) z.s

theorem laid_of_begins (image : WellFormed b old z)
    (newSection : NewSection b old z newRamdisk k newP)
    (begins : new.Begins (newImage b old z newRamdisk k newP)) :
    Laid b old new z newRamdisk k newP where
  header := begins.left.left.left.left.left.left
  fragments := by
    intro i less
    have front := begins.left.left.left.left.left
    rw [newFragments, partsFrom_split _ less, ← append_assoc, ← append_assoc] at front
    have part := front.region_part
    rwa [length_append, length_newHeader image, length_newFragment,
      length_partsFrom (length_newFragment z.o)] at part
  dtb := by
    have part := begins.left.left.left.region_last
    have large := newSection.large
    simp only [length_append, length_newHeader image, length_newFragments, length_replicate,
      region_length] at part
    rwa [show z.o + newRamdiskSize b old z newRamdisk k +
      (newP - newRamdiskSize b old z newRamdisk k) = z.o + newP by
      omega] at part
  entries := by
    intro i less
    have front := begins.left.left
    rw [newTable, partsFrom_split _ less, ← append_assoc, ← append_assoc] at front
    have part := front.region_part
    rwa [length_append, length_newFront image newSection, length_newEntry, length_entries] at part
  bootconfig := by
    have part := begins.region_last
    have table := image.table
    simp only [length_append, length_newFront image newSection, length_newTable,
      region_length] at part
    rwa [show z.o + newP + z.q + z.entryNum * b.entrySize + (z.r - z.entryNum * b.entrySize) =
      z.o + newP + z.q + z.r by
      omega] at part

variable {i : Nat}

theorem Laid.entry (laid : Laid b old new z newRamdisk k newP) (less : i < z.entryNum) :
    fragmentSize b new (z.o + newP + z.q) i = newFragmentSize b old newRamdisk z.table k i ∧
      fragmentOffset b new (z.o + newP + z.q) i = u32 (newOffset b old newRamdisk z.table k i) := by
  have entry := laid.entries i less
  constructor
  · rw [fragmentSize, field, ← region_part _ (size_inside b), entry, size_newEntry]
  · rw [fragmentOffset, field, ← region_part _ (offset_inside b), entry, offset_newEntry]

theorem NewSection.offset_lt (newSection : NewSection b old z newRamdisk k newP)
    (le : i ≤ z.entryNum) :
    newOffset b old newRamdisk z.table k i < 2 ^ 32 := by
  have sum := before_le (newFragmentSize b old newRamdisk z.table k) le
  have large := newSection.large
  have u32 := newSection.u32
  unfold newRamdiskSize newOffset at *
  omega

section

variable (laid : Laid b old new z newRamdisk k newP)

include laid

/-- The table gives the new sizes, and their sums as offsets. -/
theorem Laid.sizes (le : i ≤ z.entryNum) :
    before (fragmentSize b new (z.o + newP + z.q)) i = newOffset b old newRamdisk z.table k i :=
  before_congr fun j less => (laid.entry (by omega)).1

theorem Laid.wellFormed (image : WellFormed b old z)
    (newSection : NewSection b old z newRamdisk k newP) (size : new.size = old.size)
    (inside : z.o + newP + z.q + z.r + z.s ≤ old.size) (u32 : z.o + newP + z.q + z.r + z.s < 2 ^ 32)
    (footer : HasFooter b new → z.o + newP + z.q + z.r + z.s ≤ old.size - b.footerSize) :
    WellFormed b new (newSections b old z newRamdisk k newP) where
  stored := (headerKept_of_begins image size laid.header).stored image.stored
    (ramdiskSize_of_begins image size laid.header (newSection.offset_lt (Nat.le_refl _)))
    newSection.rounded inside image.table
  entrySize := image.entrySize
  tableSize := by
    rw [(headerKept_of_begins image size laid.header).word (by simp)]
    exact image.tableSize
  header := image.header
  ramdisk := newSection.large
  dtb := by
    rw [(headerKept_of_begins image size laid.header).field (by simp)]
    exact image.dtb
  table := image.table
  bootconfig := by
    rw [(headerKept_of_begins image size laid.header).field (by simp)]
    exact image.bootconfig
  u32 := u32
  contiguous := by
    intro i less
    have offset := newSection.offset_lt (Nat.le_of_lt less)
    exact ((laid.entry less).2.trans (Nat.mod_eq_of_lt offset)).trans
      (laid.sizes (Nat.le_of_lt less)).symm
  summed := laid.sizes (Nat.le_refl _)
  footer := fun has => size ▸ footer has

theorem Laid.fragment (newSection : NewSection b old z newRamdisk k newP) (less : i < z.entryNum) :
    fragment b new (newSections b old z newRamdisk k newP) i =
      newFragment b old newRamdisk z.o z.table k i := by
  have entry := laid.entry less
  rw [u32, Nat.mod_eq_of_lt (newSection.offset_lt (Nat.le_of_lt less))] at entry
  rw [← laid.fragments i less, ← entry.1, ← entry.2]
  rfl

end

end ReadBack

section Fits

variable (b : BootImg) (old : Medium) (z : Sections) (newRamdisk : List Byte) (k : Nat)

def pages (size pageSize : Nat) : Nat := (size + pageSize - 1) / pageSize * pageSize

/-- The size of the new ramdisk section. -/
def newP : Nat :=
  pages (z.ramdiskSize - fragmentSize b old z.table k + newRamdisk.length) z.pageSize

def newTotal : Nat := z.o + newP b old z newRamdisk k + z.q + z.r + z.s

/-- The footer is looked for where it cannot be, and what is there looks like one. -/
def Misplaced : Prop := 2 ^ 32 ≤ old.size - b.footerSize ∧ FooterFound b old

/-- What the source does not check: the new ramdisk and the new sections are of less than 2^32
bytes, the sections end in front of the footer, and without a footer they have no bytes that look
like one. -/
structure Fits : Prop where
  u32 : newRamdisk.length < 2 ^ 32
  total : newTotal b old z newRamdisk k < 2 ^ 32
  behind : HasFooter b old → old.size - b.footerSize < 2 ^ 32 ∧
    newTotal b old z newRamdisk k ≤ old.size - b.footerSize
  none : ¬ HasFooter b old → b.footerSize ≤ old.size →
    (List.range b.footerMagic.length).map (fun i =>
      (newImage b old z newRamdisk k (newP b old z newRamdisk k)).getD (old.size - b.footerSize + i)
        0) ≠ b.footerMagic
  placed : Misplaced b old → newTotal b old z newRamdisk k ≤ footerAt b old

end Fits

section Proof

variable {b : BootImg} {old built new : Medium} {z : Sections} {newRamdisk : List Byte} {k p : Nat}

theorem newRamdiskSize_eq (image : WellFormed b old z) (less : k < z.entryNum)
    (u32 : newRamdisk.length < 2 ^ 32) :
    newRamdiskSize b old z newRamdisk k = z.ramdiskSize - fragmentSize b old z.table k +
      newRamdisk.length := by
  have change := before_change (fragmentSize b old z.table) k (Fastboot.u32 newRamdisk.length) less
  have within := before_le (fragmentSize b old z.table) (Nat.succ_le_of_lt less)
  rw [before_succ] at within
  rw [image.summed] at change within
  have exact : Fastboot.u32 newRamdisk.length = newRamdisk.length := Nat.mod_eq_of_lt u32
  change newRamdiskSize b old z newRamdisk k + _ = _ at change
  omega

/-- A section that is at least as large as its contents is the least number of pages for them. -/
theorem eq_pages {size pageSize : Nat} (rounded : roundUp size pageSize = .ok p)
    (page_u32 : pageSize < 2 ^ 32) (size_u32 : size < 2 ^ 32) (large : size ≤ p) :
    p = pages size pageSize := by
  obtain ⟨positive, rfl⟩ := roundUp_eq_ok.mp rounded
  rcases Nat.lt_or_ge (size + pageSize - 1) (2 ^ 32) with exact | wraps
  · rw [u32, Nat.mod_eq_of_lt exact]
    rfl
  · have small : u32 (size + pageSize - 1) < pageSize := by
      unfold u32
      omega
    rw [Nat.div_eq_of_lt small] at large
    omega

theorem Built.newP_eq (isBuilt : Built b old z newRamdisk k p built) (image : WellFormed b old z)
    (less : k < z.entryNum) (u32 : newRamdisk.length < 2 ^ 32) :
    p = newP b old z newRamdisk k := by
  rw [newP, ← newRamdiskSize_eq image less u32]
  exact eq_pages isBuilt.newSection.rounded (word_lt image.stored.accepted.page)
    (isBuilt.newSection.offset_lt (Nat.le_refl _)) isBuilt.newSection.large

/-- Below 2^32 the footer is looked for where it is. -/
theorem footerAt_eq (small : old.size - b.footerSize < 2 ^ 32) :
    footerAt b old = old.size - b.footerSize :=
  Nat.mod_eq_of_lt small

theorem footerFound_iff (small : old.size - b.footerSize < 2 ^ 32) :
    FooterFound b old ↔ HasFooter b old := by
  rw [FooterFound, footerAt_eq small, HasFooter]

/-- The footer is put behind these bytes, if at all. -/
theorem begins_of_footed {bytes : List Byte} (footed : Footed b old built new)
    (begins : built.Begins bytes) (behind : FooterFound b old → bytes.length ≤ footerAt b old) :
    new.Begins bytes := by
  by_cases found : FooterFound b old
  · rw [footed.copied found]
    exact begins.write (behind found)
  · rw [footed.kept found]
    exact begins

/-- The last bytes of the new image, if a footer is not copied over them. -/
theorem region_footer (filled : built.Filled (newImage b old z newRamdisk k p)) :
    built.region (old.size - b.footerSize) b.footerMagic.length =
      (List.range b.footerMagic.length).map fun i =>
        (newImage b old z newRamdisk k p).getD (old.size - b.footerSize + i) 0 := by
  exact map_congr_left fun i _ => filled _

/-- A footer that is looked for in front of its place is not copied over it. -/
theorem region_footer_misplaced (misplaced : Misplaced b old) (footed : Footed b old built new) :
    new.region (old.size - b.footerSize) b.footerMagic.length =
      built.region (old.size - b.footerSize) b.footerMagic.length := by
  have large := misplaced.1
  have footer := b.footer_u32
  rw [footed.copied misplaced.2]
  apply region_write_apart
  have stop : (⟨footerAt b old, old.region (footerAt b old) b.footerSize⟩ : Write).stop =
      footerAt b old + b.footerSize := by
    rw [Write.stop, region_length]
  rw [stop]
  unfold footerAt u32
  omega

theorem footer_copied (small : old.size - b.footerSize < 2 ^ 32) (has : HasFooter b old)
    (footed : Footed b old built new) :
    new.region (old.size - b.footerSize) b.footerSize =
      old.region (old.size - b.footerSize) b.footerSize := by
  rw [footed.copied ((footerFound_iff small).mpr has), footerAt_eq small]
  have copied := region_write built ⟨old.size - b.footerSize,
    old.region (old.size - b.footerSize) b.footerSize⟩
  rwa [region_length] at copied

theorem no_footer_behind (isBuilt : Built b old z newRamdisk k p built)
    (behind : (newImage b old z newRamdisk k p).length ≤ old.size - b.footerSize) :
    built.region (old.size - b.footerSize) b.footerMagic.length ≠ b.footerMagic := by
  have zeros : built.region (old.size - b.footerSize) b.footerMagic.length =
      List.replicate b.footerMagic.length 0 := by
    rw [region_footer isBuilt.filled, eq_replicate_iff]
    refine ⟨by simp, fun byte mem => ?_⟩
    obtain ⟨i, -, rfl⟩ := mem_map.mp mem
    rw [getD_eq_getElem?_getD, List.getElem?_eq_none (by omega)]
    rfl
  rw [zeros]
  exact b.footer_nonzero.symm

variable (isBuilt : Built b old z newRamdisk k p built) (footed : Footed b old built new)

include isBuilt footed

theorem size_of_footed : new.size = old.size :=
  (size_footed footed).trans isBuilt.size

theorem hasFooter_of_fits (fits : Fits b old z newRamdisk k) (isP : p = newP b old z newRamdisk k) :
    HasFooter b new ↔ HasFooter b old := by
  have size := size_of_footed isBuilt footed
  by_cases has : HasFooter b old
  · obtain ⟨small, -⟩ := fits.behind has
    refine iff_of_true ⟨by rw [size]; exact has.1, ?_⟩ has
    rw [size, region_shorter (footer_copied small has footed) b.footer_inside]
    exact has.2
  · refine iff_of_false (fun ⟨large, magic⟩ => ?_) has
    rw [size] at large magic
    have same : new.region (old.size - b.footerSize) b.footerMagic.length =
        built.region (old.size - b.footerSize) b.footerMagic.length := by
      by_cases found : FooterFound b old
      · refine region_footer_misplaced ⟨Nat.le_of_not_lt fun small => ?_, found⟩ footed
        exact has ((footerFound_iff small).mp found)
      · rw [footed.kept found]
    rw [same, region_footer isBuilt.filled, isP] at magic
    exact fits.none has large magic

variable (image : WellFormed b old z)

include image

/-- The header of the new image is not overwritten by a footer that is found in its place. -/
theorem begins_newHeader (placed : ¬ Misplaced b old) :
    new.Begins (newHeader b old z newRamdisk k) := by
  refine begins_of_footed footed isBuilt.filled.begins.left.left.left.left.left.left fun found => ?_
  have small : old.size - b.footerSize < 2 ^ 32 := Nat.lt_of_not_le fun large =>
    placed ⟨large, found⟩
  have behind := image.footer ((footerFound_iff small).mp found)
  unfold Sections.total at behind
  rw [length_newHeader image, footerAt_eq small]
  omega

variable (less : k < z.entryNum)

include less

theorem fragmentReplaced_of_fits (fits : Fits b old z newRamdisk k) :
    FragmentReplaced b old new z (newSections b old z newRamdisk k p) k newRamdisk := by
  have newSection := isBuilt.newSection
  have isP := isBuilt.newP_eq image less fits.u32
  have size := size_of_footed isBuilt footed
  have length := length_newImage image newSection
  have total : newTotal b old z newRamdisk k = z.o + p + z.q + z.r + z.s := by rw [newTotal, isP]
  have hasFooter := hasFooter_of_fits isBuilt footed fits isP
  have begins : new.Begins (newImage b old z newRamdisk k p) := by
    refine begins_of_footed footed isBuilt.filled.begins fun found => ?_
    rw [length, ← total]
    rcases Nat.lt_or_ge (old.size - b.footerSize) (2 ^ 32) with small | large
    · rw [footerAt_eq small]
      exact (fits.behind ((footerFound_iff small).mp found)).2
    · exact fits.placed ⟨large, found⟩
  have laid := laid_of_begins image newSection begins
  have kept := headerKept_of_begins image size laid.header
  have u32 := fits.total
  rw [total] at u32
  refine ⟨laid.wellFormed image newSection size (length ▸ isBuilt.inside) u32 ?_, kept, ?_, ?_,
    hasFooter, ?_, rfl, ?_, ?_, ?_⟩
  · intro has
    rw [← total]
    exact (fits.behind (hasFooter.mp has)).2
  · unfold dtb
    rw [kept.field (by simp)]
    exact region_shorter laid.dtb image.dtb
  · unfold bootconfig
    rw [kept.field (by simp)]
    exact region_shorter laid.bootconfig image.bootconfig
  · intro has
    rw [footer, size]
    exact footer_copied (fits.behind has).1 has footed
  · rw [laid.fragment newSection less, newFragment, if_pos rfl, Fastboot.u32,
      Nat.mod_eq_of_lt fits.u32, take_length]
  · intro i less' other
    rw [laid.fragment newSection less', newFragment, if_neg other, fragment,
      image.contiguous i less']
  · intro i less' a inside offset sizeApart
    change new.byte (entryAt b (z.o + p + z.q) i + a) = _
    rw [← getD_region _ inside, laid.entries i less', getD_newEntry inside offset sizeApart]

theorem fits_of_fragmentReplaced {z' : Sections}
    (replaced : FragmentReplaced b old new z z' k newRamdisk) (placed : ¬ Misplaced b old) :
    Fits b old z newRamdisk k := by
  have u32 : newRamdisk.length < 2 ^ 32 := by
    rw [← replaced.replaced, fragment, region_length]
    exact field_lt _ _
  have isP := isBuilt.newP_eq image less u32
  have size := size_of_footed isBuilt footed
  have stored' := replaced.wellFormed.stored
  have same := replaced.header.sections_eq image.stored stored'
  have isSize : z'.ramdiskSize = newRamdiskSize b old z newRamdisk k := by
    have read := ramdiskSize_of_begins image size (begins_newHeader isBuilt footed image placed)
      (isBuilt.newSection.offset_lt (Nat.le_refl _))
    exact (Except.ok.inj (read.symm.trans stored'.ramdiskSize)).symm
  have isP' : z'.p = p := by
    have rounded := stored'.p
    rw [same] at rounded
    rw [isSize] at rounded
    exact Except.ok.inj (rounded.symm.trans isBuilt.newSection.rounded)
  have total : z'.total = newTotal b old z newRamdisk k := by
    rw [same, isP', isP]
    rfl
  have length : (newImage b old z newRamdisk k p).length = newTotal b old z newRamdisk k := by
    rw [length_newImage image isBuilt.newSection, isP]
    rfl
  have total_u32 := replaced.wellFormed.u32
  rw [total] at total_u32
  refine ⟨u32, total_u32, fun has => ?_, fun has large => ?_, fun misplaced =>
    absurd misplaced placed⟩
  · have has' := replaced.hasFooter.mpr has
    refine ⟨Nat.lt_of_not_le fun large => ?_, ?_⟩
    · have absent : ¬ FooterFound b old := fun found => placed ⟨large, found⟩
      have magic := has'.2
      rw [size, footed.kept absent] at magic
      exact no_footer_behind isBuilt (by omega) magic
    · rw [← total, ← size]
      exact replaced.wellFormed.footer has'
  · have absent : ¬ FooterFound b old := by
      intro found
      rcases Nat.lt_or_ge (old.size - b.footerSize) (2 ^ 32) with small | large
      · exact has ((footerFound_iff small).mp found)
      · exact placed ⟨large, found⟩
    intro magic
    rw [← isP, ← region_footer isBuilt.filled, ← footed.kept absent] at magic
    refine has (replaced.hasFooter.mp ⟨by rwa [size], ?_⟩)
    rwa [size]

end Proof

/-- Pages of one byte, fragments "a" of two bytes and "b" of one byte, no dtb, a bootconfig of one
byte and a footer. -/
def footedImage : Medium where
  size := 2412
  byte a :=
    if a < 8 then published.magic.getD a 0
    else if a = 8 then 4
    else if a = 12 ∨ a = 2124 ∨ a = 2239 then 1
    else if a = 2116 ∨ a = 2131 ∨ a = 2243 then 2
    else if a = 24 then 3
    else if a = 2112 then 216
    else if a = 2120 then 108
    else if a = 2143 then 0x61
    else if a = 2251 then 0x62
    else if 2128 ≤ a ∧ a < 2131 ∨ a = 2347 then 7
    else if 2348 ≤ a ∧ a < 2352 then published.footerMagic.getD (a - 2348) 0
    else 0

def footedSections : Sections := ⟨1, 3, 2, 108, 2128, 3, 0, 216, 1⟩

set_option maxRecDepth 10000 in
theorem wellFormed_footedImage : WellFormed published footedImage footedSections where
  stored := sections_eq_ok.mp rfl
  entrySize := rfl
  tableSize := rfl
  header := by decide
  ramdisk := by decide
  dtb := by decide
  table := by decide
  bootconfig := by decide
  u32 := by decide
  contiguous := by decide
  summed := rfl
  footer := fun _ => by decide

theorem named_footedImage : Named published footedImage [0x61] footedSections.table 0 := rfl

theorem hasFooter_footedImage : HasFooter published footedImage := ⟨by decide, rfl⟩

theorem placed_footedImage : ¬ Misplaced published footedImage :=
  fun misplaced => absurd misplaced.1 (by decide)

theorem exists_of_isOk {result : Except Fault Medium} (isOk : result.isOk) :
    ∃ new, result = .ok new := by
  cases result with
  | error => cases isOk
  | ok new => exact ⟨new, rfl⟩

/-- A ramdisk that is larger by one byte moves the bootconfig under the footer, which is copied over
it. -/
theorem replaceFragment_overwrites :
    WellFormed published footedImage footedSections ∧
      Named published footedImage [0x61] footedSections.table 0 ∧
      ∃ new, replaceVendorRamdiskFragment published [0x61] footedImage [1, 2, 3] = .ok new ∧
        ¬ ∃ z', FragmentReplaced published footedImage new footedSections z' 0 [1, 2, 3] := by
  have isOk : (replaceVendorRamdiskFragment published [0x61] footedImage [1, 2, 3]).isOk := by
    decide +kernel
  obtain ⟨new, run⟩ := exists_of_isOk isOk
  refine ⟨wellFormed_footedImage, named_footedImage, new, run, fun ⟨z', replaced⟩ => ?_⟩
  obtain ⟨k, p, built, seen, isBuilt, footed⟩ := built_of_ok wellFormed_footedImage run
  obtain rfl : 0 = k := seen.2.2 0 (by decide) named_footedImage
  have fits := fits_of_fragmentReplaced isBuilt footed wellFormed_footedImage (by decide) replaced
    placed_footedImage
  exact absurd (fits.behind hasFooter_footedImage).2 (by decide)

/-- A successful replacement of a fragment: the condition is enough, and needed wherever the footer
is looked for in its place or not found at all. -/
theorem replaceFragment_changes_nothing_else (b : BootImg) (old new : Medium) (z : Sections)
    (name newRamdisk : List Byte) (k : Nat) (image : WellFormed b old z) (less : k < z.entryNum)
    (named : Named b old name z.table k)
    (run : replaceVendorRamdiskFragment b name old newRamdisk = .ok new) :
    (Fits b old z newRamdisk k → ∃ z', FragmentReplaced b old new z z' k newRamdisk) ∧
      (¬ Misplaced b old → (∃ z', FragmentReplaced b old new z z' k newRamdisk) →
      Fits b old z newRamdisk k) := by
  obtain ⟨k', p, built, seen, isBuilt, footed⟩ := built_of_ok image run
  obtain rfl : k = k' := seen.2.2 k less named
  constructor
  · intro fits
    exact ⟨_, fragmentReplaced_of_fits isBuilt footed image less fits⟩
  · rintro placed ⟨z', replaced⟩
    exact fits_of_fragmentReplaced isBuilt footed image less replaced placed

/-- A ramdisk that is smaller by one byte: everything behind it moves, and is as it was. -/
theorem replaceFragment_changes_nothing_else_footedImage :
    ∃ new, replaceVendorRamdiskFragment published [0x61] footedImage [2] = .ok new ∧
      ∃ z', FragmentReplaced published footedImage new footedSections z' 0 [2] := by
  have isOk : (replaceVendorRamdiskFragment published [0x61] footedImage [2]).isOk := by
    decide +kernel
  obtain ⟨new, run⟩ := exists_of_isOk isOk
  have both := replaceFragment_changes_nothing_else published footedImage new footedSections
    [0x61] [2] 0 wellFormed_footedImage (by decide) named_footedImage run
  have fits : Fits published footedImage footedSections [2] 0 :=
    ⟨by decide, by decide, fun _ => by decide, fun absent => absurd hasFooter_footedImage absent,
      fun misplaced => absurd misplaced placed_footedImage⟩
  exact ⟨new, run, both.1 fits⟩

end Aosp.Fastboot
