import Aosp.Lib.Fallible
import Aosp.Lib.Medium

/- `vendor_boot_img_utils.cpp`: a vendor_boot image with a new ramdisk. The layouts of `bootimg.h`
and `libavb.h`, which are not part of this repository, are a parameter. -/
namespace Aosp.Fastboot

open Layout Fallible

/-- Where the structures have their fields, all of 32 bits. -/
structure BootImg where
  hdrV3Size : Nat
  hdrV4Size : Nat
  magic : List Byte
  magicAt : Nat
  headerVersionAt : Nat
  pageSizeAt : Nat
  vendorRamdiskSizeAt : Nat
  dtbSizeAt : Nat
  tableSizeAt : Nat
  tableEntryNumAt : Nat
  tableEntrySizeAt : Nat
  bootconfigSizeAt : Nat
  entrySize : Nat
  ramdiskSizeAt : Nat
  ramdiskOffsetAt : Nat
  ramdiskTypeAt : Nat
  ramdiskNameAt : Nat
  nameSize : Nat
  boardIdAt : Nat
  /-- The count of words, which the source passes to `memset` as bytes. -/
  boardIdSize : Nat
  typeNone : Nat
  footerSize : Nat
  footerMagic : List Byte
  v3_v4 : hdrV3Size ≤ hdrV4Size
  v4_u32 : hdrV4Size < 2 ^ 32
  magic_inside : magicAt + magic.length ≤ hdrV3Size
  v3_inside : ∀ f ∈ [headerVersionAt, pageSizeAt, vendorRamdiskSizeAt, dtbSizeAt], f + 4 ≤ hdrV3Size
  v4_inside : ∀ f ∈ [tableSizeAt, tableEntryNumAt, tableEntrySizeAt, bootconfigSizeAt],
    hdrV3Size ≤ f ∧ f + 4 ≤ hdrV4Size
  apart : ∀ f ∈ [headerVersionAt, pageSizeAt, dtbSizeAt], f + 4 ≤ vendorRamdiskSizeAt ∨
    vendorRamdiskSizeAt + 4 ≤ f
  magic_apart : magicAt + magic.length ≤ vendorRamdiskSizeAt ∨ vendorRamdiskSizeAt + 4 ≤ magicAt
  entry_inside : ∀ f ∈ [ramdiskSizeAt, ramdiskOffsetAt, ramdiskTypeAt], f + 4 ≤ entrySize
  entry_apart : ramdiskSizeAt + 4 ≤ ramdiskOffsetAt ∨ ramdiskOffsetAt + 4 ≤ ramdiskSizeAt
  name_inside : ramdiskNameAt + nameSize ≤ entrySize
  name_positive : nameSize ≠ 0
  size_first : ramdiskSizeAt + 4 ≤ ramdiskNameAt
  board_inside : boardIdAt + boardIdSize ≤ entrySize
  entry_u32 : entrySize < 2 ^ 32
  footer_inside : footerMagic.length ≤ footerSize
  footer_u32 : footerSize < 2 ^ 32
  footer_nonzero : footerMagic ≠ List.replicate footerMagic.length 0

/-- The layouts as they are published. -/
def published : BootImg where
  hdrV3Size := 2112
  hdrV4Size := 2128
  magic := [0x56, 0x4e, 0x44, 0x52, 0x42, 0x4f, 0x4f, 0x54]
  magicAt := 0
  headerVersionAt := 8
  pageSizeAt := 12
  vendorRamdiskSizeAt := 24
  dtbSizeAt := 2100
  tableSizeAt := 2112
  tableEntryNumAt := 2116
  tableEntrySizeAt := 2120
  bootconfigSizeAt := 2124
  entrySize := 108
  ramdiskSizeAt := 0
  ramdiskOffsetAt := 4
  ramdiskTypeAt := 8
  ramdiskNameAt := 12
  nameSize := 32
  boardIdAt := 44
  boardIdSize := 16
  typeNone := 0
  footerSize := 64
  footerMagic := [0x41, 0x56, 0x42, 0x66]
  v3_v4 := by decide
  v4_u32 := by decide
  magic_inside := by decide
  v3_inside := by decide
  v4_inside := by decide
  apart := by decide
  magic_apart := by decide
  entry_inside := by decide
  entry_apart := by decide
  name_inside := by decide
  name_positive := by decide
  size_first := by decide
  board_inside := by decide
  entry_u32 := by decide
  footer_inside := by decide
  footer_u32 := by decide
  footer_nonzero := by decide

/-- What the calls of `Errorf` report. -/
inductive BootError where
  | boundary (op : String) (current numBytes : Nat)
  | cannotSeek (offset : Nat)
  | oldOffsetMismatch (expected actual : Nat)
  | newOffsetMismatch (expected actual : Nat)
  | unrecognizedVersion (version : Nat)
  | smallerThanV3 (size : Nat)
  | smallerThanHeader (size version : Nat)
  | magicMismatch
  | zeroPageSize
  | requireVersion (version found : Nat)
  | multipleRamdisks (name : List Byte)
  | ramdiskNotFound (name : List Byte)
  | imageTooSmall
  | tooManyEntries
deriving DecidableEq

/-- Why a function does not return a new image. -/
inductive Fault where
  | error (e : BootError)
  /-- A read or a write that is not inside its buffer. -/
  | outOfBounds
  /-- A division by zero. -/
  | division
deriving DecidableEq

/-- `uint32_t` arithmetic. -/
def u32 (n : Nat) : Nat := n % 2 ^ 32

def sub32 (a b : Nat) : Nat := (a + 2 ^ 32 - b) % 2 ^ 32

def roundUp (value pageSize : Nat) : Except Fault Nat :=
  if pageSize = 0 then .error .division else .ok (u32 (value + pageSize - 1) / pageSize * pageSize)

/-- A `uint32_t` behind a pointer into a buffer of `size` bytes. -/
def word (m : Medium) (address : Nat) : Except Fault Nat :=
  if address + 4 ≤ m.size then .ok (leValue (m.region address 4)) else .error .outOfBounds

/-- `memcmp` with a constant. -/
def holds (m : Medium) (address : Nat) (bytes : List Byte) : Except Fault Bool :=
  if address + bytes.length ≤ m.size then .ok (decide (m.region address bytes.length = bytes))
  else .error .outOfBounds

/-- A write through a pointer. -/
def poke (m : Medium) (address : Nat) (bytes : List Byte) : Except Fault Medium :=
  if address + bytes.length ≤ m.size then .ok (m.write ⟨address, bytes⟩) else .error .outOfBounds

/-- The new buffer and the two cursors. -/
structure DataUpdater where
  newData : Medium
  oldPos : Nat
  newPos : Nat

namespace DataUpdater

variable (old : Medium)

def start : DataUpdater := ⟨⟨old.size, fun _ => 0⟩, 0, 0⟩

/-- `CheckAdvance`. -/
def checkAdvance (op : String) (current numBytes : Nat) : Except Fault Unit :=
  if current + numBytes > old.size then .error (.error (.boundary op current numBytes)) else .ok ()

variable (u : DataUpdater)

def copy (numBytes : Nat) : Except Fault DataUpdater :=
  if numBytes = 0 then .ok u
  else do
    checkAdvance old "Copy" u.oldPos numBytes
    checkAdvance old "Copy" u.newPos numBytes
    .ok ⟨u.newData.write ⟨u.newPos, old.region u.oldPos numBytes⟩, u.oldPos + numBytes,
      u.newPos + numBytes⟩

def replace (oldNumBytes : Nat) (newData : List Byte) : Except Fault DataUpdater := do
  let newDataSize := u32 newData.length
  checkAdvance old "Replace" u.oldPos oldNumBytes
  let u := { u with oldPos := u.oldPos + oldNumBytes }
  if newDataSize = 0 then .ok u
  else
    checkAdvance old "Replace" u.newPos newDataSize
    .ok { u with newData := u.newData.write ⟨u.newPos, newData.take newDataSize⟩, newPos :=
      u.newPos + newDataSize }

def skip (oldSkip newSkip : Nat) : Except Fault DataUpdater := do
  checkAdvance old "Skip" u.oldPos oldSkip
  checkAdvance old "Skip" u.newPos newSkip
  .ok { u with oldPos := u.oldPos + oldSkip, newPos := u.newPos + newSkip }

def seek (offset : Nat) : Except Fault DataUpdater :=
  if offset > old.size then .error (.error (.cannotSeek offset))
  else .ok { u with oldPos := offset, newPos := offset }

def checkOffset (oldOffset newOffset : Nat) : Except Fault Unit :=
  if oldOffset ≠ u.oldPos then .error (.error (.oldOffsetMismatch oldOffset u.oldPos))
  else if newOffset ≠ u.newPos then .error (.error (.newOffsetMismatch newOffset u.newPos))
  else .ok ()

end DataUpdater

section Replace

variable (b : BootImg)

def getVendorBootHeaderSize (m : Medium) : Except Fault Nat := do
  let version ← word m b.headerVersionAt
  if version = 3 then .ok b.hdrV3Size
  else if version = 4 then .ok b.hdrV4Size
  else .error (.error (.unrecognizedVersion version))

def checkVendorBootHdr (content : Medium) (version : Nat) : Except Fault Unit := do
  demand (.error (.smallerThanV3 content.size)) (b.hdrV3Size ≤ content.size)
  let expectHeaderSize ← getVendorBootHeaderSize b content
  demand (.error (.smallerThanHeader content.size version)) (expectHeaderSize ≤ content.size)
  demand (.error .magicMismatch) (← holds content b.magicAt b.magic)
  demand (.error .zeroPageSize) ((← word content b.pageSizeAt) ≠ 0)
  let found ← word content b.headerVersionAt
  demand (.error (.requireVersion version found)) (version ≤ found)

def copyAvbFooter (old : Medium) (u : DataUpdater) : Except Fault DataUpdater := do
  if old.size < b.footerSize then .ok u
  else
    let u ← u.seek old (u32 (old.size - b.footerSize))
    if !(← holds old u.oldPos b.footerMagic) then .ok u
    else u.copy old b.footerSize

variable (vendorBoot : Medium) (newRamdisk : List Byte) (u : DataUpdater)

/-- A member of the new header is set. -/
def setField (address value : Nat) : Except Fault DataUpdater := do
  .ok { u with newData := ← poke u.newData address (leBytes 4 value) }

/-- The table of the new header has a single entry. -/
def resetTable : Except Fault DataUpdater := do
  let u ← setField u b.tableEntrySizeAt b.entrySize
  let u ← setField u b.tableEntryNumAt 1
  setField u b.tableSizeAt (u32 ((← word u.newData b.tableEntryNumAt) *
    (← word u.newData b.tableEntrySizeAt)))

/-- A block of the source for headers of version 4. -/
def fromV4 (version : Nat) (u : DataUpdater) (block : Except Fault DataUpdater) :
    Except Fault DataUpdater :=
  if version ≥ 4 then block else .ok u

/-- What `replace_default_vendor_ramdisk` has when the dtb has been copied. -/
structure Front where
  u : DataUpdater
  pageSize : Nat
  o : Nat
  p : Nat
  q : Nat
  newP : Nat

/-- `replace_default_vendor_ramdisk` up to the dtb. Members of the new header are read where the
source reads them: if the header has not been copied, the ramdisk has been written over it. -/
def replaceFront : Except Fault Front := do
  checkVendorBootHdr b vendorBoot 3
  let hdrSize ← getVendorBootHeaderSize b vendorBoot
  let pageSize ← word vendorBoot b.pageSizeAt
  let ramdiskSize ← word vendorBoot b.vendorRamdiskSizeAt
  let o ← roundUp hdrSize pageSize
  let p ← roundUp ramdiskSize pageSize
  let q ← roundUp (← word vendorBoot b.dtbSizeAt) pageSize
  let u ← (DataUpdater.start vendorBoot).copy vendorBoot o
  let u ← setField u b.vendorRamdiskSizeAt (u32 newRamdisk.length)
  let u ← fromV4 (← word u.newData b.headerVersionAt) u (resetTable b u)
  let u ← u.replace vendorBoot ramdiskSize newRamdisk
  let newSize ← word u.newData b.vendorRamdiskSizeAt
  let newP ← roundUp newSize (← word u.newData b.pageSizeAt)
  let u ← u.skip vendorBoot (sub32 p ramdiskSize) (sub32 newP newSize)
  u.checkOffset (u32 (o + p)) (u32 (o + newP))
  let u ← u.copy vendorBoot q
  .ok ⟨u, pageSize, o, p, q, newP⟩

/-- The table is skipped. With the cursors go the size of the bootconfig and the place of the new
table. -/
def skipTable (z : Front) : Except Fault (DataUpdater × Nat × Nat) := do
  let r ← roundUp (← word vendorBoot b.tableSizeAt) z.pageSize
  let s ← roundUp (← word vendorBoot b.bootconfigSizeAt) z.pageSize
  let newEntry := z.u.newPos
  let newR ← roundUp (← word z.u.newData b.tableSizeAt) (← word z.u.newData b.pageSizeAt)
  let u ← z.u.skip vendorBoot r newR
  u.checkOffset (u32 (z.o + z.p + z.q + r)) (u32 (z.o + z.newP + z.q + newR))
  .ok (u, s, newEntry)

/-- The single entry of the new table. -/
def writeEntry (newEntry : Nat) : Except Fault DataUpdater := do
  let u ← setField u (newEntry + b.ramdiskSizeAt) (← word u.newData b.vendorRamdiskSizeAt)
  let u ← setField u (newEntry + b.ramdiskOffsetAt) 0
  let u ← setField u (newEntry + b.ramdiskTypeAt) b.typeNone
  let data ← poke u.newData (newEntry + b.ramdiskNameAt) (List.replicate b.nameSize 0)
  let data ← poke data (newEntry + b.boardIdAt) (List.replicate b.boardIdSize 0)
  .ok { u with newData := data }

/-- The new table and the bootconfig. -/
def replaceTable (z : Front) : Except Fault DataUpdater := do
  let (u, s, newEntry) ← skipTable b vendorBoot z
  let u ← writeEntry b u newEntry
  u.copy vendorBoot s

/-- `replace_default_vendor_ramdisk`. -/
def replaceDefaultVendorRamdisk : Except Fault Medium := do
  let z ← replaceFront b vendorBoot newRamdisk
  let u ← fromV4 (← word z.u.newData b.headerVersionAt) z.u (replaceTable b vendorBoot z)
  let u ← copyAvbFooter b vendorBoot u
  .ok u.newData

/-- The string at an address, of at most `n` bytes. -/
def strnlen (m : Medium) : Nat → Nat → Except Fault (List Byte)
  | 0, _ => .ok []
  | n + 1, address =>
    if address < m.size then
      if m.byte address = 0 then .ok []
      else do
        let rest ← strnlen m n (address + 1)
        .ok (m.byte address :: rest)
    else .error .outOfBounds

/-- The loop of `find_unique_ramdisk` over the last `count` of the entries. -/
def findFrom (m : Medium) (name : List Byte) (table : Nat) (ret : Option Nat) (idx : Nat) :
    Nat → Except Fault (Option Nat)
  | 0 => .ok ret
  | count + 1 => do
      let entryName ← strnlen m b.nameSize (table + idx * b.entrySize + b.ramdiskNameAt)
      if entryName = name then
        if ret.isSome then .error (.error (.multipleRamdisks name))
        else findFrom m name table (some idx) (idx + 1) count
      else findFrom m name table ret (idx + 1) count

def findUniqueRamdisk (m : Medium) (name : List Byte) (table size : Nat) : Except Fault Nat := do
  match ← findFrom b m name table none 0 size with
  | none => .error (.error (.ramdiskNotFound name))
  | some idx => .ok idx

/-- The loop that copies the fragments, with the total of their sizes. -/
def copyFragments (old : Medium) (newRamdisk : List Byte) (table replaceIdx : Nat) (idx : Nat) :
    Nat → DataUpdater × Nat → Except Fault (DataUpdater × Nat)
  | 0, done => .ok done
  | count + 1, (u, total) => do
      let size ← word old (table + idx * b.entrySize + b.ramdiskSizeAt)
      if idx = replaceIdx then
        let u ← u.replace old size newRamdisk
        copyFragments old newRamdisk table replaceIdx (idx + 1) count
          (u, u32 (total + newRamdisk.length))
      else
        let u ← u.copy old size
        copyFragments old newRamdisk table replaceIdx (idx + 1) count (u, u32 (total + size))

/-- The size of the entry that is replaced. -/
def patchSize (replaceIdx idx newEntry : Nat) (u : DataUpdater) : Except Fault DataUpdater :=
  if idx = replaceIdx then setField u (newEntry + b.ramdiskSizeAt) (u32 newRamdisk.length)
    else .ok u

/-- An entry of the new table gets its offset, and its size if it is the one that is replaced. With
the buffer goes the size in the entry. -/
def patchEntry (replaceIdx idx newEntry total : Nat) (u : DataUpdater) :
    Except Fault (DataUpdater × Nat) := do
  let u ← setField u (newEntry + b.ramdiskOffsetAt) total
  let u ← patchSize b newRamdisk replaceIdx idx newEntry u
  let size ← word u.newData (newEntry + b.ramdiskSizeAt)
  .ok (u, size)

/-- The loop that copies the table and patches its entries. -/
def copyTable (old : Medium) (newRamdisk : List Byte) (entrySize replaceIdx : Nat) (idx : Nat) :
    Nat → DataUpdater × Nat → Except Fault DataUpdater
  | 0, (u, _) => .ok u
  | count + 1, (u, total) => do
      let newEntry := u.newPos
      let u ← u.copy old entrySize
      let (u, size) ← patchEntry b newRamdisk replaceIdx idx newEntry total u
      copyTable old newRamdisk entrySize replaceIdx (idx + 1) count (u, u32 (total + size))

/-- The members of the header, and the sizes of the sections in whole pages. -/
structure Sections where
  pageSize : Nat
  ramdiskSize : Nat
  entryNum : Nat
  entrySize : Nat
  o : Nat
  p : Nat
  q : Nat
  r : Nat
  s : Nat

def Sections.table (z : Sections) : Nat := z.o + z.p + z.q

/-- `replace_vendor_ramdisk_fragment` up to the checks of the sizes. -/
def sections : Except Fault Sections := do
  checkVendorBootHdr b vendorBoot 4
  let hdrSize ← getVendorBootHeaderSize b vendorBoot
  let pageSize ← word vendorBoot b.pageSizeAt
  let ramdiskSize ← word vendorBoot b.vendorRamdiskSizeAt
  let o ← roundUp hdrSize pageSize
  let p ← roundUp ramdiskSize pageSize
  let q ← roundUp (← word vendorBoot b.dtbSizeAt) pageSize
  let r ← roundUp (← word vendorBoot b.tableSizeAt) pageSize
  let s ← roundUp (← word vendorBoot b.bootconfigSizeAt) pageSize
  demand (.error .imageTooSmall) (o + p + q + r + s ≤ vendorBoot.size)
  let entryNum ← word vendorBoot b.tableEntryNumAt
  demand (.error .tooManyEntries) (entryNum * b.entrySize ≤ o + p + q + r)
  let entrySize ← word vendorBoot b.tableEntrySizeAt
  .ok ⟨pageSize, ramdiskSize, entryNum, entrySize, o, p, q, r, s⟩

/-- The header, the fragments and the dtb of the new image; with them the new size of the ramdisk
section. -/
def rebuild (old : Medium) (z : Sections) (newRamdisk : List Byte) (replaceIdx : Nat) :
    Except Fault (DataUpdater × Nat) := do
  let u ← (DataUpdater.start old).copy old z.o
  let (u, total) ← copyFragments b old newRamdisk z.table replaceIdx 0 z.entryNum (u, 0)
  let u ← setField u b.vendorRamdiskSizeAt total
  let newSize ← word u.newData b.vendorRamdiskSizeAt
  let newP ← roundUp newSize (← word u.newData b.pageSizeAt)
  let u ← u.skip old (sub32 z.p z.ramdiskSize) (sub32 newP newSize)
  u.checkOffset (u32 (z.o + z.p)) (u32 (z.o + newP))
  let u ← u.copy old z.q
  .ok (u, newP)

/-- What follows the table. -/
def finishImage (old : Medium) (z : Sections) (newP : Nat) (u : DataUpdater) :
    Except Fault Medium := do
  let u ← u.copy old (sub32 z.r (u32 (z.entryNum * z.entrySize)))
  u.checkOffset (u32 (z.o + z.p + z.q + z.r)) (u32 (z.o + newP + z.q + z.r))
  let u ← u.copy old z.s
  let u ← copyAvbFooter b old u
  .ok u.newData

/-- `replace_vendor_ramdisk_fragment`. -/
def replaceVendorRamdiskFragment (ramdiskName : List Byte) (vendorBoot : Medium)
    (newRamdisk : List Byte) :
    Except Fault Medium := do
  let z ← sections b vendorBoot
  let replaceIdx ← findUniqueRamdisk b vendorBoot ramdiskName z.table z.entryNum
  let (u, newP) ← rebuild b vendorBoot z newRamdisk replaceIdx
  let u ← copyTable b vendorBoot newRamdisk z.entrySize replaceIdx 0 z.entryNum (u, 0)
  finishImage b vendorBoot z newP u

end Replace

end Aosp.Fastboot
