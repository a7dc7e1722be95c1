import Aosp.Lib.Mirror
import Aosp.Liblp.Accepted
import Aosp.Liblp.MetadataLayout
import Aosp.Liblp.Update

/- The two copies of a slot as a `Mirror.Store`: writes of whole copies simulate writes of
the store, also when they are stopped part of the way. -/
namespace Aosp.Liblp

open Layout (Medium Write)
open Mirror (Side Store)

/-- The part of a table that `ReadMetadata` is asked for. -/
structure Tables where
  partitions : List LpMetadataPartition
  extents : List LpMetadataExtent
  groups : List LpMetadataPartitionGroup
  blockDevices : List LpMetadataBlockDevice
deriving DecidableEq

def LpMetadata.tables (m : LpMetadata) : Tables :=
  ⟨m.partitions, m.extents, m.groups, m.blockDevices⟩

/-- The area of one copy of a slot. -/
def copyId (slot : BitVec 32) : Side → AreaId
  | .primary => .primaryMetadata slot
  | .backup => .backupMetadata slot

/-- What `ParseMetadata` makes of the device from an address on. -/
def copyAt (sha256 : Hash) (geometry : LpMetadataGeometry) (fd : Medium) (address : Nat) :
    Option LpMetadata :=
  (parseMetadata sha256 geometry (fd.readFrom address)).toOption

/-- The copies a device holds for a slot, as far as the reader accepts them. -/
def copyOf (sha256 : Hash) (geometry : LpMetadataGeometry) (fd : Medium) (slot : BitVec 32) :
    Side → Option LpMetadata
  | .primary => readPrimaryMetadata sha256 fd geometry slot
  | .backup => readBackupMetadata sha256 fd geometry slot

/-- A device with room for all copies, at offsets that do not wrap. -/
structure Mounted (geometry : LpMetadataGeometry) (fd : Medium) : Prop where
  fit : SizesFit geometry
  long : 256 ≤ geometry.metadataMaxSize.toNat
  room : 12288 + 2 * (geometry.metadataMaxSize.toNat * geometry.metadataSlotCount.toNat) ≤ fd.size

/-- The table an area holds does not reach beyond it. -/
def ContainedAt (sha256 : Hash) (geometry : LpMetadataGeometry) (fd : Medium) (i : AreaId) : Prop :=
  Contained sha256 (fd.region (row geometry i).start geometry.metadataMaxSize.toNat)

section Copies

variable {sha256 : Hash} {geometry : LpMetadataGeometry} {fd fd' : Medium} {slot : BitVec 32}

theorem toOption_congr {ε α : Type} {x y : Except ε α} (same : ∀ v, x = .ok v ↔ y = .ok v) :
    x.toOption = y.toOption := by
  cases x with
  | ok v => rw [(same v).mp rfl]
  | error e =>
    cases y with
    | error f => rfl
    | ok v => cases (same v).mpr rfl

section

variable (fit : SizesFit geometry) (inRange : slot.toNat < geometry.metadataSlotCount.toNat)

include fit inRange

theorem SizesFit.offset : (∃ offset, getPrimaryMetadataOffset geometry slot = some offset ∧
      seekFile64 offset = some (row geometry (copyId slot .primary)).start) ∧
    ∃ offset, getBackupMetadataOffset geometry slot = some offset ∧
      seekFile64 offset = some (row geometry (copyId slot .backup)).start := by
  obtain ⟨primary, backup, next⟩ := fit.areas inRange
  have total := fit
  unfold SizesFit at total
  simp only [area, Option.map_eq_some_iff] at primary backup
  obtain ⟨first, isFirst, firstAt⟩ := primary
  obtain ⟨second, isSecond, secondAt⟩ := backup
  have firstStart := congrArg Area.start firstAt
  have secondStart := congrArg Area.start secondAt
  dsimp only at firstStart secondStart
  have seek : ∀ offset : BitVec 64, offset.toNat < 2 ^ 63 →
      seekFile64 offset = some offset.toNat := by
    intro offset small
    rw [seekFile64, BitVec.msb_eq_false_iff_two_mul_lt.mpr (by omega)]
    rfl
  refine ⟨⟨first, isFirst, ?_⟩, ⟨second, isSecond, ?_⟩⟩
  · rw [seek first (by omega), firstStart]
    rfl
  · rw [seek second (by omega), secondStart]
    rfl

theorem SizesFit.copyOf_eq (side : Side) :
    copyOf sha256 geometry fd slot side =
      copyAt sha256 geometry fd (row geometry (copyId slot side)).start := by
  obtain ⟨⟨first, isFirst, firstAt⟩, ⟨second, isSecond, secondAt⟩⟩ := fit.offset inRange
  cases side with
  | primary =>
    simp [copyOf, readPrimaryMetadata, readMetadataAt, isFirst, firstAt, copyAt]
  | backup =>
    simp [copyOf, readBackupMetadata, readMetadataAt, isSecond, secondAt, copyAt]

theorem SizesFit.area_copyId (side : Side) :
    area geometry (copyId slot side) = some (row geometry (copyId slot side)) := by
  cases side with
  | primary => exact (fit.areas inRange).1
  | backup => exact (fit.areas inRange).2.1

end

theorem row_copyId_length (side : Side) :
    (row geometry (copyId slot side)).length = geometry.metadataMaxSize.toNat := by
  cases side <;> rfl

variable {side : Side}

theorem Mounted.copyAt_region (mounted : Mounted geometry fd)
    (inRange : slot.toNat < geometry.metadataSlotCount.toNat)
    (contained : ContainedAt sha256 geometry fd (copyId slot side)) :
    copyAt sha256 geometry fd (row geometry (copyId slot side)).start =
      (parseMetadata sha256 geometry (fd.region (row geometry (copyId slot side)).start
        geometry.metadataMaxSize.toNat)).toOption := by
  have stop := mounted.fit.stop_le (mounted.fit.area_copyId inRange side)
  have room := mounted.room
  rw [Area.stop, row_copyId_length] at stop
  apply toOption_congr
  intro metadata
  rw [fd.readFrom_split (stop.trans room)]
  simp [parseMetadata_eq_ok, tablesRead_append (by rw [Medium.region_length]; exact mounted.long)
    contained]

variable {w : Write}

theorem Mounted.differs (mounted : Mounted geometry fd) (differs : fd.DiffersAt w fd') :
    Mounted geometry fd' :=
  ⟨mounted.fit, mounted.long, differs.size ▸ mounted.room⟩

/-- A write that stores a table in one copy of the slot. -/
structure Stores (sha256 : Hash) (geometry : LpMetadataGeometry) (slot : BitVec 32) (w : Write)
    (target : Side × Tables) : Prop where
  address : w.address = (row geometry (copyId slot target.1)).start
  fits : w.bytes.length ≤ geometry.metadataMaxSize.toNat
  bytes : ∃ m, WellFormed m ∧ m.geometry = geometry ∧ w.bytes = serializeMetadata sha256 m ∧
    m.tables = target.2

variable {target : Side × Tables}

theorem Stores.covers (stores : Stores sha256 geometry slot w target) {a : Nat}
    (covered : w.Covers a) :
    (row geometry (copyId slot target.1)).Covers a := by
  obtain ⟨low, high⟩ := covered
  have fits := stores.fits
  have address := stores.address
  unfold Write.stop at high
  refine ⟨by omega, ?_⟩
  rw [Area.stop, row_copyId_length]
  omega

section

variable (mounted : Mounted geometry fd) (inRange : slot.toNat < geometry.metadataSlotCount.toNat)
  (stores : Stores sha256 geometry slot w target) (differs : fd.DiffersAt w fd')

include mounted inRange stores differs

theorem Stores.frame {j : AreaId} {c : Area} (found : area geometry j = some c)
    (other : copyId slot target.1 ≠ j) :
    fd'.region c.start c.length = fd.region c.start c.length := by
  apply differs.region
  intro a low high covered
  exact mounted.fit.disjoint other (mounted.fit.area_copyId inRange _) found a
    ⟨stores.covers covered, low, high⟩

theorem Stores.copyOf_frame {other : BitVec 32}
    (otherInRange : other.toNat < geometry.metadataSlotCount.toNat)
    (different : copyId slot target.1 ≠ copyId other side)
    (contained : ContainedAt sha256 geometry fd (copyId other side)) :
    copyOf sha256 geometry fd' other side = copyOf sha256 geometry fd other side ∧
      ContainedAt sha256 geometry fd' (copyId other side) := by
  have after := mounted.differs differs
  have same := stores.frame mounted inRange differs
    (mounted.fit.area_copyId otherInRange side) different
  rw [row_copyId_length] at same
  have containedAfter : ContainedAt sha256 geometry fd' (copyId other side) := by
    unfold ContainedAt
    rw [same]
    exact contained
  refine ⟨?_, containedAfter⟩
  rw [after.fit.copyOf_eq otherInRange, mounted.fit.copyOf_eq otherInRange,
    after.copyAt_region otherInRange containedAfter,
    mounted.copyAt_region otherInRange contained, same]

end

/-- A table as it is read back: with the header that was stored. -/
def storedMetadata (sha256 : Hash) (m : LpMetadata) : LpMetadata :=
  { m with header := serializedHeader sha256 m }

section

variable (mounted : Mounted geometry fd) (inRange : slot.toNat < geometry.metadataSlotCount.toNat)
include mounted inRange

theorem Mounted.copyOf_blob {m : LpMetadata} (wellFormed : WellFormed m)
    (sameGeometry : m.geometry = geometry)
    (fits : (serializeMetadata sha256 m).length ≤ geometry.metadataMaxSize.toNat)
    (blob : fd.region (row geometry (copyId slot side)).start (serializeMetadata sha256 m).length =
      serializeMetadata sha256 m) :
    copyOf sha256 geometry fd slot side = some (storedMetadata sha256 m) ∧
      ContainedAt sha256 geometry fd (copyId slot side) := by
  subst sameGeometry
  have small : (serializeTables m).length < 2 ^ 32 :=
    lt_of_le_of_lt wellFormed.fits m.geometry.metadataMaxSize.isLt
  obtain ⟨rest, stored⟩ : ∃ rest, fd.region (row m.geometry (copyId slot side)).start
      m.geometry.metadataMaxSize.toNat = serializeMetadata sha256 m ++ rest := by
    obtain ⟨more, sum⟩ := Nat.exists_eq_add_of_le fits
    rw [sum, Medium.region_add, blob]
    exact ⟨_, rfl⟩
  have contained : ContainedAt sha256 m.geometry fd (copyId slot side) := by
    intro header behind read
    rw [stored, readMetadataHeader_serializeMetadata sha256 wellFormed.toStorable small] at read
    cases read
    have total : (serializedHeader sha256 m).tablesSize.toNat = (serializeTables m).length :=
      (placeTables_toNat small).2.2.2
    rw [total, List.length_append]
    exact Nat.le_add_right _ _
  refine ⟨?_, contained⟩
  rw [mounted.fit.copyOf_eq inRange, mounted.copyAt_region inRange contained, stored,
    wellFormed.parse_serialize]
  rfl

theorem Stores.copyOf_write (stores : Stores sha256 geometry slot w target) :
    (copyOf sha256 geometry (fd.write w) slot target.1).map LpMetadata.tables = some target.2 ∧
      ContainedAt sha256 geometry (fd.write w) (copyId slot target.1) := by
  obtain ⟨m, wellFormed, sameGeometry, blob, tables⟩ := stores.bytes
  have after := mounted.differs (fd.write_differsAt w)
  have fits := stores.fits
  have written := fd.region_write w
  rw [stores.address, blob] at written
  rw [blob] at fits
  obtain ⟨copy, contained⟩ := after.copyOf_blob inRange wellFormed sameGeometry fits written
  refine ⟨?_, contained⟩
  rw [copy, ← tables]
  rfl

end

/-- The readable tables of the two copies of a slot. -/
def view (sha256 : Hash) (geometry : LpMetadataGeometry) (fd : Medium) (slot : BitVec 32) :
    Store Tables where
  primary := (copyOf sha256 geometry fd slot .primary).map LpMetadata.tables
  backup := (copyOf sha256 geometry fd slot .backup).map LpMetadata.tables

/-- A torn write leaves bytes that `ParseMetadata` rejects. -/
def Rejected (sha256 : Hash) (geometry : LpMetadataGeometry) (fd : Medium) (w : Write) : Prop :=
  copyAt sha256 geometry fd w.address = none

def other : Side → Side
  | .primary => .backup
  | .backup => .primary

theorem view_set {value : Option Tables}
    (written : (copyOf sha256 geometry fd' slot side).map LpMetadata.tables = value)
    (kept : copyOf sha256 geometry fd' slot (other side) =
      copyOf sha256 geometry fd slot (other side)) :
    view sha256 geometry fd' slot = (view sha256 geometry fd slot).set side value := by
  subst written
  cases side with
  | primary =>
    change copyOf sha256 geometry fd' slot .backup = _ at kept
    simp only [view, kept]
    rfl
  | backup =>
    change copyOf sha256 geometry fd' slot .primary = _ at kept
    simp only [view, kept]
    rfl

theorem copyId_ne_other (side : Side) : copyId slot side ≠ copyId slot (other side) := by
  cases side <;> simp [copyId, other]

theorem Stores.view_write (mounted : Mounted geometry fd)
    (inRange : slot.toNat < geometry.metadataSlotCount.toNat)
    (contained : ∀ side, ContainedAt sha256 geometry fd (copyId slot side))
    (stores : Stores sha256 geometry slot w target) :
    view sha256 geometry (fd.write w) slot =
        (view sha256 geometry fd slot).set target.1 (some target.2) ∧
      ∀ side, ContainedAt sha256 geometry (fd.write w) (copyId slot side) := by
  obtain ⟨written, containedHere⟩ := stores.copyOf_write mounted inRange
  obtain ⟨kept, containedOther⟩ := stores.copyOf_frame mounted inRange (fd.write_differsAt w)
    inRange (copyId_ne_other target.1) (contained _)
  refine ⟨view_set written kept, fun side => ?_⟩
  obtain ⟨here, _⟩ := target
  cases here <;> cases side <;> first | exact containedHere | exact containedOther

variable {writes : List Write} {targets : List (Side × Tables)}

section

variable (mounted : Mounted geometry fd) (inRange : slot.toNat < geometry.metadataSlotCount.toNat)
  (contained : ∀ side, ContainedAt sha256 geometry fd (copyId slot side))
  (stores : List.Forall₂ (Stores sha256 geometry slot) writes targets)

include mounted inRange contained stores

/-- Region writes that store tables simulate writes of the store, wherever they stop. -/
theorem interrupted_view (stopped : Medium.Interrupted (Rejected sha256 geometry) fd writes fd') :
    (view sha256 geometry fd slot).Interrupted targets (view sha256 geometry fd' slot) := by
  induction stopped generalizing targets with
  | rest => exact .rest _ _
  | @torn m n w later differs rejected =>
    cases stores with
    | @cons _ target _ targets first _ =>
      have kept := (first.copyOf_frame mounted inRange differs inRange
        (copyId_ne_other target.1) (contained _)).1
      have lost : (copyOf sha256 geometry n slot target.1).map LpMetadata.tables = none := by
        rw [(mounted.differs differs).fit.copyOf_eq inRange, ← first.address, rejected]
        rfl
      rw [view_set lost kept]
      exact .torn _ target.1 target.2 targets
  | @next m n w later inside stopped ih =>
    cases stores with
    | @cons _ target _ targets first rest =>
      obtain ⟨written, containedAfter⟩ := first.view_write mounted inRange contained
      have behind := ih (mounted.differs (m.write_differsAt w)) containedAfter rest
      rw [written] at behind
      exact .next behind

theorem view_writeAll :
    view sha256 geometry (fd.writeAll writes) slot =
      (view sha256 geometry fd slot).setAll targets := by
  induction stores generalizing fd with
  | nil => rfl
  | @cons w target _ _ first _ ih =>
    obtain ⟨written, containedAfter⟩ := first.view_write mounted inRange contained
    have behind := ih (mounted.differs (fd.write_differsAt w)) containedAfter
    rw [written] at behind
    exact behind

end

end Copies

section SameGeometry

variable {sha256 : Hash} {geometry other : LpMetadataGeometry} {fd : Medium}

/-- Only the copy size and the slot count decide where copies are and what is accepted. -/
structure SameLayout (geometry other : LpMetadataGeometry) : Prop where
  maxSize : other.metadataMaxSize = geometry.metadataMaxSize
  slotCount : other.metadataSlotCount = geometry.metadataSlotCount

section

variable (same : SameLayout geometry other)

include same

theorem SameLayout.symm : SameLayout other geometry :=
  ⟨same.maxSize.symm, same.slotCount.symm⟩

theorem SameLayout.row_eq (i : AreaId) : row other i = row geometry i := by
  cases i <;> simp only [row, same.maxSize, same.slotCount]

theorem SameLayout.copyAt_eq (address : Nat) :
    copyAt sha256 other fd address = (copyAt sha256 geometry fd address).map fun m =>
      { m with geometry := other } := by
  unfold copyAt
  cases here : parseMetadata sha256 geometry (fd.readFrom address) with
  | ok m =>
    rw [parseMetadata_geometry same.maxSize same.slotCount here]
    rfl
  | error failure =>
    cases there : parseMetadata sha256 other (fd.readFrom address) with
    | error _ => rfl
    | ok m =>
      rw [parseMetadata_geometry same.symm.maxSize same.symm.slotCount there] at here
      cases here

theorem SameLayout.readMetadataAt_eq (offset : Option (BitVec 64)) :
    readMetadataAt sha256 fd other offset =
      (readMetadataAt sha256 fd geometry offset).map fun m => { m with geometry := other } := by
  unfold readMetadataAt
  cases offset with
  | none => rfl
  | some offset =>
    simp only [Option.bind_eq_bind, Option.bind_some]
    cases seekFile64 offset with
    | none => rfl
    | some address => exact same.copyAt_eq address

theorem SameLayout.copyOf_eq (slot : BitVec 32) (side : Side) :
    copyOf sha256 other fd slot side =
      (copyOf sha256 geometry fd slot side).map fun m => { m with geometry := other } := by
  cases side with
  | primary =>
    have offset : getPrimaryMetadataOffset other slot = getPrimaryMetadataOffset geometry slot := by
      simp [getPrimaryMetadataOffset, same.maxSize, same.slotCount]
    simp [copyOf, readPrimaryMetadata, offset, same.readMetadataAt_eq]
  | backup =>
    have offset : getBackupMetadataOffset other slot = getBackupMetadataOffset geometry slot := by
      simp [getBackupMetadataOffset, same.maxSize, same.slotCount]
    simp [copyOf, readBackupMetadata, offset, same.readMetadataAt_eq]

theorem SameLayout.view_eq (slot : BitVec 32) :
    view sha256 other fd slot = view sha256 geometry fd slot := by
  simp only [view, same.copyOf_eq, Option.map_map]
  rfl

end

end SameGeometry

end Aosp.Liblp
