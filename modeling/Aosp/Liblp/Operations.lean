import Aosp.Liblp.Export

/- Import of a table, and the public operations of `MetadataBuilder` as one step function. -/
namespace Aosp.Liblp

open Fallible List

namespace MetadataBuilder

variable (metadata : LpMetadata)

/-- The builder `Init(LpMetadata)` starts from. -/
def importStart : MetadataBuilder :=
  { empty with geometry := metadata.geometry, blockDevices := metadata.blockDevices }

variable (b : MetadataBuilder)

/-- One round of the group loop of `Init(LpMetadata)`. -/
def importGroup (group : LpMetadataPartitionGroup) : Option MetadataBuilder :=
  let (b, added) := b.addGroup (getPartitionGroupName group) group.maximumSize
  if added then some b else none

/-- `Init(LpMetadata)` up to its groups. -/
def importGroups : Option MetadataBuilder :=
  let b := importStart metadata
  let b :=
    if versionForExpandedHeader ≤ metadata.header.minorVersion then
      let b := b.requireExpandedMetadataHeader
      { b with header := { b.header with flags := metadata.header.flags } }
    else b
  metadata.groups.foldlM importGroup b

/-- The partition loop of `Init(LpMetadata)`; the inner `none` is `false`. -/
def importAll (metadata : LpMetadata) :
    List LpMetadataPartition → MetadataBuilder → Except Fault (Option MetadataBuilder)
  | [], b => .ok (some b)
  | source :: rest, b => do
      let group ← index .outOfRange metadata.groups source.groupIndex.toNat
      let (b, added) := b.addPartition (getPartitionName source) (getPartitionGroupName group)
        source.attributes
      if !added then .ok none
      else do
        let (b, _) ← b.withPartition (getPartitionName source) fun partition => do
          .ok (← importExtents metadata source partition, true)
        importAll metadata rest b

/-- `New(metadata)` without an opener. -/
def newFromMetadata : Except Fault (Option MetadataBuilder) :=
  match importGroups metadata with
  | none => .ok none
  | some b => importAll metadata metadata.partitions b

def findBlockDeviceByName (partitionName : Name) : Option (BitVec 32) :=
  (b.blockDevices.findIdx? fun device =>
    Liblp.getBlockDevicePartitionName device = partitionName).map (BitVec.ofNat 32)

/-- The device with the run-time alignment in place of the stored one, where there is any. -/
def applyDeviceInfo (device : LpMetadataBlockDevice) (info : BlockDeviceInfo) :
    LpMetadataBlockDevice :=
  { device with
    alignment := if info.alignment ≠ 0 then info.alignment else device.alignment
    alignmentOffset := if info.alignmentOffset ≠ 0 then info.alignmentOffset
      else device.alignmentOffset }

/-- `UpdateBlockDeviceInfo(size_t, …)`. -/
def updateBlockDeviceAt (i : Nat) (info : BlockDeviceInfo) :
    Except Fault (MetadataBuilder × Bool) := do
  let device ← index .checkFailed b.blockDevices i
  if info.size ≠ device.size then .ok (b, false)
  else do
    demand .divisionByZero (info.logicalBlockSize ≠ 0)
    if b.geometry.logicalBlockSize % info.logicalBlockSize ≠ 0 then .ok (b, false)
    else .ok ({ b with blockDevices := b.blockDevices.set i (applyDeviceInfo device info) }, true)

def updateBlockDeviceInfo (partitionName : Name)
    (info : BlockDeviceInfo) : Except Fault (MetadataBuilder × Bool) :=
  match b.findBlockDeviceByName partitionName with
  | none => .ok (b, false)
  | some i => b.updateBlockDeviceAt i.toNat info

/-- The device loop of `New(metadata, opener)`; the result of each update is ignored. -/
def refreshDevices (getInfo : Name → Option BlockDeviceInfo) (b : MetadataBuilder) :
    Except Fault MetadataBuilder :=
  (List.range b.blockDevices.length).foldlM (fun b i =>
    match getInfo (b.getBlockDevicePartitionName i) with
    | none => .ok b
    | some info => do
        let (b, _) ← b.updateBlockDeviceAt i info
        .ok b) b

/-- `New(metadata, opener)`, for an opener whose `GetInfo` is `getInfo`. -/
def newWithOpener (getInfo : Name → Option BlockDeviceInfo) :
    Except Fault (Option MetadataBuilder) := do
  match ← newFromMetadata metadata with
  | none => .ok none
  | some b => do
      let b ← b.refreshDevices getInfo
      .ok (some b)

def addLinearExtent (name blockDevice : Name)
    (numSectors physicalSector : BitVec 64) : Except Fault (MetadataBuilder × Bool) :=
  b.withPartition name fun partition =>
    match b.findBlockDeviceByName blockDevice with
    | none => .ok (partition, false)
    | some deviceIndex =>
      .ok (partition.addExtent (.linear ⟨numSectors, deviceIndex, physicalSector⟩), true)

def changePartitionGroup (name groupName : Name) : Except Fault (MetadataBuilder × Bool) :=
  b.withPartition name fun partition =>
    if (b.findGroup groupName).isNone then .ok (partition, false)
    else .ok ({ partition with groupName := groupName }, true)

def setMaximumSize (groupName : Name) (maximumSize : BitVec 64) :
    List PartitionGroup → List PartitionGroup
  | [] => []
  | group :: rest =>
    if group.name = groupName then { group with maximumSize := maximumSize } :: rest
    else group :: setMaximumSize groupName maximumSize rest

def changeGroupSize (groupName : Name) (maximumSize : BitVec 64) : MetadataBuilder × Bool :=
  if groupName = defaultGroup then (b, false)
  else if (b.findGroup groupName).isNone then (b, false)
  else ({ b with groups := setMaximumSize groupName maximumSize b.groups }, true)

/-- Partitions are removed by the names collected first, then the group. -/
def removeGroupAndPartitions (groupName : Name) : MetadataBuilder :=
  if groupName = defaultGroup then b
  else
    let names := (b.partitions.filter fun partition => partition.groupName = groupName).map
      Partition.name
    let b := names.foldl removePartition b
    { b with groups := b.groups.eraseP fun group => group.name = groupName }

def compareBlockDevices (first second : LpMetadataBlockDevice) : Bool :=
  first.firstLogicalSector = second.firstLogicalSector ∧ first.size = second.size ∧
    Liblp.getBlockDevicePartitionName first = Liblp.getBlockDevicePartitionName second

/-- `ImportPartition` after the partition exists: fill it if it is empty, and undo that when
its group has no room. -/
def fillPartition (metadata : LpMetadata) (source : LpMetadataPartition)
    (partition : Partition) : Except Fault (MetadataBuilder × Bool) :=
  if 0 < partition.size then .ok (b, false)
  else do
    let filled ← importExtents metadata source partition
    let (imported, _) ← b.withPartition partition.name fun _ => .ok (filled, true)
    let allowed ← imported.validatePartitionSizeChange filled filled.size filled.size true
    if allowed then .ok (imported, true)
    else imported.withPartition partition.name fun p => .ok (p.removeExtents, false)

def importPartition (metadata : LpMetadata)
    (source : LpMetadataPartition) : Except Fault (MetadataBuilder × Bool) :=
  let partitionName := getPartitionName source
  match b.findPartition partitionName with
  | some partition => b.fillPartition metadata source partition
  | none => do
      let group ← index .outOfRange metadata.groups source.groupIndex.toNat
      let groupName := getPartitionGroupName group
      let (b, added) := b.addPartition partitionName groupName source.attributes
      if added then
        b.fillPartition metadata source (Partition.new partitionName groupName source.attributes)
      else .ok (b, false)

/-- The partition loop of `ImportPartitions`: it stops at the first failure and keeps what
was imported before. -/
def importNamed (metadata : LpMetadata) (partitionNames : List Name) :
    List LpMetadataPartition → MetadataBuilder → Except Fault (MetadataBuilder × Bool)
  | [], b => .ok (b, true)
  | source :: rest, b =>
    if getPartitionName source ∈ partitionNames then do
      let (b, imported) ← b.importPartition metadata source
      if imported then importNamed metadata partitionNames rest b else .ok (b, false)
    else importNamed metadata partitionNames rest b

def importPartitions (metadata : LpMetadata) (partitionNames : List Name) :
    Except Fault (MetadataBuilder × Bool) :=
  if metadata.blockDevices.length ≠ b.blockDevices.length then .ok (b, false)
  else if (metadata.blockDevices.zip b.blockDevices).any fun (old, new) =>
      !compareBlockDevices old new then .ok (b, false)
  else importNamed metadata partitionNames metadata.partitions b

end MetadataBuilder

/-- The calls that change a builder, with the arguments each takes. A partition argument
is a handle, so it names a partition of the builder. -/
inductive Op where
  | addGroup (groupName : Name) (maximumSize : BitVec 64)
  | addPartition (name groupName : Name) (attributes : BitVec 32)
  | removePartition (name : Name)
  | removeGroupAndPartitions (groupName : Name)
  | changePartitionGroup (partition groupName : Name)
  | changeGroupSize (groupName : Name) (maximumSize : BitVec 64)
  | resizePartition (properties : Properties) (partition : Name) (requestedSize : BitVec 64)
      (freeRegionHint : List Interval)
  | addLinearExtent (partition blockDevice : Name) (numSectors physicalSector : BitVec 64)
  | addExtent (partition : Name) (extent : Extent)
  | removeExtents (partition : Name)
  | setAttributes (partition : Name) (attributes : BitVec 32)
  | importPartitions (metadata : LpMetadata) (partitionNames : List Name)
  | updateBlockDeviceInfo (partitionName : Name) (info : BlockDeviceInfo)
  | setAutoSlotSuffixing
  | setVirtualABDeviceFlag
  | requireExpandedMetadataHeader
deriving DecidableEq

namespace MetadataBuilder

/-- One call: the builder after it and its result (`true` for a `void` function). -/
def apply (b : MetadataBuilder) : Op → Except Fault (MetadataBuilder × Bool)
  | .addGroup groupName maximumSize => .ok (b.addGroup groupName maximumSize)
  | .addPartition name groupName attributes => .ok (b.addPartition name groupName attributes)
  | .removePartition name => .ok (b.removePartition name, true)
  | .removeGroupAndPartitions groupName => .ok (b.removeGroupAndPartitions groupName, true)
  | .changePartitionGroup partition groupName => b.changePartitionGroup partition groupName
  | .changeGroupSize groupName maximumSize => .ok (b.changeGroupSize groupName maximumSize)
  | .resizePartition properties partition requestedSize freeRegionHint =>
    b.withPartition partition fun p => b.resizePartition properties p requestedSize freeRegionHint
  | .addLinearExtent partition blockDevice numSectors physicalSector =>
    b.addLinearExtent partition blockDevice numSectors physicalSector
  | .addExtent partition extent =>
    b.withPartition partition fun p => .ok (p.addExtent extent, true)
  | .removeExtents partition => b.withPartition partition fun p => .ok (p.removeExtents, true)
  | .setAttributes partition attributes =>
    b.withPartition partition fun p => .ok ({ p with attributes := attributes }, true)
  | .importPartitions metadata partitionNames => b.importPartitions metadata partitionNames
  | .updateBlockDeviceInfo partitionName info => b.updateBlockDeviceInfo partitionName info
  | .setAutoSlotSuffixing => .ok ({ b with autoSlotSuffixing := true }, true)
  | .setVirtualABDeviceFlag => .ok (b.setVirtualABDeviceFlag, true)
  | .requireExpandedMetadataHeader => .ok (b.requireExpandedMetadataHeader, true)

/-- A sequence of calls, whatever each of them returns. -/
def run (b : MetadataBuilder) (ops : List Op) : Except Fault MetadataBuilder :=
  ops.foldlM (fun b op => do
    let (b, _) ← b.apply op
    .ok b) b

variable {b final : MetadataBuilder} {ops : List Op}

theorem run_invariant (kept : MetadataBuilder → Prop) (allowed : Op → Prop)
    (preserves : ∀ b op after result, allowed op → kept b → b.apply op = .ok (after, result) →
      kept after)
    (all : ∀ op ∈ ops, allowed op) (start : kept b) (ran : b.run ops = .ok final) :
    kept final := by
  refine foldlM_ok_invariant _ kept ops ?_ b final start ran
  intro state op next member holds step
  rw [bind_eq_ok] at step
  obtain ⟨⟨after, result⟩, applied, same⟩ := step
  cases same
  exact preserves state op next result (all op member) holds applied

theorem run_take_succ {n : Nat} {op : Op} (here : ops[n]? = some op) :
    b.run (ops.take (n + 1)) = .ok final ↔
      ∃ middle result, b.run (ops.take n) = .ok middle ∧ middle.apply op = .ok (final, result) := by
  unfold run
  rw [take_add_one, here, Option.toList_some, foldlM_append]
  simp only [foldlM_cons, foldlM_nil, bind_eq_ok, pure_eq_ok, Except.ok.injEq, exists_eq_right,
    Prod.exists]
  constructor
  · rintro ⟨middle, ran, after, result, applied, rfl⟩
    exact ⟨middle, result, ran, applied⟩
  · rintro ⟨middle, result, ran, applied⟩
    exact ⟨middle, ran, final, result, applied, rfl⟩

end MetadataBuilder

end Aosp.Liblp
