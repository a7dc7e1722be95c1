import Aosp.Lib.CString

/- `persistent_properties.cpp`: the file of the persistent properties, and the directory with a file
for each of them that was there before. A stop of the machine loses what has not been synced. -/
namespace Aosp.Init

open Layout CString

/-- Names and values in the order of their records. -/
abbrev PersistentProperties := List (List Byte × List Byte)

/-- The records as bytes. -/
structure Proto where
  serialize : PersistentProperties → List Byte
  parse : List Byte → Option PersistentProperties
  parse_serialize : ∀ properties, parse (serialize properties) = some properties

def persists (name : List Byte) : Bool := decide (ascii "persist." <+: name)

/-- An entry of the legacy directory. A file that cannot be read, or that others could have written,
has no value. -/
structure LegacyFile where
  name : List Byte
  regular : Bool
  value : Option (List Byte)
deriving DecidableEq

/-- The property file, the temporary file and the entries of the legacy directory. -/
structure Volume where
  file : Option (List Byte)
  temp : Option (List Byte)
  legacy : List LegacyFile
deriving DecidableEq

/-- What calls see, whether the bytes of the temporary file and of the property file are on the
disk, and what a stop of the machine may leave. -/
structure FileSystem where
  now : Volume
  tempSynced : Bool
  fileSynced : Bool
  left : Volume → Prop

namespace FileSystem

/-- All is on the disk. -/
def mount (v : Volume) : FileSystem := ⟨v, true, true, fun u => u = v⟩

variable (fs : FileSystem)

/-- Nothing is known of the temporary file until it is synced. -/
def anyTemp : Volume → Prop := fun v => ∃ u, fs.left u ∧ v.file = u.file ∧ v.legacy = u.legacy

def setTemp (contents : Option (List Byte)) : FileSystem :=
  { fs with now := { fs.now with temp := contents }, tempSynced := false, left := fs.anyTemp }

def fsyncTemp : FileSystem := { fs with tempSynced := true }

/-- The temporary file takes the place of the property file, at once or not before the directory is
synced. -/
def rename : FileSystem where
  now := { fs.now with file := fs.now.temp, temp := none }
  tempSynced := true
  fileSynced := fs.tempSynced
  left v := fs.anyTemp v ∨ (∃ u, fs.left u ∧ v.legacy = u.legacy) ∧
    (fs.tempSynced = true → v.file = fs.now.temp)

def unlinkFile : FileSystem :=
  { fs with
    now := { fs.now with file := none }
    left := fun v => fs.left v ∨ ∃ u, fs.left u ∧ v = { u with file := none } }

def fsyncDir : FileSystem :=
  { fs with left := fun v => v.legacy = fs.now.legacy ∧
    (fs.fileSynced = true → v.file = fs.now.file) }

def unlinkLegacy (entry : LegacyFile) : FileSystem :=
  { fs with
    now := { fs.now with legacy := fs.now.legacy.erase entry }
    left := fun v => fs.left v ∨ ∃ u, fs.left u ∧ v = { u with legacy := u.legacy.erase entry } }

end FileSystem

section Functions

variable (proto : Proto)

def parsePersistentPropertyFile (contents : List Byte) : Option PersistentProperties :=
  (proto.parse contents).filter fun properties => properties.all fun property => persists property.1

/-- The properties, if the file can be read, and the states on the way. -/
def loadPersistentPropertyFile (fs : FileSystem) : Option PersistentProperties × List FileSystem :=
  let clean := if fs.now.temp.isSome then fs.setTemp none else fs
  match clean.now.file with
  | none => (none, [fs, clean])
  | some contents =>
    match parsePersistentPropertyFile proto contents with
    | some properties => (some properties, [fs, clean])
    | none => (none, [fs, clean, clean.unlinkFile])

/-- The calls that fail; a write that fails leaves some bytes. -/
structure Faults where
  openTemp : Bool
  write : Option (List Byte)
  rename : Bool
  openDir : Bool

/-- Whether all went well, and the states on the way. -/
def writePersistentPropertyFile (faults : Faults) (properties : PersistentProperties)
    (fs : FileSystem) :
    Bool × List FileSystem :=
  if faults.openTemp then (false, [fs])
  else
    let opened := fs.setTemp (some [])
    match faults.write with
    | some part => (false, [fs, opened, opened.setTemp (some part)])
    | none =>
      let written := opened.setTemp (some (proto.serialize properties))
      let synced := written.fsyncTemp
      if faults.rename then (false, [fs, opened, written, synced, synced.setTemp none])
      else
        let renamed := synced.rename
        if faults.openDir then (false, [fs, opened, written, synced, renamed])
        else (true, [fs, opened, written, synced, renamed, renamed.fsyncDir])

/-- The first record with the name is changed, or one is added. -/
def setProperty (name value : List Byte) : PersistentProperties → PersistentProperties
  | [] => [(name, value)]
  | record :: rest => if record.1 = name then (name, value) :: rest
    else record :: setProperty name value rest

/-- The state that a function leaves is the last one. -/
def final (fs : FileSystem) (states : List FileSystem) : FileSystem := states.getLastD fs

def writePersistentProperty (faults : Faults) (memory : PersistentProperties)
    (name value : List Byte) (fs : FileSystem) : Bool × List FileSystem :=
  let load := loadPersistentPropertyFile proto fs
  let write := writePersistentPropertyFile proto faults
    (setProperty name value (load.1.getD memory)) (final fs load.2)
  (write.1, load.2 ++ write.2)

/-- The entries that the legacy functions look at. -/
def LegacyFile.counts (entry : LegacyFile) : Bool := persists entry.name && entry.regular

def loadLegacyPersistentProperties (legacy : List LegacyFile) : PersistentProperties :=
  (legacy.filter LegacyFile.counts).filterMap fun entry => entry.value.map fun value =>
    (entry.name, value)

def removeLegacyPersistentPropertyFiles : List LegacyFile → FileSystem → List FileSystem
  | [], fs => [fs]
  | entry :: rest, fs =>
    if entry.counts then fs :: removeLegacyPersistentPropertyFiles rest (fs.unlinkLegacy entry)
    else removeLegacyPersistentPropertyFiles rest fs

def loadPersistentProperties (faults : Faults) (fs : FileSystem) :
    PersistentProperties × List FileSystem :=
  let load := loadPersistentPropertyFile proto fs
  match load.1 with
  | some properties => (properties, load.2)
  | none =>
    let fs := final fs load.2
    let properties := loadLegacyPersistentProperties fs.now.legacy
    let write := writePersistentPropertyFile proto faults properties fs
    (properties, load.2 ++ write.2 ++
      if write.1 then removeLegacyPersistentPropertyFiles fs.now.legacy (final fs write.2) else [])

end Functions

end Aosp.Init
