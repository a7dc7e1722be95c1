import Mathlib.Logic.Equiv.List
import Aosp.Init.PersistentProperties

namespace Aosp.Init

open List Layout CString FileSystem

variable {proto : Proto} {fs s : FileSystem} {v : Volume} {properties : PersistentProperties}

/-- What is loaded when the machine starts again. -/
def loaded (proto : Proto) (v : Volume) : Option PersistentProperties :=
  (loadPersistentPropertyFile proto (mount v)).1

theorem loadPersistentPropertyFile_result (fs : FileSystem) :
    (loadPersistentPropertyFile proto fs).1 =
      fs.now.file.bind (parsePersistentPropertyFile proto) := by
  have same : (if fs.now.temp.isSome then fs.setTemp none else fs).now.file = fs.now.file := by
    split <;> rfl
  unfold loadPersistentPropertyFile
  simp only [same]
  cases fs.now.file with
  | none => rfl
  | some contents => cases found : parsePersistentPropertyFile proto contents <;> simp [found]

theorem loaded_eq (v : Volume) : loaded proto v = v.file.bind (parsePersistentPropertyFile proto) :=
  loadPersistentPropertyFile_result _

/-- Every volume that a stop may leave has the property. -/
def Leaves (P : Volume → Prop) (fs : FileSystem) : Prop := ∀ v, fs.left v → P v

/-- The temporary file does not matter. -/
def IgnoresTemp (P : Volume → Prop) : Prop :=
  ∀ u v : Volume, v.file = u.file → v.legacy = u.legacy → P u → P v

section Rules

variable {P : Volume → Prop} (ignores : IgnoresTemp P)

include ignores

variable (leaves : Leaves P fs)
include leaves

theorem Leaves.setTemp (contents : Option (List Byte)) : Leaves P (fs.setTemp contents) := by
  rintro v ⟨u, left, file, legacy⟩
  exact ignores u v file legacy (leaves u left)

theorem Leaves.clean : Leaves P (if fs.now.temp.isSome then fs.setTemp none else fs) := by
  split
  · exact leaves.setTemp ignores none
  · exact leaves

theorem load_leaves
    (gone : (loadPersistentPropertyFile proto fs).1 = none → ∀ v, P v → P { v with file := none }) :
    ∀ s ∈ (loadPersistentPropertyFile proto fs).2, Leaves P s := by
  have clean := leaves.clean ignores
  rw [loadPersistentPropertyFile_result] at gone
  have same : (if fs.now.temp.isSome then fs.setTemp none else fs).now.file = fs.now.file := by
    split <;> rfl
  unfold loadPersistentPropertyFile
  simp only [same]
  cases file : fs.now.file with
  | none => simp [leaves, clean]
  | some contents =>
    rw [file] at gone
    cases found : parsePersistentPropertyFile proto contents with
    | some properties => simp [found, leaves, clean]
    | none =>
      simp only [found, mem_cons, not_mem_nil, or_false, forall_eq_or_imp, forall_eq]
      refine ⟨leaves, clean, ?_⟩
      rintro v (left | ⟨u, left, rfl⟩)
      · exact clean v left
      · exact gone found u (clean u left)

/-- The new file is seen with all its bytes, or the old one. -/
theorem write_leaves {faults : Faults} (settled : Leaves (fun u => u.legacy = fs.now.legacy) fs)
    (new : ∀ v, v.legacy = fs.now.legacy → v.file = some (proto.serialize properties) → P v) :
    ∀ s ∈ (writePersistentPropertyFile proto faults properties fs).2, Leaves P s := by
  have opened := leaves.setTemp ignores (some [])
  have written := opened.setTemp ignores (some (proto.serialize properties))
  have legacy : IgnoresTemp fun u => u.legacy = fs.now.legacy := fun u v _ same is => same.trans is
  have kept := (settled.setTemp legacy (some [])).setTemp legacy (some (proto.serialize properties))
  have renamed : Leaves P (((fs.setTemp (some [])).setTemp
      (some (proto.serialize properties))).fsyncTemp.rename) := by
    rintro v (⟨u, left, file, same⟩ | ⟨⟨u, left, same⟩, file⟩)
    · exact ignores u v file same (written u left)
    · exact new v (same.trans (kept u left)) (file rfl)
  unfold writePersistentPropertyFile
  split
  · simpa using leaves
  · split
    · simpa [leaves, opened] using opened.setTemp ignores _
    · split
      · simpa [leaves, opened, written] using ⟨written, written.setTemp ignores none⟩
      · split
        · simp only [mem_cons, not_mem_nil, or_false, forall_eq_or_imp, forall_eq]
          exact ⟨leaves, opened, written, written, renamed⟩
        · simp only [mem_cons, not_mem_nil, or_false, forall_eq_or_imp, forall_eq]
          exact ⟨leaves, opened, written, written, renamed, fun v left => new v left.1 (left.2 rfl)⟩

end Rules

theorem write_done {faults : Faults}
    (done : (writePersistentPropertyFile proto faults properties fs).1 = true) :
    Leaves (fun v => v.file = some (proto.serialize properties))
      (final fs (writePersistentPropertyFile proto faults properties fs).2) := by
  unfold writePersistentPropertyFile at done ⊢
  split at done
  · cases done
  · split at done
    · cases done
    · split at done
      · cases done
      · split at done
        · cases done
        · rename_i noOpen _ noWrite noRename noDir
          simp only [noOpen, noRename, noDir]
          exact fun v left => left.2 rfl

theorem ignoresTemp_loaded (proto : Proto) (Q : Option PersistentProperties → Prop) :
    IgnoresTemp fun v => Q (loaded proto v) := by
  intro u v file _ holds
  rwa [loaded_eq, file, ← loaded_eq]

theorem loaded_serialized (all : properties.all (fun property => persists property.1) = true)
    (file : v.file = some (proto.serialize properties)) :
    loaded proto v = some properties := by
  simp [loaded_eq, file, parsePersistentPropertyFile, proto.parse_serialize, all]

variable {name value : List Byte}

theorem all_setProperty (all : properties.all (fun property => persists property.1) = true)
    (named : persists name = true) :
    (setProperty name value properties).all (fun property => persists property.1) = true := by
  induction properties with
  | nil => simp [setProperty, named]
  | cons record rest ih =>
    simp only [all_cons, Bool.and_eq_true] at all
    unfold setProperty
    split
    · simp [named, all.2]
    · simp [all.1, ih all.2]

/-- The name occurs once, with the value, and the other records are as they were. -/
theorem filter_setProperty (value : List Byte)
    (unrepeated : (properties.map Prod.fst).count name ≤ 1) :
    (setProperty name value properties).filter (fun record => record.1 = name) = [(name, value)] ∧
      (setProperty name value properties).filter (fun record => record.1 ≠ name) =
        properties.filter fun record => record.1 ≠ name := by
  induction properties with
  | nil => simp [setProperty]
  | cons record rest ih =>
    rw [map_cons, count_cons] at unrepeated
    unfold setProperty
    split
    · rename_i same
      rw [same, beq_self_eq_true, if_pos rfl] at unrepeated
      have absent : name ∉ rest.map Prod.fst := count_eq_zero.mp (by omega)
      have nothing : rest.filter (fun record => decide (record.1 = name)) = [] :=
        filter_eq_nil_iff.mpr fun other member is =>
          absent (mem_map.mpr ⟨other, member, of_decide_eq_true is⟩)
      simp [same, nothing]
    · rename_i apart
      obtain ⟨once, others⟩ := ih (by omega)
      simp only [decide_not] at others
      simp [apart, once, others]

/-- A stop leaves the old properties or the new ones. -/
structure WriteSurvives (proto : Proto) (old : PersistentProperties) (name value : List Byte)
    (fs : FileSystem) (run : Bool × List FileSystem) : Prop where
  either : ∀ s ∈ run.2, Leaves (fun v => loaded proto v = some old ∨
    loaded proto v = some (setProperty name value old)) s
  done : run.1 = true → Leaves (fun v => loaded proto v = some (setProperty name value old))
    (final fs run.2)
  once : (setProperty name value old).filter (fun record => record.1 = name) = [(name, value)]
  others : (setProperty name value old).filter (fun record => record.1 ≠ name) =
    old.filter fun record => record.1 ≠ name

theorem load_now_legacy (fs : FileSystem) :
    (final fs (loadPersistentPropertyFile proto fs).2).now.legacy = fs.now.legacy := by
  have clean : (if fs.now.temp.isSome then fs.setTemp none else fs).now.legacy = fs.now.legacy := by
    split <;> rfl
  unfold loadPersistentPropertyFile final
  dsimp only
  split
  · exact clean
  · split
    · exact clean
    · exact clean

theorem final_append (fs : FileSystem) (first second : List FileSystem) :
    final fs (first ++ second) = final (final fs first) second := by
  cases second using List.reverseRecOn with
  | nil => simp [final]
  | append_singleton front last => simp [final]

theorem leaves_final {P : Volume → Prop} {states : List FileSystem} (start : Leaves P fs)
    (all : ∀ s ∈ states, Leaves P s) :
    Leaves P (final fs states) := by
  cases states using List.reverseRecOn with
  | nil => exact start
  | append_singleton front last => simpa [final] using all last (by simp)

theorem writePersistentProperty_survives (faults : Faults) (memory : PersistentProperties)
    {old : PersistentProperties} (v : Volume) (file : v.file = some (proto.serialize old))
    (all : old.all (fun property => persists property.1) = true)
    (unrepeated : (old.map Prod.fst).count name ≤ 1) (named : persists name = true) :
    WriteSurvives proto old name value (mount v)
      (writePersistentProperty proto faults memory name value (mount v)) := by
  have found : (loadPersistentPropertyFile proto (mount v)).1 = some old :=
    loaded_serialized all file
  have ignores := ignoresTemp_loaded proto fun result =>
    result = some old ∨ result = some (setProperty name value old)
  have start : Leaves (fun v => loaded proto v = some old ∨
      loaded proto v = some (setProperty name value old)) (mount v) := by
    rintro u rfl
    exact .inl found
  have before : ∀ s ∈ (loadPersistentPropertyFile proto (mount v)).2, Leaves _ s :=
    load_leaves ignores start fun nothing => by simp [found] at nothing
  have kept : Leaves (fun u => u.legacy = v.legacy)
      (final (mount v) (loadPersistentPropertyFile proto (mount v)).2) := by
    have legacy : IgnoresTemp fun u => u.legacy = v.legacy := fun _ _ _ same is => same.trans is
    have start : Leaves (fun u => u.legacy = v.legacy) (mount v) := by
      rintro u rfl
      rfl
    exact leaves_final start (load_leaves legacy start fun _ _ is => is)
  have after : ∀ s ∈ (writePersistentPropertyFile proto faults (setProperty name value old) _).2,
      Leaves _ s :=
    write_leaves ignores (leaves_final start before) (by rwa [load_now_legacy])
      fun u _ file => .inr (loaded_serialized (all_setProperty all named) file)
  obtain ⟨once, others⟩ := filter_setProperty value unrepeated
  unfold writePersistentProperty
  simp only [found]
  refine ⟨?_, fun done => ?_, once, others⟩
  · intro s member
    rcases mem_append.mp member with member | member
    · exact before s member
    · exact after s member
  · rw [final_append]
    exact fun u left => loaded_serialized (all_setProperty all named) (write_done done u left)

theorem all_legacy (legacy : List LegacyFile) :
    (loadLegacyPersistentProperties legacy).all (fun property => persists property.1) = true := by
  simp only [loadLegacyPersistentProperties, all_eq_true, mem_filterMap, mem_filter]
  rintro property ⟨entry, ⟨-, counts⟩, found⟩
  rw [Option.map_eq_some_iff] at found
  obtain ⟨value, -, rfl⟩ := found
  rw [LegacyFile.counts, Bool.and_eq_true] at counts
  exact counts.1

theorem remove_leaves {P : Volume → Prop}
    (keeps : ∀ (v : Volume) legacy, P v → P { v with legacy }) (entries : List LegacyFile)
    (leaves : Leaves P fs) :
    ∀ s ∈ removeLegacyPersistentPropertyFiles entries fs, Leaves P s := by
  induction entries generalizing fs with
  | nil => simpa [removeLegacyPersistentPropertyFiles] using leaves
  | cons entry rest ih =>
    unfold removeLegacyPersistentPropertyFiles
    split
    · have less : Leaves P (fs.unlinkLegacy entry) := by
        rintro v (left | ⟨u, left, rfl⟩)
        · exact leaves v left
        · exact keeps u _ (leaves u left)
      simpa [leaves] using ih less
    · exact ih leaves

/-- A volume from which the properties of the legacy directory are loaded. -/
def Migrates (proto : Proto) (legacy : List LegacyFile) (u : Volume) : Prop :=
  loaded proto u = some (loadLegacyPersistentProperties legacy) ∨ loaded proto u = none ∧
    u.legacy = legacy

theorem Migrates.result {legacy : List LegacyFile} (migrates : Migrates proto legacy v)
    (faults : Faults) :
    (loadPersistentProperties proto faults (mount v)).1 =
      loadLegacyPersistentProperties legacy := by
  unfold loadPersistentProperties
  rcases migrates with found | ⟨missing, rfl⟩
  · rw [loaded] at found
    simp [found]
  · rw [loaded] at missing
    simp only [missing, load_now_legacy]
    rfl

/-- The properties are in the file, or they are all in the legacy directory. -/
theorem loadPersistentProperties_survives (faults : Faults) (v : Volume)
    (missing : loaded proto v = none) :
    ∀ s ∈ (loadPersistentProperties proto faults (mount v)).2,
      Leaves (Migrates proto v.legacy) s := by
  have ignores : IgnoresTemp (Migrates proto v.legacy) := by
    intro u w file same holds
    rwa [Migrates, loaded_eq, file, ← loaded_eq, same]
  have start : Leaves (fun u => loaded proto u = none ∧ u.legacy = v.legacy) (mount v) := by
    rintro u rfl
    exact ⟨missing, rfl⟩
  have before : ∀ s ∈ (loadPersistentPropertyFile proto (mount v)).2,
      Leaves (fun u => loaded proto u = none ∧ u.legacy = v.legacy) s := by
    refine load_leaves (fun u w file same holds => ?_) start fun _ u holds => ?_
    · rwa [loaded_eq, file, ← loaded_eq, same]
    · exact ⟨by rw [loaded_eq]; rfl, holds.2⟩
  have loadedFirst := leaves_final start before
  have new (u : Volume) (file : u.file = some
      (proto.serialize (loadLegacyPersistentProperties v.legacy))) :
      loaded proto u = some (loadLegacyPersistentProperties v.legacy) :=
      loaded_serialized (all_legacy _) file
  have after : ∀ s ∈ (writePersistentPropertyFile proto faults
      (loadLegacyPersistentProperties v.legacy) _).2, Leaves (Migrates proto v.legacy) s :=
    write_leaves ignores (fun u left => .inr (loadedFirst u left))
      (by rw [load_now_legacy]; exact fun u left => (loadedFirst u left).2) fun u _ file =>
      .inl (new u file)
  unfold loadPersistentProperties
  rw [loaded] at missing
  simp only [missing, load_now_legacy]
  intro s member
  rcases mem_append.mp member with member | member
  · rcases mem_append.mp member with member | member
    · exact fun u left => .inr (before s member u left)
    · exact after s member
  · split at member
    · rename_i done
      refine fun u left => .inl (remove_leaves (fun _ _ same => ?_) _
        (fun u left => new u (write_done done u left)) s member u left)
      rwa [loaded_eq] at same ⊢
    · cases member

/-- Properties survive a stop at any step: a write leaves the old ones or the new ones, and the new
ones when it is done; and while legacy files are replaced the next start still finds all their
properties. -/
theorem persistent_properties_survive (proto : Proto) (faults : Faults)
    (memory : PersistentProperties) (v : Volume) :
    (∀ old name value, v.file = some (proto.serialize old) →
      old.all (fun property => persists property.1) = true →
        (old.map Prod.fst).count name ≤ 1 → persists name = true →
        WriteSurvives proto old name value (mount v)
          (writePersistentProperty proto faults memory name value (mount v))) ∧
      (loaded proto v = none → ∀ s ∈ (loadPersistentProperties proto faults (mount v)).2, ∀ u,
      s.left u →
        ∀ next, (loadPersistentProperties proto next (mount u)).1 =
        loadLegacyPersistentProperties v.legacy) :=
  ⟨fun _ _ _ file all unrepeated named =>
      writePersistentProperty_survives faults memory v file all unrepeated named,
    fun missing s member u left next =>
      (loadPersistentProperties_survives faults v missing s member u left).result next⟩

/-- Records as the length of a list of zeros. -/
@[irreducible] def unary : Proto :=
  letI : Encodable Byte := .ofLeftInverse BitVec.toNat (BitVec.ofNat 8) fun b => by simp
  { serialize := fun properties => List.replicate (Encodable.encode properties) 0
    parse := fun contents => Encodable.decode contents.length
    parse_serialize := fun properties => by rw [List.length_replicate, Encodable.encodek] }

def noFaults : Faults := ⟨false, none, false, false⟩

def oneProperty : Volume := ⟨some (unary.serialize [(ascii "persist.a", [])]), none, []⟩

def oneLegacy : Volume := ⟨none, none, [⟨ascii "persist.a", true, some [1]⟩]⟩

theorem persistent_properties_survive_unary :
    WriteSurvives unary [(ascii "persist.a", [])] (ascii "persist.b") [1] (mount oneProperty)
        (writePersistentProperty unary noFaults [] (ascii "persist.b") [1] (mount oneProperty)) ∧
      ∀ s ∈ (loadPersistentProperties unary noFaults (mount oneLegacy)).2, ∀ u, s.left u →
        ∀ next, (loadPersistentProperties unary next (mount u)).1 =
        loadLegacyPersistentProperties oneLegacy.legacy :=
  ⟨(persistent_properties_survive unary noFaults [] oneProperty).1 _ _ _ rfl (by decide) (by decide)
    (by decide), (persistent_properties_survive unary noFaults [] oneLegacy).2 rfl⟩

theorem mem_noFaults (proto : Proto) (properties : PersistentProperties) (fs : FileSystem) :
    ∃ s ∈ (writePersistentPropertyFile proto noFaults properties fs).2, ∀ v, v.legacy =
      fs.now.legacy →
      v.file = some (proto.serialize properties) → s.left v := by
  refine ⟨(FileSystem.rename
    (fsyncTemp ((fs.setTemp (some [])).setTemp (some (proto.serialize properties))))).fsyncDir,
    ?_, fun v legacy file => ⟨legacy, fun _ => file⟩⟩
  simp [writePersistentPropertyFile, noFaults]

/-- A name of another kind makes the file unreadable, and a name that occurs twice stays so. -/
theorem persistent_properties_lost :
    (∃ s u, s ∈ (writePersistentProperty unary noFaults [] (ascii "x") [1] (mount oneProperty)).2 ∧
      s.left u ∧
        loaded unary u = none) ∧
      (setProperty (ascii "persist.a") [3] [(ascii "persist.a", [1]),
      (ascii "persist.a", [2])]).filter
        (fun record => record.1 = ascii "persist.a") =
        [(ascii "persist.a", [3]), (ascii "persist.a", [2])] := by
  have found : loaded unary oneProperty = some [(ascii "persist.a", [])] :=
    loaded_serialized (by decide) rfl
  rw [loaded] at found
  obtain ⟨s, member, left⟩ := mem_noFaults unary
    (setProperty (ascii "x") [1] [(ascii "persist.a", [])])
    (final (mount oneProperty) (loadPersistentPropertyFile unary (mount oneProperty)).2)
  rw [load_now_legacy] at left
  refine ⟨⟨s, ⟨some (unary.serialize (setProperty (ascii "x") [1] [(ascii "persist.a", [])])),
    none, []⟩, ?_, left _ rfl rfl, ?_⟩, by decide⟩
  · simp only [writePersistentProperty, found]
    exact mem_append_right _ member
  · rw [loaded_eq, Option.bind_some, parsePersistentPropertyFile, unary.parse_serialize]
    decide

end Aosp.Init
