import Aosp.Snapshot.CowFile

/- A copy-on-write file as a stream of operations with data. In front of the next operation nothing
changes any more; behind the room for the operations of the open cluster is their data. Writer and
reader both stay in step with it. -/
namespace Aosp.Snapshot

open List
open Layout (Byte File Fixed Write)

/-- An operation as it is asked for. Without a source of its own it names the place of its data. -/
structure Item where
  type : CowOpType
  compression : BitVec 8
  newBlock : BitVec 64
  source : Option (BitVec 64)
  data : List Byte

/-- An operation with the data stored for it, and where that is. -/
structure Entry where
  op : CowOperation
  data : List Byte
  pos : Nat

namespace Item

def op (item : Item) (pos : Nat) : CowOperation :=
  ⟨item.type, item.compression, BitVec.ofNat 16 item.data.length, item.newBlock,
    item.source.getD (BitVec.ofNat 64 pos)⟩

def entry (item : Item) (pos : Nat) : Entry := ⟨item.op pos, item.data, pos⟩

/-- What a stream can hold. Without clusters, only the data of replace and xor operations is skipped
by the positions. -/
structure Fits (k : Nat) (item : Item) : Prop where
  notCluster : item.type ≠ .cluster
  notFooter : item.type ≠ .footer
  short : item.data.length < 2 ^ 16
  single : k = 0 → item.data = [] ∨ item.type = .replace ∨ item.type = .xor

theorem Fits.dataLength {k : Nat} {item : Item} (fits : item.Fits k) (pos : Nat) :
    (item.op pos).dataLength.toNat = item.data.length := Nat.mod_eq_of_lt fits.short

end Item

/-- `ops` is the number of operations in the open cluster, `back` their data; `writes` are the
buffers of operations and data that were written for the stream. -/
structure Stream where
  entries : List Entry
  front : List Byte
  ops : Nat
  back : List Byte
  writes : List Write

@[simp] theorem size_codec : CowOperation.codec.size = 20 := rfl

theorem length_encode_op (op : CowOperation) : (CowOperation.codec.encode op).length = 20 :=
  CowOperation.codec.encode_length op

namespace Stream

section Definitions

variable (k : Nat) (s : Stream)

def dataPos : Nat := s.front.length + if k = 0 then 20 else (k - s.ops) * 20 + s.back.length

/-- The writes of an operation. -/
def writesOf (op : CowOperation) (data : List Byte) : List Write :=
  ⟨s.front.length, CowOperation.codec.encode op⟩ :: if data = [] then [] else [⟨s.dataPos k, data⟩]

def add (entry : Entry) : Stream where
  entries := s.entries ++ [entry]
  front := s.front ++ (CowOperation.codec.encode entry.op ++ if k = 0 then entry.data else [])
  ops := if k = 0 then s.ops else s.ops + 1
  back := if k = 0 then s.back else s.back ++ entry.data
  writes := s.writes ++ s.writesOf k entry.op entry.data

/-- The room for operations that the end of the cluster leaves empty. -/
def gap : Nat := (k - s.ops - 1) * 20

def closing : CowOperation := ⟨.cluster, 0, 0, 0, BitVec.ofNat 64 (s.gap k + s.back.length)⟩

def close : Stream where
  entries := s.entries ++ [⟨s.closing k, [], s.dataPos k⟩]
  front := s.front ++ (CowOperation.codec.encode (s.closing k) ++
    (List.replicate (s.gap k) 0 ++ s.back))
  ops := 0
  back := []
  writes := s.writes ++ s.writesOf k (s.closing k) []

/-- A cluster ends when there is no room for another operation and the end. -/
def push (item : Item) : Stream :=
  let s := s.add k (item.entry (s.dataPos k))
  if k ≠ 0 ∧ k < s.ops + 2 then s.close k else s

/-- The stream in front of the footer, which is never behind open data. -/
def sealed : Stream := if s.back = [] then s else s.close k

def footer : List Byte :=
  CowOperation.codec.encode (.footer (BitVec.ofNat 64 (s.entries.length * sizeofCowOperation))
    (BitVec.ofNat 64 s.entries.length)) ++ CowFooterData.codec.encode ⟨Fixed.zero 32, Fixed.zero 32⟩

/-- The bytes of a finished file. -/
def image : List Byte := (s.sealed k).front ++ (s.sealed k).footer

/-- There is room for the end of the cluster. -/
def Within : Prop := if k = 0 then s.ops = 0 ∧ s.back = [] else s.ops + 1 ≤ k

/-- There is also room for an operation in front of it. -/
def Roomy : Prop := if k = 0 then s.ops = 0 ∧ s.back = [] else s.ops + 2 ≤ k

/-- The stream is in the file. -/
def On (file : File) : Prop :=
  file.Has 0 s.front ∧ file.Has (s.front.length + (k - s.ops) * 20) s.back

/-- The stream in front of the first operation. -/
def start (header : CowHeader) : Stream :=
  ⟨[], CowHeader.codec.encode header ++ List.replicate header.bufferSize.toNat 0, 0, [], []⟩

end Definitions

variable {k : Nat} {s : Stream} {file : File}

@[simp] theorem length_footer : s.footer.length = sizeofCowFooter := by
  rfl

theorem Roomy.within (roomy : s.Roomy k) : s.Within k := by
  unfold Roomy at roomy
  unfold Within
  split
  · rwa [if_pos ‹_›] at roomy
  · rw [if_neg ‹_›] at roomy
    omega

theorem roomy_start (several : k ≠ 1) (header : CowHeader) : (start header).Roomy k := by
  unfold Roomy start
  split
  · exact ⟨rfl, rfl⟩
  · dsimp only
    omega

theorem within_add (roomy : s.Roomy k) (entry : Entry) : (s.add k entry).Within k := by
  unfold Roomy at roomy
  unfold Within add
  split <;> simp_all

theorem roomy_close (several : k ≠ 1) (clustered : k ≠ 0) : (s.close k).Roomy k := by
  rw [Roomy, if_neg clustered]
  change 0 + 2 ≤ k
  omega

theorem roomy_push (several : k ≠ 1) (roomy : s.Roomy k) (item : Item) :
    (s.push k item).Roomy k := by
  have within := within_add roomy (item.entry (s.dataPos k))
  unfold push
  dsimp only
  split
  · exact roomy_close several (by omega)
  · unfold Within at within
    unfold Roomy
    split
    · rwa [if_pos ‹_›] at within
    · omega

theorem dataPos_add (roomy : s.Roomy k) (entry : Entry) :
    (s.add k entry).dataPos k = s.dataPos k + entry.data.length + if k = 0 then 20 else 0 := by
  unfold Roomy at roomy
  unfold dataPos add
  split <;> simp_all <;> omega

theorem length_close (within : s.Within k) (clustered : k ≠ 0) :
    (s.close k).front.length = s.dataPos k := by
  rw [Within, if_neg clustered] at within
  simp only [close, gap, dataPos, if_neg clustered, length_append, length_encode_op,
    length_replicate]
  omega

theorem dataPos_close (within : s.Within k) (clustered : k ≠ 0) :
    (s.close k).dataPos k = s.dataPos k + k * 20 := by
  rw [dataPos, length_close within clustered, if_neg clustered]
  simp [close]

theorem dataPos_le_push (roomy : s.Roomy k) (item : Item) :
    s.dataPos k + item.data.length ≤ (s.push k item).dataPos k ∧
      (s.push k item).dataPos k ≤ s.dataPos k + item.data.length +
      (if k = 0 then 1 else k) * 20 := by
  have added := dataPos_add roomy (item.entry (s.dataPos k))
  have within := within_add roomy (item.entry (s.dataPos k))
  unfold push
  dsimp only [Item.entry] at *
  split
  · rw [dataPos_close within (by omega), added]
    split <;> omega
  · rw [added]
    split <;> omega

theorem roomy_pushes (several : k ≠ 1) (roomy : s.Roomy k) (items : List Item) :
    (items.foldl (push k) s).Roomy k := by
  induction items generalizing s with
  | nil => exact roomy
  | cons item rest ih => exact ih (roomy_push several roomy item)

theorem dataPos_le_pushes (several : k ≠ 1) (roomy : s.Roomy k) (items : List Item) :
    s.dataPos k ≤ (items.foldl (push k) s).dataPos k := by
  induction items generalizing s with
  | nil => exact le_refl _
  | cons item rest ih =>
    have first := (dataPos_le_push roomy item).1
    have later := ih (roomy_push several roomy item)
    simp
    omega

theorem dataPos_le_of_prefix (several : k ≠ 1) (roomy : s.Roomy k) {front items : List Item}
    (first : front <+: items) :
    (front.foldl (push k) s).dataPos k ≤ (items.foldl (push k) s).dataPos k := by
  obtain ⟨back, rfl⟩ := first
  rw [foldl_append]
  exact dataPos_le_pushes several (roomy_pushes several roomy front) back

theorem opPos_le (within : s.Within k) : s.front.length + 20 + s.back.length ≤ s.dataPos k := by
  unfold Within at within
  unfold dataPos
  split
  · rw [if_pos ‹_›] at within
    simp [within.2]
  · rw [if_neg ‹_›] at within
    omega

/-- The formulas of `AddOperation` and `ParseOps` for the next positions. -/
def Follows (k : Nat) (s : Stream) (op : CowOperation) (next : Stream) : Prop :=
  u64 (s.front.length + sizeofCowOperation + getNextOpOffset op k) = next.front.length ∧
    u64 (s.dataPos k + op.dataLength.toNat + getNextDataOffset op k) = next.dataPos k

theorem follows_add (roomy : s.Roomy k) {item : Item} (fits : item.Fits k)
    (space : s.dataPos k + item.data.length < 2 ^ 63 + 2 ^ 40) :
    s.Follows k (item.op (s.dataPos k)) (s.add k (item.entry (s.dataPos k))) := by
  have within := opPos_le roomy.within
  have opOffset : getNextOpOffset (item.op (s.dataPos k)) k = if k = 0 then item.data.length
      else 0 := by
    have length := fits.dataLength (s.dataPos k)
    have notCluster : (item.op (s.dataPos k)).type ≠ .cluster := fits.notCluster
    by_cases single : k = 0
    · have plain : item.data = [] ∨ (item.op (s.dataPos k)).type = .replace ∨
          (item.op (s.dataPos k)).type = .xor :=
        fits.single single
      unfold getNextOpOffset
      cases type : (item.op (s.dataPos k)).type <;> simp_all
    · unfold getNextOpOffset
      cases type : (item.op (s.dataPos k)).type <;> simp_all
  have dataOffset : getNextDataOffset (item.op (s.dataPos k)) k = if k = 0 then 20 else 0 := by
    have notCluster : (item.op (s.dataPos k)).type ≠ .cluster := fits.notCluster
    unfold getNextDataOffset sizeofCowOperation
    cases type : (item.op (s.dataPos k)).type <;> simp_all
  rw [Follows, dataPos_add roomy, opOffset, dataOffset, fits.dataLength]
  unfold add u64 sizeofCowOperation Item.entry
  split <;> simp only [length_append, length_encode_op, length_nil] <;> omega

theorem follows_close (clustered : k ≠ 0) (small : k < 2 ^ 32) (within : s.Within k)
    (space : s.dataPos k < 2 ^ 63 + 2 ^ 40) :
    s.Follows k (s.closing k) (s.close k) := by
  have opOffset : getNextOpOffset (s.closing k) k = (s.gap k + s.back.length) % 2 ^ 64 := rfl
  have dataOffset : getNextDataOffset (s.closing k) k = k * 20 := rfl
  have dataLength : (s.closing k).dataLength.toNat = 0 := rfl
  rw [Follows, length_close within clustered, dataPos_close within clustered, opOffset]
  rw [Within, if_neg clustered] at within
  have pos : s.dataPos k = s.front.length + ((k - s.ops) * 20 + s.back.length) := by
    rw [dataPos, if_neg clustered]
  unfold u64 sizeofCowOperation gap
  omega

theorem On.of_add (roomy : s.Roomy k) {entry : Entry} (on : (s.add k entry).On k file) :
    s.On k file ∧ file.Has s.front.length (CowOperation.codec.encode entry.op) ∧
      file.Has (s.dataPos k) entry.data := by
  unfold Roomy at roomy
  unfold add On at on
  unfold On dataPos
  split at roomy
  · rename_i single
    simp only [single, File.has_append, zero_add] at on ⊢
    rw [roomy.2]
    exact ⟨⟨on.1.1, File.has_nil _ _⟩, on.1.2.1, on.1.2.2⟩
  · rename_i several
    have same : s.front.length + 20 + (k - (s.ops + 1)) * 20 =
      s.front.length + (k - s.ops) * 20 := by omega
    simp only [several, ↓reduceIte, append_nil, File.has_append, length_append,
      length_encode_op, same, zero_add] at on ⊢
    rw [← add_assoc]
    exact ⟨⟨on.1.1, on.2.1⟩, on.1.2, on.2.2⟩

theorem On.of_close (clustered : k ≠ 0) (within : s.Within k) (on : (s.close k).On k file) :
    s.On k file ∧ file.Has s.front.length (CowOperation.codec.encode (s.closing k)) := by
  rw [Within, if_neg clustered] at within
  have same : s.front.length + 20 + s.gap k = s.front.length + (k - s.ops) * 20 := by
    unfold gap
    omega
  obtain ⟨front, -⟩ := on
  simp only [close, File.has_append, length_encode_op, length_replicate, zero_add, same] at front
  exact ⟨⟨front.1, front.2.2.2⟩, front.2.1⟩

/-- The streams a writer makes, with positions that can be represented. -/
inductive Grown (k : Nat) (header : CowHeader) : Stream → Prop where
  | start : Grown k header (start header)
  | add {s : Stream} {item : Item} : Grown k header s → s.Roomy k → item.Fits k →
      s.dataPos k + item.data.length < 2 ^ 63 + 2 ^ 40 →
      Grown k header (s.add k (item.entry (s.dataPos k)))
  | close {s : Stream} : Grown k header s → k ≠ 0 → s.Within k → s.dataPos k < 2 ^ 63 + 2 ^ 40 →
      Grown k header (s.close k)

theorem Grown.pushes {header : CowHeader} (several : k ≠ 1) (grown : Grown k header s)
    (roomy : s.Roomy k) {items : List Item} (fits : ∀ item ∈ items, item.Fits k)
    (space : (items.foldl (push k) s).dataPos k < 2 ^ 63 + 2 ^ 40) :
    Grown k header (items.foldl (push k) s) := by
  induction items generalizing s with
  | nil => exact grown
  | cons item rest ih =>
    have roomy' := roomy_push several roomy item
    have later := dataPos_le_pushes several roomy' rest
    have first := (dataPos_le_push roomy item).1
    rw [foldl_cons] at space
    have added := Grown.add grown roomy (fits item mem_cons_self) (by omega)
    refine ih ?_ roomy' (fun other member => fits other (mem_cons_of_mem _ member)) space
    have within := within_add roomy (item.entry (s.dataPos k))
    rw [push]
    split
    · rename_i full
      have closed : (s.push k item).dataPos k = _ := congrArg (dataPos k) (if_pos full)
      rw [dataPos_close within full.1] at closed
      exact .close added full.1 within (by omega)
    · exact added

theorem Grown.count {header : CowHeader} (grown : Grown k header s) :
    s.entries.length * 20 ≤ s.front.length := by
  induction grown with
  | start => simp [Stream.start]
  | add _ _ _ _ ih =>
    simp only [Stream.add, length_append, length_singleton, length_encode_op]
    omega
  | close _ _ _ _ ih =>
    simp only [Stream.close, length_append, length_singleton, length_encode_op]
    omega

theorem Grown.header {header : CowHeader} (grown : Grown k header s) :
    sizeofCowHeader ≤ s.front.length := by
  induction grown with
  | start =>
    rw [Stream.start, length_append]
    exact Nat.le_add_right _ _
  | add _ _ _ _ ih | close _ _ _ _ ih => exact le_trans ih (length_append ▸ Nat.le_add_right _ _)

/-- An entry that is in the file and describes its data. -/
structure Stored (file : File) (entry : Entry) : Prop where
  has : file.Has entry.pos entry.data
  above : sizeofCowHeader ≤ entry.pos
  pos : entry.pos < 2 ^ 64
  length : entry.op.dataLength.toNat = entry.data.length

theorem Grown.stored {header : CowHeader} (grown : Grown k header s) (on : s.On k file) :
    (Stream.start header).On k file ∧ ∀ entry ∈ s.entries, Stored file entry := by
  have above : ∀ {t}, Grown k header t → sizeofCowHeader ≤ t.dataPos k := fun grown =>
    le_trans grown.header (Nat.le_add_right _ _)
  induction grown with
  | start => exact ⟨on, by simp [Stream.start]⟩
  | @add s item grown roomy fits space ih =>
    obtain ⟨earlier, -, data⟩ := On.of_add roomy on
    refine ⟨(ih earlier).1, fun entry member => ?_⟩
    rcases mem_append.mp member with old | new
    · exact (ih earlier).2 entry old
    · cases mem_singleton.mp new
      exact ⟨data, above grown, by dsimp only [Item.entry]; omega, fits.dataLength _⟩
  | @close s grown clustered within space ih =>
    obtain ⟨earlier, -⟩ := On.of_close clustered within on
    refine ⟨(ih earlier).1, fun entry member => ?_⟩
    rcases mem_append.mp member with old | new
    · exact (ih earlier).2 entry old
    · cases mem_singleton.mp new
      exact ⟨File.has_nil _ _, above grown, by dsimp only; omega, rfl⟩

/-- The entries that were asked for. -/
def asked (s : Stream) : List Entry :=
  s.entries.filter fun entry => decide (entry.op.type ≠ .cluster)

theorem asked_close : (s.close k).asked = s.asked := by
  simp [asked, close, closing]

theorem asked_add {item : Item} (fits : item.Fits k) (pos : Nat) :
    (s.add k (item.entry pos)).asked = s.asked ++ [item.entry pos] := by
  have kept : (item.entry pos).op.type ≠ .cluster := fits.notCluster
  simp [asked, add, kept]

theorem asked_pushes {items : List Item} (fits : ∀ item ∈ items, item.Fits k) :
    ∃ placed, (items.foldl (push k) s).asked = s.asked ++ placed ∧
      List.Forall₂ (fun item entry => entry = item.entry entry.pos) items placed := by
  induction items generalizing s with
  | nil => exact ⟨[], (append_nil _).symm, .nil⟩
  | cons item rest ih =>
    obtain ⟨placed, same, each⟩ := @ih (s.push k item) fun other member =>
      fits other (mem_cons_of_mem _ member)
    have pushed : (s.push k item).asked = s.asked ++ [item.entry (s.dataPos k)] := by
      rw [push]
      split
      · rw [asked_close, asked_add (fits item mem_cons_self)]
      · exact asked_add (fits item mem_cons_self) _
    refine ⟨item.entry (s.dataPos k) :: placed, ?_, .cons rfl each⟩
    simp [same, pushed]

end Stream

end Aosp.Snapshot
