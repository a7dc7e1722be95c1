import Aosp.Snapshot.CowFinalize
import Aosp.Snapshot.ParseOps

namespace Aosp.Snapshot

open List Aosp.Snapshot.Stream CowFooterData
open Layout (Byte File Fixed)

namespace CowReader

variable {file : File} {k : Nat} {label : Option (BitVec 64)} {st : ParseState} {s s' : Stream}
  {op : CowOperation}

/-- The xor operation whose data a block is read from. -/
def Stream.xorOf (s : Stream) (block : BitVec 64) : Option Entry :=
  s.entries.find? fun entry => decide (entry.op.type = .xor ∧ entry.op.newBlock = block)

/-- The reader behind a stream. -/
structure Reads (k : Nat) (st : ParseState) (s : Stream) : Prop where
  pos : st.pos = s.front.length
  dataPos : st.dataPos = s.dataPos k
  ops : st.ops = s.entries.map Entry.op
  loc : ∀ block, st.dataLoc.lookup block = (Stream.xorOf s block).map Entry.pos
  footer : st.footer = none

theorem lookup_insertLoc (dataLoc : List (BitVec 64 × Nat)) (block other : BitVec 64) (pos : Nat) :
    (insertLoc dataLoc block pos).lookup other =
      (dataLoc.lookup other).or (if block = other then some pos else none) := by
  unfold insertLoc
  split
  · rename_i found
    obtain ⟨value, isValue⟩ := Option.isSome_iff_exists.mp found
    by_cases same : block = other
    · rw [← same, isValue]
      rfl
    · simp [same]
  · rw [lookup_append]
    by_cases same : block = other
    · simp [same]
    · simp [same, lookup_cons, beq_false_of_ne (Ne.symm same)]

variable {data : List Byte}

theorem Reads.pass (reads : Reads k st s) (follows : s.Follows k op s')
    (entries : s'.entries = s.entries ++ [⟨op, data, s.dataPos k⟩]) :
    Reads k (CowReader.pass k st op) s' where
  pos := by
    rw [← follows.1, ← reads.pos]
    rfl
  dataPos := by
    rw [← follows.2, ← reads.dataPos]
    rfl
  ops := by
    rw [entries, map_append, ← reads.ops]
    rfl
  loc block := by
    have before := reads.loc block
    unfold Stream.xorOf at before ⊢
    rw [entries, find?_append, Option.map_or, ← before]
    by_cases isXor : op.type = .xor
    · simp only [CowReader.pass, isXor, ↓reduceIte, lookup_insertLoc, reads.dataPos]
      by_cases same : op.newBlock = block <;> simp [isXor]
    · simp [CowReader.pass, isXor]
  footer := reads.footer

theorem Reads.mark (reads : Reads k st s) (lastLabel : Option (BitVec 64)) (hasSeqOps : Bool) :
    Reads k { st with lastLabel := lastLabel, hasSeqOps := hasSeqOps } s :=
  ⟨reads.pos, reads.dataPos, reads.ops, reads.loc, reads.footer⟩

variable {n : Nat}

theorem opsAt_succ {pos : Nat} (has : file.Has pos (CowOperation.codec.encode op)) :
    opsAt file pos (n + 1) = op :: opsAt file (pos + 20) n := by
  have region := has.region
  rw [length_encode_op] at region
  rw [opsAt, range_succ_eq_map, map_cons, zero_mul, add_zero, sizeofCowOperation, region,
    CowOperation.codec.decode_encode, map_map]
  congr 1
  apply map_congr_left
  intro i _
  simp only [Function.comp, sizeofCowOperation]
  congr 2
  omega

section

variable (file : File) (k : Nat) (label : Option (BitVec 64)) (rounds : Nat)

/-- What the outer loop does with the result of a cluster. -/
def after (result : Option (ParseState × Bool)) : Option (Option ParseState) :=
  match result.bind fun (st, done) => if st.pos < 2 ^ 63 then some (st, done) else none with
  | none => some none
  | some (st, true) => some (some st)
  | some (st, false) => parseLoop file k label rounds st

/-- The loop in the middle of a cluster, with `n` operations to go. -/
def resume (st : ParseState) (n : Nat) : Option (Option ParseState) :=
  after file k label rounds (parseCluster file k label st (opsAt file st.pos n))

end

/-- The number of operations that have been read and not yet been looked at. -/
def left (file : File) (k : Nat) (s : Stream) : Nat :=
  min (if k = 0 then 1 else k) ((file.size + s.ops * 20 - s.front.length) / 20) - s.ops

theorem parseLoop_succ (rounds : Nat) (reads : Reads k st s) (first : s.ops = 0)
    (limit : file.size < 2 ^ 63) (more : s.front.length + 20 ≤ file.size) :
    parseLoop file k label (rounds + 1) st = resume file k label rounds st (left file k s) := by
  have count : toAdd file k st = left file k s := by
    unfold toAdd left u64 sizeofCowOperation
    rw [reads.pos, first]
    congr 2
    omega
  have more : left file k s ≠ 0 := by
    unfold left
    split <;> omega
  have inside : ¬ file.size < st.pos + left file k s * sizeofCowOperation := by
    unfold left sizeofCowOperation
    rw [reads.pos]
    omega
  rw [parseLoop, parseRound, count]
  simp only [more, inside]
  unfold resume after
  cases parseCluster file k label st (opsAt file st.pos (left file k s)) with
  | none => rfl
  | some result =>
    obtain ⟨next, done⟩ := result
    by_cases below : next.pos < 2 ^ 63 <;> cases done <;>
      simp [Fallible.require, below, -Nat.reducePow]

theorem resume_plain (rounds : Nat) (reads : Reads k st s) (plain : Plain label op)
    (has : file.Has s.front.length (CowOperation.codec.encode op)) (follows : s.Follows k op s')
    (entries : s'.entries = s.entries ++ [⟨op, data, s.dataPos k⟩])
    (next : s'.front.length = s.front.length + 20) (n : Nat) :
    ∃ st', Reads k st' s' ∧ resume file k label rounds st (n + 1) =
      resume file k label rounds st' n := by
  obtain ⟨lastLabel, hasSeqOps, parsed⟩ := parseOp_plain file k st plain
  have passed := reads.pass follows entries
  refine ⟨_, passed.mark lastLabel hasSeqOps, ?_⟩
  have pos : (pass k st op).pos = st.pos + 20 := by rw [passed.pos, next, reads.pos]
  rw [← reads.pos] at has
  unfold resume
  rw [opsAt_succ has, parseCluster, parsed]
  dsimp only
  rw [pos]

theorem resume_last (rounds : Nat) (reads : Reads k st s)
    (has : file.Has s.front.length (CowOperation.codec.encode op)) (follows : s.Follows k op s')
    (entries : s'.entries = s.entries ++ [⟨op, data, s.dataPos k⟩]) (first : s'.ops = 0)
    (limit : file.size < 2 ^ 63) (more : s'.front.length + 20 ≤ file.size)
    (last : op.type = .cluster ∨ Plain label op ∧ n = 0) :
    ∃ st', Reads k st' s' ∧
      resume file k label (rounds + 1) st (n + 1) =
      resume file k label rounds st' (left file k s') := by
  have passed := reads.pass follows entries
  have below : (pass k st op).pos < 2 ^ 63 := by
    rw [passed.pos]
    omega
  rw [← reads.pos] at has
  rcases last with isCluster | ⟨plain, rfl⟩
  · refine ⟨pass k st op, passed, ?_⟩
    rw [← parseLoop_succ rounds passed first limit more, resume, opsAt_succ has, parseCluster]
    simp [parseOp, isCluster, after, below, -Nat.reducePow]
  · obtain ⟨lastLabel, hasSeqOps, parsed⟩ := parseOp_plain file k st plain
    refine ⟨_, passed.mark lastLabel hasSeqOps, ?_⟩
    rw [← parseLoop_succ rounds (passed.mark lastLabel hasSeqOps) first limit more, resume,
      opsAt_succ has, parseCluster, parsed]
    simp [opsAt, parseCluster, after, below, -Nat.reducePow]

variable {header : CowHeader}

section

variable (isHeader : header.headerSize.toNat = sizeofCowHeader ∧ 2 ≤ header.majorVersion.toNat ∧
    header.bufferSize.toNat < 2 ^ 31)
  (clusters : header.clusterOps.toNat = k) (grown : s.Grown k header) (on : s.On k file)

include isHeader clusters grown on

/-- The reader comes behind every stream in the file, with operations to go. -/
theorem read_grown (more : s.front.length + 20 ≤ file.size) (limit : file.size < 2 ^ 63)
    (unlabelled : ∀ entry ∈ s.entries, entry.op.type = .label → label ≠ some entry.op.source) :
    ∀ rounds, ∃ st rest, Reads k st s ∧ parseLoop file k label (rounds + s.entries.length + 1)
      (parseStart header) =
      resume file k label (rounds + rest) st (left file k s) := by
  have small : k < 2 ^ 32 := clusters ▸ header.clusterOps.isLt
  induction grown with
  | start =>
    intro rounds
    have length : (start header).front.length = sizeofCowHeader + header.bufferSize.toNat := by
      simp only [start, length_append, length_replicate]
      rfl
    have pos : (if 2 ≤ header.majorVersion.toNat ∧ 0 < header.bufferSize.toNat then
        (header.headerSize.toNat + header.bufferSize.toNat) % 2 ^ 32
        else header.headerSize.toNat) = (start header).front.length := by
      rw [length, isHeader.1, sizeofCowHeader]
      split <;> omega
    have reads : Reads k (parseStart header) (start header) := by
      refine ⟨pos, ?_, rfl, fun _ => rfl, rfl⟩
      unfold parseStart dataPos
      rw [pos]
      by_cases single : header.clusterOps = 0
      · have zero : k = 0 := by rw [← clusters, single]; rfl
        simp [single, zero, sizeofCowOperation]
      · have clustered : k ≠ 0 := fun zero =>
          single (BitVec.eq_of_toNat_eq (clusters.trans zero))
        rw [if_neg single, if_neg clustered, clusters]
        simp [sizeofCowOperation, start]
    exact ⟨_, 0, reads, parseLoop_succ rounds reads rfl limit more⟩
  | @add s item grown roomy fits space ih =>
    obtain ⟨earlier, has, -⟩ := Stream.On.of_add roomy on
    have inside := has.le_size (by
      intro empty
      have := congrArg List.length empty
      cases this)
    rw [length_encode_op] at inside
    have follows := follows_add roomy fits space
    have plain : Plain label (item.op (s.dataPos k)) :=
      ⟨fits.notCluster, fits.notFooter, unlabelled (item.entry (s.dataPos k))
        (mem_append_right _ (.head _))⟩
    have before := ih earlier inside fun entry member => unlabelled entry (mem_append_left _ member)
    have count : (s.add k (item.entry (s.dataPos k))).entries.length = s.entries.length + 1 := by
      simp [add]
    unfold Stream.Roomy at roomy
    intro rounds
    obtain ⟨st, rest, reads, parsed⟩ := before (rounds + 1)
    rw [count, show rounds + (s.entries.length + 1) + 1 =
      rounds + 1 + s.entries.length + 1 by omega, parsed]
    by_cases single : k = 0
    · rw [if_pos single] at roomy
      have one : left file k s = 0 + 1 := by
        unfold left
        rw [if_pos single]
        omega
      obtain ⟨st', reads', next⟩ := resume_last (rounds + rest) reads has follows rfl
        (by simp [add, single, roomy.1]) limit more (.inr ⟨plain, rfl⟩)
      exact ⟨st', rest, reads', by rw [← next]; congr 1; omega⟩
    · rw [if_neg single] at roomy
      have next : (s.add k (item.entry (s.dataPos k))).front.length = s.front.length + 20 := by
        simp [add, single]
      have fewer : left file k s = left file k (s.add k (item.entry (s.dataPos k))) + 1 := by
        have ops : (s.add k (item.entry (s.dataPos k))).ops = s.ops + 1 := if_neg single
        unfold left
        rw [if_neg single]
        omega
      obtain ⟨st', reads', same⟩ := resume_plain (rounds + 1 + rest) reads plain has
        follows rfl next (left file k (s.add k (item.entry (s.dataPos k))))
      refine ⟨st', 1 + rest, reads', ?_⟩
      rw [fewer, same, add_assoc]
  | @close s grown clustered within space ih =>
    obtain ⟨earlier, has⟩ := Stream.On.of_close clustered within on
    have length := length_close within clustered
    have below := opPos_le within
    have inside : s.front.length + 20 ≤ file.size := by omega
    have before := ih earlier inside fun entry member => unlabelled entry (mem_append_left _ member)
    have count : (s.close k).entries.length = s.entries.length + 1 := by simp [close]
    rw [Stream.Within, if_neg clustered] at within
    intro rounds
    obtain ⟨st, rest, reads, parsed⟩ := before (rounds + 1)
    have positive : left file k s = left file k s - 1 + 1 := by
      unfold left
      rw [if_neg clustered]
      omega
    obtain ⟨st', reads', next⟩ := resume_last (rounds + rest) reads has
      (follows_close clustered small (by rwa [Stream.Within, if_neg clustered]) space) rfl rfl limit
      more (.inl rfl)
    refine ⟨st', rest, reads', ?_⟩
    rw [count, show rounds + (s.entries.length + 1) + 1 =
      rounds + 1 + s.entries.length + 1 by omega, parsed, ← next]
    congr 1
    omega

theorem parseOps_sealed (footer : file.Has s.front.length s.footer) (limit : file.size < 2 ^ 63)
    (within : s.Within k) :
    ∀ rounds, ∃ st, parseOps (rounds + s.entries.length + 1) file header none = some (some st) ∧
      st.ops = s.entries.map Entry.op ∧ ∀ block,
      st.dataLoc.lookup block = (Stream.xorOf s block).map Entry.pos := by
  obtain ⟨op, hasOp⟩ : ∃ op, op = CowOperation.footer
      (BitVec.ofNat 64 (s.entries.length * sizeofCowOperation))
      (BitVec.ofNat 64 s.entries.length) := ⟨_, rfl⟩
  obtain ⟨has, hasData⟩ := File.has_append.mp footer
  rw [length_encode_op] at hasData
  rw [← hasOp] at has
  have data : file.read (s.front.length + 20) codec.size =
      some (codec.encode ⟨Fixed.zero 32, Fixed.zero 32⟩) := by
    have region := hasData.region
    have inside := hasData.le_size (by decide)
    rw [codec.encode_length] at region inside
    rw [File.read, if_pos inside, region]
  have inside := hasData.le_size (by decide)
  have more : s.front.length + 20 ≤ file.size := by omega
  have few := grown.count
  intro rounds
  obtain ⟨st, rest, reads, parsed⟩ := @read_grown file k none s header isHeader clusters grown on
    more limit (by simp) rounds
  have positive : left file k s = left file k s - 1 + 1 := by
    unfold Stream.Within at within
    unfold left
    split at within
    · rw [if_pos ‹_›]
      omega
    · rw [if_neg ‹_›]
      omega
  have pos : (pass k st op).pos = s.front.length + 20 := by
    simp only [pass, hasOp, CowOperation.footer, getNextOpOffset, reads.pos,
      sizeofCowOperation, u64]
    omega
  rw [← reads.pos] at has
  refine ⟨{ pass k st op with ops := st.ops, footer := some (op, ⟨Fixed.zero 32, Fixed.zero 32⟩)
    }, ?_, reads.ops, ?_⟩
  · rw [positive, resume, opsAt_succ has, parseCluster] at parsed
    have isFooter : op.type = .footer := by rw [hasOp]; rfl
    have below : s.front.length + 20 < 2 ^ 63 := by omega
    have count : st.ops.length = s.entries.length := by simp [reads.ops]
    simp only [parseOp, isFooter, pos, data, bind, Option.bind, after, below] at parsed
    rw [parseOps, clusters, parsed]
    simp only [bind, Option.bind, parseEnd, Fallible.require, count, hasOp, CowOperation.footer,
      BitVec.toNat_ofNat, sizeofCowOperation, ↓reduceIte]
    rw [Nat.mod_eq_of_lt (by omega), Nat.mod_eq_of_lt (by omega)]
    simpa [hasOp, CowOperation.footer, sizeofCowOperation] using pos.symm
  · have notXor : op.type ≠ .xor := by simp [hasOp, CowOperation.footer]
    simp only [pass, notXor]
    exact reads.loc

end

/-- An operation that was asked for, as it is read. Without a source of its own it points to its
data. -/
structure ReadAs (file : File) (item : Item) (op : CowOperation) : Prop where
  type : op.type = item.type
  newBlock : op.newBlock = item.newBlock
  source : ∀ source ∈ item.source, op.source = source
  length : op.dataLength.toNat = item.data.length
  data : item.source = none → file.region op.source.toNat op.dataLength.toNat = item.data
  place : item.source = none → sizeofCowHeader ≤ op.source.toNat ∧
    (item.data ≠ [] → op.source.toNat + item.data.length + sizeofCowFooter ≤ file.size)

/-- No two xor operations are for the same block. -/
def XorsDiffer (items : List Item) : Prop :=
  ((items.filter fun item => decide (item.type = .xor)).map Item.newBlock).Nodup

/-- The result of `ParseOps`: apart from the ends of clusters, exactly the operations that were
asked for, with their data. The data of an xor operation is found by its block. -/
structure ReadBack (file : File) (items : List Item) (st : ParseState) : Prop where
  ops : List.Forall₂ (ReadAs file) items (st.ops.filter fun op => decide (op.type ≠ .cluster))
  xors : XorsDiffer items → ∀ item ∈ items, item.type = .xor →
    ∃ pos, st.dataLoc.lookup item.newBlock = some pos ∧ file.region pos item.data.length = item.data

variable {items : List Item} {placed : List Entry}

section

variable (each : List.Forall₂ (fun item entry => entry = item.entry entry.pos) items placed)
include each

theorem readAs_entries (kept : ∀ entry ∈ placed, Stream.Stored file entry ∧
      (entry.data ≠ [] → entry.pos + entry.data.length + sizeofCowFooter ≤ file.size)) :
    List.Forall₂ (fun item entry => ReadAs file item entry.op) items placed := by
  induction each with
  | nil => exact .nil
  | @cons item entry _ _ isEntry _ ih =>
    obtain ⟨⟨has, above, pos, length⟩, inside⟩ := kept entry mem_cons_self
    refine .cons ?_ (ih fun other member => kept other (mem_cons_of_mem _ member))
    rw [isEntry] at has length inside ⊢
    have place : item.source = none → ((item.entry entry.pos).op.source).toNat = entry.pos :=
      fun free => by
        rw [Item.entry, Item.op, free]
        exact Nat.mod_eq_of_lt pos
    refine ⟨rfl, rfl, fun source own => ?_, length, fun free => ?_, fun free => ⟨?_, ?_⟩⟩
    · rw [Item.entry, Item.op, own]
      rfl
    · rw [place free, length]
      exact has.region
    · rwa [place free]
    · rw [place free]
      exact inside

theorem find_xor (differ : XorsDiffer items) {item : Item} (member : item ∈ items)
    (isXor : item.type = .xor) :
    ∃ entry, placed.find? (fun entry => decide (entry.op.type = .xor ∧
      entry.op.newBlock = item.newBlock)) = some entry ∧
      entry.data = item.data := by
  induction each with
  | nil => cases member
  | @cons first entry rest placed isEntry _ ih =>
    have type : entry.op.type = first.type := by rw [isEntry]; rfl
    have newBlock : entry.op.newBlock = first.newBlock := by rw [isEntry]; rfl
    rcases mem_cons.mp member with rfl | later
    · exact ⟨entry, find?_cons_of_pos (by simp [type, newBlock, isXor]), by rw [isEntry]; rfl⟩
    · unfold XorsDiffer at differ
      by_cases both : first.type = .xor
      · rw [filter_cons_of_pos (by simpa using both), map_cons, nodup_cons] at differ
        rw [find?_cons_of_neg]
        · exact ih differ.2 later
        · intro same
          simp only [newBlock, decide_eq_true_eq] at same
          exact differ.1 (same.2 ▸ mem_map_of_mem (mem_filter.mpr ⟨later, by simpa using isXor⟩))
      · rw [filter_cons_of_neg (by simpa using both)] at differ
        rw [find?_cons_of_neg (by simp [type, both])]
        exact ih differ later

end

theorem readBack
    (isHeader : header.headerSize.toNat = sizeofCowHeader ∧ 2 ≤ header.majorVersion.toNat ∧
      header.bufferSize.toNat < 2 ^ 31)
    (clusters : header.clusterOps.toNat = k) (several : k ≠ 1)
    (fits : ∀ item ∈ items, item.Fits k)
    (isStream : s = items.foldl (Stream.push k) (Stream.start header))
    (space : s.dataPos k < 2 ^ 63 + 2 ^ 40) (has : file.Has 0 (s.image k))
    (limit : file.size < 2 ^ 63) :
    file.Has 0 (CowHeader.codec.encode header) ∧ ∃ enough, ∀ rounds, enough ≤ rounds →
      ∃ st, parseOps rounds file header none = some (some st) ∧ ReadBack file items st := by
  have roomy : s.Roomy k := isStream ▸ Stream.roomy_pushes several
    (Stream.roomy_start several header) items
  have grown : s.Grown k header :=
    isStream ▸ Stream.Grown.pushes several .start (Stream.roomy_start several header) fits
      (isStream ▸ space)
  obtain ⟨placed, asked, each⟩ := Stream.asked_pushes fits
  rw [← isStream] at asked
  obtain ⟨front, footer⟩ := File.has_append.mp has
  rw [zero_add] at footer
  have isSealed : (s.sealed k).Grown k header ∧ (s.sealed k).Within k ∧ (s.sealed k).back = [] ∧
      (s.sealed k).asked = s.asked := by
    unfold Stream.sealed
    split
    · exact ⟨grown, roomy.within, ‹_›, rfl⟩
    · have clustered : k ≠ 0 := fun single => by
        rw [Stream.Roomy, if_pos single] at roomy
        exact absurd roomy.2 ‹_›
      exact ⟨.close grown clustered roomy.within space,
        (Stream.roomy_close several clustered).within, rfl, Stream.asked_close⟩
  obtain ⟨sealed, within, closed, same⟩ := isSealed
  have isAsked : (s.sealed k).asked = placed := same.trans asked
  have on : (s.sealed k).On k file := ⟨front, closed ▸ File.has_nil _ _⟩
  obtain ⟨started, stored⟩ := sealed.stored on
  -- the data ends in front of the footer: the same entries are in the file without it
  have short : (s.sealed k).On k (file.truncate (s.sealed k).front.length) :=
    ⟨front.truncate (le_of_eq (zero_add _)), closed ▸ File.has_nil _ _⟩
  have ended : (s.sealed k).front.length + sizeofCowFooter ≤ file.size :=
    Stream.length_footer ▸ footer.le_size (ne_nil_of_length_pos (Stream.length_footer ▸ by decide))
  have kept : ∀ entry ∈ placed, Stream.Stored file entry ∧
      (entry.data ≠ [] → entry.pos + entry.data.length + sizeofCowFooter ≤ file.size) := by
    intro entry member
    have among := (mem_filter.mp (isAsked ▸ member : entry ∈ (s.sealed k).asked)).1
    refine ⟨stored entry among, fun filled => ?_⟩
    have inside : entry.pos + entry.data.length ≤ (s.sealed k).front.length :=
      ((sealed.stored short).2 entry among).has.le_size filled
    omega
  refine ⟨(File.has_append.mp started.1).1, (s.sealed k).entries.length + 1,
    fun rounds enough => ?_⟩
  obtain ⟨st, parsed, ops, loc⟩ := parseOps_sealed isHeader clusters sealed on footer limit within
    (rounds - ((s.sealed k).entries.length + 1))
  refine ⟨st, ?_, ?_, fun differ item member isXor => ?_⟩
  · rw [← parsed]
    congr 1
    omega
  · have filtered : st.ops.filter (fun op => decide (op.type ≠ .cluster)) =
        placed.map Entry.op := by
      rw [ops, filter_map]
      exact congrArg (List.map Entry.op) isAsked
    rw [filtered, forall₂_map_right_iff]
    exact readAs_entries each kept
  · obtain ⟨entry, found, data⟩ := find_xor each differ member isXor
    have isFound : Stream.xorOf (s.sealed k) item.newBlock = some entry := by
      rw [← found, ← isAsked, Stream.asked, find?_filter, Stream.xorOf]
      congr 1
      funext other
      by_cases xor : other.op.type = .xor <;> simp [xor]
    refine ⟨entry.pos, by rw [loc, isFound]; rfl, ?_⟩
    rw [← data]
    exact (kept entry (mem_of_find?_eq_some found)).1.has.region

end CowReader

end Aosp.Snapshot
