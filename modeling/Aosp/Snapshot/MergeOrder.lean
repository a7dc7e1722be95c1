import Aosp.Lib.Lists
import Aosp.Snapshot.CowReader

/- What `VerifyMergeOps` guarantees: operations merged in place, in the order of
`GetMergeOpIter`, against the image of the snapshot. -/
namespace Aosp.Snapshot

open InPlace Fallible List CowOperation InPlace.Transfer

namespace CowReader

/-- The blocks `VerifyMergeOps` looks up are those the operation reads. -/
theorem needs_iff_neededBlock (op : CowOperation) (b : BitVec 64) :
    op.Needs b.toNat ↔ ∃ block offset, neededBlock op = some (block, offset) ∧
      (b = block ∨ offset = true ∧ b = block + 1) := by
  have quotient : (op.source / 4096).toNat = op.source.toNat / 4096 := BitVec.toNat_udiv
  have remainder : (op.source % 4096).toNat = op.source.toNat % 4096 := BitVec.toNat_umod
  have next : (op.source / 4096 + 1).toNat = op.source.toNat / 4096 + 1 := by
    change (op.source.toNat / 4096 + 1) % 2 ^ 64 = _
    omega
  have misaligned : op.source % 4096 ≠ 0 ↔ op.source.toNat % 4096 ≠ 0 := by
    rw [ne_eq, ← BitVec.toNat_inj]
    exact Iff.rfl
  cases type : op.type <;>
    simp only [CowOperation.Needs, isOrderedOp, sourceOffset, neededBlock,
      type, false_and, exists_false, reduceCtorEq, true_and,
      Option.some.injEq, Prod.mk.injEq, ↓existsAndEq, or_false, decide_eq_true_eq]
  · rw [← BitVec.toNat_inj]
    omega
  · rw [← BitVec.toNat_inj, ← BitVec.toNat_inj, misaligned]
    omega

/-- The test is a condition on pairs: no ordered operation reads what an earlier ordered one
has written. -/
theorem verifyLoop_iff (overwritten : List (BitVec 64)) (order : List CowOperation) :
    verifyLoop overwritten order = true ↔ (∀ op ∈ order, ∀ b ∈ overwritten, ¬ op.Needs b.toNat) ∧
        order.Pairwise fun earlier later => earlier.isOrderedOp = true →
        ¬ later.Needs earlier.newBlock.toNat := by
  induction order generalizing overwritten with
  | nil => simp only [verifyLoop, not_mem_nil, false_imp_iff, implies_true,
    List.Pairwise.nil, and_self]
  | cons op rest ih =>
    rw [forall_mem_cons, pairwise_cons, verifyLoop]
    cases needed : neededBlock op with
    | none =>
      have unordered : ¬ op.isOrderedOp = true := by
        cases type : op.type <;> simp [neededBlock, isOrderedOp, type] at needed ⊢
      have free : ∀ b ∈ overwritten, ¬ op.Needs b.toNat := fun b _ needs =>
        unordered needs.1
      rw [ih]
      constructor
      · rintro ⟨unread, pairs⟩
        exact ⟨⟨free, unread⟩, fun _ _ ordered => absurd ordered unordered, pairs⟩
      · rintro ⟨⟨_, unread⟩, _, pairs⟩
        exact ⟨unread, pairs⟩
    | some found =>
      obtain ⟨block, offset⟩ := found
      have ordered : op.isOrderedOp = true := by
        cases type : op.type <;> simp [neededBlock, isOrderedOp, type] at needed ⊢
      have needs : ∀ b : BitVec 64, op.Needs b.toNat ↔ b = block ∨ offset = true ∧
          b = block + 1 := by
        intro b
        simp [needs_iff_neededBlock, needed, and_assoc]
      have lookedUp : (block ∈ overwritten ∨ offset = true ∧ block + 1 ∈ overwritten) ↔
          ∃ b ∈ overwritten, op.Needs b.toNat := by
        constructor
        · rintro (here | ⟨misaligned, next⟩)
          · exact ⟨block, here, (needs block).mpr (.inl rfl)⟩
          · exact ⟨block + 1, next, (needs _).mpr (.inr ⟨misaligned, rfl⟩)⟩
        · rintro ⟨b, member, read⟩
          rcases (needs b).mp read with rfl | ⟨misaligned, rfl⟩
          · exact .inl member
          · exact .inr ⟨misaligned, member⟩
      dsimp only
      by_cases taken : ∃ b ∈ overwritten, op.Needs b.toNat
      · rw [if_pos (lookedUp.mpr taken)]
        obtain ⟨b, member, read⟩ := taken
        simp only [Bool.false_eq_true, false_iff, not_and]
        intro free
        exact absurd read (free.1 b member)
      · have free : ∀ b ∈ overwritten, ¬ op.Needs b.toNat := fun b member read =>
          taken ⟨b, member, read⟩
        rw [if_neg (fun found => taken (lookedUp.mp found)), ih]
        constructor
        · rintro ⟨unread, pairs⟩
          exact ⟨⟨free, fun later member b inside =>
              unread later member b (mem_cons_of_mem _ inside)⟩,
            fun later member _ => unread later member _ mem_cons_self, pairs⟩
        · rintro ⟨⟨_, unread⟩, first, pairs⟩
          refine ⟨fun later member b inside => ?_, pairs⟩
          rcases mem_cons.mp inside with rfl | before
          · exact first later member ordered
          · exact unread later member b before

section PrepMergeOps

variable {flag : ReaderFlags} {numMergeOps : Nat} {sequenceData : SequenceData}
  {ops : List CowOperation} {merge : MergeOps}

/-- The operations that are merged. -/
def dataOps (ops : List CowOperation) : List CowOperation :=
  ops.filter fun op => !op.isMetadataOp

/-- Every entry of `block_map` is the position of a data operation. -/
def Indexes (ops : List CowOperation) (st : PrepState) : Prop :=
  ∀ block i, st.blockMap.lookup block = some i → ∃ op, ops[i]? = some op ∧ op ∈ dataOps ops

variable {st next : PrepState} {op : CowOperation}

theorem prepSequence_blockMap (done : prepSequence sequenceData st op = some next) :
    next.blockMap = st.blockMap := by
  unfold prepSequence at done
  split at done
  · obtain ⟨blocks, _, rfl⟩ := Option.map_eq_some_iff.mp done
    rfl
  · cases done
    rfl

theorem prepData_blockMap (hasSeqOps : Bool) (st : PrepState) (op : CowOperation) (i : Nat) :
    (prepData hasSeqOps st op i).blockMap = insertBlock st.blockMap
      (op.newBlock.setWidth 32) i := by
  unfold prepData
  dsimp only
  split
  · rfl
  · split <;> rfl

variable {i : Nat}

theorem lookup_insertBlock {blockMap : List (BitVec 32 × Nat)} {block key : BitVec 32} {j : Nat}
    (found : (insertBlock blockMap block i).lookup key = some j) :
    blockMap.lookup key = some j ∨ j = i := by
  unfold insertBlock at found
  split at found
  · exact .inl found
  · rw [lookup_cons] at found
    split at found
    · exact .inr (Option.some.inj found).symm
    · exact .inl found

/-- One round adds at most the position of its own operation. -/
theorem prepOp_indexes {hasSeqOps : Bool} {entry : CowOperation × Nat}
    (member : entry ∈ ops.zipIdx) (indexes : Indexes ops st)
    (done : prepOp hasSeqOps sequenceData st entry = some next) :
    Indexes ops next := by
  unfold prepOp at done
  rw [Option.bind_eq_bind, Option.bind_eq_some_iff] at done
  obtain ⟨middle, sequenced, done⟩ := done
  have same := prepSequence_blockMap sequenced
  cases done
  have present : ops[entry.2]? = some entry.1 := mem_zipIdx_iff_getElem?.mp member
  intro block i found
  split at found
  · rw [same] at found
    exact indexes block i found
  · rename_i data
    rw [prepData_blockMap, same] at found
    rcases lookup_insertBlock found with old | rfl
    · exact indexes block i old
    · refine ⟨entry.1, present, mem_filter.mpr ⟨mem_of_getElem? present, ?_⟩⟩
      simpa using data

theorem prepMergeOps_positions
    (prepped : prepMergeOps flag numMergeOps sequenceData ops = some merge)
    (member : i ∈ merge.blockPosIndex) :
    ∃ op, ops[i]? = some op ∧ op ∈ dataOps ops := by
  unfold prepMergeOps at prepped
  simp only [Option.bind_eq_bind, Option.bind_eq_some_iff] at prepped
  obtain ⟨st, looped, _, _, positions, collected, done⟩ := prepped
  cases done
  have indexes : Indexes ops st :=
    foldlM_some_invariant _ (Indexes ops) ops.zipIdx
      (fun _ _ _ inside kept step => prepOp_indexes inside kept step) _ _
      (fun _ _ found => by cases found) looped
  obtain ⟨block, _, found⟩ := mem_of_mapM_eq_some _ collected member
  exact indexes block i found

theorem mem_dataOps_of_mem_iter
    (prepped : prepMergeOps flag numMergeOps sequenceData ops = some merge)
    {ignoreProgress : Bool} (member : op ∈ getMergeOpIter ops merge ignoreProgress) :
    op ∈ dataOps ops := by
  obtain ⟨i, inside, found⟩ := mem_filterMap.mp member
  obtain ⟨other, present, data⟩ := prepMergeOps_positions prepped (mem_of_mem_drop inside)
  rw [found] at present
  cases present
  exact data

variable {payload : Payload} {order data : List CowOperation}

/-- No operation reads a block that an earlier replace or zero operation has written.
`VerifyMergeOps` does not look at these. -/
def DataUnread (order : List CowOperation) : Prop :=
  order.Pairwise fun earlier later => earlier.isKnown = true → ¬ earlier.isOrderedOp = true →
    ¬ later.Needs earlier.newBlock.toNat

instance (order : List CowOperation) : Decidable (DataUnread order) :=
  inferInstanceAs (Decidable (List.Pairwise _ _))

/-- An operation that leaves every device as it is. -/
def Inert (payload : Payload) (op : CowOperation) : Prop :=
  ∀ base, (op.transfer payload).apply base = base

/-- Both tests together make the order safe. -/
theorem inOrder_of_verified (verified : verifyLoop [] order = true) (unread : DataUnread order) :
    InPlace.InOrder (order.map (CowOperation.transfer payload)) := by
  rw [InPlace.InOrder, pairwise_map]
  have tested := ((verifyLoop_iff [] order).mp verified).2
  apply (tested.and unread).imp
  rintro earlier later ⟨ordered, unordered⟩ a written reads
  obtain ⟨known, block⟩ := transfer_writes.mp written
  have needs : later.Needs earlier.newBlock.toNat := (needs_iff_reads payload).mpr ⟨a, reads, block⟩
  by_cases isOrdered : earlier.isOrderedOp = true
  · exact ordered isOrdered needs
  · exact unordered known isOrdered needs

section

variable (visited : ∀ op ∈ order, op ∈ data)
  (distinct : ∀ p ∈ data, ∀ q ∈ data, p.newBlock = q.newBlock → p = q)
include visited distinct

/-- The block of an operation that the order leaves out is written by none of the others. -/
theorem unwritten_of_leftOut {op : CowOperation} (member : op ∈ data)
    (leftOut : op ∉ order) {a : Nat} (writes : (op.transfer payload).writes a = true) :
    ∀ t ∈ order.map (CowOperation.transfer payload), ¬ t.writes a = true := by
  intro t inOrder writesToo
  obtain ⟨other, here, rfl⟩ := mem_map.mp inOrder
  have block := (transfer_writes.mp writes).2.symm.trans (transfer_writes.mp writesToo).2
  have same := distinct op member other (visited other here) (BitVec.eq_of_toNat_eq block)
  exact leftOut (same ▸ here)

/-- Operations that are not visited make no difference when they are inert. -/
theorem snapshotImage_of_inert
    (inert : ∀ op ∈ data, op ∉ order → Inert payload op) (base : Device) :
    snapshotImage payload order base = snapshotImage payload data base := by
  have oneData : InPlace.OneWriter (data.map (transfer payload)) := oneWriter_of_distinct distinct
  have oneOrder : InPlace.OneWriter (order.map (transfer payload)) :=
    oneWriter_of_distinct fun p inP q inQ =>
      distinct p (visited p inP) q (visited q inQ)
  funext a
  by_cases written : ∃ op ∈ data, (op.transfer payload).writes a = true
  · obtain ⟨op, member, writes⟩ := written
    rw [snapshotImage, snapshotImage, image_of_mem oneData (mem_map_of_mem member) writes]
    by_cases isVisited : op ∈ order
    · rw [image_of_mem oneOrder (mem_map_of_mem isVisited) writes]
    · have same := congrFun (inert op member isVisited base) a
      rw [apply, if_pos writes] at same
      rw [same]
      exact image_of_unwritten (unwritten_of_leftOut visited distinct member isVisited writes) base
  · have unwritten : ∀ op ∈ data, ¬ (op.transfer payload).writes a = true := fun op member writes =>
      written ⟨op, member, writes⟩
    rw [snapshotImage, snapshotImage, image_of_unwritten, image_of_unwritten]
    · intro t member
      obtain ⟨op, inside, rfl⟩ := mem_map.mp member
      exact unwritten op inside
    · intro t member
      obtain ⟨op, inside, rfl⟩ := mem_map.mp member
      exact unwritten op (visited op inside)

end

variable {op : CowOperation}

/-- What an operation without a source writes does not depend on the device. -/
theorem content_of_unordered (unordered : ¬ op.isOrderedOp = true) (m n : Device) :
    op.content payload m = op.content payload n := by
  funext x
  cases type : op.type <;> simp only [content, type]
  · exact absurd (by simp [isOrderedOp, type]) unordered
  · exact absurd (by simp [isOrderedOp, type]) unordered

/-- Two devices that differ in one byte of the source give different contents. -/
theorem content_ne (ordered : op.isOrderedOp = true) {m n : Device} {x : Nat}
    (different : m (op.sourceOffset + x) ≠ n (op.sourceOffset + x)) :
    op.content payload m x ≠ op.content payload n x := by
  intro same
  cases type : op.type <;> simp only [isOrderedOp, type, Bool.false_eq_true] at ordered
  · simp only [content, type] at same
    exact different same
  · simp only [content, type] at same
    have cancelled := congrArg (· ^^^ payload op x) same
    simp only [BitVec.xor_assoc, BitVec.xor_self, BitVec.xor_zero] at cancelled
    exact different cancelled

section

variable (visited : ∀ op ∈ order, op ∈ data)
  (distinct : ∀ p ∈ data, ∀ q ∈ data, p.newBlock = q.newBlock → p = q)
  (sound : ∀ base, mergeInPlace payload order base = snapshotImage payload data base)

include visited distinct sound

/-- In place an operation that reads overwritten data gets something else than from the base,
unless the base happens to hold that data. -/
theorem dataUnread_of_sound : DataUnread order := by
  rw [DataUnread, pairwise_iff_forall_sublist]
  intro written reader pair known unordered needs
  obtain ⟨front, back, split, inFront, inBack⟩ := cons_sublist_iff.mp pair
  obtain ⟨middle, rest, splitBack, absent⟩ := Lists.exists_last (singleton_sublist.mp inBack)
  have order_eq : order = (front ++ middle) ++ reader :: rest := by
    simp [split, splitBack]
  have inOrder : reader ∈ order := by
    rw [order_eq]
    exact mem_append_right _ mem_cons_self
  have one : InPlace.OneWriter ((front ++ middle).map (transfer payload)) := by
    apply oneWriter_of_distinct
    intro p inP q inQ
    have memberOf : ∀ op ∈ front ++ middle, op ∈ data := fun op inside => visited op (by
      rw [order_eq]
      exact mem_append_left _ inside)
    exact distinct p (memberOf p inP) q (memberOf q inQ)
  obtain ⟨r, ⟨ordered, low, high⟩, block⟩ := (needs_iff_reads payload).mp needs
  -- the base differs everywhere from the data that overwrites it
  let base : Device := fun a => ~~~ written.content payload (fun _ => 0) (a % 4096)
  let merged : Device := InPlace.run ((front ++ middle).map (transfer payload)) base
  let cell := reader.newBlock.toNat * 4096 + (r - reader.sourceOffset)
  have cellBlock : cell / 4096 = reader.newBlock.toNat := by omega
  have cellOffset : cell % 4096 = r - reader.sourceOffset := by omega
  have position : reader.sourceOffset + (r - reader.sourceOffset) = r := by omega
  have writes : (reader.transfer payload).writes cell = true :=
    transfer_writes.mpr ⟨isKnown_of_isOrderedOp ordered, cellBlock⟩
  have overwritten : merged r = written.content payload (fun _ => 0) (r % 4096) :=
    run_of_constant one (mem_map_of_mem (mem_append_left _ inFront))
      (transfer_writes.mpr ⟨known, block⟩)
      (fun m n => congrFun (content_of_unordered unordered m n) _) base fun _ => 0
  have last : ∀ t ∈ rest.map (transfer payload), ¬ t.writes cell = true := by
    intro t member writesToo
    obtain ⟨other, inRest, rfl⟩ := mem_map.mp member
    have sameBlock := (transfer_writes.mp writesToo).2
    rw [cellBlock] at sameBlock
    have inData : other ∈ data := visited other (by
      rw [order_eq]
      exact mem_append_right _ (mem_cons_of_mem _ inRest))
    have same := distinct reader (visited reader inOrder) other inData
      (BitVec.eq_of_toNat_eq sameBlock)
    exact absent (same ▸ inRest)
  have inPlace : mergeInPlace payload order base cell =
      reader.content payload merged (r - reader.sourceOffset) := by
    rw [mergeInPlace, order_eq, map_append, map_cons, run_append, InPlace.run]
    refine (run_of_unwritten last _).trans ((if_pos writes).trans ?_)
    exact congrArg (reader.content payload merged) cellOffset
  have onCopy : snapshotImage payload data base cell =
      reader.content payload base (r - reader.sourceOffset) := by
    rw [snapshotImage, image_of_mem (oneWriter_of_distinct distinct)
      (mem_map_of_mem (visited reader inOrder)) writes]
    exact congrArg (reader.content payload base) cellOffset
  refine content_ne ordered ?_ (inPlace.symm.trans ((congrFun (sound base) cell).trans onCopy))
  rw [position, overwritten]
  intro same
  have values : _ = (~~~ written.content payload (fun _ => 0) (r % 4096)).toNat :=
    congrArg BitVec.toNat same
  rw [BitVec.toNat_not] at values
  omega

/-- An operation that the order leaves out must not change anything. -/
theorem inert_of_sound (member : op ∈ data) (leftOut : op ∉ order) : Inert payload op := by
  intro base
  funext a
  by_cases writes : (op.transfer payload).writes a = true
  · have unwritten := unwritten_of_leftOut visited distinct member leftOut writes
    have here := congrFun (sound base) a
    rw [mergeInPlace, run_of_unwritten unwritten, snapshotImage,
      image_of_mem (oneWriter_of_distinct distinct) (mem_map_of_mem member) writes]
      at here
    rw [apply, if_pos writes, here]
  · rw [apply, if_neg writes]

end

/-- When `VerifyMergeOps` returns true, merging in place gives the image of the snapshot on
every base exactly when no operation reads what a replace or zero operation before it has
written, and operations that the order leaves out are inert. -/
theorem verifyMergeOps_sound_iff (payload : Payload) {flag : ReaderFlags} {numMergeOps : Nat}
    {sequenceData : SequenceData} {ops : List CowOperation} {merge : MergeOps}
    (distinct : ∀ p ∈ dataOps ops, ∀ q ∈ dataOps ops, p.newBlock = q.newBlock → p = q)
    (prepped : prepMergeOps flag numMergeOps sequenceData ops = some merge)
    (verified : verifyMergeOps ops merge = true) :
    (∀ base, mergeInPlace payload (getMergeOpIter ops merge true) base =
        snapshotImage payload (dataOps ops) base) ↔ DataUnread (getMergeOpIter ops merge true) ∧
        ∀ op ∈ dataOps ops, op ∉ getMergeOpIter ops merge true → Inert payload op := by
  have visited : ∀ op ∈ getMergeOpIter ops merge true, op ∈ dataOps ops := fun op member =>
    mem_dataOps_of_mem_iter prepped member
  constructor
  · intro sound
    exact ⟨dataUnread_of_sound visited distinct sound,
      fun op member leftOut => inert_of_sound visited distinct sound member leftOut⟩
  · rintro ⟨unread, inert⟩ base
    rw [← snapshotImage_of_inert visited distinct inert base]
    exact run_eq_image (oneWriter_of_distinct fun p inP q inQ =>
      distinct p (visited p inP) q (visited q inQ)) (inOrder_of_verified verified unread) base

end PrepMergeOps

/-- Data of ones in block 3, and block 7 as a copy of block 3. -/
def replaceThree : CowOperation := ⟨.replace, 0, 4096, 3, 8192⟩

def copyThree : CowOperation := ⟨.copy, 0, 0, 7, 3⟩

def ones : Payload := fun _ _ => 1

/-- A sequence operation that puts block 3 in front of block 7. -/
def sequencedOps : List CowOperation := [⟨.sequence, 0, 8, 0, 4096⟩, replaceThree, copyThree]

def threeThenSeven : SequenceData := fun _ => some [3, 7]

theorem verifyMergeOps_misses_data :
    ∃ merge, prepMergeOps .userspaceMerge 0 threeThenSeven sequencedOps = some merge ∧
      getMergeOpIter sequencedOps merge true = [replaceThree, copyThree] ∧
      verifyMergeOps sequencedOps merge = true ∧
      mergeInPlace ones (getMergeOpIter sequencedOps merge true) (fun _ => 0) ≠
        snapshotImage ones (dataOps sequencedOps) fun _ => 0 := by
  refine ⟨_, rfl, by decide, by decide, fun same => ?_⟩
  have atSeven := congrFun same 28672
  revert atSeven
  decide

theorem verifyMergeOps_sound_unsequenced :
    ∃ merge, prepMergeOps .userspaceMerge 0 (fun _ => none) [replaceThree, copyThree] = some merge ∧
      getMergeOpIter [replaceThree, copyThree] merge true = [copyThree, replaceThree] ∧
      ∀ base, mergeInPlace ones (getMergeOpIter [replaceThree, copyThree] merge true) base =
        snapshotImage ones (dataOps [replaceThree, copyThree]) base := by
  have prepped : ∃ merge, prepMergeOps .userspaceMerge 0 (fun _ => none) [replaceThree, copyThree] =
      some merge ∧ getMergeOpIter [replaceThree, copyThree] merge true = [copyThree, replaceThree] ∧
      verifyMergeOps [replaceThree, copyThree] merge = true := ⟨_, rfl, by decide, by decide⟩
  obtain ⟨merge, prepped, order, verified⟩ := prepped
  refine ⟨merge, prepped, order, (verifyMergeOps_sound_iff ones ?_ prepped verified).mpr ⟨?_, ?_⟩⟩
  · decide
  · rw [order]
    decide
  · intro op member leftOut
    have visited : ∀ op ∈ dataOps [replaceThree, copyThree], op ∈ [copyThree, replaceThree] := by
      decide
    rw [order] at leftOut
    exact absurd (visited op member) leftOut

end CowReader

end Aosp.Snapshot
