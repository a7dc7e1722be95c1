import Aosp.Snapshot.MergeOrder
import Mathlib.Data.List.Perm.Basic

/- Which operations `PrepMergeOps` puts where: first the blocks the sequence data names, or the
ordered operations when there is none, then all others by number. -/
namespace Aosp.Snapshot

open Fallible List CowOperation

namespace CowReader

/-- A block number as the keys of `block_map` hold it. -/
def block32 (op : CowOperation) : BitVec 32 := op.newBlock.setWidth 32

section Loop

variable (hasSeqOps : Bool) (sequenceData : SequenceData)

/-- The blocks an operation names, if it is a sequence operation. -/
def namedBy (op : CowOperation) : List (BitVec 32) :=
  match op.type with
  | .sequence => (sequenceData op).getD []
  | _ => []

/-- All blocks that sequence operations name. -/
def namedBlocks (ops : List CowOperation) : List (BitVec 32) := ops.flatMap (namedBy sequenceData)

/-- The block an operation adds to the front of the order without being named. -/
def frontBlock (op : CowOperation) : List (BitVec 32) :=
  if !op.isMetadataOp && (!hasSeqOps && op.isOrderedOp) then [block32 op] else []

/-- The front of the merge order. -/
def frontBlocks (ops : List CowOperation) : List (BitVec 32) :=
  ops.flatMap fun op => namedBy sequenceData op ++ frontBlock hasSeqOps op

/-- Whether an operation goes to `other_ops`, with the blocks named so far. -/
def isOther (named : List (BitVec 32)) (op : CowOperation) : Bool :=
  !op.isMetadataOp && !(!hasSeqOps && op.isOrderedOp) && !named.contains (block32 op)

/-- The operations of `other_ops`, in the order of the stream. -/
def otherOps : List (BitVec 32) → List CowOperation → List CowOperation
  | _, [] => []
  | named, op :: rest =>
    (if isOther hasSeqOps (named ++ namedBy sequenceData op) op then [op] else []) ++
      otherOps (named ++ namedBy sequenceData op) rest

/-- The data operation that `block_map` finds for a block. -/
def opAt (ops : List CowOperation) (block : BitVec 32) : Option CowOperation :=
  (dataOps ops).find? fun op => block32 op == block

theorem otherOps_append (named : List (BitVec 32)) (front back : List CowOperation) :
    otherOps hasSeqOps sequenceData named (front ++ back) =
      otherOps hasSeqOps sequenceData named front ++
        otherOps hasSeqOps sequenceData (named ++ namedBlocks sequenceData front) back := by
  induction front generalizing named with
  | nil => simp only [nil_append, otherOps, namedBlocks, flatMap_nil, append_nil]
  | cons op rest ih =>
    simp [otherOps, ih, namedBlocks]

/-- What the loop of `PrepMergeOps` has built from the operations behind it. -/
structure Prepared (ops : List CowOperation) (done : List (CowOperation × Nat)) (st : PrepState) :
    Prop where
  front : st.mergeOpBlocks = frontBlocks hasSeqOps sequenceData (done.map Prod.fst)
  named : st.seqOpsSet = namedBlocks sequenceData (done.map Prod.fst)
  others : st.otherOps = (otherOps hasSeqOps sequenceData [] (done.map Prod.fst)).map block32
  found : (∀ entry ∈ done, ops[entry.2]? = some entry.1) → ∀ block,
    st.blockMap.lookup block = none ∧ opAt (done.map Prod.fst) block = none ∨
      ∃ i op, st.blockMap.lookup block = some i ∧ ops[i]? = some op ∧
      opAt (done.map Prod.fst) block = some op

variable {st next : PrepState}

theorem prepSequence_eq_some {op : CowOperation}
    (done : prepSequence sequenceData st op = some next) :
    next = { st with
      mergeOpBlocks := st.mergeOpBlocks ++ namedBy sequenceData op
      seqOpsSet := st.seqOpsSet ++ namedBy sequenceData op } := by
  unfold prepSequence at done
  unfold namedBy
  split at done
  · rename_i isSequence
    obtain ⟨blocks, read, rfl⟩ := Option.map_eq_some_iff.mp done
    simp [isSequence, read]
  · cases done
    simp

variable {entry : CowOperation × Nat}

theorem prepOp_eq_some (done : prepOp hasSeqOps sequenceData st entry = some next) :
    next.mergeOpBlocks = st.mergeOpBlocks ++
        (namedBy sequenceData entry.1 ++ frontBlock hasSeqOps entry.1) ∧
      next.seqOpsSet = st.seqOpsSet ++ namedBy sequenceData entry.1 ∧ next.otherOps = st.otherOps ++
        (if isOther hasSeqOps (st.seqOpsSet ++ namedBy sequenceData entry.1) entry.1
        then [block32 entry.1] else []) ∧
      next.blockMap = if entry.1.isMetadataOp then st.blockMap
        else insertBlock st.blockMap (block32 entry.1) entry.2 := by
  unfold prepOp at done
  rw [Option.bind_eq_bind, Option.bind_eq_some_iff] at done
  obtain ⟨middle, sequenced, done⟩ := done
  rw [prepSequence_eq_some sequenceData sequenced] at done
  cases done
  cases metadata : entry.1.isMetadataOp with
  | true => simp [frontBlock, isOther, metadata]
  | false =>
    simp only [frontBlock, isOther, prepData, metadata]
    cases first : (!hasSeqOps && entry.1.isOrderedOp) with
    | true => simp [block32]
    | false =>
      by_cases named : block32 entry.1 ∈ st.seqOpsSet ++ namedBy sequenceData entry.1
      · have isNamed := named
        unfold block32 at isNamed
        simp [isNamed, block32]
      · have notNamed := named
        unfold block32 at notNamed
        simp [notNamed, block32]

theorem opAt_snoc (ops : List CowOperation) (op : CowOperation) (block : BitVec 32) :
    opAt (ops ++ [op]) block =
      (opAt ops block).or (if op.isMetadataOp = false ∧ block32 op = block then some op
      else none) := by
  unfold opAt dataOps
  cases metadata : op.isMetadataOp with
  | true => simp [metadata]
  | false =>
    by_cases same : block32 op = block
    · simp [metadata]
    · simp [metadata]

theorem prepared_step {ops : List CowOperation} {done : List (CowOperation × Nat)}
    (prepared : Prepared hasSeqOps sequenceData ops done st)
    (step : prepOp hasSeqOps sequenceData st entry = some next) :
    Prepared hasSeqOps sequenceData ops (done ++ [entry]) next := by
  obtain ⟨front, named, others, blockMap⟩ := prepOp_eq_some hasSeqOps sequenceData step
  have last : (done ++ [entry]).map Prod.fst = done.map Prod.fst ++ [entry.1] := by
    rw [map_append, map_singleton]
  refine ⟨?_, ?_, ?_, ?_⟩
  · rw [front, prepared.front]
    simp [frontBlocks]
  · rw [named, prepared.named]
    simp [namedBlocks]
  · rw [last, others, prepared.others, prepared.named, otherOps_append]
    simp only [otherOps, nil_append, map_append]
    split <;> rfl
  · intro present block
    have before := prepared.found (fun e member => present e (mem_append_left _ member)) block
    have here := present entry (mem_append_right _ (mem_singleton_self _))
    rw [last, opAt_snoc, blockMap]
    cases metadata : entry.1.isMetadataOp with
    | true => simpa using before
    | false =>
      simp only [Bool.false_eq_true, ↓reduceIte, true_and]
      unfold insertBlock
      rcases before with ⟨absent, nothing⟩ | ⟨i, op, present, isOp, known⟩
      · by_cases same : block32 entry.1 = block
        · right
          refine ⟨entry.2, entry.1, ?_, here, ?_⟩
          · rw [same, absent]
            simp
          · rw [nothing, if_pos same, Option.none_or]
        · left
          refine ⟨?_, by rw [nothing, if_neg same, Option.none_or]⟩
          have other : (block == block32 entry.1) = false := by
            simpa using fun equal : block = block32 entry.1 => same equal.symm
          split
          · exact absent
          · rw [lookup_cons, other, absent]
      · right
        refine ⟨i, op, ?_, isOp, by simp [known]⟩
        split
        · exact present
        · rename_i fresh
          have other : (block == block32 entry.1) = false := by
            rw [beq_eq_false_iff_ne]
            rintro rfl
            rw [present] at fresh
            exact fresh rfl
          rw [lookup_cons, other, present]

end Loop

section Order

variable {flag : ReaderFlags} {numMergeOps : Nat} {sequenceData : SequenceData}
  {ops : List CowOperation} {merge : MergeOps}

/-- Whether the stream has a sequence operation (`has_seq_ops_`). -/
def hasSeqOps (ops : List CowOperation) : Bool := ops.any fun op => decide (op.type = .sequence)

/-- The blocks in merge order. -/
def orderBlocks (flag : ReaderFlags) (sequenceData : SequenceData) (ops : List CowOperation) :
    List (BitVec 32) :=
  frontBlocks (hasSeqOps ops) sequenceData ops ++
    sortOthers flag ((otherOps (hasSeqOps ops) sequenceData [] ops).map block32)

section

variable (prepped : prepMergeOps flag numMergeOps sequenceData ops = some merge)

include prepped

/-- The order consists of the operations found for its blocks, and each block has one. -/
theorem getMergeOpIter_forall₂ :
    List.Forall₂ (fun block op => opAt ops block = some op) (orderBlocks flag sequenceData ops)
      (getMergeOpIter ops merge true) := by
  unfold prepMergeOps at prepped
  simp only [Option.bind_eq_bind, Option.bind_eq_some_iff] at prepped
  obtain ⟨st, looped, _, _, positions, collected, done⟩ := prepped
  cases done
  have prepared : Prepared (hasSeqOps ops) sequenceData ops ops.zipIdx st := foldlM_some_done _ _
    (fun _ _ _ _ kept step => prepared_step _ _ kept step) [] _ _ _ ⟨rfl, rfl, rfl, fun _ _ =>
    .inl ⟨rfl, rfl⟩⟩ looped
  have fsts : ops.zipIdx.map Prod.fst = ops := zipIdx_map_fst 0 ops
  have found := prepared.found fun entry member => mem_zipIdx_iff_getElem?.mp member
  have front := prepared.front
  have others := prepared.others
  simp only [fsts] at front others found
  rw [mapM_eq_some, front, others] at collected
  change List.Forall₂ _ (orderBlocks flag sequenceData ops) _ at collected
  unfold getMergeOpIter
  simp only [↓reduceIte, drop_zero]
  generalize orderBlocks flag sequenceData ops = blocks at collected ⊢
  induction collected with
  | nil => exact List.Forall₂.nil
  | cons here _ ih =>
    rcases found _ with ⟨absent, _⟩ | ⟨i, op, present, isOp, known⟩
    · rw [absent] at here
      cases here
    · rw [present] at here
      cases here
      rw [filterMap_cons_some isOp]
      exact List.Forall₂.cons known ih

theorem getMergeOpIter_eq_filterMap :
    getMergeOpIter ops merge true = (orderBlocks flag sequenceData ops).filterMap (opAt ops) := by
  have found := getMergeOpIter_forall₂ prepped
  generalize orderBlocks flag sequenceData ops = blocks at found ⊢
  generalize getMergeOpIter ops merge true = order at found ⊢
  induction found with
  | nil => rfl
  | cons here _ ih => rw [filterMap_cons_some here, ← ih]

end

variable {op : CowOperation}

theorem opAt_eq_some {block : BitVec 32} (found : opAt ops block = some op) :
    op ∈ dataOps ops ∧ block32 op = block := by
  refine ⟨mem_of_find?_eq_some found, ?_⟩
  simpa using find?_some found

theorem map_block32_of_forall₂ {blocks : List (BitVec 32)} {order : List CowOperation}
    (found : List.Forall₂ (fun block op => opAt ops block = some op) blocks order) :
    order.map block32 = blocks := by
  induction found with
  | nil => rfl
  | cons here _ ih => rw [map_cons, ih, (opAt_eq_some here).2]

/-- An operation of the remainder stands in the stream with no sequence operation before it
that names it. -/
theorem mem_otherOps (isSequenced : Bool) {named : List (BitVec 32)} :
    op ∈ otherOps isSequenced sequenceData named ops ↔ ∃ front back, ops = front ++ op :: back ∧
      isOther isSequenced (named ++ namedBlocks sequenceData (front ++ [op])) op = true := by
  induction ops generalizing named with
  | nil => simp [otherOps]
  | cons first rest ih =>
    rw [otherOps, mem_append, ih]
    constructor
    · rintro (here | ⟨front, back, rfl, other⟩)
      · split at here
        · rename_i other
          cases mem_singleton.mp here
          exact ⟨[], rest, rfl, by simpa [namedBlocks] using other⟩
        · cases here
      · refine ⟨first :: front, back, rfl, ?_⟩
        simpa [namedBlocks] using other
    · rintro ⟨front, back, split, other⟩
      cases front with
      | nil =>
        cases split
        left
        have isOther : isOther isSequenced (named ++ namedBy sequenceData op) op = true := by
          simpa [namedBlocks] using other
        rw [if_pos isOther]
        exact mem_singleton_self _
      | cons _ front =>
        cases split
        right
        exact ⟨front, back, rfl, by simpa [namedBlocks] using other⟩

theorem otherOps_sublist (isSequenced : Bool) (sequenceData : SequenceData)
    (named : List (BitVec 32)) (ops : List CowOperation) :
    (otherOps isSequenced sequenceData named ops).Sublist (dataOps ops) := by
  induction ops generalizing named with
  | nil => exact List.Sublist.refl _
  | cons op rest ih =>
    rw [otherOps, dataOps, filter_cons]
    split
    · rename_i other
      have data : (!op.isMetadataOp) = true := by
        simp only [isOther, Bool.and_eq_true] at other
        exact other.1.1
      rw [if_pos data]
      exact (ih _).cons_cons op
    · split
      · exact (ih _).cons op
      · exact ih _

/-- The block numbers that the 32 bit keys tell apart, and that `int` does not make negative. -/
structure SmallBlocks (ops : List CowOperation) : Prop where
  distinct : ((dataOps ops).map CowOperation.newBlock).Nodup
  small : ∀ op ∈ dataOps ops, op.newBlock.toNat < 2 ^ 31

/-- Every data operation that sequence data names stands behind the sequence operation that
names it. -/
def NamedBehind (sequenceData : SequenceData) (ops : List CowOperation) : Prop :=
  ∀ front op back, ops = front ++ op :: back → op.isMetadataOp = false →
    block32 op ∈ namedBlocks sequenceData ops → block32 op ∈ namedBlocks sequenceData front

theorem block32_toNat (small : op.newBlock.toNat < 2 ^ 31) :
    (block32 op).toNat = op.newBlock.toNat := by
  rw [block32, BitVec.toNat_setWidth]
  omega

theorem SmallBlocks.eq_of_block32 (blocks : SmallBlocks ops) {p q : CowOperation}
    (inP : p ∈ dataOps ops) (inQ : q ∈ dataOps ops) (same : block32 p = block32 q) :
    p = q := by
  apply inj_on_of_nodup_map blocks.distinct inP inQ
  apply BitVec.eq_of_toNat_eq
  rw [← block32_toNat (blocks.small p inP), ← block32_toNat (blocks.small q inQ), same]

theorem SmallBlocks.nodup (blocks : SmallBlocks ops) : ((dataOps ops).map block32).Nodup :=
  List.Nodup.map_on (fun _ inP _ inQ same => blocks.eq_of_block32 inP inQ same)
    blocks.distinct.of_map

theorem SmallBlocks.opAt_block32 (blocks : SmallBlocks ops) (member : op ∈ dataOps ops) :
    opAt ops (block32 op) = some op := by
  cases found : opAt ops (block32 op) with
  | none =>
    have differs := find?_eq_none.mp found op member
    simp at differs
  | some other =>
    obtain ⟨inside, same⟩ := opAt_eq_some found
    rw [blocks.eq_of_block32 inside member same]

theorem namedBy_of_data (data : op.isMetadataOp = false) : namedBy sequenceData op = [] := by
  unfold namedBy
  split
  · rename_i isSequence
    simp [isMetadataOp, isSequence] at data
  · rfl

variable {front : List CowOperation}

theorem namedBlocks_snoc (data : op.isMetadataOp = false) :
    namedBlocks sequenceData (front ++ [op]) = namedBlocks sequenceData front := by
  rw [namedBlocks, flatMap_append, flatMap_singleton, namedBy_of_data data, append_nil, namedBlocks]

theorem frontBlocks_of_sequenced (ops : List CowOperation) :
    frontBlocks true sequenceData ops = namedBlocks sequenceData ops := by
  unfold frontBlocks namedBlocks
  congr 1
  simp [frontBlock]

theorem namedBlocks_of_unsequenced (sequenceData : SequenceData)
    (unsequenced : hasSeqOps ops = false) :
    namedBlocks sequenceData ops = [] := by
  rw [namedBlocks, flatMap_eq_nil_iff]
  intro op member
  have differs := any_eq_false.mp unsequenced op member
  unfold namedBy
  split
  · rename_i isSequence
    simp [isSequence] at differs
  · rfl

theorem frontBlocks_of_unsequenced (unsequenced : hasSeqOps ops = false) :
    frontBlocks false sequenceData ops =
      ((dataOps ops).filter CowOperation.isOrderedOp).map block32 := by
  have unnamed := namedBlocks_of_unsequenced sequenceData unsequenced
  clear unsequenced
  induction ops with
  | nil => rfl
  | cons op rest ih =>
    rw [namedBlocks, flatMap_cons, append_eq_nil_iff] at unnamed
    rw [frontBlocks, flatMap_cons, unnamed.1]
    change frontBlock false op ++ frontBlocks false sequenceData rest = _
    rw [ih unnamed.2, dataOps, dataOps]
    cases metadata : op.isMetadataOp with
    | true => simp [frontBlock, metadata]
    | false =>
      cases ordered : op.isOrderedOp with
      | true => simp [frontBlock, metadata, ordered]
      | false => simp [frontBlock, ordered]

variable {block : BitVec 32}

theorem mem_sortOthers {others : List (BitVec 32)} :
    block ∈ sortOthers flag others ↔ block ∈ others := by
  cases flag <;> exact mem_insertionSort _

theorem sortOthers_perm (others : List (BitVec 32)) : (sortOthers flag others).Perm others := by
  cases flag <;> exact perm_insertionSort _ _

theorem mem_namedBlocks_append {back : List CowOperation}
    (named : block ∈ namedBlocks sequenceData front) :
    block ∈ namedBlocks sequenceData (front ++ back) := by
  rw [namedBlocks, flatMap_append]
  exact mem_append_left _ named

theorem data_of_mem (member : op ∈ dataOps ops) :
    op.isMetadataOp = false ∧ ∃ front back, ops = front ++ op :: back := by
  obtain ⟨inside, notMetadata⟩ := mem_filter.mp member
  exact ⟨by simpa using notMetadata, append_of_mem inside⟩

theorem mem_orderBlocks (flag : ReaderFlags) (sequenceData : SequenceData)
    (member : op ∈ dataOps ops) :
    block32 op ∈ orderBlocks flag sequenceData ops := by
  obtain ⟨data, front, back, split⟩ := data_of_mem member
  unfold orderBlocks
  rw [mem_append, mem_sortOthers]
  by_cases first : (!hasSeqOps ops && op.isOrderedOp) = true
  · left
    refine mem_flatMap.mpr ⟨op, mem_of_mem_filter member, mem_append_right _ ?_⟩
    rw [frontBlock, data, first]
    exact mem_singleton_self _
  · by_cases named : block32 op ∈ namedBlocks sequenceData front
    · left
      have inStream : block32 op ∈ namedBlocks sequenceData ops := by
        rw [split]
        exact mem_namedBlocks_append named
      obtain ⟨namer, isIn, names⟩ := mem_flatMap.mp inStream
      exact mem_flatMap.mpr ⟨namer, isIn, mem_append_left _ names⟩
    · right
      refine mem_map_of_mem ((mem_otherOps _).mpr ⟨front, back, split, ?_⟩)
      rw [nil_append, namedBlocks_snoc data]
      simp [isOther, data, named, first]

/-- An operation of the remainder is a data operation that is not named from before. -/
theorem mem_others_iff (behind : NamedBehind sequenceData ops) (sequenced : hasSeqOps ops = true) :
    op ∈ otherOps (hasSeqOps ops) sequenceData [] ops ↔
      op ∈ dataOps ops ∧ block32 op ∉ namedBlocks sequenceData ops := by
  rw [mem_otherOps]
  constructor
  · rintro ⟨front, back, split, other⟩
    simp only [isOther, Bool.and_eq_true] at other
    have data : op.isMetadataOp = false := by simpa using other.1.1
    rw [namedBlocks_snoc data] at other
    have unnamed : block32 op ∉ namedBlocks sequenceData front := by simpa using other.2
    refine ⟨mem_filter.mpr ⟨?_, by simpa using data⟩, fun named =>
      unnamed (behind front op back split data named)⟩
    rw [split]
    exact mem_append_right _ mem_cons_self
  · rintro ⟨member, unnamed⟩
    obtain ⟨data, front, back, split⟩ := data_of_mem member
    have unnamedBefore : block32 op ∉ namedBlocks sequenceData front := fun named => unnamed (by
      rw [split]
      exact mem_namedBlocks_append named)
    refine ⟨front, back, split, ?_⟩
    rw [namedBlocks_snoc data]
    simp [isOther, data, sequenced, unnamedBefore]

/-- The operations that `MergeReplaceZeroOps` merges. -/
def isReplaceOrZero (op : CowOperation) : Bool :=
  match op.type with
  | .replace | .zero => true
  | _ => false

/-- No copy or xor operation comes behind a replace or zero operation. -/
def OrderedFirst (order : List CowOperation) : Prop :=
  order.Pairwise fun earlier later =>
    ¬ (isReplaceOrZero earlier = true ∧ later.isOrderedOp = true)

instance (order : List CowOperation) : Decidable (OrderedFirst order) :=
  inferInstanceAs (Decidable (List.Pairwise _ _))

/-- The order of the remainder. -/
def SortedBefore (flag : ReaderFlags) (earlier later : CowOperation) : Prop :=
  match flag with
  | .userspaceMerge => earlier.newBlock.toNat < later.newBlock.toNat
  | .default => later.newBlock.toNat < earlier.newBlock.toNat

theorem SortedBefore.asymm {p q : CowOperation} (before : SortedBefore flag p q) :
    ¬ SortedBefore flag q p := by
  cases flag <;> simp only [SortedBefore] at before ⊢ <;> omega

/-- Sequence data that leaves the ordered operations in front: the named operations are in
that order among themselves, and an ordered operation without a name neither follows a named
replace or zero operation nor is sorted behind another one. -/
def SequencedFirst (flag : ReaderFlags) (sequenceData : SequenceData) (ops : List CowOperation) :
    Prop :=
  OrderedFirst ((namedBlocks sequenceData ops).filterMap (opAt ops)) ∧
    ∀ op ∈ dataOps ops, op.isOrderedOp = true → block32 op ∉ namedBlocks sequenceData ops →
      ∀ other ∈ dataOps ops, isReplaceOrZero other = true →
        block32 other ∉ namedBlocks sequenceData ops ∧ SortedBefore flag op other

theorem ordered_of_isReplaceOrZero (plain : isReplaceOrZero op = true) :
    op.isOrderedOp = false := by
  cases type : op.type <;> simp [isReplaceOrZero, isOrderedOp, type] at plain ⊢

section

variable (blocks : SmallBlocks ops)

include blocks

/-- Without sequence operations the front and the remainder have nothing in common. -/
theorem orderBlocks_nodup_of_unsequenced (unsequenced : hasSeqOps ops = false) :
    (orderBlocks flag sequenceData ops).Nodup := by
  rw [orderBlocks, unsequenced, frontBlocks_of_unsequenced unsequenced]
  have front := (filter_sublist (l := dataOps ops) (p := isOrderedOp)).map block32
  have rest := (otherOps_sublist false sequenceData [] ops).map block32
  refine nodup_append.mpr ⟨blocks.nodup.sublist front,
    (sortOthers_perm _).nodup_iff.mpr (blocks.nodup.sublist rest), ?_⟩
  intro a inFront b inRest same
  obtain ⟨p, isOrdered, rfl⟩ := mem_map.mp inFront
  obtain ⟨q, isOther, rfl⟩ := mem_map.mp (mem_sortOthers.mp inRest)
  obtain ⟨inP, ordered⟩ := mem_filter.mp isOrdered
  have inQ := (otherOps_sublist false sequenceData [] ops).mem isOther
  have equal := blocks.eq_of_block32 inP inQ same
  obtain ⟨_, _, _, other⟩ := (mem_otherOps _).mp isOther
  simp only [CowReader.isOther, Bool.and_eq_true] at other
  rw [← equal, ordered] at other
  exact absurd other.1.2 (by decide)

/-- With them they have nothing in common exactly when names come first. -/
theorem orderBlocks_nodup_iff (flag : ReaderFlags)
    (unrepeated : (namedBlocks sequenceData ops).Nodup) :
    (orderBlocks flag sequenceData ops).Nodup ↔ NamedBehind sequenceData ops := by
  cases sequenced : hasSeqOps ops with
  | false =>
    refine iff_of_true (orderBlocks_nodup_of_unsequenced blocks sequenced) ?_
    intro front op back split data named
    rw [namedBlocks_of_unsequenced sequenceData sequenced] at named
    cases named
  | true =>
    rw [orderBlocks, sequenced, frontBlocks_of_sequenced]
    constructor
    · intro nodup front op back split data named
      by_contra unnamed
      have other : op ∈ otherOps true sequenceData [] ops := by
        refine (mem_otherOps _).mpr ⟨front, back, split, ?_⟩
        rw [namedBlocks_snoc data]
        simp [isOther, data, unnamed]
      exact (nodup_append.mp nodup).2.2 _ named _ (mem_sortOthers.mpr (mem_map_of_mem other)) rfl
    · intro behind
      have rest := (otherOps_sublist true sequenceData [] ops).map block32
      refine nodup_append.mpr ⟨unrepeated, (sortOthers_perm _).nodup_iff.mpr
        (blocks.nodup.sublist rest), ?_⟩
      intro a named b inRest same
      obtain ⟨op, isOther, rfl⟩ := mem_map.mp (mem_sortOthers.mp inRest)
      rw [← sequenced, mem_others_iff behind sequenced] at isOther
      exact isOther.2 (same ▸ named)

/-- Sorting puts the operations of the remainder in the order of their blocks. -/
theorem sortOthers_pairwise (flag : ReaderFlags) {others : List (BitVec 32)}
    (nodup : others.Nodup) :
    ((sortOthers flag others).filterMap (opAt ops)).Pairwise (SortedBefore flag) := by
  have distinct : (sortOthers flag others).Pairwise (· ≠ ·) :=
    (sortOthers_perm others).nodup_iff.mpr nodup
  have value : ∀ {block op}, opAt ops block = some op → block.toInt = op.newBlock.toNat := by
    intro block op found
    obtain ⟨member, rfl⟩ := opAt_eq_some found
    have small := blocks.small op member
    have same := block32_toNat small
    rw [BitVec.toInt_eq_toNat_of_lt (by omega), same]
  rw [pairwise_filterMap]
  have strict : ∀ a b p q, opAt ops a = some p → opAt ops b = some q → a ≠ b →
      (a.toInt ≤ b.toInt ↔ p.newBlock.toNat < q.newBlock.toNat) := by
    intro a b p q foundP foundQ ne
    have ne' : a.toInt ≠ b.toInt := fun same => ne (BitVec.eq_of_toInt_eq same)
    rw [value foundP, value foundQ] at ne' ⊢
    omega
  cases flag with
  | userspaceMerge =>
    have sorted := pairwise_insertionSort (fun a b : BitVec 32 => a.toInt ≤ b.toInt) others
    apply (sorted.and distinct).imp
    exact fun both p foundP q foundQ => (strict _ _ p q foundP foundQ both.2).mp both.1
  | default =>
    have sorted := pairwise_insertionSort (fun a b : BitVec 32 => b.toInt ≤ a.toInt) others
    apply (sorted.and distinct).imp
    exact fun both p foundP q foundQ => (strict _ _ q p foundQ foundP both.2.symm).mp both.1

theorem mem_sortedOps {others : List CowOperation} (data : others.Sublist (dataOps ops)) :
    op ∈ (sortOthers flag (others.map block32)).filterMap (opAt ops) ↔ op ∈ others := by
  rw [mem_filterMap]
  constructor
  · rintro ⟨block, inside, found⟩
    obtain ⟨other, member, rfl⟩ := mem_map.mp (mem_sortOthers.mp inside)
    rw [blocks.opAt_block32 (data.mem member)] at found
    cases found
    exact member
  · intro member
    exact ⟨block32 op, mem_sortOthers.mpr (mem_map_of_mem member),
      blocks.opAt_block32 (data.mem member)⟩

/-- Without sequence operations the ordered operations always come first. -/
theorem orderedFirst_of_unsequenced (unsequenced : hasSeqOps ops = false) :
    OrderedFirst ((orderBlocks flag sequenceData ops).filterMap (opAt ops)) := by
  rw [orderBlocks, unsequenced, frontBlocks_of_unsequenced unsequenced, filterMap_append,
    OrderedFirst, pairwise_append]
  have front : ∀ op ∈ ((((dataOps ops).filter isOrderedOp).map block32).filterMap
      (opAt ops)), isReplaceOrZero op = false := by
    intro op member
    obtain ⟨block, inside, found⟩ := mem_filterMap.mp member
    obtain ⟨other, isOrdered, rfl⟩ := mem_map.mp inside
    obtain ⟨inData, ordered⟩ := mem_filter.mp isOrdered
    rw [blocks.opAt_block32 inData] at found
    cases found
    by_contra plain
    rw [ordered_of_isReplaceOrZero (by simpa using plain)] at ordered
    cases ordered
  have rest : ∀ op ∈ (sortOthers flag ((otherOps false sequenceData [] ops).map block32)).filterMap
      (opAt ops), op.isOrderedOp = false := by
    intro op member
    rw [mem_sortedOps blocks (otherOps_sublist false sequenceData [] ops), mem_otherOps] at member
    obtain ⟨_, _, _, other⟩ := member
    simp only [isOther, Bool.and_eq_true] at other
    simpa using other.1.2
  refine ⟨pairwise_of_forall_mem_list fun p inP _ _ both => ?_,
    pairwise_of_forall_mem_list fun _ _ q inQ both => ?_, fun p inP _ _ both => ?_⟩
  · exact absurd both.1 (by simp [front p inP])
  · exact absurd both.2 (by simp [rest q inQ])
  · exact absurd both.1 (by simp [front p inP])

theorem orderedFirst_iff_of_sequenced (behind : NamedBehind sequenceData ops)
    (sequenced : hasSeqOps ops = true) :
    OrderedFirst ((orderBlocks flag sequenceData ops).filterMap (opAt ops)) ↔
      SequencedFirst flag sequenceData ops := by
  have others : ∀ op, op ∈ (sortOthers flag ((otherOps true sequenceData [] ops).map
      block32)).filterMap (opAt ops) ↔ op ∈ dataOps ops ∧
      block32 op ∉ namedBlocks sequenceData ops := by
    intro op
    rw [mem_sortedOps blocks (otherOps_sublist true sequenceData [] ops), ← sequenced,
      mem_others_iff behind sequenced]
  have sorted := sortOthers_pairwise blocks flag
    (blocks.nodup.sublist ((otherOps_sublist true sequenceData [] ops).map block32))
  rw [orderBlocks, sequenced, frontBlocks_of_sequenced, filterMap_append, OrderedFirst,
    pairwise_append]
  refine and_congr_right fun _ => ?_
  constructor
  · rintro ⟨rest, across⟩ op member ordered unnamed other inside plain
    have isOther := (others op).mpr ⟨member, unnamed⟩
    have otherUnnamed : block32 other ∉ namedBlocks sequenceData ops := fun named =>
      across other (mem_filterMap.mpr ⟨_, named, blocks.opAt_block32 inside⟩) op isOther
        ⟨plain, ordered⟩
    refine ⟨otherUnnamed, ?_⟩
    have ne : op ≠ other := by
      rintro rfl
      rw [ordered_of_isReplaceOrZero plain] at ordered
      cases ordered
    -- both stand in the sorted remainder, in one order or the other
    rcases Lists.either_of_pairwise (rest.and sorted) isOther
      ((others other).mpr ⟨inside, otherUnnamed⟩) ne with before | behind
    · exact before.2
    · exact absurd ⟨plain, ordered⟩ behind.1
  · intro first
    refine ⟨?_, ?_⟩
    · rw [pairwise_iff_forall_sublist] at sorted ⊢
      rintro p q pair ⟨plain, ordered⟩
      obtain ⟨inP, _⟩ := (others p).mp (pair.mem mem_cons_self)
      obtain ⟨inQ, unnamed⟩ := (others q).mp (pair.mem (mem_cons_of_mem _ mem_cons_self))
      have wrong := (first q inQ ordered unnamed p inP plain).2
      exact SortedBefore.asymm wrong (sorted pair)
    · rintro p inFront q inRest ⟨plain, ordered⟩
      obtain ⟨block, named, found⟩ := mem_filterMap.mp inFront
      obtain ⟨inP, rfl⟩ := opAt_eq_some found
      obtain ⟨inQ, unnamed⟩ := (others q).mp inRest
      exact (first q inQ ordered unnamed p inP plain).1 named

/-- Every data operation is merged once exactly when names come first. -/
theorem getMergeOpIter_perm_iff
    (prepped : prepMergeOps flag numMergeOps sequenceData ops = some merge)
    (unrepeated : (namedBlocks sequenceData ops).Nodup) :
    (getMergeOpIter ops merge true).Perm (dataOps ops) ↔ NamedBehind sequenceData ops := by
  have found := map_block32_of_forall₂ (getMergeOpIter_forall₂ prepped)
  rw [← orderBlocks_nodup_iff blocks flag unrepeated, ← found]
  constructor
  · intro perm
    exact (perm.map block32).nodup_iff.mpr blocks.nodup
  · intro nodup
    rw [perm_ext_iff_of_nodup nodup.of_map blocks.distinct.of_map]
    intro op
    refine ⟨fun member => mem_dataOps_of_mem_iter prepped member, fun member => ?_⟩
    have inOrder := mem_orderBlocks flag sequenceData member
    rw [← found] at inOrder
    obtain ⟨other, isIn, same⟩ := mem_map.mp inOrder
    exact blocks.eq_of_block32 (mem_dataOps_of_mem_iter prepped isIn) member same ▸ isIn

end

/-- The merge order holds every data operation once, with the ordered operations first, exactly
when sequence operations precede what they name and their data keeps that order. -/
theorem prepMergeOps_ordered_iff (blocks : SmallBlocks ops)
    (unrepeated : (namedBlocks sequenceData ops).Nodup)
    (prepped : prepMergeOps flag numMergeOps sequenceData ops = some merge) :
    (getMergeOpIter ops merge true).Perm (dataOps ops) ∧
      OrderedFirst (getMergeOpIter ops merge true) ↔
      NamedBehind sequenceData ops ∧ (hasSeqOps ops = true →
      SequencedFirst flag sequenceData ops) := by
  rw [getMergeOpIter_perm_iff blocks prepped unrepeated, getMergeOpIter_eq_filterMap prepped]
  refine and_congr_right fun behind => ?_
  cases sequenced : hasSeqOps ops with
  | false =>
    refine iff_of_true (orderedFirst_of_unsequenced blocks sequenced) ?_
    intro impossible
    cases impossible
  | true =>
    rw [orderedFirst_iff_of_sequenced blocks behind sequenced]
    exact ⟨fun first _ => first, fun first => first rfl⟩

/-- Two copies and a replace operation, with a sequence operation that names one copy. -/
def copyFive : CowOperation := ⟨.copy, 0, 0, 5, 9⟩

def copySeven : CowOperation := ⟨.copy, 0, 0, 7, 1⟩

def sequenceOp : CowOperation := ⟨.sequence, 0, 4, 0, 4096⟩

def namedLate : List CowOperation := [copyFive, sequenceOp, replaceThree, copySeven]

def namedAll : List CowOperation := [sequenceOp, copyFive, replaceThree, copySeven]

def onlyFive : SequenceData := fun _ => some [5]

def sevenThenFive : SequenceData := fun _ => some [7, 5]

/-- A copy that is named behind its back comes twice, and one without a name comes behind a
replace operation. -/
theorem prepMergeOps_repeats_and_mixes :
    SmallBlocks namedLate ∧ (namedBlocks onlyFive namedLate).Nodup ∧
      ∃ merge, prepMergeOps .userspaceMerge 0 onlyFive namedLate = some merge ∧
        getMergeOpIter namedLate merge true = [copyFive, replaceThree, copyFive, copySeven] ∧
        ¬ ((getMergeOpIter namedLate merge true).Perm (dataOps namedLate) ∧
          OrderedFirst (getMergeOpIter namedLate merge true)) :=
  ⟨⟨by decide, by decide⟩, by decide, _, rfl, by decide, by decide⟩

theorem prepMergeOps_ordered_named :
    ∃ merge, prepMergeOps .userspaceMerge 0 sevenThenFive namedAll = some merge ∧
      getMergeOpIter namedAll merge true = [copySeven, copyFive, replaceThree] ∧
      NamedBehind sevenThenFive namedAll ∧
      (hasSeqOps namedAll = true → SequencedFirst .userspaceMerge sevenThenFive namedAll) := by
  obtain ⟨merge, prepped, order⟩ : ∃ merge, prepMergeOps .userspaceMerge 0 sevenThenFive namedAll =
      some merge ∧ getMergeOpIter namedAll merge true = [copySeven, copyFive, replaceThree] :=
    ⟨_, rfl, by decide⟩
  have blocks : SmallBlocks namedAll := ⟨by decide, by decide⟩
  refine ⟨merge, prepped, order, (prepMergeOps_ordered_iff blocks (by decide) prepped).mp ?_⟩
  rw [order]
  exact ⟨by decide, by decide⟩

end Order

end CowReader

end Aosp.Snapshot
