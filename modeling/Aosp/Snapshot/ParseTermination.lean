import Aosp.Lib.Walk
import Aosp.Snapshot.ParseOps

namespace Aosp.Snapshot.CowReader

open Layout (File)

variable {file : File} {clusterOps : Nat} {label : Option (BitVec 64)}

/-- The last operation of the cluster at the front of a list, and its index: the first one that ends
the cluster, the file or the search for the label, or else the last one that was read. -/
def lastOf (label : Option (BitVec 64)) (ops : List CowOperation) : Option (Nat × CowOperation) :=
  let i := min (ops.findIdx fun op => decide (¬ Plain label op)) (ops.length - 1)
  ops[i]?.map fun op => (i, op)

/-- The position behind an operation of a cluster, with the offset that is stored in it; none for
the footer and the requested label. -/
def behind (clusterOps : Nat) (label : Option (BitVec 64)) (pos i : Nat) (op : CowOperation) :
    Option Nat :=
  if Plain label op ∨ op.type = .cluster then
    some (u64 (pos + (i + 1) * sizeofCowOperation + getNextOpOffset op clusterOps))
  else none

/-- Where the operations in the file lead from the cluster at a position. -/
def nextCluster (file : File) (clusterOps : Nat) (label : Option (BitVec 64)) (pos : Nat) :
    Option Nat :=
  let count := min (if clusterOps = 0 then 1 else clusterOps)
    (u64 (file.size + 2 ^ 64 - pos) / sizeofCowOperation)
  if file.size < pos + count * sizeofCowOperation then none
  else do
    let (i, op) ← lastOf label (opsAt file pos count)
    let next ← behind clusterOps label pos i op
    if next < 2 ^ 63 then some next else none

/-- Where a round leaves the position, if the loop goes on. -/
def goesOn : Option (ParseState × Bool) → Option Nat
  | some (st, false) => some st.pos
  | _ => none

theorem lastOf_cons (op : CowOperation) (rest : List CowOperation) :
    lastOf label (op :: rest) =
    if Plain label op ∧ rest ≠ [] then (lastOf label rest).map fun (i, last) => (i + 1, last)
    else some (0, op) := by
  by_cases plain : Plain label op
  · cases rest with
    | nil => simp [lastOf]
    | cons next rest =>
      simp only [lastOf, List.findIdx_cons, plain, not_true_eq_false, decide_false, cond_false,
        List.length_cons, Nat.add_sub_cancel, ne_eq, reduceCtorEq, not_false_eq_true, and_self,
        ↓reduceIte, Option.map_map, Nat.add_min_add_right, List.getElem?_cons_succ]
      rfl
  · simp [lastOf, List.findIdx_cons, plain]

/-- Only the last operation of a cluster moves the position by more than its size. -/
theorem goesOn_parseCluster {ops : List CowOperation} (single : clusterOps ≠ 0 ∨ ops.length ≤ 1)
    (filled : ops ≠ []) (st : ParseState) :
    goesOn (parseCluster file clusterOps label st ops) =
      (lastOf label ops).bind fun (i, op) => behind clusterOps label st.pos i op := by
  induction ops generalizing st with
  | nil => exact absurd rfl filled
  | cons op rest ih =>
    rw [lastOf_cons, parseCluster]
    by_cases plain : Plain label op
    · obtain ⟨lastLabel, hasSeqOps, parsed⟩ := parseOp_plain file clusterOps st plain
      rw [parsed]
      cases rest with
      | nil => simp [parseCluster, goesOn, behind, plain, pass]
      | cons next rest =>
        have several : clusterOps ≠ 0 := single.resolve_right (by simp)
        have still : getNextOpOffset op clusterOps = 0 := by
          unfold getNextOpOffset
          cases type : op.type <;> simp [several]
          exact absurd type plain.1
        have moved : ∀ n, u64 (u64 (st.pos + sizeofCowOperation + 0) + n) =
            u64 (st.pos + sizeofCowOperation + n) := fun n => by simp [u64]
        dsimp only
        rw [ih (.inl several) nofun, if_pos ⟨plain, nofun⟩, Option.bind_map]
        congr 1
        funext ⟨i, last⟩
        simp only [pass, still, behind, Function.comp, Nat.add_assoc _ (_ * _), moved]
        congr 3
        rw [Nat.succ_mul (i + 1)]
        omega
    · rw [if_neg fun both => plain both.1]
      unfold parseOp
      cases type : op.type with
      | cluster => simp [goesOn, behind, type, pass]
      | footer =>
        cases read : file.read (pass clusterOps st op).pos CowFooterData.codec.size <;>
          simp [read, goesOn, behind, plain, type]
      | label =>
        have asked : label = some op.source := by
          by_contra other
          exact plain ⟨by simp [type], by simp [type], fun _ => other⟩
        subst asked
        simp [goesOn, behind, plain, type]
      | _ => exact absurd ⟨by simp [type], by simp [type], by simp [type]⟩ plain

theorem goesOn_parseRound (st : ParseState) :
    goesOn (parseRound file clusterOps label st) = nextCluster file clusterOps label st.pos := by
  have single : clusterOps ≠ 0 ∨ toAdd file clusterOps st ≤ 1 := by
    unfold toAdd
    split
    · exact .inr (min_le_left _ _)
    · exact .inl ‹_›
  unfold parseRound nextCluster
  change _ = if file.size < st.pos + toAdd file clusterOps st * sizeofCowOperation then none
    else (lastOf label (opsAt file st.pos (toAdd file clusterOps st))).bind _
  generalize toAdd file clusterOps st = count at single
  by_cases zero : count = 0
  · simp [zero, goesOn, lastOf, opsAt]
  dsimp only
  rw [if_neg zero]
  split
  · rfl
  have cluster := @goesOn_parseCluster file clusterOps label (opsAt file st.pos count)
    (by simpa [opsAt] using single) (by simpa [opsAt] using zero) st
  have rest : ∀ result : Option (ParseState × Bool), goesOn (result.bind fun reached =>
      (Fallible.require (decide (reached.1.pos < 2 ^ 63))).bind fun _ => some reached) =
        (goesOn result).bind fun next => if next < 2 ^ 63 then some next else none := by
    rintro (_ | ⟨st, done⟩)
    · rfl
    · by_cases below : st.pos < 2 ^ 63 <;> cases done <;>
        simp [goesOn, Fallible.require, below, -Nat.reducePow]
  refine (rest _).trans ?_
  rw [cluster, Option.bind_assoc]
  rfl

theorem isSome_parseLoop (rounds : Nat) (st : ParseState) :
    (parseLoop file clusterOps label rounds st).isSome =
      Walk.stops (nextCluster file clusterOps label) rounds st.pos := by
  induction rounds generalizing st with
  | zero => rfl
  | succ rounds ih =>
    rw [parseLoop, Walk.stops, ← goesOn_parseRound]
    match parseRound file clusterOps label st with
    | none => rfl
    | some (st', true) => rfl
    | some (st', false) => exact ih st'

/-- A cluster with another one behind it is in the file. -/
theorem lt_size_of_next {pos : Nat} (goes : nextCluster file clusterOps label pos ≠ none) :
    pos < file.size := by
  by_contra behind
  apply goes
  unfold nextCluster
  dsimp only
  generalize min (if clusterOps = 0 then 1 else clusterOps) _ = count
  split
  · rfl
  · rename_i inside
    have empty : count = 0 := by
      unfold sizeofCowOperation at inside
      omega
    simp [empty, opsAt, lastOf]

theorem isSome_parseOps (rounds : Nat) (header : CowHeader) :
    (parseOps rounds file header label).isSome =
      Walk.stops (nextCluster file header.clusterOps.toNat label) rounds
        (parseStart header).pos := by
  rw [← isSome_parseLoop, parseOps]
  cases parseLoop file header.clusterOps.toNat label rounds (parseStart header) <;> rfl

/-- The number of operations that are read in so many rounds. -/
def opsRead (file : File) (clusterOps : Nat) (label : Option (BitVec 64)) : Nat → ParseState → Nat
  | 0, _ => 0
  | rounds + 1, st =>
    let count := toAdd file clusterOps st
    (if file.size < st.pos + count * sizeofCowOperation then 0 else count) +
      match parseRound file clusterOps label st with
      | some (st, false) => opsRead file clusterOps label rounds st
      | _ => 0

theorem opsRead_le (rounds : Nat) (st : ParseState) :
    opsRead file clusterOps label rounds st ≤ rounds * (file.size / sizeofCowOperation) := by
  induction rounds generalizing st with
  | zero => simp [opsRead]
  | succ rounds ih =>
    have here : (if file.size < st.pos + toAdd file clusterOps st * sizeofCowOperation then 0
        else toAdd file clusterOps st) ≤ file.size / sizeofCowOperation := by
      split
      · exact Nat.zero_le _
      · apply (Nat.le_div_iff_mul_le (by decide)).mpr
        omega
    rw [opsRead, Nat.succ_mul, add_comm]
    refine Nat.add_le_add ?_ here
    split
    · exact ih _
    · exact Nat.zero_le _

/-- The loop ends if and only if the offsets in the file do not lead back to a cluster. Then it
takes at most as many rounds as the file has bytes and one more, and reads at most the operations
that fit into the file in each. -/
theorem parseOps_terminates_iff (file : File) (header : CowHeader) (label : Option (BitVec 64)) :
    ((∃ rounds, (parseOps rounds file header label).isSome = true) ↔
        ¬ Walk.Returns (nextCluster file header.clusterOps.toNat label) (parseStart header).pos) ∧
      ((parseOps (file.size + 1) file header label).isSome = true ∧
          opsRead file header.clusterOps.toNat label (file.size + 1) (parseStart header) ≤
            (file.size + 1) * (file.size / sizeofCowOperation) ↔
        ¬ Walk.Returns (nextCluster file header.clusterOps.toNat label)
        (parseStart header).pos) := by
  simp only [isSome_parseOps, opsRead_le, and_true]
  have ends (never : ¬ Walk.Returns (nextCluster file header.clusterOps.toNat label)
      (parseStart header).pos) :
      Walk.stops (nextCluster file header.clusterOps.toNat label) (file.size + 1)
        (parseStart header).pos = true := by
    have stopped := Walk.stops_of_not_returns (Finset.range file.size)
      (fun p _ goes => Finset.mem_range.mpr (lt_size_of_next goes)) never
    rwa [Finset.card_range] at stopped
  exact ⟨⟨fun ⟨_, stopped⟩ => Walk.not_returns_of_stops stopped, fun never => ⟨_, ends never⟩⟩,
    Walk.not_returns_of_stops, ends⟩

def standingHeader : CowHeader := ⟨kCowMagicNumber, 2, 0, 38, 84, 20, 4096, 2, 0, 0⟩

/-- A file whose only operation ends a cluster, with an offset that leads back to the operation. -/
def standingStill : File :=
  (File.empty.pwrite ⟨0, CowHeader.codec.encode standingHeader⟩).pwrite
    ⟨38, CowOperation.codec.encode ⟨.cluster, 0, 0, 0, -20⟩⟩

theorem parseOps_never_ends : parseHeader standingStill = some standingHeader ∧
      ∀ rounds, (parseOps rounds standingStill standingHeader none).isSome = false := by
  refine ⟨by decide +kernel, fun rounds => ?_⟩
  have again : nextCluster standingStill 2 none 38 = some 38 := by decide +kernel
  rw [isSome_parseOps]
  change Walk.stops (nextCluster standingStill 2 none) rounds 38 = false
  induction rounds with
  | zero => rfl
  | succ rounds ih => simp only [Walk.stops, again, ih]

end Aosp.Snapshot.CowReader
