import Aosp.Snapshot.CowSessions

namespace Aosp.Snapshot

open List Aosp.Snapshot.Stream
open Layout (Byte File)

theorem Stream.dataPos_bare {k : Nat} {s : Stream} {items : List Item} (several : k ≠ 1)
    (roomy : s.Roomy k) (bare : ∀ item ∈ items, item.data = []) :
    (items.foldl (Stream.push k) s).dataPos k = s.dataPos k +
      if k = 0 then items.length * 20 else (s.ops + items.length) / (k - 1) * (k * 20) := by
  induction items generalizing s with
  | nil =>
    unfold Stream.Roomy at roomy
    split
    · rfl
    · rw [if_neg ‹_›] at roomy
      rw [length_nil, Nat.div_eq_of_lt (by omega), zero_mul]
      rfl
  | cons item rest ih =>
    have added := dataPos_add roomy (item.entry (s.dataPos k))
    have within := within_add roomy (item.entry (s.dataPos k))
    rw [foldl_cons, ih (roomy_push several roomy item) fun other member =>
      bare other (mem_cons_of_mem _ member)]
    have empty : (item.entry (s.dataPos k)).data.length = 0 := by
      rw [Item.entry, bare item mem_cons_self]
      rfl
    rw [empty] at added
    unfold push
    by_cases single : k = 0
    · simp only [single, ne_eq, not_true_eq_false, false_and, ↓reduceIte, length_cons] at added ⊢
      omega
    · have ops : (s.add k (item.entry (s.dataPos k))).ops = s.ops + 1 := if_neg single
      rw [if_neg single] at added ⊢
      rw [Stream.Within, if_neg single, ops] at within
      rw [length_cons]
      dsimp only
      split
      · have last : s.ops + (rest.length + 1) = rest.length + (k - 1) := by omega
        rw [dataPos_close (by rwa [Stream.Within, if_neg single, ops]) single, last,
          Nat.add_div_right _ (by omega), Nat.succ_mul]
        simp only [close, zero_add]
        omega
      · rw [added, ops, add_right_comm s.ops]
        rfl

namespace CowWriter

variable {compress : CowCompressionAlgorithm → List Byte → List Byte} {options : CowOptions}
  {device : Option Nat} {file : File} {w w' w'' : CowWriter} {depth : Nat} {calls : List AddCall}
  {s : Stream} {results : List Bool}

/-- Calls one after the other, whatever they return. -/
def addEach (compress : CowCompressionAlgorithm → List Byte → List Byte) (depth : Nat) :
    CowWriter → List AddCall → Option (List Bool × CowWriter)
  | w, [] => some ([], w)
  | w, call :: rest => (add compress depth w call).bind fun (ok, w) =>
    (addEach compress depth w rest).map fun (results, w) => (ok :: results, w)

/-- There is room for the last of the zero blocks: each of the others takes an operation, or its
part of a cluster. -/
def RoomForZeros (w : CowWriter) : AddCall → Prop
  | .zeroBlocks _ numBlocks => numBlocks = 0 ∨ w.nextDataPos +
      (if w.clusterOps = 0 then (numBlocks.toNat - 1) * 20
      else (w.currentClusterSize / 20 + (numBlocks.toNat - 1)) / (w.clusterOps - 1) *
        w.clusterSize) ≤ w.cowImageSize
  | _ => True

/-- There is room whenever zero blocks are added. -/
def ZerosFit (compress : CowCompressionAlgorithm → List Byte → List Byte) (depth : Nat) :
    CowWriter → List AddCall → Prop
  | _, [] => True
  | w, call :: rest => RoomForZeros w call ∧
    ∀ ok w', add compress depth w call = some (ok, w') → ZerosFit compress depth w' rest

/-- A part of the operations of a call, all of them if it returned true. -/
def Recorded (compress : CowCompressionAlgorithm → List Byte → List Byte) (t : CowSetup)
    (call : AddCall × Bool) (part : List Item) : Prop :=
  part <+: items compress t call.1 ∧ (call.2 = true → part = items compress t call.1)

theorem Stands.hasRoom {call : AddCall} (stands : Stands w s) (roomy : s.Roomy w.clusterOps)
    (room : RoomForZeros w call) :
    HasRoom w.toCowSetup s call := by
  cases call with
  | zeroBlocks newBlockStart numBlocks =>
    intro more
    rcases room with zero | room
    · rw [zero] at more
      exact absurd rfl more
    · rw [dataPos_bare stands.sound.several roomy, length_dropLast, length_map, length_range]
      · rw [stands.dataPos, stands.ops, Nat.mul_div_cancel _ (by decide),
          stands.sound.cluster] at room
        exact room
      · intro item member
        obtain ⟨i, -, rfl⟩ := mem_map.mp (dropLast_subset _ member)
        rfl
  | _ => exact True.intro

theorem Stands.addEach (stands : Stands w s) (roomy : s.Roomy w.clusterOps)
    (fits : Fits compress w.toCowSetup) (allowed : ∀ call ∈ calls, Allowed w.toCowSetup call)
    (room : ZerosFit compress (depth + 2) w calls)
    (done : addEach compress (depth + 2) w calls = some (results, w')) :
    results.length = calls.length ∧
      ∃ parts, List.Forall₂ (Recorded compress w.toCowSetup) (calls.zip results) parts ∧
        (∀ item ∈ parts.flatten, item.Fits w.clusterOps) ∧
        Stands w' (parts.flatten.foldl (Stream.push w.clusterOps) s) ∧
        w'.toCowSetup = w.toCowSetup := by
  induction calls generalizing w s results with
  | nil =>
    cases done
    exact ⟨rfl, [], .nil, nofun, stands, rfl⟩
  | cons call rest ih =>
    obtain ⟨⟨ok, middle⟩, isAdded, later⟩ := Option.bind_eq_some_iff.mp done
    obtain ⟨⟨results, last⟩, isLast, same⟩ := Option.map_eq_some_iff.mp later
    cases same
    have here := allowed call mem_cons_self
    obtain ⟨part, first, all, stands', setup⟩ := stands.add roomy fits here isAdded
    obtain ⟨length, parts, each, fit, stands'', setup'⟩ := ih stands'
      (by rw [setup]; exact roomy_pushes stands.sound.several roomy _) (by rwa [setup])
      (fun other member => by rw [setup]; exact allowed other (mem_cons_of_mem _ member))
      (room.2 ok middle isAdded) isLast
    rw [setup] at each fit stands''
    have recorded : Recorded compress w.toCowSetup (call, ok) part :=
      ⟨first, fun isTrue => all ⟨isTrue, stands.hasRoom roomy room.1⟩⟩
    refine ⟨congrArg Nat.succ length, part :: parts, .cons recorded each, fun item member => ?_, ?_,
      setup'.trans setup⟩
    · rcases mem_append.mp member with here' | among
      · exact items_fit fits here item (first.subset here')
      · exact fit item among
    · rw [flatten_cons, foldl_append]
      exact stands''

/-- Whatever the device holds, a call that returns true has added all its operations, and they are
read back. -/
theorem no_operation_dropped (session : Session compress options device file w)
    (allowed : ∀ call ∈ calls, Allowed w.toCowSetup call)
    (room : ZerosFit compress (depth + 2) w calls)
    (done : addEach compress (depth + 2) w calls = some (results, w')) :
    results.length = calls.length ∧
      ∃ parts, List.Forall₂ (Recorded compress w.toCowSetup) (calls.zip results) parts ∧
        Stands w' (streamOf w parts.flatten) ∧
        ∀ w'', finalize (depth + 1) w' = some (true, w'') → ∃ enough, ∀ rounds, enough ≤ rounds →
          ∃ st, CowReader.parseOps rounds w''.file w.header none = some (some st) ∧
            CowReader.ReadBack w''.file parts.flatten st := by
  obtain ⟨stands, roomy, fits⟩ := session.start
  obtain ⟨length, parts, each, fit, stands', same⟩ :=
    stands.addEach roomy fits allowed room done
  exact ⟨length, parts, each, stands', fun w'' finished =>
    (session.parses fit same (stands'.finalized finished)).2⟩

/-- A device with room for two zero blocks and the footer, but not for a block of data. -/
def fullDevice : CowWriter :=
  (initializeWriter ⟨false, false⟩ (sampleOptions 0 100 false) (some 170) File.empty).get
    (by decide +kernel)

def fullCalls : List AddCall := [.zeroBlocks 0 2, .rawBlocks 5 (List.replicate 100 7)]

/-- The second call fails, and the operations of the first are there. -/
theorem no_operation_dropped_full : ∃ w' w'' parts,
    addEach uncompressed 2 fullDevice fullCalls = some ([true, false], w') ∧
      finalize 1 w' = some (true, w'') ∧
      List.Forall₂ (Recorded uncompressed fullDevice.toCowSetup) (fullCalls.zip [true, false])
        parts ∧
      ∃ enough, ∀ rounds, enough ≤ rounds → ∃ st,
        CowReader.parseOps rounds w''.file fullDevice.header none = some (some st) ∧
          CowReader.ReadBack w''.file parts.flatten st := by
  have session : Session uncompressed (sampleOptions 0 100 false) (some 170) File.empty
      fullDevice :=
    sampleSession (Option.some_get _).symm (by decide) (by decide) (by simp)
  have run : ((addEach uncompressed 2 fullDevice fullCalls).bind fun r => (finalize 1 r.2).bind
      fun f => if r.1 = [true, false] ∧ f.1 then some () else none).isSome = true := by
    decide +kernel
  simp only [Option.isSome_iff_exists, Option.bind_eq_some_iff,
    Option.ite_none_right_eq_some] at run
  obtain ⟨-, ⟨-, w'⟩, done, ⟨-, w''⟩, finished, ⟨rfl, rfl⟩, -⟩ := run
  have room : ZerosFit uncompressed 2 fullDevice fullCalls :=
    ⟨.inr (by decide +kernel), fun _ _ _ => ⟨True.intro, fun _ _ _ => True.intro⟩⟩
  obtain ⟨-, parts, each, -, parsed⟩ :=
    no_operation_dropped session (by simp [fullCalls, Allowed]) room done
  exact ⟨w', w'', parts, done, finished, each, parsed w'' finished⟩

/-- There is room for one of two blocks on the device, and the call returns true. -/
theorem zeroBlocks_dropped :
    (initializeWriter ⟨false, false⟩ (sampleOptions 0 1 false) (some 60) File.empty).any (fun w =>
      (add uncompressed 2 w (.zeroBlocks 0 2)).any fun result =>
        result.1 && decide (result.2.numOps = 1)) = true := by
  decide +kernel

end CowWriter

end Aosp.Snapshot
