import Aosp.Lib.Codec

/- `RingBuffer.h` and what `TransactionTracing.cpp` puts into it. An entry is the string its proto
serializes to. -/
namespace Aosp.Tracing

open List

abbrev Entry := List Layout.Byte

def bytes (entries : List Entry) : Nat := (entries.map length).sum

structure RingBuffer where
  usedInBytes : Nat := 0
  sizeInBytes : Nat
  storage : List Entry := []

namespace RingBuffer

/-- The loop of `emplace`. It returns nothing when no entry is left to make room. -/
def emplaceLoop (proto : Entry) (size : Nat) :
    Nat → List Entry → List Entry → RingBuffer × List Entry
  | used, [], replaced =>
    if used + proto.length > size then (⟨used, size, []⟩, [])
      else (⟨used + proto.length, size, [proto]⟩, replaced)
  | used, front :: rest, replaced =>
    if used + proto.length > size then emplaceLoop proto size (used - front.length) rest
      (replaced ++ [front])
    else (⟨used + proto.length, size, front :: rest ++ [proto]⟩, replaced)

def emplace (b : RingBuffer) (proto : Entry) : RingBuffer × List Entry :=
  emplaceLoop proto b.sizeInBytes b.usedInBytes b.storage []

/-- The entries of a batch, and all that is removed for them. -/
def emplaceAll : RingBuffer → List Entry → RingBuffer × List Entry
  | b, [] => (b, [])
  | b, proto :: protos =>
    let (b, entries) := b.emplace proto
    let (b, removed) := b.emplaceAll protos
    (b, entries ++ removed)

end RingBuffer

structure TransactionTracing where
  buffer : RingBuffer
  /-- All that has been serialized. -/
  serialized : List Entry := []
  /-- All that has been passed to `updateStartingStateLocked`. -/
  merged : List Entry := []

inductive Call where
  | addEntry (protos : List Entry)
  | setBufferSize (bufferSizeInBytes : Nat)

def TransactionTracing.serve (t : TransactionTracing) : Call → TransactionTracing
  | .addEntry protos =>
    let (buffer, removedEntries) := t.buffer.emplaceAll protos
    ⟨buffer, t.serialized ++ protos, t.merged ++ removedEntries⟩
  | .setBufferSize bufferSizeInBytes => { t with buffer.sizeInBytes := bufferSizeInBytes }

/-- No entry is larger than the buffer it comes to. -/
def Fit : Nat → List Call → Prop
  | _, [] => True
  | size, .addEntry protos :: calls => (∀ proto ∈ protos, proto.length ≤ size) ∧ Fit size calls
  | _, .setBufferSize size :: calls => Fit size calls

/-- The new entries have joined the old ones, and those removed come before those in the buffer.
Unless all of them have fitted, some are missing. -/
structure Joined (fit : Prop) (old new : List Entry) (b : RingBuffer) (removed : List Entry) :
  Prop where
  used : b.usedInBytes = bytes b.storage
  kept : fit → removed ++ b.storage = old ++ new
  lost : ¬ fit → removed.length + b.storage.length < old.length + new.length

variable {fit later : Prop} {old new next removed evicted storage : List Entry} {proto : Entry}
  {size used : Nat} {b b' : RingBuffer}

theorem Joined.fewer (joined : Joined fit old new b removed) :
    removed.length + b.storage.length ≤ old.length + new.length := by
  by_cases all : fit
  · have lengths := congrArg List.length (joined.kept all)
    rw [length_append, length_append] at lengths
    exact Nat.le_of_eq lengths
  · exact Nat.le_of_lt (joined.lost all)

theorem Joined.trans (first : Joined fit old new b removed)
    (second : Joined later b.storage next b' evicted) :
    Joined (fit ∧ later) old (new ++ next) b' (removed ++ evicted) where
  used := second.used
  kept all := by
    rw [append_assoc, second.kept all.2, ← append_assoc, first.kept all.1, append_assoc]
  lost missing := by
    have firstFewer := first.fewer
    have secondFewer := second.fewer
    rw [length_append, length_append]
    by_cases all : fit
    · have fewer := second.lost fun all' => missing ⟨all, all'⟩
      omega
    · have fewer := first.lost all
      omega

theorem Joined.kept_iff (joined : Joined fit old new b removed) :
    old ++ new = removed ++ b.storage ↔ fit := by
  refine ⟨fun same => by_contra fun missing => ?_, fun all => (joined.kept all).symm⟩
  have lengths := congrArg List.length same
  rw [length_append, length_append] at lengths
  exact Nat.ne_of_gt (joined.lost missing) lengths

theorem emplaceLoop_joined (replaced : List Entry) (isUsed : used = bytes storage) :
    let result := RingBuffer.emplaceLoop proto size used storage replaced
    result.1.usedInBytes ≤ size ∧ result.1.sizeInBytes = size ∧
      Joined (proto.length ≤ size) (replaced ++ storage) [proto] result.1 result.2 := by
  induction storage generalizing used replaced with
  | nil =>
    rw [show used = 0 from isUsed, RingBuffer.emplaceLoop, Nat.zero_add]
    split
    · exact ⟨Nat.zero_le _, rfl, rfl, fun fits => by omega, by simp⟩
    · exact ⟨Nat.le_of_not_lt ‹_›, rfl, by simp [bytes], by simp, fun fits => by omega⟩
  | cons front rest ih =>
    have total : bytes (front :: rest) = front.length + bytes rest := rfl
    rw [RingBuffer.emplaceLoop]
    split
    · have later := @ih (used - front.length) (replaced ++ [front]) (by omega)
      rwa [append_assoc, singleton_append] at later
    · exact ⟨Nat.le_of_not_lt ‹_›, rfl, by simp [bytes, isUsed, Nat.add_assoc], by simp,
        fun fits => by omega⟩

theorem emplaceAll_joined (protos : List Entry) (isUsed : b.usedInBytes = bytes b.storage) :
    (b.emplaceAll protos).1.sizeInBytes = b.sizeInBytes ∧
      Joined (∀ proto ∈ protos, proto.length ≤ b.sizeInBytes)
      b.storage protos (b.emplaceAll protos).1 (b.emplaceAll protos).2 := by
  induction protos generalizing b with
  | nil => exact ⟨rfl, isUsed, by simp [RingBuffer.emplaceAll], by simp⟩
  | cons proto protos ih =>
    obtain ⟨-, size, first⟩ := @emplaceLoop_joined _ proto b.sizeInBytes _ [] isUsed
    obtain ⟨size', rest⟩ := ih first.used
    rw [size] at size' rest
    rw [forall_mem_cons]
    exact ⟨size', first.trans rest⟩

def TransactionTracing.start (bufferSizeInBytes : Nat) : TransactionTracing :=
  ⟨{ sizeInBytes := bufferSizeInBytes }, [], []⟩

theorem serve_joined (calls : List Call) {t : TransactionTracing}
    (joined : Joined fit [] t.serialized t.buffer t.merged) :
    let t' := calls.foldl TransactionTracing.serve t
    Joined (fit ∧ Fit t.buffer.sizeInBytes calls) [] t'.serialized t'.buffer t'.merged := by
  induction calls generalizing t fit with
  | nil => simpa [Fit] using joined
  | cons call calls ih =>
    cases call with
    | addEntry protos =>
      obtain ⟨size, added⟩ := emplaceAll_joined protos joined.used
      have later := ih (t := t.serve (.addEntry protos)) (joined.trans added)
      rwa [and_assoc, show (t.serve (.addEntry protos)).buffer.sizeInBytes = _ from size] at later
    | setBufferSize size =>
      exact ih (t := t.serve (.setBufferSize size)) ⟨joined.used, joined.kept, joined.lost⟩

/-- The starting state and the buffer account for all that has been serialized, in order, if and
only if no entry has come to a buffer smaller than itself. -/
theorem history_kept_iff (bufferSizeInBytes : Nat) (calls : List Call) :
    let t := calls.foldl TransactionTracing.serve (.start bufferSizeInBytes)
    t.buffer.usedInBytes = bytes t.buffer.storage ∧
    (∀ protos proto, ((t.buffer.emplaceAll protos).1.emplace proto).1.usedInBytes ≤
    t.buffer.sizeInBytes) ∧
    (t.serialized = t.merged ++ t.buffer.storage ↔ Fit bufferSizeInBytes calls) := by
  have joined := @serve_joined True calls (.start bufferSizeInBytes) ⟨rfl, fun _ => rfl, by simp⟩
  refine ⟨joined.used, fun protos proto => ?_, joined.kept_iff.trans (by rw [true_and]; rfl)⟩
  obtain ⟨size, all⟩ := emplaceAll_joined protos joined.used
  exact size ▸ (emplaceLoop_joined [] all.used).1

/-- The second entry takes the first one with it. -/
theorem history_lost :
    let t := [Call.addEntry [[1]], .addEntry [[2, 3, 4]]].foldl TransactionTracing.serve (.start 2)
    t.serialized = [[1], [2, 3, 4]] ∧ t.merged = [] ∧ t.buffer.storage = [] := by
  decide

theorem emplaceLoop_suffix (replaced : List Entry) :
    (RingBuffer.emplaceLoop proto size used storage replaced).1.storage <:+ storage ++ [proto] := by
  fun_induction RingBuffer.emplaceLoop with
  | case1 => exact nil_suffix
  | case2 | case4 => exact suffix_rfl
  | case3 _ _ _ _ _ ih => exact ih.trans (suffix_cons _ _)

theorem emplaceAll_suffix (protos : List Entry) (known : b.storage <:+ old) :
    (b.emplaceAll protos).1.storage <:+ old ++ protos := by
  induction protos generalizing b old with
  | nil => rwa [append_nil]
  | cons proto protos ih =>
    rw [append_cons]
    exact ih ((emplaceLoop_suffix []).trans (suffix_append_self_iff.mpr known))

/-- Whatever was lost, the buffer holds the latest entries. -/
theorem storage_suffix (bufferSizeInBytes : Nat) (calls : List Call) :
    let t := calls.foldl TransactionTracing.serve (.start bufferSizeInBytes)
    t.buffer.storage <:+ t.serialized := by
  induction calls using reverseRecOn with
  | nil => exact nil_suffix
  | append_singleton calls call ih =>
    rw [foldl_append]
    cases call with
    | addEntry protos => exact emplaceAll_suffix protos ih
    | setBufferSize => exact ih

end Aosp.Tracing
