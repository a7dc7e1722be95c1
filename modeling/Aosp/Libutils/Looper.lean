import Mathlib.Data.List.Nodup

/- The messages of `Looper.cpp`. The sections that hold the lock are the steps. -/
namespace Aosp.Libutils

open List

structure MessageEnvelope where
  uptime : Int
  handler : Nat
  what : Int
  /-- How many messages were sent before: the message is known by this number. -/
  sent : Nat

structure Looper where
  mMessageEnvelopes : List MessageEnvelope
  sends : Nat

/-- A message that is handed over, and those that wait then. -/
structure Delivery where
  message : MessageEnvelope
  now : Int
  waiting : List MessageEnvelope

namespace Looper

/-- A call, or a round of the loop in `pollInner` up to where it unlocks. -/
inductive Step where
  | sendMessageAtTime (uptime : Int) (handler : Nat) (what : Int)
  | removeMessages (handler : Nat) (what : Option Int)
  | pollInner (now : Int)

def insert (e : MessageEnvelope) : List MessageEnvelope → List MessageEnvelope
  | [] => [e]
  | m :: rest => if e.uptime ≥ m.uptime then m :: insert e rest else e :: m :: rest

def isRemoved (handler : Nat) (what : Option Int) (m : MessageEnvelope) : Bool :=
  m.handler = handler && what.all (m.what = ·)

def step (l : Looper) : Step → Looper × Option Delivery
  | .sendMessageAtTime uptime handler what =>
    (⟨insert ⟨uptime, handler, what, l.sends⟩ l.mMessageEnvelopes, l.sends + 1⟩, none)
  | .removeMessages handler what =>
    (⟨l.mMessageEnvelopes.filter fun m => !isRemoved handler what m, l.sends⟩, none)
  | .pollInner now =>
    match l.mMessageEnvelopes with
    | [] => (l, none)
    | m :: rest => if m.uptime ≤ now then (⟨rest, l.sends⟩, some ⟨m, now, rest⟩) else (l, none)

def run (l : Looper) : List Step → Looper × List Delivery
  | [] => (l, [])
  | s :: steps => (((l.step s).1.run steps).1, (l.step s).2.toList ++ ((l.step s).1.run steps).2)

end Looper

/-- The message is due first or, at the same time, was sent first. -/
def MessageEnvelope.Before (a b : MessageEnvelope) : Prop :=
  a.sent ≠ b.sent ∧ (a.uptime < b.uptime ∨ a.uptime = b.uptime ∧ a.sent < b.sent)

def Delivery.InOrder (d : Delivery) : Prop :=
  d.message.uptime ≤ d.now ∧ ∀ m ∈ d.waiting, d.message.Before m

namespace Looper

structure Ordered (l : Looper) : Prop where
  pairs : l.mMessageEnvelopes.Pairwise MessageEnvelope.Before
  known : ∀ m ∈ l.mMessageEnvelopes, m.sent < l.sends

/-- The message has been sent and does not wait any more. -/
def Gone (l : Looper) (sent : Nat) : Prop :=
  sent < l.sends ∧ ∀ m ∈ l.mMessageEnvelopes, m.sent ≠ sent

theorem mem_insert {e m : MessageEnvelope} {queue : List MessageEnvelope} :
    m ∈ insert e queue ↔ m = e ∨ m ∈ queue := by
  induction queue with
  | nil => simp [insert]
  | cons first rest ih =>
    rw [insert]
    split
    · rw [mem_cons, ih, mem_cons, or_left_comm]
    · rw [mem_cons]

theorem pairwise_insert {e : MessageEnvelope} {queue : List MessageEnvelope}
    (pairs : queue.Pairwise MessageEnvelope.Before) (known : ∀ m ∈ queue, m.sent < e.sent) :
    (insert e queue).Pairwise MessageEnvelope.Before := by
  induction queue with
  | nil => exact pairwise_singleton _ _
  | cons m rest ih =>
    obtain ⟨first, later⟩ := pairwise_cons.mp pairs
    obtain ⟨older, known'⟩ := forall_mem_cons.mp known
    rw [insert]
    split
    · refine pairwise_cons.mpr ⟨fun x member => ?_, ih later known'⟩
      rcases mem_insert.mp member with rfl | old
      · exact ⟨by omega, by omega⟩
      · exact first x old
    · refine pairwise_cons.mpr ⟨forall_mem_cons.mpr ⟨⟨by omega, by omega⟩, fun x member => ?_⟩,
        pairs⟩
      obtain ⟨-, due⟩ := first x member
      have := known' x member
      exact ⟨by omega, by omega⟩

variable {l : Looper}

/-- What a step leaves. It hands over a message that has been waiting. -/
theorem Ordered.step (ordered : Ordered l) (s : Step) :
    Ordered (l.step s).1 ∧
    (∀ n, Gone l n → Gone (l.step s).1 n) ∧ ∀ d, (l.step s).2 = some d →
      d.InOrder ∧ ¬ Gone l d.message.sent ∧ Gone (l.step s).1 d.message.sent := by
  obtain ⟨pairs, known⟩ := ordered
  cases s with
  | sendMessageAtTime uptime handler what =>
    refine ⟨⟨pairwise_insert pairs known, fun m member => ?_⟩, fun n gone => ?_, nofun⟩
    · rcases mem_insert.mp member with rfl | old
      · exact Nat.lt_succ_self _
      · exact Nat.lt_succ_of_lt (known m old)
    · refine ⟨Nat.lt_succ_of_lt gone.1, fun m member => ?_⟩
      rcases mem_insert.mp member with rfl | old
      · exact Nat.ne_of_gt gone.1
      · exact gone.2 m old
  | removeMessages handler what =>
    exact ⟨⟨pairs.filter _, fun m member => known m (mem_filter.mp member).1⟩,
      fun n gone => ⟨gone.1, fun m member => gone.2 m (mem_filter.mp member).1⟩, nofun⟩
  | pollInner now =>
    obtain ⟨queue, sends⟩ := l
    cases queue with
    | nil => exact ⟨⟨pairs, known⟩, fun n gone => gone, nofun⟩
    | cons first rest =>
      obtain ⟨before, pairs'⟩ := pairwise_cons.mp pairs
      obtain ⟨sent, known'⟩ := forall_mem_cons.mp known
      simp only [Looper.step]
      split
      · rename_i due
        refine ⟨⟨pairs', known'⟩, fun n gone => ⟨gone.1, (forall_mem_cons.mp gone.2).2⟩, ?_⟩
        rintro d ⟨⟩
        exact ⟨⟨due, before⟩, fun gone => gone.2 first mem_cons_self rfl, sent, fun m member =>
          (before m member).1.symm⟩
      · exact ⟨⟨pairs, known⟩, fun n gone => gone, nofun⟩

theorem Ordered.run (ordered : Ordered l) (steps : List Step) :
    Ordered (l.run steps).1 ∧
    ((l.run steps).2.map (·.message.sent)).Nodup ∧
      ∀ d ∈ (l.run steps).2, d.InOrder ∧ ¬ Gone l d.message.sent := by
  induction steps generalizing l with
  | nil => exact ⟨ordered, nodup_nil, nofun⟩
  | cons s steps ih =>
    obtain ⟨next, stays, hands⟩ := ordered.step s
    obtain ⟨last, distinct, later⟩ := ih next
    have all : ∀ d ∈ ((l.step s).1.run steps).2, d.InOrder ∧ ¬ Gone l d.message.sent :=
      fun d member => ⟨(later d member).1, fun gone => (later d member).2 (stays _ gone)⟩
    rw [Looper.run]
    cases handed : (l.step s).2 with
    | none => exact ⟨last, distinct, all⟩
    | some d =>
      obtain ⟨inOrder, waited, gone⟩ := hands d handed
      refine ⟨last, nodup_cons.mpr ⟨fun member => ?_, distinct⟩,
        forall_mem_cons.mpr ⟨⟨inOrder, waited⟩, all⟩⟩
      obtain ⟨d', member, same⟩ := mem_map.mp member
      exact (later d' member).2 (same ▸ gone)

/-- Whatever the order of the steps and the clock, a message is handed over at most once, not before
its time, in order, and not if it was waiting when it was removed. -/
theorem messages_in_order (steps : List Step) :
    let (l, deliveries) := (⟨[], 0⟩ : Looper).run steps
    (deliveries.map (·.message.sent)).Nodup ∧ (∀ d ∈ deliveries, d.InOrder) ∧
      ∀ m ∈ l.mMessageEnvelopes, ∀ handler what, isRemoved handler what m →
        ∀ later, ∀ d ∈ ((l.step (.removeMessages handler what)).1.run later).2, d.message.sent ≠
        m.sent := by
  have start : Ordered ⟨[], 0⟩ := ⟨.nil, nofun⟩
  obtain ⟨last, distinct, each⟩ := start.run steps
  refine ⟨distinct, fun d member => (each d member).1,
    fun m waits handler what isMatch later d member same => ?_⟩
  refine (((last.step _).1.run later).2.2 d member).2
    (same ▸ ⟨last.known m waits, fun x inside equal => ?_⟩)
  obtain ⟨waited, stays⟩ := mem_filter.mp inside
  have numbers : (((⟨[], 0⟩ : Looper).run steps).1.mMessageEnvelopes.map
      MessageEnvelope.sent).Nodup :=
    pairwise_map.mpr (last.pairs.imp And.left)
  rw [inj_on_of_nodup_map numbers waited waits equal, isMatch] at stays
  cases stays

/-- Of two messages, one is handed over and the other one removed. -/
theorem messages_in_order_two :
    let (l, deliveries) := (⟨[], 0⟩ : Looper).run
      [.sendMessageAtTime 5 1 0, .sendMessageAtTime 3 1 0, .pollInner 4]
    deliveries.map (·.message.sent) = [1] ∧ (∀ d ∈ deliveries, d.InOrder) ∧
      ∀ d ∈ ((l.step (.removeMessages 1 none)).1.run [.pollInner 9]).2, d.message.sent ≠ 0 := by
  obtain ⟨-, inOrder, removed⟩ := messages_in_order
    [.sendMessageAtTime 5 1 0, .sendMessageAtTime 3 1 0, .pollInner 4]
  exact ⟨rfl, inOrder, removed ⟨5, 1, 0, 0⟩ mem_cons_self 1 none rfl [.pollInner 9]⟩

/-- The message waits, has been handed over, or was to be removed by one of the steps. -/
def Accounted (m : MessageEnvelope) (steps : List Step) (after : Looper × List Delivery) : Prop :=
  m ∈ after.1.mMessageEnvelopes ∨ m ∈ after.2.map (·.message) ∨
    ∃ handler what, .removeMessages handler what ∈ steps ∧ isRemoved handler what m

theorem accounted_step {m : MessageEnvelope} (waits : m ∈ l.mMessageEnvelopes) (s : Step) :
    Accounted m [s] ((l.step s).1, (l.step s).2.toList) := by
  cases s with
  | sendMessageAtTime => exact .inl (mem_insert.mpr (.inr waits))
  | removeMessages handler what =>
    cases removed : isRemoved handler what m with
    | true => exact .inr (.inr ⟨handler, what, mem_singleton_self _, removed⟩)
    | false => exact .inl (mem_filter.mpr ⟨waits, by rw [removed]; rfl⟩)
  | pollInner now =>
    obtain ⟨queue, sends⟩ := l
    cases queue with
    | nil => cases waits
    | cons first rest =>
      simp only [Looper.step]
      split
      · rcases mem_cons.mp waits with rfl | behind
        · exact .inr (.inl (mem_singleton_self _))
        · exact .inl behind
      · exact .inl waits

theorem accounted_run {m : MessageEnvelope} (waits : m ∈ l.mMessageEnvelopes) (steps : List Step) :
    Accounted m steps (l.run steps) := by
  induction steps generalizing l with
  | nil => exact .inl waits
  | cons s steps ih =>
    rcases accounted_step waits s with stays | handed | ⟨handler, what, here, removed⟩
    · rcases ih stays with waits' | handed | ⟨handler, what, later, removed⟩
      · exact .inl waits'
      · exact .inr (.inl (by rw [Looper.run, map_append]; exact mem_append_right _ handed))
      · exact .inr (.inr ⟨handler, what, mem_cons_of_mem _ later, removed⟩)
    · exact .inr (.inl (by rw [Looper.run, map_append]; exact mem_append_left _ handed))
    · exact .inr (.inr ⟨handler, what, mem_singleton.mp here ▸ mem_cons_self, removed⟩)

/-- A message that is sent is not lost. -/
theorem message_not_lost (l : Looper) (uptime : Int) (handler : Nat) (what : Int)
    (steps : List Step) :
    Accounted ⟨uptime, handler, what, l.sends⟩ steps
      (l.run (.sendMessageAtTime uptime handler what :: steps)) :=
  accounted_run (mem_insert.mpr (.inl rfl)) steps

end Looper

end Aosp.Libutils
