import Mathlib.Tactic.Common

/- A stop-and-wait protocol over a network that loses, repeats and delays packets: one side asks and
repeats its request until it is answered, the other side answers each number once and repeats its
last answer. Packets carry their number modulo `m`; none arrives `m` or more numbers late. -/
namespace StopAndWait

open List

/-- A packet with its number, and what it carries of it. -/
structure Packet (Body : Type) where
  number : Nat
  seq : Nat
  body : Body

/-- Both sides and all packets that have been sent. -/
structure Link (σ Req Ans : Type) where
  state : σ
  expected : Nat
  saved : Option Ans
  /-- The requests that have been processed, with their answers. -/
  log : List (Req × Ans)
  /-- The number of the next request, or of the one that waits for its answer. -/
  current : Nat
  requests : List (Packet Req)
  answers : List (Packet Ans)

namespace Link

variable {σ Req Ans : Type}

def send (link : Link σ Req Ans) (seq : Nat) (request : Req) : Link σ Req Ans :=
  { link with requests := link.requests ++ [⟨link.current, seq, request⟩] }

/-- The answer has been accepted. -/
def accept (link : Link σ Req Ans) : Link σ Req Ans := { link with current := link.current + 1 }

variable (m : Nat) (process : σ → Req → Ans × σ)

/-- The answering side receives a request. -/
def receive (link : Link σ Req Ans) (p : Packet Req) : Link σ Req Ans :=
  if p.seq = link.expected % m then
    { link with
      state := (process link.state p.body).2
      expected := link.expected + 1
      saved := some (process link.state p.body).1
      log := link.log ++ [(p.body, (process link.state p.body).1)]
      answers := link.answers ++ [⟨p.number, p.seq, (process link.state p.body).1⟩] }
  else if (p.seq + 1) % m = link.expected % m then
    match link.saved with
    | some answer => { link with answers := link.answers ++ [⟨p.number, p.seq, answer⟩] }
    | none => link
  else link

/-- The network delivers one of the requests that have been sent. -/
def deliver (link : Link σ Req Ans) (i : Nat) : Link σ Req Ans :=
  match link.requests[i]? with
  | some p => if link.expected < p.number + m then link.receive m process p else link
  | none => link

/-- The network delivers one of the answers that have been sent. -/
def arriving (link : Link σ Req Ans) (i : Nat) : Option (Packet Ans) :=
  match link.answers[i]? with
  | some p => if link.current < p.number + m then some p else none
  | none => none

/-- What is known of the answers in the network. -/
def Answered (link : Link σ Req Ans) : Prop :=
  ∀ p ∈ link.answers, p.seq = p.number % m ∧ p.number < link.expected ∧
    (p.number + 1 = link.expected → link.saved = some p.body)

/-- No request waits for its answer. -/
structure Idle (link : Link σ Req Ans) : Prop where
  synced : link.expected = link.current
  requests : ∀ p ∈ link.requests, p.seq = p.number % m ∧ p.number < link.current
  answers : link.Answered m

/-- The request waits for its answer, and may have been processed. -/
structure Waiting (link : Link σ Req Ans) (log : List (Req × Ans)) (request : Req) : Prop where
  requests : ∀ p ∈ link.requests, p.seq = p.number % m ∧ p.number ≤ link.current ∧
    (p.number = link.current → p.body = request)
  answers : link.Answered m
  progress : (link.expected = link.current ∧ link.log = log) ∨
    (link.expected = link.current + 1 ∧ ∃ s, link.log = log ++ [(request, (process s request).1)] ∧
      link.saved = some (process s request).1)

variable {m process} {link : Link σ Req Ans} {log : List (Req × Ans)} {request : Req}

theorem Idle.waiting (idle : link.Idle m) (request : Req) :
    link.Waiting m process link.log request where
  requests := by
    intro p mem
    obtain ⟨seq, less⟩ := idle.requests p mem
    exact ⟨seq, Nat.le_of_lt less, fun same => absurd same (Nat.ne_of_lt less)⟩
  answers := idle.answers
  progress := .inl ⟨idle.synced, rfl⟩

theorem Waiting.send (waiting : link.Waiting m process log request) {seq : Nat}
    (isSeq : seq = link.current % m) :
    (link.send seq request).Waiting m process log request where
  requests := by
    intro p mem
    rcases mem_append.mp mem with before | new
    · exact waiting.requests p before
    · cases mem_singleton.mp new
      exact ⟨isSeq, Nat.le_refl _, fun _ => rfl⟩
  answers := waiting.answers
  progress := waiting.progress

/-- The number of a packet that is not too late is known from what it carries. -/
theorem number_eq {number n : Nat} (le : number ≤ n) (late : n < number + m)
    (same : number % m = n % m) :
    number = n := by
  have parts := Nat.div_add_mod number m
  have parts' := Nat.div_add_mod n m
  rcases Nat.lt_trichotomy (number / m) (n / m) with less | equal | more
  · have apart : m * (number / m) + m ≤ m * (n / m) := by
      exact Nat.mul_le_mul_left m less
    omega
  · rw [equal] at parts
    omega
  · have apart : m * (n / m) + m ≤ m * (number / m) := by
      exact Nat.mul_le_mul_left m more
    omega

variable {p : Packet Ans}

theorem answered_append (answered : link.Answered m) (seq : p.seq = p.number % m)
    (last : p.number + 1 = link.expected) (saved : link.saved = some p.body) :
    { link with answers := link.answers ++ [p] }.Answered m := by
  intro p' mem
  rcases mem_append.mp mem with before | new
  · exact answered p' before
  · cases mem_singleton.mp new
    exact ⟨seq, by dsimp only; omega, fun _ => saved⟩

/-- Only the request that waits is processed, and only once. -/
theorem Waiting.receive (waiting : link.Waiting m process log request) {p : Packet Req}
    (mem : p ∈ link.requests) (late : link.expected < p.number + m) :
    (link.receive m process p).Waiting m process log request := by
  obtain ⟨seq, le, body⟩ := waiting.requests p mem
  have behind : link.current ≤ link.expected := by
    rcases waiting.progress with ⟨same, -⟩ | ⟨next, -⟩ <;> omega
  unfold Link.receive
  split
  · rename_i isExpected
    have same : p.number = link.expected := number_eq (by omega) late (seq ▸ isExpected)
    rcases waiting.progress with ⟨synced, isLog⟩ | ⟨next, -⟩
    · have isRequest := body (by omega)
      refine ⟨waiting.requests, ?_, .inr ⟨by dsimp only; omega, link.state, ?_, ?_⟩⟩
      · intro p' mem'
        rcases mem_append.mp mem' with before | new
        · obtain ⟨seq', less, -⟩ := waiting.answers p' before
          exact ⟨seq', Nat.lt_succ_of_lt less, fun last => absurd last (by dsimp only; omega)⟩
        · cases mem_singleton.mp new
          exact ⟨seq, by dsimp only; omega, fun _ => rfl⟩
      · rw [isLog, isRequest]
      · rw [isRequest]
    · omega
  · split
    · rename_i notExpected isLast
      have last : p.number + 1 = link.expected := by
        have notSame : p.number ≠ link.expected := fun same => notExpected (same ▸ seq)
        refine number_eq (m := m) (by omega) (by omega) ?_
        rw [← isLast, seq, Nat.mod_add_mod]
      split
      · rename_i answer saved
        exact ⟨waiting.requests, answered_append waiting.answers seq last saved, waiting.progress⟩
      · exact waiting
    · exact waiting

theorem Waiting.deliver (waiting : link.Waiting m process log request) (i : Nat) :
    (link.deliver m process i).Waiting m process log request := by
  unfold Link.deliver
  split
  · rename_i p found
    split
    · rename_i late
      exact waiting.receive (mem_of_getElem? found) late
    · exact waiting
  · exact waiting

variable {i : Nat}

theorem mem_of_arriving (arriving : link.arriving m i = some p) :
    p ∈ link.answers ∧ link.current < p.number + m := by
  unfold Link.arriving at arriving
  split at arriving
  · rename_i p' found
    split at arriving
    · rename_i late
      cases arriving
      exact ⟨mem_of_getElem? found, late⟩
    · cases arriving
  · cases arriving

/-- An answer that arrives and carries the right number is the one to the request that waits. -/
theorem Waiting.answered (waiting : link.Waiting m process log request)
    (arriving : link.arriving m i = some p) (isCurrent : p.seq = link.current % m) :
    link.expected = link.current + 1 ∧ link.log = log ++ [(request, p.body)] ∧
      ∃ s, p.body = (process s request).1 := by
  obtain ⟨mem, late⟩ := mem_of_arriving arriving
  obtain ⟨seq, less, last⟩ := waiting.answers p mem
  have behind : link.expected ≤ link.current + 1 := by
    rcases waiting.progress with ⟨same, -⟩ | ⟨next, -⟩ <;> omega
  have same : p.number = link.current := number_eq (by omega) late (seq ▸ isCurrent)
  rcases waiting.progress with ⟨synced, -⟩ | ⟨next, s, isLog, saved⟩
  · omega
  · have isBody := Option.some.inj (saved.symm.trans (last (by omega)))
    exact ⟨next, by rw [isLog, isBody], s, isBody.symm⟩

theorem Waiting.accept (waiting : link.Waiting m process log request)
    (processed : link.expected = link.current + 1) :
    link.accept.Idle m where
  synced := processed
  requests := by
    intro p mem
    obtain ⟨seq, le, -⟩ := waiting.requests p mem
    exact ⟨seq, Nat.lt_succ_of_le le⟩
  answers := waiting.answers

end Link

end StopAndWait
