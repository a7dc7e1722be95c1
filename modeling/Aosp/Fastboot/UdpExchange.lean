import Aosp.Fastboot.Udp

/- What a call of `SendSinglePacketHelper` does to the link: the device processes the packet and the
prompts for the rest of its response, each of them once. -/
namespace Aosp.Fastboot.Udp

open BitVec List Layout Fallible StopAndWait

variable {D : Device}

/-- Two bytes hold a number modulo 2^16. -/
theorem bytes_eq_iff {a c : Nat} :
    (highByte a = highByte c ∧ lowByte a = lowByte c) ↔ a % 2 ^ 16 = c % 2 ^ 16 := by
  simp only [highByte, lowByte, ← toNat_inj, toNat_ofNat]
  omega

theorem extractUint16_bytes (a : Nat) : extractUint16 (highByte a) (lowByte a) = a % 2 ^ 16 := by
  simp only [extractUint16, highByte, lowByte, toNat_ofNat]
  omega

theorem mod_succ (sequence : BitVec 32) {current : Nat}
    (synced : sequence.toNat % 2 ^ 16 = current % 2 ^ 16) :
    (sequence + 1).toNat % 2 ^ 16 = (current + 1) % 2 ^ 16 := by
  have one : (1 : BitVec 32).toNat = 1 := rfl
  rw [toNat_add]
  omega

theorem current_deliver {σ Req Ans : Type} {m : Nat} {process : σ → Req → Ans × σ}
    (link : Link σ Req Ans) (i : Nat) :
    (link.deliver m process i).current = link.current := by
  unfold Link.deliver
  split
  · split
    · unfold Link.receive
      split
      · rfl
      · split
        · split <;> rfl
        · rfl
    · rfl
  · rfl

def Answer.continues (answer : Answer) : Prop := answer.flags &&& kFlagContinuation ≠ 0

/-- The device answers a packet with its id. -/
structure Answers (D : Device) (request : Request) (answer : Answer) : Prop where
  processed : ∃ state, answer = (D.process state request).1
  id : answer.id = request.id

/-- The packet, and prompts for as long as the response continues. -/
inductive Exchanged (D : Device) : Request → List (Request × Answer) → Prop where
  | last {request : Request} {answer : Answer} (answers : Answers D request answer)
    (stops : ¬ answer.continues) : Exchanged D request [(request, answer)]
  | more {request : Request} {answer : Answer} {rest : List (Request × Answer)}
    (answers : Answers D request answer)
      (continues : answer.continues) (prompted : Exchanged D ⟨request.id, kFlagNone, []⟩ rest) :
      Exchanged D request ((request, answer) :: rest)

/-- The data of the responses, each as far as a packet has room for it. -/
def joined (room : Nat) (exchanges : List (Request × Answer)) : List Byte :=
  exchanges.flatMap fun e => e.2.data.take room

/-- Answers to queries are recognized. -/
def Told (w : World D) : Prop := ∀ bytes ∈ w.told, bytes.getD 0 0 = kIdDeviceQuery

theorem told_step {w : World D} (told : Told w) (event : Event) : Told (w.step event).1 := by
  cases event with
  | toDevice i => exact told
  | toHost i => exact told
  | queryToHost i => exact told
  | queryToDevice i =>
    simp only [World.step]
    split
    · intro bytes mem
      rcases mem_append.mp mem with before | new
      · exact told bytes before
      · rw [mem_singleton.mp new]
        rfl
    · exact told

/-- The current packet of the host. -/
structure Pending (D : Device) (log : List (Request × Answer)) (header : Header) (tx : List Byte)
  (host : Host) (w : World D) : Prop where
  waiting : w.link.Waiting (2 ^ 16) D.process log ⟨header.id, header.flags, tx⟩
  told : Told w
  numbered : host.sequence.toNat % 2 ^ 16 = w.link.current % 2 ^ 16
  seqH : header.seqH = highByte host.sequence.toNat
  seqL : header.seqL = lowByte host.sequence.toNat
  noQuery : header.id ≠ kIdDeviceQuery
  room : kHeaderSize ≤ host.rxPacketSize

variable {log : List (Request × Answer)} {header : Header} {tx : List Byte} {host : Host}
  {w : World D}

namespace Pending

section

variable (pending : Pending D log header tx host w)

include pending

theorem send : Pending D log header tx host (w.send header tx) := by
  have isSeq : extractUint16 header.seqH header.seqL = w.link.current % 2 ^ 16 := by
    rw [pending.seqH, pending.seqL, extractUint16_bytes, pending.numbered]
  unfold World.send
  rw [if_neg pending.noQuery]
  exact ⟨pending.waiting.send isSeq, pending.told, pending.numbered, pending.seqH, pending.seqL,
    pending.noQuery, pending.room⟩

theorem step (event : Event) : Pending D log header tx host (w.step event).1 := by
  refine ⟨?_, told_step pending.told event, ?_, pending.seqH, pending.seqL, pending.noQuery,
    pending.room⟩
  · cases event with
    | toDevice i => exact pending.waiting.deliver i
    | toHost i => exact pending.waiting
    | queryToHost i => exact pending.waiting
    | queryToDevice i =>
      simp only [World.step]
      split <;> exact pending.waiting
  · rw [pending.numbered]
    cases event with
    | toDevice i => exact (congrArg (· % 2 ^ 16) (current_deliver w.link i)).symm
    | toHost i => rfl
    | queryToHost i => rfl
    | queryToDevice i =>
      simp only [World.step]
      split <;> rfl

variable {w' : World D}

theorem matched {event : Event} {packet : List Byte} (arrives : w.step event = (w', some packet))
    (isMatch : header.isMatch (packet.take host.rxPacketSize)) :
    ∃ answer, packet = answerBytes (w'.link.current % 2 ^ 16) answer ∧
      w'.link.expected = w'.link.current + 1 ∧
      w'.link.log = log ++ [(⟨header.id, header.flags, tx⟩, answer)] ∧
      ∃ state, answer = (D.process state ⟨header.id, header.flags, tx⟩).1 := by
  have room : 4 ≤ host.rxPacketSize := pending.room
  have intact {i : Nat} (less : i < 4) : (packet.take host.rxPacketSize).getD i 0 =
      packet.getD i 0 := by
    rw [getD_eq_getElem?_getD, getD_eq_getElem?_getD,
      getElem?_take_of_lt (lt_of_lt_of_le less room)]
  simp only [Header.isMatch, Bool.and_eq_true, Bool.or_eq_true, beq_iff_eq,
    intact (show 0 < 4 by decide), intact (show 2 < 4 by decide),
    intact (show 3 < 4 by decide)] at isMatch
  obtain ⟨⟨high, low⟩, isId⟩ := isMatch
  cases event with
  | toDevice i => cases arrives
  | queryToDevice i =>
    simp only [World.step] at arrives
    split at arrives <;> cases arrives
  | queryToHost i =>
    obtain ⟨rfl, told⟩ := Prod.mk.inj arrives
    have isQuery := pending.told packet (mem_of_getElem? told)
    rw [isQuery] at isId
    exact absurd isId (not_or.mpr ⟨pending.noQuery, by decide⟩)
  | toHost i =>
    obtain ⟨rfl, found⟩ := Prod.mk.inj arrives
    obtain ⟨p, arriving, rfl⟩ := Option.map_eq_some_iff.mp found
    have isSeq := (pending.waiting.answers p (Link.mem_of_arriving arriving).1).1
    have same : p.seq % 2 ^ 16 = host.sequence.toNat % 2 ^ 16 :=
      bytes_eq_iff.mp ⟨(pending.seqH.symm.trans high).symm, (pending.seqL.symm.trans low).symm⟩
    have isCurrent : p.seq = w.link.current % 2 ^ 16 := by
      rw [← pending.numbered, ← same, isSeq, Nat.mod_mod]
    obtain ⟨next, isLog, processed⟩ := pending.waiting.answered arriving isCurrent
    exact ⟨p.body, by rw [isCurrent], next, isLog, processed⟩

/-- The inner loop ends without a response, or with the one to the packet. -/
theorem receiveLoop {receiveFails : Bool} {events : List Event} {heard : Heard}
    (run : receiveLoop header host.rxPacketSize receiveFails events w = (w', heard)) :
    Pending D log header tx host w' ∧ (∀ e, heard = .failed e → e ≠ .outOfBounds) ∧
      ∀ bytes, heard = .matched bytes → ∃ answer,
        bytes = (answerBytes (w'.link.current % 2 ^ 16) answer).take host.rxPacketSize ∧
        w'.link.expected = w'.link.current + 1 ∧
        w'.link.log = log ++ [(⟨header.id, header.flags, tx⟩, answer)] ∧
        ∃ state, answer = (D.process state ⟨header.id, header.flags, tx⟩).1 := by
  induction events generalizing w with
  | nil =>
    cases run
    refine ⟨pending, fun e failed => ?_, fun bytes matched => ?_⟩
    · split at failed <;> cases failed
      decide
    · split at matched <;> cases matched
  | cons event rest ih =>
    rw [Udp.receiveLoop] at run
    split at run
    · rename_i w₁ stepped
      exact ih (by simpa only [stepped] using pending.step event) run
    · rename_i w₁ packet stepped
      have pending₁ : Pending D log header tx host w₁ := by
        simpa only [stepped] using pending.step event
      dsimp only at run
      split at run
      · cases run
        exact ⟨pending₁, fun e failed => by cases failed; decide, nofun⟩
      · split at run
        · rename_i isMatch
          cases run
          refine ⟨pending₁, nofun, fun bytes matched => ?_⟩
          cases matched
          obtain ⟨answer, rfl, rest⟩ := pending.matched stepped isMatch
          exact ⟨answer, rfl, rest⟩
        · exact ih pending₁ run

end

end Pending

/-- Where the buffer of the caller has room. -/
def Transfer.Room (t : Transfer) : Prop := t.rxData + t.rxLength ≤ t.buffer.length

/-- Data is stored as far as there is room, and counted as a whole. -/
def Transfer.stored (t : Transfer) (data : List Byte) : Transfer :=
  { t with
    buffer := overwrite t.buffer t.rxData (data.take t.rxLength)
    rxData := t.rxData + min data.length t.rxLength
    rxLength := t.rxLength - min data.length t.rxLength
    total := t.total + data.length }

variable {t : Transfer}

theorem Transfer.Room.inside (room : t.Room) (data : List Byte) :
    t.rxData + (data.take t.rxLength).length ≤ t.buffer.length := by
  unfold Transfer.Room at room
  simp
  omega

theorem Transfer.Room.stored (room : t.Room) (data : List Byte) : (t.stored data).Room := by
  have inside := length_overwrite (room.inside data)
  unfold Transfer.Room Transfer.stored at *
  dsimp only
  omega

theorem Transfer.stored_append (room : t.Room) (first second : List Byte) :
    (t.stored first).stored second = t.stored (first ++ second) := by
  have length : (first.take t.rxLength).length = min first.length t.rxLength := by
    rw [length_take, min_comm]
  have split : (first ++ second).take t.rxLength =
      first.take t.rxLength ++ second.take (t.rxLength - min first.length t.rxLength) := by
    rw [take_append]
    congr 2
    omega
  unfold Transfer.stored
  dsimp only
  rw [split, ← overwrite_overwrite (room.inside first), length, length_append]
  congr 1 <;> omega

/-- The part of an answer for which a packet has room. -/
def Answer.cut (answer : Answer) (room : Nat) : Answer :=
  { answer with data := answer.data.take room }

theorem take_answerBytes (seq : Nat) (answer : Answer) {size : Nat} (large : kHeaderSize ≤ size) :
    (answerBytes seq answer).take size = answerBytes seq (answer.cut (size - kHeaderSize)) := by
  obtain ⟨room, rfl⟩ := Nat.exists_eq_add_of_le large
  rw [add_comm]
  rfl

variable {id : Byte}

theorem save_bytes (room : t.Room) (noError : id ≠ kIdError) (flags high low : Byte)
    (data : List Byte) :
    save t (id :: flags :: high :: low :: data) = .ok (t.stored data) := by
  have length : (id :: flags :: high :: low :: data).length - kHeaderSize = data.length := by
    simp [kHeaderSize]
  have isData : (id :: flags :: high :: low :: data).drop kHeaderSize = data := rfl
  have isId : (id :: flags :: high :: low :: data).getD 0 0 = id := rfl
  unfold save
  rw [isId, if_neg noError, length, isData]
  dsimp only
  have same : data.take (min data.length t.rxLength) = data.take t.rxLength := by
    rw [take_eq_take_iff]
    omega
  split
  · rw [same, memcpy, if_pos (room.inside data)]
    rfl
  · have isZero : min data.length t.rxLength = 0 := by omega
    have nothing : data.take t.rxLength = [] := by simp [← same, isZero]
    rw [Transfer.stored, nothing, overwrite_nil, isZero]
    rfl

variable {answer : Answer}

theorem save_data (room : t.Room) (seq : Nat) (noError : answer.id ≠ kIdError) :
    save t (answerBytes seq answer) = .ok (t.stored answer.data) :=
  save_bytes room noError _ _ _ _

theorem save_error (t : Transfer) (seq : Nat) (isError : answer.id = kIdError) :
    save t (answerBytes seq answer) = .ok { t with error := t.error ++ answer.data } := by
  have isId : (answerBytes seq answer).getD 0 0 = answer.id := rfl
  unfold save
  rw [isId, if_pos isError]
  rfl

/-- Between two packets. -/
structure Ready (s : Session D) : Prop where
  idle : s.world.link.Idle (2 ^ 16)
  told : Told s.world
  numbered : s.host.sequence.toNat % 2 ^ 16 = s.world.link.current % 2 ^ 16
  room : kHeaderSize ≤ s.host.rxPacketSize

variable {s : Session D}

theorem Ready.pending (ready : Ready s) (noQuery : id ≠ kIdDeviceQuery) (flag : Byte)
    (tx : List Byte) :
    Pending D s.world.link.log (.set id s.host.sequence flag) tx s.host s.world :=
  ⟨ready.idle.waiting _, ready.told, ready.numbered, rfl, rfl, noQuery, ready.room⟩

theorem Pending.advance (pending : Pending D log header tx s.host w)
    (processed : w.link.expected = w.link.current + 1) :
    Ready (s.advance w) :=
  ⟨pending.waiting.accept processed, pending.told, mod_succ _ pending.numbered, pending.room⟩

/-- What the size of a packet leaves for data. -/
def Host.packetRoom (host : Host) : Nat := host.rxPacketSize - kHeaderSize

/-- What a successful call of `SendSinglePacketHelper` has done. -/
structure Sent (log : List (Request × Answer)) (request : Request) (host : Host) (t : Transfer)
  (s' : Session D) (t' : Transfer) (exchanges : List (Request × Answer)) : Prop where
  noError : request.id ≠ kIdError
  exchanged : Exchanged D request exchanges
  ready : Ready s'
  log : s'.world.link.log = log ++ exchanges
  buffer : t'.buffer = (t.stored (joined host.packetRoom exchanges)).buffer
  total : t'.total = t.total + (joined host.packetRoom exchanges).length
  maxDataLength : s'.host.maxDataLength = host.maxDataLength
  rxPacketSize : s'.host.rxPacketSize = host.rxPacketSize

variable {request : Request}

theorem sent_last (ready : Ready (s.advance w)) (isLog : w.link.log = log ++ [(request, answer)])
    (answers : Answers D request answer) (noError : answer.id ≠ kIdError)
    (stops : ¬ answer.continues) :
    Sent log request s.host t (s.advance w) (t.stored (answer.data.take s.host.packetRoom))
      [(request, answer)] where
  noError := answers.id ▸ noError
  exchanged := .last answers stops
  ready := ready
  log := isLog
  buffer := by rw [joined, flatMap_singleton]
  total := by
    rw [joined, flatMap_singleton]
    rfl
  maxDataLength := rfl
  rxPacketSize := rfl

theorem Sent.prompted {s' : Session D} {t' : Transfer} {w : World D} {header : Header}
    {rest : List (Request × Answer)} (room : t.Room)
    (isLog : w.link.log = log ++ [(request, answer)]) (answers : Answers D request answer)
    (continues : answer.continues)
    (sent : Sent w.link.log ⟨answer.id, kFlagNone, []⟩ (s.advance w).host
      { t.stored (answer.data.take s.host.packetRoom) with header, tx := [] } s' t' rest) :
    Sent log request s.host t s' t' ((request, answer) :: rest) where
  noError := answers.id ▸ sent.noError
  exchanged := .more answers continues (answers.id ▸ sent.exchanged)
  ready := sent.ready
  log := by simp [sent.log, isLog]
  buffer := by
    rw [sent.buffer, joined, joined, flatMap_cons, ← Transfer.stored_append room]
    rfl
  total := by
    rw [sent.total, joined, joined, flatMap_cons, length_append, ← add_assoc]
    rfl
  maxDataLength := sent.maxDataLength
  rxPacketSize := sent.rxPacketSize

theorem sent_sendSinglePacketHelper {attempts attemptsLeft : Nat} {schedule : List Round}
    (pending : Pending D log t.header t.tx s.host s.world) (room : t.Room) :
    Ends .outOfBounds (sendSinglePacketHelper attempts schedule attemptsLeft s t) fun done =>
      ∃ exchanges, Sent log ⟨t.header.id, t.header.flags, t.tx⟩ s.host t done.2.1 done.1
      exchanges := by
  induction schedule generalizing attemptsLeft s t log with
  | nil => cases attemptsLeft <;> exact .error nofun
  | cons round rest ih =>
    cases attemptsLeft with
    | zero => exact .error nofun
    | succ attemptsLeft =>
      rw [sendSinglePacketHelper]
      split
      · exact .error nofun
      · split
        · rename_i w e heard
          exact .error ((pending.send.receiveLoop heard).2.1 e rfl)
        · rename_i w heard
          exact ih (pending.send.receiveLoop heard).1 room
        · rename_i w bytes heard
          obtain ⟨pending', -, matched⟩ := pending.send.receiveLoop heard
          obtain ⟨answer, rfl, processed, isLog, state, isAnswer⟩ := matched bytes rfl
          have isId : answer.id = t.header.id ∨ answer.id = kIdError := isAnswer ▸ D.answers state _
          have ready := pending'.advance processed
          have noQuery : answer.id ≠ kIdDeviceQuery := by
            rcases isId with same | isError
            · exact same ▸ pending.noQuery
            · rw [isError]
              decide
          rw [take_answerBytes _ _ pending.room]
          -- An error is never followed by anything else, so the response fails at its end.
          by_cases isError : answer.id = kIdError
          · have isError' : (answer.cut (s.host.rxPacketSize - kHeaderSize)).id =
              kIdError := isError
            rw [save_error t _ isError']
            split
            · refine (ih (by exact ready.pending noQuery kFlagNone []) (by exact room)).imp
                fun done sent => ?_
              exact absurd isError sent.choose_spec.noError
            · split
              · exact .error nofun
              · rename_i noError
                exact absurd isError noError
          · have answers : Answers D ⟨t.header.id, t.header.flags, t.tx⟩ answer :=
              ⟨⟨state, isAnswer⟩, isId.resolve_right isError⟩
            have noError : (answer.cut (s.host.rxPacketSize - kHeaderSize)).id ≠ kIdError := isError
            rw [save_data room _ noError]
            split
            · rename_i continues
              refine (ih (by exact ready.pending noQuery kFlagNone []) (by exact room.stored _)).imp
                fun done sent => ?_
              exact ⟨_, Sent.prompted room isLog answers continues sent.choose_spec⟩
            · rename_i stops
              split
              · rename_i isError'
                exact absurd isError' isError
              · exact .ok ⟨_, sent_last ready isLog answers isError stops⟩

end Aosp.Fastboot.Udp
