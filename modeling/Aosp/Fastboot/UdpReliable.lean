import Aosp.Fastboot.UdpExchange

namespace Aosp.Fastboot.Udp

open List Layout Fallible StopAndWait World

variable {D : Device}

variable {request : Request} {exchanges : List (Request × Answer)}

/-- The prompts have no data of their own. -/
theorem Exchanged.data (exchanged : Exchanged D request exchanges) :
    exchanges.flatMap (fun e => e.1.data) = request.data := by
  induction exchanged with
  | last => exact append_nil _
  | more _ _ _ ih => rw [flatMap_cons, ih, append_nil]

theorem Exchanged.ids (exchanged : Exchanged D request exchanges) :
    ∀ e ∈ exchanges, e.1.id = request.id ∧ Answers D e.1 e.2 := by
  induction exchanged with
  | last answers _ =>
    intro e mem
    cases mem_singleton.mp mem
    exact ⟨rfl, answers⟩
  | more answers _ _ ih =>
    intro e mem
    rcases mem_cons.mp mem with rfl | later
    · exact ⟨rfl, answers⟩
    · exact ih e later

/-- How many bytes of the data go into the next packet. -/
def packetDataLength (host : Host) (tx : List Byte) : Nat :=
  if tx.length > host.maxDataLength then host.maxDataLength else tx.length

def packetFlag (host : Host) (tx : List Byte) : Byte :=
  if tx.length > host.maxDataLength then kFlagContinuation else kFlagNone

/-- What one round of the loop has done. -/
structure SentChunk (id : Byte) (s : Session D) (c : Chunks) (s' : Session D) (c' : Chunks)
    (exchanges : List (Request × Answer)) : Prop where
  exchanged : Exchanged D ⟨id, packetFlag s.host c.tx,
    c.tx.take (packetDataLength s.host c.tx)⟩ exchanges
  ready : Ready s'
  log : s'.world.link.log = s.world.link.log ++ exchanges
  tx : c'.tx = c.tx.drop (packetDataLength s.host c.tx)
  buffer : c'.buffer = overwrite c.buffer c.rxData
    ((joined s.host.packetRoom exchanges).take c.rxLength)
  room : c'.rxData + c'.rxLength ≤ c'.buffer.length
  ret : c'.ret = c.ret + (joined s.host.packetRoom exchanges).length
  maxDataLength : s'.host.maxDataLength = s.host.maxDataLength
  rxPacketSize : s'.host.rxPacketSize = s.host.rxPacketSize

variable {id : Byte} {attempts : Nat} {s : Session D} {schedule : List Round} {c : Chunks}

theorem sent_sendChunk (ready : Ready s) (noQuery : id ≠ kIdDeviceQuery)
    (room : c.rxData + c.rxLength ≤ c.buffer.length) :
    Ends .outOfBounds (sendChunk id attempts s schedule c) fun done =>
      ∃ exchanges, SentChunk id s c done.2.1 done.1 exchanges := by
  have pending := ready.pending noQuery (packetFlag s.host c.tx)
    (c.tx.take (packetDataLength s.host c.tx))
  have inside : Transfer.Room ⟨.set id s.host.sequence (packetFlag s.host c.tx),
      c.tx.take (packetDataLength s.host c.tx), c.buffer, c.rxData, c.rxLength, 0, []⟩ := room
  refine (sent_sendSinglePacketHelper pending inside).bind ?_
  rintro ⟨t, s₁, rest₁⟩ ⟨exchanges, isSent⟩
  have length := congrArg List.length isSent.buffer
  have kept : t.buffer.length = c.buffer.length := length.trans (length_overwrite (inside.inside _))
  refine .ok ⟨exchanges, isSent.exchanged, isSent.ready, isSent.log, rfl, isSent.buffer, ?_, ?_,
    isSent.maxDataLength, isSent.rxPacketSize⟩
  · dsimp only
    split <;> omega
  · exact congrArg (c.ret + ·) (isSent.total.trans (zero_add _))

/-- What the loop has done. -/
structure SentData (id : Byte) (s : Session D) (tx : List Byte) (s' : Session D)
  (exchanges : List (Request × Answer)) : Prop where
  ready : Ready s'
  log : s'.world.link.log = s.world.link.log ++ exchanges
  data : exchanges.flatMap (fun e => e.1.data) = tx
  ids : ∀ e ∈ exchanges, e.1.id = id
  maxDataLength : s'.host.maxDataLength = s.host.maxDataLength
  rxPacketSize : s'.host.rxPacketSize = s.host.rxPacketSize

variable {s' : Session D}

theorem SentChunk.sentData {c' : Chunks} (chunk : SentChunk id s c s' c' exchanges) :
    SentData id s (c.tx.take (packetDataLength s.host c.tx)) s' exchanges :=
  ⟨chunk.ready, chunk.log, chunk.exchanged.data, fun e mem => (chunk.exchanged.ids e mem).1,
    chunk.maxDataLength, chunk.rxPacketSize⟩

theorem SentData.append {s₁ : Session D} {first second : List Byte}
    {later : List (Request × Answer)} (sent : SentData id s first s₁ exchanges)
    (sent' : SentData id s₁ second s' later) :
    SentData id s (first ++ second) s' (exchanges ++ later) where
  ready := sent'.ready
  log := by simp [sent'.log, sent.log]
  data := by simp [sent.data, sent'.data]
  ids := by
    intro e mem
    rcases mem_append.mp mem with early | late
    · exact sent.ids e early
    · exact sent'.ids e late
  maxDataLength := sent'.maxDataLength.trans sent.maxDataLength
  rxPacketSize := sent'.rxPacketSize.trans sent.rxPacketSize

theorem sent_sendLoop {bound : Nat} (ready : Ready s) (noQuery : id ≠ kIdDeviceQuery)
    (room : c.rxData + c.rxLength ≤ c.buffer.length) (positive : 0 < s.host.maxDataLength)
    (enough : c.tx.length ≤ bound) :
    Ends .outOfBounds (sendLoop id attempts bound s schedule c) fun done =>
      ∃ exchanges, SentData id s c.tx done.2.1 exchanges := by
  induction bound generalizing s schedule c with
  | zero =>
    refine (sent_sendChunk ready noQuery room).imp fun done ⟨exchanges, chunk⟩ => ?_
    have all : c.tx.take (packetDataLength s.host c.tx) = c.tx := by
      rw [length_eq_zero_iff.mp (Nat.le_zero.mp enough), take_nil]
    exact ⟨exchanges, all ▸ chunk.sentData⟩
  | succ bound ih =>
    refine (sent_sendChunk ready noQuery room).bind ?_
    rintro ⟨c₁, s₁, rest₁⟩ ⟨exchanges, chunk⟩
    have split := take_append_drop (packetDataLength s.host c.tx) c.tx
    rw [← chunk.tx] at split
    dsimp only
    split
    · have shorter : c₁.tx.length ≤ bound := by
        rw [chunk.tx, length_drop]
        unfold packetDataLength
        split <;> omega
      refine (ih chunk.ready chunk.room (chunk.maxDataLength ▸ positive) shorter).imp
        fun done ⟨exchanges', sent'⟩ => ?_
      exact ⟨_, split ▸ chunk.sentData.append sent'⟩
    · have nothing : c₁.tx = [] := length_eq_zero_iff.mp (by omega)
      rw [nothing, append_nil] at split
      exact .ok ⟨exchanges, split ▸ chunk.sentData⟩

variable {tx buffer : List Byte}

theorem sent_sendData (ready : Ready s) (noQuery : id ≠ kIdDeviceQuery)
    (positive : 0 < s.host.maxDataLength) :
    Ends .outOfBounds (sendData id attempts s schedule tx buffer) fun done =>
      ∃ exchanges, SentData id s tx done.2.1 exchanges :=
  sent_sendLoop ready noQuery (le_of_eq (zero_add _)) positive
    (le_refl _)

/-- Only queries have been sent, and answered with the number that is expected. -/
structure Querying (link : Link D.State Request Answer) (w : World D) : Prop where
  same : w.link = link
  told : ∀ bytes ∈ w.told, ∃ query, bytes = queryBytes query link.expected

/-- A link over which nothing has been sent. -/
structure Silent (link : Link D.State Request Answer) : Prop where
  requests : link.requests = []
  answers : link.answers = []

section Query

variable {link : Link D.State Request Answer} {w : World D}

theorem Querying.step (querying : Querying link w) (silent : Silent link) (event : Event) :
    Querying link (w.step event).1 ∧ ∀ packet, (w.step event).2 = some packet →
      ∃ query, packet = queryBytes query link.expected := by
  obtain ⟨rfl, told⟩ := querying
  cases event with
  | toDevice i =>
    refine ⟨⟨?_, told⟩, fun _ arrives => by cases arrives⟩
    simp [step, Link.deliver, silent.requests]
  | toHost i =>
    refine ⟨⟨rfl, told⟩, fun packet arrives => ?_⟩
    simp only [step, Link.arriving, silent.answers] at arrives
    cases arrives
  | queryToDevice i =>
    simp only [step]
    split
    · rename_i query _
      refine ⟨⟨rfl, fun bytes mem => ?_⟩, by simp⟩
      rcases mem_append.mp mem with before | new
      · exact told bytes before
      · exact ⟨query, mem_singleton.mp new⟩
    · exact ⟨⟨rfl, told⟩, by simp⟩
  | queryToHost i =>
    exact ⟨⟨rfl, told⟩, fun packet arrives => told packet (mem_of_getElem? arrives)⟩

theorem Querying.receiveLoop {header : Header} {size : Nat} {receiveFails : Bool}
    {events : List Event} {w' : World D} {heard : Heard} (querying : Querying link w)
    (silent : Silent link) (large : 6 ≤ size)
    (run : receiveLoop header size receiveFails events w = (w', heard)) :
    Querying link w' ∧ ∀ bytes, heard = .matched bytes →
      ∃ query, bytes = queryBytes query link.expected := by
  induction events generalizing w with
  | nil =>
    cases run
    refine ⟨querying, fun bytes matched => ?_⟩
    split at matched <;> cases matched
  | cons event rest ih =>
    obtain ⟨next, packets⟩ := querying.step silent event
    rw [Udp.receiveLoop] at run
    split at run
    · rename_i w₁ stepped
      rw [stepped] at next
      exact ih next run
    · rename_i w₁ packet stepped
      rw [stepped] at next packets
      obtain ⟨query, rfl⟩ := packets packet rfl
      dsimp only at run
      split at run
      · cases run
        exact ⟨next, by simp⟩
      · split at run
        · cases run
          refine ⟨next, fun bytes matched => ?_⟩
          cases matched
          exact ⟨query, take_of_length_le large⟩
        · exact ih next run

/-- A query that is answered gives the number that the device expects. -/
theorem querying_sendSinglePacketHelper {attempts attemptsLeft : Nat} {schedule rest : List Round}
    {s s' : Session D} {t t' : Transfer} (isQuery : t.header.id = kIdDeviceQuery)
    (querying : Querying link s.world) (silent : Silent link) (large : 6 ≤ s.host.rxPacketSize)
    (room : t.Room)
    (run : sendSinglePacketHelper attempts schedule attemptsLeft s t = .ok (t', s', rest)) :
    t'.buffer = (t.stored [highByte link.expected, lowByte link.expected]).buffer ∧
      Querying link.accept s'.world ∧ s'.host.maxDataLength = s.host.maxDataLength ∧
      s'.host.rxPacketSize = s.host.rxPacketSize := by
  induction schedule generalizing attemptsLeft s t with
  | nil => cases attemptsLeft <;> cases run
  | cons round rest' ih =>
    cases attemptsLeft with
    | zero => cases run
    | succ attemptsLeft =>
      have sent : Querying link (s.world.send t.header t.tx) := by
        unfold send
        rw [if_pos isQuery]
        exact ⟨querying.same, querying.told⟩
      rw [sendSinglePacketHelper] at run
      split at run
      · cases run
      · split at run
        · cases run
        · rename_i w heard
          exact ih (s := { s with world := w }) isQuery (sent.receiveLoop silent large heard).1
            large room run
        · rename_i w bytes heard
          obtain ⟨next, matched⟩ := sent.receiveLoop silent large heard
          obtain ⟨query, rfl⟩ := matched bytes rfl
          rw [queryBytes, save_bytes room (by decide)] at run
          split at run
          · rename_i continues
            exact absurd (show kFlagNone &&& kFlagContinuation = 0 by decide) continues
          · cases run
            exact ⟨rfl, ⟨congrArg Link.accept next.same, next.told⟩, rfl, rfl⟩

end Query

variable {rest : List Round}

theorem silent_start (state : D.State) (expected : Nat) (saved : Option Answer) :
    Silent (World.start state expected saved).link := ⟨rfl, rfl⟩

/-- The host has been told the number that the device expects. -/
theorem ready_of_query {link : Link D.State Request Answer} {w : World D} {host : Host}
    (querying : Querying link.accept w) (silent : Silent link)
    (large : kHeaderSize ≤ host.rxPacketSize) :
    Ready (⟨{ host with sequence := BitVec.ofNat 32 (link.expected % 2 ^ 16) },
      { w with link := { w.link with current := w.link.expected } }⟩ : Session D) where
  idle := by
    rw [querying.same]
    refine ⟨rfl, ?_, ?_⟩
    · intro p mem
      have nothing : p ∈ link.requests := mem
      rw [silent.requests] at nothing
      cases nothing
    · intro p mem
      have vacant : p ∈ link.answers := mem
      rw [silent.answers] at vacant
      cases vacant
  told := by
    intro bytes mem
    obtain ⟨query, rfl⟩ := querying.told bytes mem
    rfl
  numbered := by
    rw [querying.same, BitVec.toNat_ofNat]
    change _ = link.expected % 2 ^ 16
    omega
  room := large

/-- A connection leaves host and device at the same number. -/
theorem ready_initializeProtocol {state : D.State} {expected : Nat} {saved : Option Answer}
    (run : initializeProtocol (World.start state expected saved) schedule = .ok (s, rest)) :
    Ready s ∧ s.host.rxPacketSize = s.host.maxDataLength + kHeaderSize ∧
      kMinPacketSize ≤ s.host.rxPacketSize := by
  simp only [initializeProtocol, bind_eq_ok, demand_eq_ok, decide_eq_true_eq, exists_const] at run
  obtain ⟨⟨query, s₁, rest₁⟩, queried, -, ⟨init, s₂, rest₂⟩, initialized, -, -, large, returned⟩ :=
    run
  change sendChunk kIdDeviceQuery _ _ _ ⟨[], [0, 0, 0, 0], 0, 4, 0⟩ = _ at queried
  simp only [sendChunk, bind_eq_ok] at queried
  obtain ⟨⟨query, s₁, rest₁⟩, sent, ended⟩ := queried
  cases ended
  obtain ⟨told, querying, maxDataLength, rxPacketSize⟩ := querying_sendSinglePacketHelper rfl
    ⟨rfl, fun _ mem => absurd mem not_mem_nil⟩ (silent_start state expected saved)
    (show 6 ≤ kMinPacketSize by decide) (by exact le_refl 4) sent
  have isSequence : extractUint16 (query.buffer.getD 0 0) (query.buffer.getD 1 0) =
      (start state expected saved).link.expected % 2 ^ 16 := by
    rw [told]
    exact extractUint16_bytes _
  rw [isSequence] at initialized
  have room : kHeaderSize ≤ s₁.host.rxPacketSize := by
    rw [rxPacketSize]
    exact (show kHeaderSize ≤ kMinPacketSize by decide)
  have positive : 0 < s₁.host.maxDataLength := by
    rw [maxDataLength]
    exact (show 0 < kMinPacketSize - kHeaderSize by decide)
  have ready := ready_of_query querying (silent_start state expected saved) room
  obtain ⟨exchanges, sent⟩ := (sent_sendData ready (by decide) positive).2 _ initialized
  cases returned
  have atLeast : kMinPacketSize ≤ min kHostMaxPacketSize
      (extractUint16 (init.buffer.getD 2 0) (init.buffer.getD 3 0)) :=
    Nat.le_min.mpr ⟨by decide, large⟩
  have header : kHeaderSize ≤ kMinPacketSize := by decide
  refine ⟨⟨sent.ready.idle, sent.ready.told, sent.ready.numbered, le_trans header atLeast⟩, ?_,
    atLeast⟩
  dsimp only
  omega

/-- What a call has done that has not returned -1. A write has delivered its bytes to the device in
packets that it has processed once and in this order. A read has returned what the device has
answered, up to an answer that does not continue, and has left the rest of the buffer as it was. -/
def Served (done : Done D) : Prop :=
  ∃ exchanges, done.after.world.link.log = done.before.world.link.log ++ exchanges ∧
    match done.call with
    | .write data => done.returned = data.length ∧ exchanges.flatMap (fun e => e.1.data) = data ∧
        ∀ e ∈ exchanges, e.1.id = kIdFastboot
    | .read buffer => Exchanged D ⟨kIdFastboot, kFlagNone, []⟩ exchanges ∧
        done.returned = (exchanges.flatMap fun e => e.2.data).length ∧
        done.returned ≤ buffer.length ∧
        done.buffer = exchanges.flatMap (fun e => e.2.data) ++ buffer.drop done.returned

/-- The device keeps to the size of packets that has been agreed on. -/
def KeepsTo (D : Device) (host : Host) : Prop :=
  ∀ state request, request.id = kIdFastboot →
    (D.process state request).1.data.length ≤ host.maxDataLength

/-- A session between two calls. -/
structure Connected (s : Session D) : Prop where
  ready : Ready s
  size : s.host.rxPacketSize = s.host.maxDataLength + kHeaderSize
  positive : 0 < s.host.maxDataLength
  keeps : KeepsTo D s.host

theorem SentData.connected (sent : SentData id s tx s' exchanges) (connected : Connected s) :
    Connected s' where
  ready := sent.ready
  size := by rw [sent.rxPacketSize, sent.maxDataLength, connected.size]
  positive := sent.maxDataLength ▸ connected.positive
  keeps := fun state request isFastboot => sent.maxDataLength ▸ connected.keeps state request
    isFastboot

section

variable (connected : Connected s)

include connected

/-- A single packet without data prompts for a response. -/
theorem sent_prompt :
    Ends .outOfBounds (sendData kIdFastboot kMaxTransmissionAttempts s schedule [] buffer)
      fun done =>
      ∃ exchanges, SentData kIdFastboot s [] done.2.1 exchanges ∧
      Exchanged D ⟨kIdFastboot, kFlagNone, []⟩ exchanges ∧
        done.1.ret = (exchanges.flatMap fun e => e.2.data).length ∧
        done.1.buffer = overwrite buffer 0 ((exchanges.flatMap fun e => e.2.data).take
        buffer.length) := by
  have room : 0 + buffer.length ≤ buffer.length := le_of_eq (zero_add _)
  refine (sent_sendChunk connected.ready (by decide) room).imp ?_
  rintro done ⟨exchanges, chunk⟩
  have exchanged : Exchanged D ⟨kIdFastboot, kFlagNone, []⟩ exchanges := chunk.exchanged
  -- within the agreed size no part of an answer is lost
  have whole : joined s.host.packetRoom exchanges = exchanges.flatMap fun e => e.2.data := by
    refine flatMap_congr fun e mem => take_of_length_le ?_
    obtain ⟨isId, ⟨state, isAnswer⟩, -⟩ := exchanged.ids e mem
    rw [isAnswer, Host.packetRoom, connected.size]
    exact connected.keeps state e.1 isId
  refine ⟨exchanges, chunk.sentData, exchanged, ?_, ?_⟩
  · simp [chunk.ret, whole]
  · rw [chunk.buffer, whole]

theorem served_perform (schedule : List Round) (call : Call) :
    Ends .outOfBounds (perform s schedule call) fun done =>
      Served done.1 ∧ done.1.before = s ∧ Connected done.1.after := by
  cases call with
  | write data =>
    refine Ends.bind (P := fun done => Served ⟨.write data, s, done.1, data, done.2.1⟩ ∧
      Connected done.2.1) ?_ fun done served => .ok ⟨served.1, rfl, served.2⟩
    refine (sent_sendData connected.ready (by decide) connected.positive).bind ?_
    rintro ⟨c, s', rest'⟩ ⟨exchanges, isSent⟩
    dsimp only
    split
    · exact .error nofun
    · exact .ok ⟨⟨exchanges, isSent.log, rfl, isSent.data, isSent.ids⟩, isSent.connected connected⟩
  | read buffer =>
    refine Ends.bind (P := fun done => Served ⟨.read buffer, s, done.1.1, done.1.2, done.2.1⟩ ∧
      Connected done.2.1) ?_ fun done served => .ok ⟨served.1, rfl, served.2⟩
    refine (sent_prompt connected).bind ?_
    rintro ⟨c, s', rest'⟩ ⟨exchanges, isSent, exchanged, ret, isBuffer⟩
    dsimp only at ret isBuffer ⊢
    split
    · exact .error nofun
    · rename_i fits
      refine .ok ⟨⟨exchanges, isSent.log, exchanged, ret, Nat.le_of_not_lt fits, ?_⟩,
        isSent.connected connected⟩
      have all : (exchanges.flatMap fun e => e.2.data).take buffer.length = exchanges.flatMap
          fun e => e.2.data :=
        take_of_length_le (by omega)
      simp [isBuffer, all, overwrite, ret]

/-- Each call starts where the one before it has ended. -/
inductive Chained : Session D → List (Done D) → Prop where
  | nil (s : Session D) : Chained s []
  | cons {s : Session D} {done : Done D} {later : List (Done D)} (before : done.before = s)
      (chained : Chained done.after later) : Chained s (done :: later)

theorem served_performAll (schedule : List Round) (calls : List Call) :
    Chained s (performAll s schedule calls).1 ∧
      (∀ done ∈ (performAll s schedule calls).1, Served done) ∧
      (performAll s schedule calls).2 ≠ some .outOfBounds := by
  induction calls generalizing s schedule with
  | nil => exact ⟨.nil s, nofun, nofun⟩
  | cons call calls ih =>
    obtain ⟨noFault, onOk⟩ := served_perform connected schedule call
    rw [performAll]
    split
    · rename_i e failed
      refine ⟨.nil s, nofun, fun same => noFault ?_⟩
      cases same
      exact failed
    · rename_i done rest isOk
      obtain ⟨served, before, connected'⟩ := onOk _ isOk
      obtain ⟨chained, all, noFault'⟩ := ih connected' rest
      refine ⟨.cons before chained, fun done' mem => ?_, noFault'⟩
      rcases mem_cons.mp mem with rfl | later
      · exact served
      · exact all done' later

end

theorem call_perform {call : Call} {done : Done D}
    (performed : perform s schedule call = .ok (done, rest)) :
    done.call = call := by
  cases call with
  | write data =>
    simp only [perform, bind_eq_ok] at performed
    obtain ⟨_, -, returned⟩ := performed
    cases returned
    rfl
  | read buffer =>
    simp only [perform, bind_eq_ok] at performed
    obtain ⟨_, -, returned⟩ := performed
    cases returned
    rfl

/-- All calls are made up to the first that returns -1. -/
theorem calls_performAll (s : Session D) (schedule : List Round) (calls : List Call) :
    ∃ later, calls = (performAll s schedule calls).1.map Done.call ++ later ∧
      ((performAll s schedule calls).2 = none ↔ later = []) := by
  induction calls generalizing s schedule with
  | nil => exact ⟨[], rfl, iff_of_true rfl rfl⟩
  | cons call calls ih =>
    rw [performAll]
    split
    · exact ⟨call :: calls, rfl, iff_of_false nofun nofun⟩
    · rename_i done rest performed
      obtain ⟨later, split, ends⟩ := ih done.after rest
      refine ⟨later, ?_, ends⟩
      rw [map_cons, call_perform performed, cons_append, ← split]

/-- After a connection, for a device that follows the protocol and any network: all calls before the
first that returns -1 do what they say, and no call writes behind the buffer of its caller. -/
theorem calls_reliable (D : Device) (state : D.State) (expected : Nat) (saved : Option Answer)
    (schedule rest : List Round) (s : Session D)
    (connected : initializeProtocol (World.start state expected saved) schedule = .ok (s, rest))
    (keeps : KeepsTo D s.host) (calls : List Call) :
    Chained s (performAll s rest calls).1 ∧
      (∃ later, calls = (performAll s rest calls).1.map Done.call ++ later ∧
        ((performAll s rest calls).2 = none ↔ later = [])) ∧
      (∀ done ∈ (performAll s rest calls).1, Served done) ∧
      (performAll s rest calls).2 ≠ some .outOfBounds := by
  obtain ⟨ready, size, large⟩ := ready_initializeProtocol connected
  have header : kHeaderSize < kMinPacketSize := by decide
  have positive : 0 < s.host.maxDataLength := by omega
  obtain ⟨chained, served, noFault⟩ := served_performAll ⟨ready, size, positive, keeps⟩ rest calls
  exact ⟨chained, calls_performAll s rest calls, served, noFault⟩

/-- A device that acknowledges data and answers prompts with one byte. -/
def acknowledging : Device where
  State := Unit
  process _ request :=
    (⟨request.id, kFlagNone, if request.id = kIdInitialization then [0, 1, 2, 0]
      else if request.data = [] then [0x4f] else []⟩, ())
  answers _ _ := .inl rfl

/-- The first copy of the data is late and arrives behind the second one, and an old answer arrives
before the new one. -/
def lossy : List Round :=
  [⟨false, [.queryToDevice 0, .queryToHost 0], false⟩, ⟨false, [.toDevice 0, .toHost 0], false⟩,
    ⟨false, [], false⟩,
    ⟨false, [.toDevice 2, .toDevice 1, .toHost 0, .toHost 2], false⟩,
    ⟨false, [.toDevice 3, .toHost 3], false⟩]

/-- A write and a read while the sequence number wraps. -/
theorem calls_reliable_lossy :
    ∃ s rest, initializeProtocol (World.start (D := acknowledging) () 65535 none) lossy =
      .ok (s, rest) ∧
      (performAll s rest [.write [1, 2], .read [0, 0]]).2 = none ∧
      ∀ done ∈ (performAll s rest [.write [1, 2], .read [0, 0]]).1, Served done := by
  have all : (match initializeProtocol (start (D := acknowledging) () 65535 none) lossy with
      | .ok (s, rest) => (performAll s rest [.write [1, 2], .read [0, 0]]).2
      | .error e => some e) = none := by decide +kernel
  cases run : initializeProtocol (start (D := acknowledging) () 65535 none) lossy with
  | error e =>
    rw [run] at all
    cases all
  | ok result =>
    obtain ⟨s, rest⟩ := result
    rw [run] at all
    have keeps : KeepsTo acknowledging s.host := by
      intro state request isFastboot
      have size := (ready_initializeProtocol run).2
      have least : kMinPacketSize = 512 := rfl
      have header : kHeaderSize = 4 := rfl
      simp only [acknowledging]
      split
      · simp only [length_cons, length_nil]
        omega
      · split <;> simp only [length_cons, length_nil] <;> omega
    exact ⟨s, rest, rfl, all,
      (calls_reliable acknowledging () 65535 none lossy rest s run keeps _).2.2.1⟩

end Aosp.Fastboot.Udp
