import Aosp.Lib.Buffer
import Aosp.Lib.Fallible
import Aosp.Lib.StopAndWait

/- `udp.cpp`: the fastboot protocol over UDP. The device and the network are what the host talks to:
a device that follows the protocol, and a network whose behaviour is an argument. -/
namespace Aosp.Fastboot.Udp

open Layout Fallible

def kMinPacketSize : Nat := 512

def kHeaderSize : Nat := 4

def kProtocolVersion : Nat := 1

def kHostMaxPacketSize : Nat := 8192

def kMaxConnectAttempts : Nat := 4

def kMaxTransmissionAttempts : Nat := 120

def kIdError : Byte := 0

def kIdDeviceQuery : Byte := 1

def kIdInitialization : Byte := 2

def kIdFastboot : Byte := 3

def kFlagNone : Byte := 0

def kFlagContinuation : Byte := 1

def extractUint16 (high low : Byte) : Nat := high.toNat * 256 + low.toNat

/-- The bytes of a `uint16_t`, the high one first. -/
def highByte (value : Nat) : Byte := BitVec.ofNat 8 (value / 256)

def lowByte (value : Nat) : Byte := BitVec.ofNat 8 value

structure Header where
  id : Byte
  flags : Byte
  seqH : Byte
  seqL : Byte

/-- `Header::Set`. -/
def Header.set (id : Byte) (sequence : BitVec 32) (flag : Byte) : Header :=
  ⟨id, flag, highByte sequence.toNat, lowByte sequence.toNat⟩

/-- `Header::Matches`: an error is accepted for any id. -/
def Header.isMatch (header : Header) (response : List Byte) : Bool :=
  header.seqH == response.getD 2 0 && header.seqL == response.getD 3 0 &&
    (header.id == response.getD 0 0 || response.getD 0 0 == kIdError)

structure Request where
  id : Byte
  flags : Byte
  data : List Byte
deriving DecidableEq

structure Answer where
  id : Byte
  flags : Byte
  data : List Byte
deriving DecidableEq

/-- What a device does with the packets that it processes. -/
structure Device where
  State : Type
  process : State → Request → Answer × State
  answers : ∀ state request, (process state request).1.id = request.id ∨
    (process state request).1.id = kIdError

variable {D : Device}

/-- The device with what is in the network. Queries have no number of their own. -/
structure World (D : Device) where
  link : StopAndWait.Link D.State Request Answer
  queries : List Header
  told : List (List Byte)

/-- A device that expects this number, and nothing in the network. -/
def World.start (state : D.State) (expected : Nat) (saved : Option Answer) : World D :=
  ⟨⟨state, expected, saved, [], expected, [], []⟩, [], []⟩

def World.send (w : World D) (header : Header) (data : List Byte) : World D :=
  if header.id = kIdDeviceQuery then { w with queries := w.queries ++ [header] }
  else { w with link := w.link.send (extractUint16 header.seqH header.seqL) ⟨header.id,
    header.flags, data⟩ }

/-- What the network does next: any packet that has ever been sent can arrive. -/
inductive Event where
  | toDevice (i : Nat)
  | toHost (i : Nat)
  | queryToDevice (i : Nat)
  | queryToHost (i : Nat)

def answerBytes (seq : Nat) (answer : Answer) : List Byte :=
  answer.id :: answer.flags :: highByte seq :: lowByte seq :: answer.data

/-- The answer to a query has the number that the device expects. -/
def queryBytes (query : Header) (expected : Nat) : List Byte :=
  [kIdDeviceQuery, kFlagNone, query.seqH, query.seqL, highByte expected, lowByte expected]

/-- A packet for the host, if one arrives. -/
def World.step (w : World D) : Event → World D × Option (List Byte)
  | .toDevice i => ({ w with link := w.link.deliver (2 ^ 16) D.process i }, none)
  | .toHost i => (w, (w.link.arriving (2 ^ 16) i).map fun p => answerBytes p.seq p.body)
  | .queryToDevice i =>
    match w.queries[i]? with
    | some query => ({ w with told := w.told ++ [queryBytes query w.link.expected] }, none)
    | none => (w, none)
  | .queryToHost i => (w, w.told[i]?)

/-- What happens while the host sends a packet and waits for the response. -/
structure Round where
  sendFails : Bool
  events : List Event
  /-- The last call of `Receive` fails. If not, it times out. -/
  receiveFails : Bool

inductive UdpError where
  | socket
  | incompleteHeader
  | noResponse
  | targetError (text : List Byte)
  | invalidQuery
  | invalidInitialization
  | invalidVersion (version : Nat)
  | invalidPacketSize (packetSize : Nat)
  | receiveOverflow
  | outOfTurn
  /-- A write that is not inside the buffer of the caller. -/
  | outOfBounds
deriving DecidableEq

/-- The members of `UdpTransport`. -/
structure Host where
  sequence : BitVec 32
  maxDataLength : Nat
  rxPacketSize : Nat

structure Session (D : Device) where
  host : Host
  world : World D

inductive Heard where
  | timedOut
  | failed (e : UdpError)
  | matched (bytes : List Byte)

/-- The inner loop of `SendSinglePacketHelper`: receive until there is a matching response. -/
def receiveLoop (header : Header) (rxPacketSize : Nat) (receiveFails : Bool) :
    List Event → World D → World D × Heard
  | [], w => (w, if receiveFails then .failed .socket else .timedOut)
  | event :: rest, w =>
    match w.step event with
    | (w, none) => receiveLoop header rxPacketSize receiveFails rest w
    | (w, some packet) =>
      let bytes := packet.take rxPacketSize
      if bytes.length < kHeaderSize then (w, .failed .incompleteHeader)
      else if header.isMatch bytes then (w, .matched bytes)
      else receiveLoop header rxPacketSize receiveFails rest w

/-- The arguments and variables of `SendSinglePacketHelper`. -/
structure Transfer where
  header : Header
  tx : List Byte
  buffer : List Byte
  rxData : Nat
  rxLength : Nat
  total : Nat
  error : List Byte

def memcpy (buffer : List Byte) (address : Nat) (bytes : List Byte) : Except UdpError (List Byte) :=
  if address + bytes.length ≤ buffer.length then .ok (overwrite buffer address bytes)
    else .error .outOfBounds

/-- The response is saved to the error or to the buffer. -/
def save (t : Transfer) (bytes : List Byte) : Except UdpError Transfer :=
  if bytes.getD 0 0 = kIdError then .ok { t with error := t.error ++ bytes.drop kHeaderSize }
  else
    let rxDataBytes := min (bytes.length - kHeaderSize) t.rxLength
    if rxDataBytes > 0 then do
      let buffer ← memcpy t.buffer t.rxData ((bytes.drop kHeaderSize).take rxDataBytes)
      .ok { t with
        buffer
        rxData := t.rxData + rxDataBytes
        rxLength := t.rxLength - rxDataBytes
        total := t.total + (bytes.length - kHeaderSize) }
    else .ok { t with total := t.total + (bytes.length - kHeaderSize) }

variable (s : Session D) (schedule : List Round)

/-- A response has been accepted. -/
def Session.advance (world : World D) : Session D :=
  ⟨{ s.host with sequence := s.host.sequence + 1 }, { world with link := world.link.accept }⟩

/-- `SendSinglePacketHelper`, with the behaviour of the network for the packets that it sends. Where
there is none left, all further packets are lost. -/
def sendSinglePacketHelper (attempts : Nat) :
    List Round → Nat → Session D → Transfer → Except UdpError (Transfer × Session D × List Round)
  | _, 0, _, _ => .error .noResponse
  | [], _ + 1, _, _ => .error .noResponse
  | round :: rest, attemptsLeft + 1, s, t =>
    if round.sendFails then .error .socket
    else
      match receiveLoop t.header s.host.rxPacketSize round.receiveFails round.events
        (s.world.send t.header t.tx) with
      | (_, .failed e) => .error e
      | (world, .timedOut) => sendSinglePacketHelper attempts rest attemptsLeft { s with world } t
      | (world, .matched bytes) => do
          let t ← save t bytes
          let s := s.advance world
          if bytes.getD 1 0 &&& kFlagContinuation ≠ 0 then
            sendSinglePacketHelper attempts rest attempts s
              { t with header := .set (bytes.getD 0 0) s.host.sequence kFlagNone, tx := [] }
          else if bytes.getD 0 0 = kIdError then .error (.targetError t.error)
          else .ok (t, s, rest)

/-- The data that is still to be sent, and where responses are stored. -/
structure Chunks where
  tx : List Byte
  buffer : List Byte
  rxData : Nat
  rxLength : Nat
  ret : Nat

/-- The body of the loop of `SendData`. -/
def sendChunk (id : Byte) (attempts : Nat) (s : Session D) (schedule : List Round) (c : Chunks) :
    Except UdpError (Chunks × Session D × List Round) := do
  let more := c.tx.length > s.host.maxDataLength
  let packetDataLength := if more then s.host.maxDataLength else c.tx.length
  let header := Header.set id s.host.sequence (if more then kFlagContinuation else kFlagNone)
  let (t, s, schedule) ← sendSinglePacketHelper attempts schedule attempts s
    ⟨header, c.tx.take packetDataLength, c.buffer, c.rxData, c.rxLength, 0, []⟩
  let fits := t.total < c.rxLength
  .ok (⟨c.tx.drop packetDataLength, t.buffer, if fits then c.rxData + t.total else 0,
    if fits then c.rxLength - t.total else 0, c.ret + t.total⟩, s, schedule)

/-- The loop of `SendData`. The number bounds how often it is repeated. -/
def sendLoop (id : Byte) (attempts : Nat) :
    Nat → Session D → List Round → Chunks → Except UdpError (Chunks × Session D × List Round)
  | 0, s, schedule, c => sendChunk id attempts s schedule c
  | bound + 1, s, schedule, c => do
      let (c, s, schedule) ← sendChunk id attempts s schedule c
      if c.tx.length > 0 then sendLoop id attempts bound s schedule c else .ok (c, s, schedule)

/-- `SendData`. -/
def sendData (id : Byte) (attempts : Nat) (s : Session D) (schedule : List Round)
    (tx buffer : List Byte) :
    Except UdpError (Chunks × Session D × List Round) :=
  sendLoop id attempts tx.length s schedule ⟨tx, buffer, 0, buffer.length, 0⟩

/-- `InitializeProtocol`. From the answer to its query the host knows the number that the device
expects. -/
def initializeProtocol (world : World D) (schedule : List Round) :
    Except UdpError (Session D × List Round) := do
  let host : Host := ⟨0, kMinPacketSize - kHeaderSize, kMinPacketSize⟩
  let (query, s, schedule) ← sendData kIdDeviceQuery kMaxConnectAttempts ⟨host, world⟩ schedule []
      [0, 0, 0, 0]
  demand .invalidQuery (2 ≤ query.ret)
  let sequence := BitVec.ofNat 32 (extractUint16 (query.buffer.getD 0 0) (query.buffer.getD 1 0))
  let world := { s.world with link := { s.world.link with current := s.world.link.expected } }
  let initData := [highByte kProtocolVersion, lowByte kProtocolVersion, highByte kHostMaxPacketSize,
    lowByte kHostMaxPacketSize]
  let (init, s, schedule) ← sendData kIdInitialization kMaxTransmissionAttempts
      ⟨{ s.host with sequence }, world⟩ schedule initData query.buffer
  demand .invalidInitialization (4 ≤ init.ret)
  let version := extractUint16 (init.buffer.getD 0 0) (init.buffer.getD 1 0)
  demand (.invalidVersion version) (kProtocolVersion ≤ version)
  let packetSize := extractUint16 (init.buffer.getD 2 0) (init.buffer.getD 3 0)
  demand (.invalidPacketSize packetSize) (kMinPacketSize ≤ packetSize)
  let packetSize := min kHostMaxPacketSize packetSize
  .ok (⟨⟨s.host.sequence, packetSize - kHeaderSize, packetSize⟩, s.world⟩, schedule)

/-- `Read`: the number of bytes and the buffer. -/
def read (buffer : List Byte) : Except UdpError ((Nat × List Byte) × Session D × List Round) := do
  let (c, s, schedule) ← sendData kIdFastboot kMaxTransmissionAttempts s schedule [] buffer
  if c.ret > buffer.length then .error .receiveOverflow else .ok ((c.ret, c.buffer), s, schedule)

/-- `Write`: the number of bytes. -/
def write (data : List Byte) : Except UdpError (Nat × Session D × List Round) := do
  let (c, s, schedule) ← sendData kIdFastboot kMaxTransmissionAttempts s schedule data []
  if c.ret > 0 then .error .outOfTurn else .ok (data.length, s, schedule)

inductive Call where
  | write (data : List Byte)
  | read (buffer : List Byte)

/-- A call that has not returned -1. -/
structure Done (D : Device) where
  call : Call
  before : Session D
  returned : Nat
  buffer : List Byte
  after : Session D

def perform : Call → Except UdpError (Done D × List Round)
  | .write data => do
      let (returned, after, schedule) ← write s schedule data
      .ok (⟨.write data, s, returned, data, after⟩, schedule)
  | .read buffer => do
      let ((returned, buffer'), after, schedule) ← read s schedule buffer
      .ok (⟨.read buffer, s, returned, buffer', after⟩, schedule)

/-- Calls until the first that returns -1. -/
def performAll : Session D → List Round → List Call → List (Done D) × Option UdpError
  | _, _, [] => ([], none)
  | s, schedule, call :: calls =>
    match perform s schedule call with
    | .error e => ([], some e)
    | .ok (done, schedule) =>
      let (later, stopped) := performAll done.after schedule calls
      (done :: later, stopped)

end Aosp.Fastboot.Udp
