import RtmpServer.Responses
import RtmpServer.ControlChunks
import RtmpServer.Broadcast

/-!
# `process_thread`

A session is a list of lines, each of them one call with what the code does
behind it: `negotiation`, and after it `pullFlow` or `pushFlow`. A line that is
`checked` is one whose `-1` makes the thread return; the code looks at no other
return value. The two loops that never end by themselves are the last lines of
their flows.

Mirroring notes:
- `Step.call` ends with the call; `Step.finish` is what follows when the thread
  goes on: the deletion of the message object, which clears `io_buffer`, and
  the assignments next to it. Nothing in it blocks.
- `consumers` is an `unordered_map`: where in its order a new key comes, and how
  the others are moved, is up to `Order`.
- `IdentifyClient` leaves what it read in a copy, and the push flow puts that
  back into the cleared buffer.
-/

namespace RtmpServer

open Coroutine Coroutine.Prog Endian

/-! ## The calls -/

/-- `RTMP_Protocol::handshake`: the version is looked at, and nothing else of what the
client sends; the answer is as long as the protocol's and otherwise zero. -/
def handshake : Routine Int := do
  let rc ← readNbytes 1537
  if rc = -1 then
    return -1
  let p ← read fun s => (s.buffer .ioBuffer)[0]?
  if p ≠ 0x03 then
    return -1
  let rc ← write (0x03 :: List.replicate 3072 0)
  if rc = -1 then
    return -1
  let rc ← readNbytes (1537 + 1536)
  if rc = -1 then
    return -1
  modify fun s => s.setBuffer .ioBuffer []
  return 0

/-- `IdentifyClient::read_header_get_payloadLength`, which leaves the payload in the
connection. -/
def readHeaderGetPayloadLength : Routine Int := do
  let (rc, fmt, csid, bhSize) ← readBasicHeader
  if rc = -1 then
    return -1
  let (rc, _) ← readMessageHeader fmt csid bhSize
  if rc = -1 then
    return -1
  lookup csid MessageHeader.messageLength

/-- The wait for a publisher's metadata, which ends when some session has stored an entry. -/
def waitMetaData : Routine Int :=
  .iter (fun _ : Unit => do
    if (← gets fun s => s.globals.setDataFrame) = [] then
      stUsleep
      return .inl ()
    else return .inr 0) ()

/-- The relay loop; it ends where the thread returns, that is when a pass fails. A pass
happens when the first slot is filled, and empties it. -/
def relayLoop : Routine Int :=
  .iter (fun _ : Unit => do
    let slot ← read fun s => s.globals.slot
    if slot = .null then
      stUsleep
      return .inl ()
    let rc ← relayPass
    if rc = -1 then
      return .inr (-1)
    modify fun s => { s with globals := s.globals.setSlot .null }
    stUsleep
    return .inl ()) ()

/-- The publisher loop, which never ends: what a round returns is not looked at, and the
shared buffer is emptied after it. -/
def publishLoop : Routine Int :=
  .iter (fun _ : Unit => do
    let _ ← Broadcast.publisherRound
    stUsleep
    modify fun s => s.setBuffer .audioVideoBuffer []
    return .inl ()) ()

/-- How `consumers` orders its entries when a key comes in. The map is unordered, so any
order is possible that keeps the entries. -/
structure Order where
  place : List (Nat × Slot) → Nat → List (Nat × Slot)
  perm : ∀ consumers stfd, (place consumers stfd).Perm ((stfd, .null) :: consumers)

namespace Order

/-- A map that puts a new key in front, as one example of such an order. -/
def front : Order where
  place consumers stfd := (stfd, .null) :: consumers
  perm _ _ := .refl _

end Order

/-- `consumers.insert({stfd, NULL})`, which leaves a key that is there alone, and otherwise
adds it with an empty slot. -/
def Globals.insertConsumer (order : Order) (g : Globals) (stfd : Nat) : Globals :=
  if g.consumers.any (fun c => c.1 = stfd) then g
  else { g with consumers := order.place g.consumers stfd }

/-- The same for the session itself, which registers its own descriptor. -/
def State.registered (order : Order) (s : State) : State :=
  { s with globals := s.globals.insertConsumer order s.client.stfdClient }

/-- The list of metadata is not touched by a registration. -/
@[simp] theorem State.registered_setDataFrame (order : Order) (s : State) :
    (s.registered order).globals.setDataFrame = s.globals.setDataFrame := by
  unfold State.registered Globals.insertConsumer
  split
  · rfl
  · rfl

/-- `delete message_ptr`: the data of the message is gone, and its destructor clears the session's
buffer. -/
def State.deleted (s : State) : State :=
  { s with client := { s.client with ioBuffer := [], message := {} } }

/-! ## The lines -/

/-- One call of `process_thread` and what belongs to it, as the steps that the two flows are
made of. -/
inductive Step where
  | handshake
  | recv (type : Received)
  | send (m : Send)
  | announceChunkSize
  | identify
  | readRest
  | waitMetaData
  | sendOnMetaData
  | register
  | relayLoop
  | publishLoop
  deriving DecidableEq

namespace Step

/-- The call of a step, up to its return value. -/
def call (order : Order) : Step → Routine Int
  | handshake => RtmpServer.handshake
  | recv type => type.recv
  | send m => m.write
  | announceChunkSize => Send.setChunkSize.write
  | identify => readHeaderGetPayloadLength
  | readRest => do
    let (rc, _) ← readNbytesCycle 4
    return rc
  | waitMetaData => RtmpServer.waitMetaData
  | sendOnMetaData => RtmpServer.sendOnMetaData
  | register => do
    modify fun s => s.registered order
    return 0
  | relayLoop => RtmpServer.relayLoop
  | publishLoop => RtmpServer.publishLoop

/-- What follows a call that returned `rc`, when the thread goes on: mostly the message is
deleted. -/
def finish (order : Order) : Step → Int → State → State
  | recv _, _, s => s.deleted
  | send _, _, s => s.deleted
  | announceChunkSize, _, s =>
    State.deleted { s with client := { s.client with chunkSize := 4096 } }
  | identify, rc, s =>
    if rc = 4 then (s.registered order).deleted
    else s.deleted.append .ioBuffer (s.buffer .ioBuffer)
  | readRest, _, s => s.setBuffer .ioBuffer []
  | sendOnMetaData, _, s => s.deleted
  | _, _, s => s

end Step

/-- A call, and whether `-1` makes the thread return. A call that is not checked goes on
after any value. -/
structure Line where
  step : Step
  checked : Bool
  deriving DecidableEq

namespace Line

/-- A call whose `-1` makes the thread return. -/
def checkedCall (step : Step) : Line := ⟨step, true⟩

/-- A call whose return value nobody looks at, so that the thread goes on after an error as
well. -/
def uncheckedCall (step : Step) : Line := ⟨step, false⟩

/-- From the handshake to the question which flow it is, which the length of the next
message answers. -/
def negotiation : List Line :=
  [checkedCall .handshake,
    checkedCall (.recv .connectMessage),
    checkedCall (.send .setWindowSize),
    checkedCall (.send .setPeerBandwidth),
    checkedCall (.send .connectAppResponse),
    checkedCall (.send .onBwDone),
    checkedCall .identify]

/-- The calls for a client that plays, up to its relay loop. -/
def pullFlow : List Line :=
  [checkedCall .readRest,
    uncheckedCall (.recv .createStream),
    uncheckedCall (.send (.createStreamResponse Send.two)),
    uncheckedCall (.recv .checkBw),
    uncheckedCall (.recv .getStreamLength),
    uncheckedCall (.recv .playCommandMessage),
    uncheckedCall (.recv .unknownMessage),
    uncheckedCall .announceChunkSize,
    uncheckedCall (.send .srcPCUCStreamBegin),
    uncheckedCall (.send .pullStreamOnStatus1),
    uncheckedCall (.send .pullStreamOnStatus2),
    uncheckedCall (.send .rtmpSampleAccess),
    uncheckedCall (.send .pullStreamOnStatus3),
    uncheckedCall .waitMetaData,
    uncheckedCall .sendOnMetaData,
    uncheckedCall .register,
    checkedCall .relayLoop]

/-- The calls for a client that publishes, up to its loop. -/
def pushFlow : List Line :=
  [uncheckedCall (.recv .releaseStream),
    uncheckedCall (.send .releaseStreamResponse),
    uncheckedCall .announceChunkSize,
    uncheckedCall (.recv .fcPublish),
    uncheckedCall (.send .fcPublishResponse),
    uncheckedCall (.recv .createStream),
    uncheckedCall (.send (.createStreamResponse Send.four)),
    uncheckedCall (.recv .checkBw),
    uncheckedCall (.recv .unknownMessage),
    uncheckedCall (.recv .publish),
    uncheckedCall (.send .onFCPublish),
    uncheckedCall (.send .onStatus),
    uncheckedCall (.recv .setDataFrame),
    uncheckedCall .publishLoop]

/-- What the thread does next when the call has returned `rc`; `none` is
`return NULL`. -/
def follow (line : Line) (rc : Int) (rest : List Line) : Option (List Line) :=
  if line.checked ∧ rc = -1 then none
  else if line.step = .identify then some (if rc = 4 then pullFlow else pushFlow)
  else some rest

end Line

/-! ## What the calls do to the state -/

/-- A relation that holds across every update that a call before the loops
makes. -/
structure Closed (R : State → State → Prop) : Prop where
  refl : ∀ s, R s s
  trans : ∀ s t u, R s t → R t u → R s u
  buffer : ∀ s b bytes, R s (s.setBuffer b bytes)
  header : ∀ s csid h, R s (s.setHeader csid h)
  currCsid : ∀ s csid, R s (s.setCurrCsid csid)
  message : ∀ s message, R s (s.setMessage message)
  metaData : ∀ s frame, ((∀ kv ∈ s.globals.setDataFrame, Storable kv) → ∀ kv ∈ frame, Storable kv) →
    R s (s.setMetaData frame)

namespace Closed

variable {R : State → State → Prop}

/-- What is appended to a buffer moves the state along a closed relation. -/
theorem append (h : Closed R) (b : Buffer) (s : State) (bytes : Bytes) : R s (s.append b bytes) :=
  h.buffer s b _

/-- A read of exactly `n` bytes does so, be it in several steps. -/
theorem cycle (h : Closed R) (b : Buffer) (n : Nat) : (readNbytesCycleOn b n).Keeps R :=
  readNbytesCycleOn_keeps h.refl (h.append b)

/-- A read of `n` bytes in one step does so. -/
theorem single (h : Closed R) (b : Buffer) (n : Nat) : (readNbytesOn b n).Keeps R :=
  readNbytesOn_keeps h.refl (h.append b)

/-- A lookup does so too, because it may create an entry. -/
theorem lookup (h : Closed R) {α : Type} (csid : Int) (field : MessageHeader → α) :
    (RtmpServer.lookup csid field).Keeps R :=
  ⟨keeps_modify fun s => h.header s csid _, fun _ => keeps_gets h.refl⟩

/-- The basic header of a control message is read along a closed relation. -/
theorem readBasicHeader (h : Closed R) : readBasicHeader.Keeps R := by
  refine ⟨h.cycle _ _, fun r => keeps_ite trivial ⟨keeps_read h.refl, fun bh =>
    ⟨trivial, fun _ => keeps_ite ?_ (keeps_ite ?_ trivial)⟩⟩⟩
  · exact ⟨h.single _ _, fun rc => keeps_ite trivial ⟨keeps_read h.refl, fun b1 =>
      ⟨trivial, fun _ => trivial⟩⟩⟩
  · exact ⟨h.single _ _, fun rc => keeps_ite trivial ⟨keeps_read h.refl, fun b1 =>
      ⟨keeps_read h.refl, fun b2 => ⟨trivial, fun _ => trivial⟩⟩⟩⟩

/-- Its message header is, with the record it stores. -/
theorem readMessageHeader (h : Closed R) (fmt : Nat) (csid : Int) (bhSize : Nat) :
    (readMessageHeader fmt csid bhSize).Keeps R := by
  have hdelta : (controlDelta fmt bhSize).Keeps R :=
    keeps_ite ⟨keeps_read h.refl, fun bytes => trivial⟩ trivial
  have hstore : (storeMessageLength fmt csid bhSize).Keeps R :=
    keeps_ite ⟨keeps_read h.refl, fun bytes => keeps_modify fun s => h.header s csid _⟩ trivial
  exact ⟨h.cycle _ _, fun r => keeps_ite trivial ⟨hdelta, fun delta => ⟨hstore, fun _ =>
    keeps_ite ⟨h.cycle _ _, fun r => keeps_ite trivial trivial⟩ trivial⟩⟩⟩

/-- The payload is fetched along a closed relation, as every class fetches it. -/
theorem fetch (h : Closed R) (type : Received) (bhSize mhSize : Nat) (messageLength : Int)
    (chunkSize : Nat) : (type.fetch bhSize mhSize messageLength chunkSize).Keeps R := by
  have hwhole : (readWhole bhSize mhSize messageLength).Keeps R := ⟨h.cycle _ _, fun r => trivial⟩
  cases type with
  | connectMessage =>
    refine fun nread => ⟨trivial, fun ml => keeps_ite ⟨trivial, fun cs => ⟨keeps_gets h.refl,
      fun size => ⟨h.cycle _ _, fun r => keeps_ite trivial (keeps_ite ?_ trivial)⟩⟩⟩ trivial⟩
    exact ⟨keeps_modify fun s => h.buffer s .ioBuffer _, fun _ => trivial⟩
  | _ => exact hwhole

/-- What the classes store of a payload moves the state along a closed relation. -/
theorem parse (h : Closed R) {type : Received} {p : Bytes} {s t : State} {rc : Int}
    (hparse : type.parse p s = some (rc, t)) : R s t := by
  have hmessage : ∀ {o : Option (Int × IoMessage)},
      (o.map fun r => (r.1, s.setMessage r.2)) = some (rc, t) → R s t := by
    intro o ho
    obtain ⟨r, -, heq⟩ := Option.map_eq_some_iff.mp ho
    cases heq
    exact h.message s r.2
  cases type with
  | checkBw =>
    cases hparse
    exact h.refl s
  | unknownMessage =>
    cases hparse
    exact h.refl s
  | setDataFrame =>
    simp only [Received.parse] at hparse
    cases hp : parseSetDataFrame p with
    | error f =>
      rw [hp] at hparse
      cases f with
      | minusOne =>
        cases hparse
        exact h.refl s
      | undefined => cases hparse
    | ok r =>
      rw [hp] at hparse
      obtain ⟨r', hentries, heq⟩ := Option.map_eq_some_iff.mp hparse
      cases heq
      exact h.metaData s r'.2 fun hold => parseEntries_storable r.1 hold hentries
  | _ => exact hmessage hparse

/-- So does every `read_payload`, which is to fetch and to parse. -/
theorem readPayload (h : Closed R) (type : Received) (bhSize mhSize : Nat) (messageLength : Int)
    (chunkSize : Nat) : (type.readPayload bhSize mhSize messageLength chunkSize).Keeps R := by
  have hparse : (type.parsePayload (bhSize + mhSize)).Keeps R := by
    cases type with
    | checkBw => exact trivial
    | unknownMessage => exact trivial
    | _ => exact fun s a s' hs => h.parse hs
  rw [type.readPayload_eq]
  exact ⟨h.fetch .., fun rc => keeps_ite trivial hparse⟩

/-- And with it every call that receives a message. -/
theorem recv (h : Closed R) (type : Received) : type.recv.Keeps R :=
  ⟨h.readBasicHeader, fun _ => keeps_ite trivial ⟨h.readMessageHeader _ _ _, fun _ =>
    keeps_ite trivial ⟨h.lookup _ _, fun _ => ⟨keeps_gets h.refl, fun _ =>
      ⟨h.readPayload type _ _ _ _, fun _ => keeps_ite trivial trivial⟩⟩⟩⟩⟩

/-- A message is written along a closed relation, if its payload is. -/
theorem writeMessage (h : Closed R) {writePayload : Routine Int} (hpayload : writePayload.Keeps R)
    (fmt : Nat) (csid : Int) (timestamp : BitVec 32) (messageLength : Int) (messageType : UInt8)
    (streamId : BitVec 32) :
    (writeMessage writePayload fmt csid timestamp messageLength messageType streamId).Keeps R := by
  refine ⟨⟨keeps_modify fun s => h.append _ s _, fun _ => trivial⟩, fun rc => keeps_ite trivial
    ⟨keeps_gets h.refl, fun hs => ⟨hpayload, fun rc => keeps_ite trivial
      ⟨keeps_gets h.refl, fun ms => writeChunks_keeps h.refl _ _ _⟩⟩⟩⟩

/-- A payload writer appends to the buffer and does nothing else. -/
theorem run (h : Closed R) (p : Push) : p.run.Keeps R := by
  intro s a s' hs
  obtain ⟨r, _, heq⟩ := Option.map_eq_some_iff.mp hs
  cases heq
  exact h.append _ s _

/-- So every message of the flows is sent along a closed relation. -/
theorem send (h : Closed R) (m : Send) : m.write.Keeps R := h.writeMessage (h.run _) ..

/-- `OnMetaData` changes the list of metadata as well, which a closed relation allows. -/
theorem sendOnMetaData (h : Closed R) : sendOnMetaData.Keeps R := by
  have hpayload : (OnMetaData.writePayload (chars "onMetaData")).Keeps R := by
    exact ⟨keeps_modify fun s => h.metaData s _ storable_append_server, fun _ =>
      ⟨keeps_gets h.refl, fun frame => h.run _⟩⟩
  exact h.writeMessage hpayload ..

/-- The handshake moves the state along it. -/
theorem handshake (h : Closed R) : handshake.Keeps R := by
  have hwrite : ∀ buffer, (write buffer).Keeps R := by
    intro buffer
    refine ⟨stWritev_keeps h.refl _ _, fun r => ?_⟩
    cases r with
    | none => exact trivial
    | some n => exact keeps_ite trivial trivial
  exact ⟨h.single _ _, fun rc => keeps_ite trivial ⟨keeps_read h.refl, fun p => keeps_ite trivial
    ⟨hwrite _, fun rc => keeps_ite trivial ⟨h.single _ _, fun rc => keeps_ite trivial
      ⟨keeps_modify fun s => h.buffer s .ioBuffer [], fun _ => trivial⟩⟩⟩⟩⟩

/-- So does the question which flow it is. -/
theorem identify (h : Closed R) : readHeaderGetPayloadLength.Keeps R :=
  ⟨h.readBasicHeader, fun _ => keeps_ite trivial ⟨h.readMessageHeader _ _ _, fun _ =>
    keeps_ite trivial (h.lookup _ _)⟩⟩

/-- The wait for the metadata only looks. -/
theorem waitMetaData (h : Closed R) : waitMetaData.Keeps R :=
  fun _ => ⟨keeps_gets h.refl, fun _ => keeps_ite ⟨fun _ => trivial, fun _ => trivial⟩ trivial⟩

/-- One pass of the relay loop moves the state along it, the buffer being put back where it
was. -/
theorem relayPass (h : Closed R) : relayPass.Keeps R := by
  have hcurr : currHeader.Keeps R :=
    ⟨keeps_modify fun s => h.header s _ _, fun _ => keeps_gets h.refl⟩
  exact ⟨hcurr, fun m => ⟨keeps_gets h.refl, fun _ _ => ⟨keeps_read h.refl, fun _ =>
    keeps_ite ⟨hcurr, fun _ => ⟨writev_keeps h.refl _ _, fun _ => keeps_ite trivial
      ⟨hcurr, fun _ => trivial⟩⟩⟩ trivial⟩⟩⟩

/-- The relay loop does, if it may empty the first slot. -/
theorem relayLoop (h : Closed R)
    (hslot : ∀ s : State, R s { s with globals := s.globals.setSlot .null }) :
    relayLoop.Keeps R := by
  have hnext : ∀ q : Routine (Unit ⊕ Int), q.Keeps R → (Prog.bind stUsleep fun _ => q).Keeps R :=
    fun q hq => ⟨fun _ => trivial, fun _ => hq⟩
  exact fun _ => ⟨keeps_read h.refl, fun slot => keeps_ite (hnext _ trivial)
    ⟨h.relayPass, fun rc => keeps_ite trivial ⟨keeps_modify hslot, fun _ => hnext _ trivial⟩⟩⟩

/-- The publisher loop does, if it may fill the first slot. -/
theorem publishLoop (h : Closed R)
    (hslot : ∀ s : State, R s { s with globals := s.globals.setSlot .audioVideoData }) :
    publishLoop.Keeps R := by
  have hrecv : recvAudioVideo.Keeps R :=
    recvAudioVideo_keeps h.refl (fun s bytes => h.buffer s _ bytes) h.currCsid h.header
  have hround : Broadcast.publisherRound.Keeps R := by
    refine ⟨hrecv, fun r => ⟨keeps_modify fun s => ?_, fun _ => trivial⟩⟩
    exact h.trans _ _ _ (h.header s s.globals.currCsid _) (hslot _)
  exact fun _ => ⟨hround, fun _ => ⟨fun _ => trivial, fun _ =>
    ⟨keeps_modify fun s => h.buffer s .audioVideoBuffer [], fun _ => trivial⟩⟩⟩

end Closed

namespace Step

/-- The calls that may change `consumers`: to register, and the two loops. -/
def changesConsumers : Step → Bool
  | register => true
  | relayLoop => true
  | publishLoop => true
  | _ => false

/-- A call moves along a closed relation, if the changes it may make to
`consumers` do. -/
theorem call_keeps {R : State → State → Prop} (h : Closed R) (order : Order) {step : Step}
    (hconsumers : step.changesConsumers = true → (∀ s, R s (s.registered order)) ∧
      ∀ (s : State) x, R s { s with globals := s.globals.setSlot x }) :
    (step.call order).Keeps R := by
  cases step with
  | handshake => exact h.handshake
  | recv type => exact h.recv type
  | send m => exact h.send m
  | announceChunkSize => exact h.send _
  | identify => exact h.identify
  | readRest => exact ⟨h.cycle _ _, fun r => trivial⟩
  | waitMetaData => exact h.waitMetaData
  | sendOnMetaData => exact h.sendOnMetaData
  | register => exact ⟨keeps_modify (hconsumers rfl).1, fun _ => trivial⟩
  | relayLoop => exact h.relayLoop fun s => (hconsumers rfl).2 s .null
  | publishLoop => exact h.publishLoop fun s => (hconsumers rfl).2 s .audioVideoData

end Step

end RtmpServer
