import RtmpServer.Amf

/-!
# Command messages

The command messages of `all_kinds_of_messages.cpp`: `Send_Object_Message`,
which the server writes, and the `read_payload` of every command it reads.
`ConnectMessage` is the only one that takes its payload apart into chunks; the
others read a payload in one piece and then look at it.

`connect_roundTrip` composes everything so far: what a `Send_Object_Message`
with one object puts on the wire, a `ConnectMessage` reads back to the same
name, transaction id and properties.
-/

namespace RtmpServer

open Coroutine Coroutine.Prog Endian Framing
open Push

/-! ## `Send_Object_Message` -/

/-- `MESSAGE_OBJECT_TYPE`, by which `init` and `get_payload_size` tell the responses apart. -/
inductive MessageObjectType where
  | connectAppResponse
  | onBwDone
  | pullOnstatus1
  | pullOnstatus2
  | pullOnstatus3
  deriving DecidableEq

/-- A `Send_Object_Message`. Its `init` fills `vec`, and for `ON_BW_DONE` it
leaves it empty. -/
structure SendObjectMessage where
  command : Bytes
  transactionId : UInt64
  type : MessageObjectType
  vec : List (List Property)
  onBwDone : type = .onBwDone → vec = []

namespace SendObjectMessage

/-- `Send_Object_Message::write_payload`: the command's name, its transaction id, and the
objects. -/
def writePayload (m : SendObjectMessage) : Push :=
  (push [0x02]).andThen ((pushString m.command).andThen
    ((push (0x00 :: beBytes 8 m.transactionId.toNat)).andThen
      (if m.vec.length = 0 then push [0x05] else pushVec pushLen m.vec)))

/-- What a value adds to the payload size without its marker; there is no size for the other
kinds. -/
def valueSize : ValueObject → Option Nat
  | .valueString value => some (2 + value.length)
  | .valueNum _ => some 8
  | .valueLen _ => some 4
  | .value0x01 _ => none

/-- What the entries of an object add: each its key behind a length, a marker and the value. -/
def propertiesSize : List Property → Option Nat
  | [] => some 0
  | kv :: kvs => do return 2 + kv.1.length + 1 + (← valueSize kv.2) + (← propertiesSize kvs)

/-- What the objects add: each its entries and the markers around them. As in the rest of
the sum, the code's `int` is a number without a bound here; the sums stay below `2 ^ 31`,
the objects being those that `init` builds. -/
def objectsSize : List (List Property) → Option Nat
  | [] => some 0
  | kvs :: vec => do return 1 + (← propertiesSize kvs) + 3 + (← objectsSize vec)

/-- `Send_Object_Message::get_payload_size`. The code adds in an `int`; with the objects of
`init` and the short names of the commands nothing comes near `2 ^ 31`, so the sum is taken
without a bound. -/
def getPayloadSize (m : SendObjectMessage) : Int :=
  if m.type = .onBwDone then 3 + m.command.length + 9 + 1
  else
    match objectsSize m.vec with
    | none => -1
    | some n => 3 + m.command.length + 9 + n + if 1 < m.vec.length then 3 else 0

/-- The objects that `init` builds, with the texts and numbers it has in the code. -/
def init : MessageObjectType → List (List Property)
  | .connectAppResponse =>
    [[(chars "fmsVer", .valueString (chars "FMS/3,5,3,888")),
      (chars "capabilities", .valueNum 0x405FC00000000000),
      (chars "mode", .valueNum 0x3FF0000000000000)],
     [(chars "level", .valueString (chars "status")),
      (chars "code", .valueString (chars "NetConnection.Connect.Success")),
      (chars "description", .valueString (chars "Connection succeeded")),
      (chars "objectEncoding", .valueNum 0),
      (chars "data", .valueLen 2028717191),
      (chars "version", .valueString (chars "3,5,3,888")),
      (chars "server", .valueString (chars "srs(simple rtmp server)")),
      (chars "srs_url", .valueString (chars "https://github.com/winlinvip/simple-rtmp-server")),
      (chars "srs_version", .valueString (chars "0.1"))]]
  | .pullOnstatus3 => [[(chars "code", .valueString (chars "NetStream.Data.Start"))]]
  | _ => []

/-- The constructor, which leaves the objects to `init`. -/
def new (command : Bytes) (transactionId : UInt64) (type : MessageObjectType) :
    SendObjectMessage where
  command
  transactionId
  type
  vec := init type
  onBwDone := fun h => by rw [h]; rfl

end SendObjectMessage

/-! ## The commands that are read -/

/-- A parser's result as a `read_payload` gives it, with the message it stored. -/
def Parse.finish (message : IoMessage) : Parse IoMessage → Option (Int × IoMessage)
  | .ok message' => some (0, message')
  | .error .minusOne => some (-1, message)
  | .error .undefined => none

/-- Parse what stands in the buffer behind `headerSize` bytes, and keep what the parser
stores in the message. -/
def parseBuffer (headerSize : Nat) (parse : Bytes → IoMessage → Option (Int × IoMessage)) :
    Routine Int :=
  .act fun s => (parse ((s.buffer .ioBuffer).drop headerSize) s.client.message).map fun r =>
    (r.1, s.setMessage r.2)

/-- Have the whole payload in the buffer, in one piece behind the header. -/
def readWhole (bhSize mhSize : Nat) (messageLength : Int) : Routine Int := do
  let (rc, _) ← readNbytesCycle (((bhSize + mhSize : Nat) : Int) + messageLength).toNat
  return rc

/-- Whatever comes in: all of it is there, or too little has come. -/
theorem wlp_readWhole {ε : Type} {env : Env st ε} {took : ε → Bytes → ε → Prop} {s : State} {e : ε}
    (hacc : Account env took) {bhSize mhSize : Nat} {messageLength : Int} :
    wlp env (readWhole bhSize mhSize messageLength) (fun rc s' e' => ∃ p, took e p e' ∧
      (rc = -1 ∧ s' = s ∧
          ((s.buffer .ioBuffer).length + p.length : Int) < bhSize + mhSize + messageLength ∨
        rc = 0 ∧ s' = s.append .ioBuffer p ∧
          (bhSize + mhSize + messageLength : Int)
            ≤ (s.buffer .ioBuffer).length + p.length)) s e := by
  unfold readWhole
  rw [bind_eq, wlp_bind]
  refine wlp_mono (wlp_readNbytesCycleOn_received hacc) fun r s' e' ⟨p, hp, hr⟩ => ?_
  dsimp only
  rw [pure_eq, wlp_ret]
  rcases hr with ⟨hrc, hs, hlt⟩ | ⟨hr, hs, hlen⟩
  · exact ⟨p, hp, Or.inl ⟨hrc, hs, by omega⟩⟩
  · rw [hr]
    exact ⟨p, hp, Or.inr ⟨rfl, hs, by omega⟩⟩

/-- From a stream: the payload, and nothing of what is behind it in the stream. -/
theorem wp_readWhole_append {bhSize mhSize : Nat} {payload rest out : Bytes} {s : State}
    {Q : Int → State → Stream → Prop} (hhdr : (s.buffer .ioBuffer).length = bhSize + mhSize) :
    wp streamEnv (readWhole bhSize mhSize payload.length) Q s ⟨payload ++ rest, out⟩
      ↔ Q 0 (s.append .ioBuffer payload) ⟨rest, out⟩ := by
  rw [readWhole, bind_eq, wp_bind, readNbytesCycle, wp_readNbytesCycleOn_append (by omega)]
  exact wp_ret

/-- Command name and transaction id, and the marker of what follows them, in the order every
command has them. -/
def readCommand (marker : UInt8) (p : Bytes) : Parse (Bytes × UInt64 × Bytes) := do
  let p ← expect 0x02 p
  let (commandName, p) ← readString p
  let p ← expect 0x00 p
  let (transactionId, p) ← be2se 8 p
  let p ← expect marker p
  return (commandName, UInt64.ofNat transactionId, p)

/-- The parser of `ConnectMessage::read_payload`. What its object has stored stays there
when it returns `-1`, the name and the number do not. -/
def parseConnect (p : Bytes) (message : IoMessage) : Option (Int × IoMessage) :=
  match readCommand 0x03 p with
  | .error .minusOne => some (-1, message)
  | .error .undefined => none
  | .ok (commandName, transactionId, p) =>
    match readObject p message.object with
    | none => none
    | some (rc, object) =>
      if rc = -1 then some (-1, { message with object })
      else some (0, { commandName, transactionId, object })

/-- `ConnectMessage::read_payload`, the one command whose continuation headers are taken out
before it is parsed. -/
def ConnectMessage.readPayload (bhSize mhSize : Nat) (messageLength : Int) (chunkSize : Nat) :
    Routine Int := do
  let rc ← dechunk .ioBuffer (.ret messageLength) (.ret chunkSize)
  if rc = -1 then
    return -1
  parseBuffer (bhSize + mhSize) parseConnect

/-- The parser of the commands that end in a null object: name and number are kept, the rest
is not read. -/
def parseCommand (p : Bytes) (message : IoMessage) : Option (Int × IoMessage) :=
  Parse.finish message do
    let (commandName, transactionId, _) ← readCommand 0x05 p
    return { message with commandName, transactionId }

/-- The body of the `read_payload` of these commands. It reads the payload as it comes, with
all that is in it. -/
def readPayloadCommand (bhSize mhSize : Nat) (messageLength : Int) (_chunkSize : Nat) :
    Routine Int := do
  let rc ← readWhole bhSize mhSize messageLength
  if rc = -1 then
    return -1
  parseBuffer (bhSize + mhSize) parseCommand

def ReleaseStream.readPayload : Nat → Nat → Int → Nat → Routine Int := readPayloadCommand

def FCPublish.readPayload : Nat → Nat → Int → Nat → Routine Int := readPayloadCommand

def CreateStream.readPayload : Nat → Nat → Int → Nat → Routine Int := readPayloadCommand

def GetStreamLength.readPayload : Nat → Nat → Int → Nat → Routine Int := readPayloadCommand

def PlayCommandMessage.readPayload : Nat → Nat → Int → Nat → Routine Int := readPayloadCommand

/-- The body of the `read_payload` of the messages that are dropped: their bytes are read
and nobody looks at them. -/
def readPayloadDropped (bhSize mhSize : Nat) (messageLength : Int) (_chunkSize : Nat) :
    Routine Int := do
  let rc ← readWhole bhSize mhSize messageLength
  if rc = -1 then
    return -1
  return 0

def CheckBW.readPayload : Nat → Nat → Int → Nat → Routine Int := readPayloadDropped

def UnknownMessage.readPayload : Nat → Nat → Int → Nat → Routine Int := readPayloadDropped

/-- The parser of `Publish::read_payload`: an empty stream name and the type of
the stream. It does not keep the command. -/
def parsePublish (p : Bytes) (message : IoMessage) : Option (Int × IoMessage) :=
  Parse.finish message do
    let (_, _, p) ← readCommand 0x05 p
    let p ← expect 0x02 p
    let (len, p) ← be2seLen p
    if len ≠ 0 then
      throw .minusOne
    let p ← expect 0x02 p
    let _ ← readString p
    return message

/-- `Publish::read_payload`, whose stream name has to be empty. -/
def Publish.readPayload (bhSize mhSize : Nat) (messageLength : Int) (_chunkSize : Nat) :
    Routine Int := do
  let rc ← readWhole bhSize mhSize messageLength
  if rc = -1 then
    return -1
  parseBuffer (bhSize + mhSize) parsePublish

/-! ## The round trip -/

/-- A command's name, its number and the marker behind them are read back from the bytes
that a writer has for them. -/
theorem readCommand_append {commandName : Bytes} (h : Short commandName) (transactionId : UInt64)
    (marker : UInt8) (rest : Bytes) :
    readCommand marker (0x02 :: (beBytes 2 commandName.length ++ (commandName ++
      (0x00 :: (beBytes 8 transactionId.toNat ++ (marker :: rest))))))
      = .ok (commandName, transactionId, rest) := by
  unfold readCommand
  rw [expect_cons, Parse.ok_bind, readString_short h, Parse.ok_bind]
  simp only []
  rw [expect_cons, Parse.ok_bind, be2se_uint64, Parse.ok_bind]
  simp only []
  rw [expect_cons, Parse.ok_bind, UInt64.ofNat_toNat]
  rfl

/-- A `Send_Object_Message` with one object, all of it of a form that the
readers know. -/
structure ObjectMessage extends SendObjectMessage where
  object : List Property
  vec_eq : vec = [object]
  command_short : Short command
  sendable : ∀ kv ∈ object, Sendable kv
  nodup : (object.map Prod.fst).Nodup

namespace ObjectMessage

/-- The bytes of its payload: what is written, and what the reader has to find. -/
def payload (m : ObjectMessage) : Bytes :=
  0x02 :: (beBytes 2 m.command.length ++ (m.command ++
    (0x00 :: (beBytes 8 m.transactionId.toNat ++
      (0x03 :: (m.object.flatMap propertyBytes ++ [0x00, 0x00, 0x09]))))))

/-- The writer pushes exactly these bytes, because everything in the message keeps its
length. -/
theorem writePayload_eq (m : ObjectMessage) : m.writePayload = push m.payload := by
  have hlen : ¬ m.vec.length = 0 := by rw [m.vec_eq]; simp
  have hone : ¬ 1 < m.vec.length := by rw [m.vec_eq]; simp
  have hvec : pushObjects pushLen m.vec
      = push (0x03 :: (m.object.flatMap propertyBytes ++ [0x00, 0x00, 0x09])) := by
    rw [m.vec_eq, pushObjects, pushObjects, pushProperties_sendable m.sendable]
    simp
  rw [SendObjectMessage.writePayload, if_neg hlen, pushVec, if_neg hone, hvec,
    pushString_short m.command_short.2]
  simp [payload]

/-- The size of such entries is the length of what is written for them. -/
theorem propertiesSize_eq {kvs : List Property} (h : ∀ kv ∈ kvs, Sendable kv) :
    SendObjectMessage.propertiesSize kvs = some (kvs.flatMap propertyBytes).length := by
  induction kvs with
  | nil => rfl
  | cons kv kvs ih =>
    have hkv := h kv (List.mem_cons_self ..)
    have hkvs := fun kv' hmem => h kv' (List.mem_cons_of_mem _ hmem)
    have hvalue : ∃ n, SendObjectMessage.valueSize kv.2 = some n ∧
        (propertyBytes kv).length = 2 + kv.1.length + 1 + n := by
      obtain ⟨key, value⟩ := kv
      cases value with
      | valueString value =>
        refine ⟨2 + value.length, rfl, ?_⟩
        simp only [propertyBytes, List.length_append, List.length_cons, beBytes_length]
        omega
      | valueNum value =>
        refine ⟨8, rfl, ?_⟩
        simp only [propertyBytes, List.length_append, List.length_cons, beBytes_length]
      | valueLen value => exact absurd hkv.2 id
      | value0x01 value => exact absurd hkv.2 id
    obtain ⟨n, hn, hlen⟩ := hvalue
    simp [SendObjectMessage.propertiesSize, hn, ih hkvs, hlen]

/-- `get_payload_size` says how long the payload will be. -/
theorem getPayloadSize_eq (m : ObjectMessage) : m.getPayloadSize = m.payload.length := by
  have htype : ¬ m.type = .onBwDone := by
    intro h
    have hvec := m.onBwDone h
    rw [m.vec_eq] at hvec
    cases hvec
  have hone : ¬ 1 < m.vec.length := by rw [m.vec_eq]; simp
  have hsize : SendObjectMessage.objectsSize m.vec
      = some (1 + (m.object.flatMap propertyBytes).length + 3) := by
    rw [m.vec_eq]
    simp [SendObjectMessage.objectsSize, propertiesSize_eq m.sendable]
  rw [SendObjectMessage.getPayloadSize, if_neg htype, hsize]
  simp only [if_neg hone, payload, List.length_append, List.length_cons, beBytes_length,
    List.length_nil]
  omega

/-- The payload is parsed back to the message's own name, number and object. -/
theorem parseConnect_payload (m : ObjectMessage) :
    parseConnect m.payload {} = some (0, ⟨m.command, m.transactionId, m.object⟩) := by
  have hobject : readObject (m.object.flatMap propertyBytes ++ [0x00, 0x00, 0x09])
      ({} : IoMessage).object = some (0, m.object) := readObject_pushProperties m.sendable m.nodup
  rw [parseConnect, payload, readCommand_append m.command_short]
  simp only [hobject]
  rw [if_neg (by decide)]

/-- What a `ConnectMessage` makes of the chunks and the bytes in them: it takes out the
continuation headers and parses the rest. -/
theorem wp_connect {m : ObjectMessage} {size : Nat} {c : UInt8} {hdr rest out : Bytes}
    {Q : Int → State → Stream → Prop} {s : State} (hlen : hdr.length = 12) (hsize : 0 < size)
    (hbuf : s.buffer .ioBuffer = hdr) (hmessage : s.client.message = {})
    (hQ : ∀ s', s'.client.message = ⟨m.command, m.transactionId, m.object⟩ →
      s'.buffer .ioBuffer = hdr ++ m.payload → Q 0 s' ⟨rest, out⟩) :
    wp streamEnv (ConnectMessage.readPayload 1 11 m.payload.length size) Q s
      ⟨frame [c] size [] m.payload ++ rest, out⟩ := by
  have hdrop : ((s.append .ioBuffer m.payload).buffer .ioBuffer).drop (1 + 11) = m.payload := by
    rw [State.buffer_append, hbuf]
    exact List.drop_left' hlen
  simp only [ConnectMessage.readPayload, bind_eq, pure_eq, wp_bind]
  refine wp_dechunk (fun _ => by simp) (fun _ => by simp) hsize ?_
  rw [if_neg (by decide), parseBuffer, wp_act]
  refine ⟨0, (s.append .ioBuffer m.payload).setMessage ⟨m.command, m.transactionId, m.object⟩,
    ?_, hQ _ rfl (by rw [← hbuf]; rfl)⟩
  rw [hdrop, State.append_message, hmessage, m.parseConnect_payload]
  rfl

/-- A command with one object survives the wire: whatever `Send_Object_Message`
writes in chunks, `ConnectMessage` reads back, and it stops at its end. -/
theorem connect_roundTrip (m : ObjectMessage) (csid size : Nat) (timestamp streamId : BitVec 32)
    (rest : Bytes) (sender receiver : State) (h2 : 2 ≤ csid) (h63 : csid ≤ 63)
    (ht : timestamp.toNat < 0xFFFFFF) (hcs : 1 ≤ size) (hle : m.getPayloadSize ≤ 0xFFFFFF)
    (hsend : sender.buffer .ioBuffer = []) (hsender : sender.client.chunkSize = size)
    (hrecv : receiver.buffer .ioBuffer = []) (hreceiver : receiver.client.chunkSize = size)
    (hmessage : receiver.client.message = {}) :
    wp streamEnv (writeMessage m.writePayload.run 0 csid timestamp m.getPayloadSize 20 streamId)
      (fun rc _ e => rc = 0 ∧
        wp streamEnv (recvMessage ConnectMessage.readPayload) (fun rc' s' e' => rc' = 0 ∧
            s'.client.message.commandName = m.command ∧
            s'.client.message.transactionId = m.transactionId ∧
            s'.client.message.object = m.object ∧ e'.inp = rest)
          receiver ⟨e.out ++ rest, []⟩)
      sender ⟨[], []⟩ := by
  have hne : m.payload ≠ [] := List.cons_ne_nil _ _
  rw [getPayloadSize_eq] at hle
  let o : OutMessage := ⟨csid, timestamp, 20, streamId, m.payload, h2, h63, ht, hne, by omega⟩
  rw [getPayloadSize_eq, writePayload_eq]
  refine wp_writeMessage (t := sender.append .ioBuffer (o.header ++ m.payload)) hsend
    (by rw [State.append_chunkSize]; omega) hne ?_ ?_ ⟨rfl, ?_⟩
  · intro Q e
    rw [wp_run_push, State.append_append]
    rfl
  · rw [State.buffer_append, hsend]
    rfl
  · rw [List.nil_append, State.append_chunkSize, hsender]
    refine o.wp_recvMessage_wire hrecv ?_
    rw [hreceiver]
    refine wp_connect (m := m) o.header_length hcs ?_ ?_ fun s' hs' _ => ?_
    · simp [control_buffer, hrecv]
    · simp [OutMessage.chunkHeader, ChunkHeader.control, o, hmessage]
    · rw [if_neg (by decide), hs']
      exact ⟨rfl, rfl, rfl, rfl, rfl⟩

/-- `connect`, with one string and one number in its object, as a small instance of what is
sent. -/
def connectLive : ObjectMessage where
  command := chars "connect"
  transactionId := 0x3FF0000000000000
  type := .connectAppResponse
  vec := [[(chars "app", .valueString (chars "live")), (chars "audioCodecs", .valueNum 0)]]
  onBwDone := fun h => by cases h
  object := [(chars "app", .valueString (chars "live")), (chars "audioCodecs", .valueNum 0)]
  vec_eq := rfl
  command_short := by decide
  sendable := by
    intro kv hkv
    rcases List.mem_cons.mp hkv with h | h
    · rw [h]
      exact ⟨by decide, by decide⟩
    · rw [List.mem_singleton.mp h]
      exact ⟨by decide, trivial⟩
  nodup := by decide

/-- It survives being cut into chunks of two bytes, so with a continuation header every two
bytes. -/
theorem connect_roundTrip_live :
    wp streamEnv
      (writeMessage connectLive.writePayload.run 0 3 0 connectLive.getPayloadSize 20 0)
      (fun rc _ e => rc = 0 ∧
        wp streamEnv (recvMessage ConnectMessage.readPayload) (fun rc' s' e' => rc' = 0 ∧
            s'.client.message.commandName = connectLive.command ∧
            s'.client.message.transactionId = connectLive.transactionId ∧
            s'.client.message.object = connectLive.object ∧ e'.inp = [7])
          { client := { chunkSize := 2 } } ⟨e.out ++ [7], []⟩)
      { client := { chunkSize := 2 } } ⟨[], []⟩ :=
  connect_roundTrip connectLive 3 2 0 0 [7] _ _ (by decide) (by decide) (by decide) (by decide)
    (by decide) rfl rfl rfl rfl rfl

end ObjectMessage

end RtmpServer
