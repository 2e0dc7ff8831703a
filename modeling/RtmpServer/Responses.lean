import RtmpServer.Command

/-!
# The messages a session sends

`write_message` calls the virtual `write_payload` of the message object it is
called on. `Response` is such an object: its class and what its constructor
was given. `OnMetaData`, which writes the global list, is in `Metadata`.

Mirroring notes:
- the commands that the code writes from a literal have its length written out
  (`commandBytes`); those that it is given as a `std::string` go through
  `pushString`.
- `transaction_id` and `stream_id` are `double`s, so they are patterns.
-/

namespace RtmpServer

open Coroutine Coroutine.Prog Endian Framing
open Push

/-! ## `write_payload` -/

/-- A literal command name and the transaction id behind it, as the response classes push
them. -/
def commandBytes (command : Bytes) (transactionId : UInt64) : Bytes :=
  0x02 :: (beBytes 2 command.length ++ (command ++ (0x00 :: beBytes 8 transactionId.toNat)))

/-- `Set_Window_Size::write_payload`: the size in four bytes, the highest first. -/
def SetWindowSize.writePayload (windowSize : Int) : Push :=
  push (memBytes 4 windowSize).reverse

/-- `Set_Peer_Bandwidth::write_payload`: the bandwidth in four bytes, the highest first, and
the kind of limit. -/
def SetPeerBandwidth.writePayload (bandwidth : Int) (limitType : UInt8) : Push :=
  push ((memBytes 4 bandwidth).reverse ++ [limitType])

/-- `SetChunkSize::write_payload`: the size in four bytes, the highest first. -/
def SetChunkSize.writePayload (chunkSize : Int) : Push := push (memBytes 4 chunkSize).reverse

/-- The body that `ReleaseStreamResponse::write_payload` and
`FCPublishResponse::write_payload` both have: the result with null and undefined. -/
def writePayloadResult (transactionId : UInt64) : Push :=
  push (commandBytes (chars "_result") transactionId ++ [0x05, 0x06])

def ReleaseStreamResponse.writePayload : UInt64 → Push := writePayloadResult

def FCPublishResponse.writePayload : UInt64 → Push := writePayloadResult

/-- `CreateStreamResponse::write_payload`: the result with null and the number of the new
stream. -/
def CreateStreamResponse.writePayload (transactionId streamId : UInt64) : Push :=
  push (commandBytes (chars "_result") transactionId
    ++ (0x05 :: 0x00 :: beBytes 8 streamId.toNat))

/-- The one object that `OnFCPublish::init` builds, with its code and its description. -/
def OnFCPublish.init : List (List Property) :=
  [[(chars "code", .valueString (chars "NetStream.Publish.Start")),
    (chars "description", .valueString (chars "Started publishing stream."))]]

/-- `OnFCPublish::write_payload`: the command with null, and then the object. -/
def OnFCPublish.writePayload (transactionId : UInt64) : Push :=
  (push (commandBytes (chars "onFCPublish") transactionId ++ [0x05])).andThen
    (writeObject OnFCPublish.init)

/-- The one object that `OnStatus::init` builds, with level, code, description and client
id. -/
def OnStatus.init : List (List Property) :=
  [[(chars "level", .valueString (chars "status")),
    (chars "code", .valueString (chars "NetStream.Publish.Start")),
    (chars "description", .valueString (chars "Started publishing stream.")),
    (chars "clientid", .valueString (chars "ASAICiss"))]]

/-- `OnStatus::write_payload`: the command with null, and then the object. -/
def OnStatus.writePayload (transactionId : UInt64) : Push :=
  (push (commandBytes (chars "onStatus") transactionId ++ [0x05])).andThen
    (writeObject OnStatus.init)

/-- `SrcPCUCStreamBegin::write_payload`: the event type in two bytes and the stream id in
four. -/
def SrcPCUCStreamBegin.writePayload : Push :=
  push (memBytes 2 0 ++ (memBytes 4 1).reverse)

/-- The object that `PullStreamOnStatus::init` builds; `value` keeps its last
text where the type is neither of the two. -/
def PullStreamOnStatus.init (type : MessageObjectType) : List (List Property) :=
  let code :=
    if type = .pullOnstatus1 then chars "NetStream.Play.Reset"
    else if type = .pullOnstatus2 then chars "NetStream.Play.Start"
    else chars "status"
  let description :=
    if type = .pullOnstatus1 then chars "Playing and resetting stream."
    else if type = .pullOnstatus2 then chars "Started playing stream."
    else code
  [[(chars "level", .valueString (chars "status")),
    (chars "code", .valueString code),
    (chars "description", .valueString description),
    (chars "details", .valueString (chars "stream")),
    (chars "clientid", .valueString (chars "ASAICiss"))]]

/-- `PullStreamOnStatus::write_payload`: its command and transaction id, null, and the
object of its type. -/
def PullStreamOnStatus.writePayload (command : Bytes) (transactionId : UInt64)
    (type : MessageObjectType) : Push :=
  (push [0x02]).andThen ((pushString command).andThen
    ((push (0x00 :: (beBytes 8 transactionId.toNat ++ [0x05]))).andThen
      (pushVec pushLen (PullStreamOnStatus.init type))))

/-- `RtmpSampleAccess::write_payload`: a name and two flags. It does not use the command
that it is given. -/
def RtmpSampleAccess.writePayload : Push :=
  let name := chars "|RtmpSampleAccess"
  push (0x02 :: (beBytes 2 name.length ++ (name ++ [0x01, 0x00, 0x01, 0x00])))

/-- `PullStreamOnStatus3::write_payload`: `onStatus` and an object of one entry, both
literal. It does not use its command either. -/
def PullStreamOnStatus3.writePayload : Push :=
  let name := chars "onStatus"
  let key := chars "code"
  let value := chars "NetStream.Data.Start"
  push (0x02 :: (beBytes 2 name.length ++ (name ++ (0x03 :: (beBytes 2 key.length ++ (key ++
    (0x02 :: (beBytes 2 value.length ++ (value ++ [0x00, 0x00, 0x09])))))))))

/-! ## The calls of `write_message` -/

/-- A message object that `process_thread` sends, with what its constructor is given. -/
inductive Response where
  | setWindowSize (windowSize : Int)
  | setPeerBandwidth (bandwidth : Int) (limitType : UInt8)
  | sendObjectMessage (command : Bytes) (transactionId : UInt64) (type : MessageObjectType)
  | releaseStreamResponse (transactionId : UInt64)
  | setChunkSize (chunkSize : Int)
  | fcPublishResponse (transactionId : UInt64)
  | createStreamResponse (transactionId streamId : UInt64)
  | onFCPublish (transactionId : UInt64)
  | onStatus (transactionId : UInt64)
  | srcPCUCStreamBegin
  | pullStreamOnStatus (command : Bytes) (transactionId : UInt64) (type : MessageObjectType)
  | rtmpSampleAccess
  | pullStreamOnStatus3
  deriving DecidableEq

/-- The virtual `write_payload`, which each class has in its own way. -/
def Response.writePayload : Response → Push
  | setWindowSize windowSize => SetWindowSize.writePayload windowSize
  | setPeerBandwidth bandwidth limitType => SetPeerBandwidth.writePayload bandwidth limitType
  | sendObjectMessage command transactionId type =>
    (SendObjectMessage.new command transactionId type).writePayload
  | releaseStreamResponse transactionId => ReleaseStreamResponse.writePayload transactionId
  | setChunkSize chunkSize => SetChunkSize.writePayload chunkSize
  | fcPublishResponse transactionId => FCPublishResponse.writePayload transactionId
  | createStreamResponse transactionId streamId =>
    CreateStreamResponse.writePayload transactionId streamId
  | onFCPublish transactionId => OnFCPublish.writePayload transactionId
  | onStatus transactionId => OnStatus.writePayload transactionId
  | srcPCUCStreamBegin => SrcPCUCStreamBegin.writePayload
  | pullStreamOnStatus command transactionId type =>
    PullStreamOnStatus.writePayload command transactionId type
  | rtmpSampleAccess => RtmpSampleAccess.writePayload
  | pullStreamOnStatus3 => PullStreamOnStatus3.writePayload

/-- A message object with the arguments of its `write_message`; the format and
the timestamp are always 0. -/
structure Send where
  message : Response
  csid : Nat
  messageLength : Int
  messageType : UInt8
  streamId : BitVec 32
  deriving DecidableEq

namespace Send

/-- The call of `write_message` on this object, with the arguments that stand there. -/
def write (m : Send) : Routine Int :=
  writeMessage m.message.writePayload.run 0 m.csid 0 m.messageLength m.messageType m.streamId

/-! The numbers 1, 2, 3 and 4 as `double`s. -/

def one : UInt64 := 0x3FF0000000000000

def two : UInt64 := 0x4000000000000000

def three : UInt64 := 0x4008000000000000

def four : UInt64 := 0x4010000000000000

/-! The messages of `process_thread`. -/

def setWindowSize : Send := ⟨.setWindowSize 2500000, 2, 4, 5, 0⟩

def setPeerBandwidth : Send := ⟨.setPeerBandwidth 2500000 2, 2, 5, 6, 0⟩

def connectAppResponse : Send :=
  ⟨.sendObjectMessage (chars "_result") one .connectAppResponse, 3,
    (SendObjectMessage.new (chars "_result") one .connectAppResponse).getPayloadSize, 20, 0⟩

def onBwDone : Send :=
  ⟨.sendObjectMessage (chars "onBWDone") 0 .onBwDone, 3,
    (SendObjectMessage.new (chars "onBWDone") 0 .onBwDone).getPayloadSize, 20, 0⟩

def setChunkSize : Send := ⟨.setChunkSize 4096, 2, 4, 1, 0⟩

def createStreamResponse (transactionId : UInt64) : Send :=
  ⟨.createStreamResponse transactionId one, 3, 29, 20, 0⟩

def srcPCUCStreamBegin : Send := ⟨.srcPCUCStreamBegin, 2, 6, 4, 0⟩

def pullStreamOnStatus1 : Send :=
  ⟨.pullStreamOnStatus (chars "onStatus") 0 .pullOnstatus1, 5, 154, 20, 1⟩

def pullStreamOnStatus2 : Send :=
  ⟨.pullStreamOnStatus (chars "onStatus") 0 .pullOnstatus2, 5, 148, 20, 1⟩

def rtmpSampleAccess : Send := ⟨.rtmpSampleAccess, 5, 24, 18, 1⟩

def pullStreamOnStatus3 : Send := ⟨.pullStreamOnStatus3, 5, 44, 18, 1⟩

def releaseStreamResponse : Send := ⟨.releaseStreamResponse two, 3, 21, 20, 0⟩

def fcPublishResponse : Send := ⟨.fcPublishResponse three, 3, 21, 20, 0⟩

def onFCPublish : Send := ⟨.onFCPublish 0, 3, 102, 20, 0⟩

def onStatus : Send := ⟨.onStatus 0, 3, 136, 20, 1⟩

/-- The writer pushes a payload of the announced length, and does not fail. -/
def Declared (m : Send) : Prop :=
  ∃ payload : Bytes, m.message.writePayload = push payload ∧ m.messageLength = payload.length ∧
    payload ≠ []

/-- The same as a test that evaluates the writer, so that a fixed message can be looked at. -/
def declares (m : Send) : Bool :=
  match m.message.writePayload with
  | some (payload, rc) => rc = 0 ∧ m.messageLength = payload.length ∧ payload ≠ []
  | none => false

theorem declared_of_declares {m : Send} (h : m.declares = true) : m.Declared := by
  unfold declares at h
  cases hpush : m.message.writePayload with
  | none =>
    rw [hpush] at h
    cases h
  | some r =>
    obtain ⟨payload, rc⟩ := r
    rw [hpush] at h
    obtain ⟨hrc, hlength, hne⟩ := of_decide_eq_true h
    exact ⟨payload, by rw [hpush, hrc]; rfl, hlength, hne⟩

/-- All of them, but for those with a transaction id of their own. -/
def fixed : List Send :=
  [setWindowSize, setPeerBandwidth, connectAppResponse, onBwDone, setChunkSize,
    srcPCUCStreamBegin, pullStreamOnStatus1, pullStreamOnStatus2, rtmpSampleAccess,
    pullStreamOnStatus3, releaseStreamResponse, fcPublishResponse, onFCPublish, onStatus,
    createStreamResponse two, createStreamResponse four]

/-- Every length that `process_thread` announces is the length of the payload that follows. -/
theorem declared_fixed : ∀ m ∈ fixed, m.Declared := by
  have hall : ∀ m ∈ fixed, m.declares = true := by decide +kernel
  exact fun m hm => declared_of_declares (hall m hm)

/-- The header that `write_message` puts in front of the payload, which has the announced
length in it. -/
def header (m : Send) : Bytes :=
  headerBytes 0 m.csid 0 m.messageLength m.messageType m.streamId

/-- A peer that takes everything gets the message whole: the header and the payload in
chunks, and the call returns 0. -/
theorem wp_write {m : Send} {payload inp out : Bytes} {s : State}
    (hpush : m.message.writePayload = push payload) (hne : payload ≠ [])
    (hempty : s.buffer .ioBuffer = []) (hcs : 0 < s.client.chunkSize) :
    wp streamEnv m.write (fun rc s' e => rc = 0 ∧ s' = s.append .ioBuffer (m.header ++ payload) ∧
      e = ⟨inp, out ++ frame [headerFmt3 m.csid] s.client.chunkSize m.header payload⟩) s
      ⟨inp, out⟩ := by
  refine wp_writeMessage (t := s.append .ioBuffer (m.header ++ payload)) hempty
    (by rwa [State.append_chunkSize]) hne ?_ ?_ ?_
  · intro Q e
    rw [hpush, wp_run_push, State.append_append]
    rfl
  · rw [State.buffer_append, hempty]
    rfl
  · rw [State.append_chunkSize]
    exact ⟨rfl, rfl, rfl⟩

end Send

end RtmpServer
