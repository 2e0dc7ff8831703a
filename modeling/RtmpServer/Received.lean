import RtmpServer.Metadata

/-!
# The messages a session receives

`recv_message` calls the virtual `read_payload` of the message object it is
called on. `Received` names the class of that object.
-/

namespace RtmpServer

open Coroutine Coroutine.Prog

/-- The classes whose `recv_message` `process_thread` calls, those of both branches. -/
inductive Received where
  | connectMessage
  | releaseStream
  | fcPublish
  | createStream
  | checkBw
  | getStreamLength
  | playCommandMessage
  | unknownMessage
  | publish
  | setDataFrame
  deriving DecidableEq

namespace Received

/-- The virtual `read_payload`, by the class of the object that `recv_message` is called on. -/
def readPayload : Received → Nat → Nat → Int → Nat → Routine Int
  | connectMessage => ConnectMessage.readPayload
  | releaseStream => ReleaseStream.readPayload
  | fcPublish => FCPublish.readPayload
  | createStream => CreateStream.readPayload
  | checkBw => CheckBW.readPayload
  | getStreamLength => GetStreamLength.readPayload
  | playCommandMessage => PlayCommandMessage.readPayload
  | unknownMessage => UnknownMessage.readPayload
  | publish => Publish.readPayload
  | setDataFrame => SetDataFrame.readPayload

/-- `recv_message` of an object of the class, which differs from the others in its
`read_payload` only. -/
def recv (type : Received) : Routine Int := recvMessage type.readPayload

end Received

/-! ## What every `read_payload` does -/

/-- The return value of the entries' parser does not depend on what is in the
list already. -/
theorem parseEntries_frame (count : Nat) :
    ∀ (p : Bytes) (frame frame' : List Property),
      (parseEntries count p frame).map Prod.fst = (parseEntries count p frame').map Prod.fst := by
  induction count with
  | zero => intro p frame frame'; rfl
  | succ count ih =>
    intro p frame frame'
    simp only [parseEntries]
    cases parseEntry p with
    | error f =>
      cases f with
      | minusOne => rfl
      | undefined => rfl
    | ok kv => exact ih kv.2 _ _

end RtmpServer
