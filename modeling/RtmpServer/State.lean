import RtmpServer.Lib.Schedule
import RtmpServer.Lib.Endian

/-!
# The server's data and the blocking calls of st

The state one session's code runs on: the process globals of `io_message.cpp`
and `client.cpp`, which every session shares, and the session's own `Client`
with the message object it is working on.

Mirroring notes:
- `char` is a byte pattern (`UInt8`); where the code does arithmetic with a
  plain `char` the sign is written out (`schar`). An `int` is a `BitVec 32`
  where the code pokes all its bytes or lets it wrap (timestamps, stream ids)
  and an `Int` elsewhere. A `double` and a `uint64_t` only ever move as eight
  bytes, so they are `UInt64` patterns.
- `chunk_size` is only ever 128 or 4096, so it is a `Nat`.
- `csid_header` is an `unordered_map` that is only looked up, so it is a
  partial function; `operator[]` inserts the default record (`touch`).
- a consumer's slot is a `const char *` that is `NULL` or
  `audio_video_buffer.data()`; nothing else is ever stored there.
-/

namespace RtmpServer

open Coroutine Endian

/-- The contents of a `std::string`, byte by byte. A zero byte is a byte like any other. -/
abbrev Bytes := List UInt8

/-! ## Machine integers -/

/-- A value cut to a signed 16-bit integer, as when it is stored in an `int16_t`. -/
def wrap16 (x : Int) : Int := Int.bmod x (2 ^ 16)

/-- A `char` used as a number: signed, as on x86, so a byte from 0x80 on is negative. -/
def schar (c : UInt8) : Int := if c.toNat < 128 then c.toNat else (c.toNat : Int) - 256

/-- The object representation of an integer on a little-endian machine: its two's
complement, low byte first. -/
def memBytes (width : Nat) (x : Int) : Bytes := leBytes width (x % (256 ^ width : Nat)).toNat

@[simp] theorem memBytes_length (width : Nat) (x : Int) : (memBytes width x).length = width := by
  simp [memBytes]

/-- Of a number that is not negative, these are its own low bytes. -/
theorem memBytes_natCast (width n : Nat) : memBytes width n = leBytes width n := by
  have h : ((n : Int) % (256 ^ width : Nat)).toNat = n % 256 ^ width := by
    rw [← Int.natCast_emod, Int.toNat_natCast]
  rw [memBytes, h, leBytes_mod]

/-! ## `value_object.h`, `io_message.h` -/

/-- `Value_Object` and its four subclasses, by the marker that a value is written behind.
The number is kept as the 64 bits of its `double`. -/
inductive ValueObject where
  | valueString (value : Bytes)
  | valueNum (value : UInt64)
  | valueLen (value : Int)
  | value0x01 (value : UInt8)
  deriving DecidableEq

/-- A key and its value, one entry of an `object` or of the list of a `SetDataFrame`. -/
abbrev Property := Bytes × ValueObject

/-- `Message_Header`; the constructor fills every field with `-1`, so a record that was
never written reads as that. -/
structure MessageHeader where
  headerLength : Int := -1
  timestamp : BitVec 32 := -1
  timestampDelta : BitVec 32 := -1
  messageLength : Int := -1
  messageType : UInt8 := 0xff
  streamId : BitVec 32 := -1
  deriving DecidableEq

/-- What a consumer's `const char *` slot can hold: nothing to be sent, or the data of the
shared buffer. -/
inductive Slot where
  | null
  | audioVideoData
  deriving DecidableEq

/-- The globals: `curr_csid`, `set_data_frame`, `csid_header`,
`audio_video_buffer` and `consumers`, the latter in iteration order. -/
structure Globals where
  currCsid : Int := 0
  setDataFrame : List Property := []
  csidHeader : Int → Option MessageHeader := fun _ => none
  audioVideoBuffer : Bytes := []
  consumers : List (Nat × Slot) := []

namespace Globals

/-- `csid_header[csid]`, read: the entry, or the default record where there is none. -/
def header (g : Globals) (csid : Int) : MessageHeader := (g.csidHeader csid).getD {}

/-- `csid_header[csid] = h`, which leaves the entries of the other chunk streams alone. -/
def setHeader (g : Globals) (csid : Int) (h : MessageHeader) : Globals :=
  { g with csidHeader := fun c => if c = csid then some h else g.csidHeader c }

/-- What looking a key up with `operator[]` leaves behind: an entry, the default one where
there was none. -/
def touch (g : Globals) (csid : Int) : Globals := g.setHeader csid (g.header csid)

/-- The entry that was stored for a chunk stream is the one that is read from it. -/
@[simp] theorem header_setHeader (g : Globals) (csid : Int) (h : MessageHeader) :
    (g.setHeader csid h).header csid = h := by
  simp [header, setHeader]

/-- The entries of the other chunk streams are left alone when one of them is stored. -/
theorem header_setHeader_ne (g : Globals) {csid c : Int} (h : MessageHeader) (hc : c ≠ csid) :
    (g.setHeader csid h).header c = g.header c := by
  simp [header, setHeader, hc]

@[simp] theorem csidHeader_setHeader (g : Globals) (csid : Int) (h : MessageHeader) :
    (g.setHeader csid h).csidHeader csid = some h := by
  simp [setHeader]

theorem csidHeader_setHeader_ne (g : Globals) {csid c : Int} (h : MessageHeader) (hc : c ≠ csid) :
    (g.setHeader csid h).csidHeader c = g.csidHeader c :=
  if_neg hc

@[simp] theorem setHeader_setHeader (g : Globals) (csid : Int) (h h' : MessageHeader) :
    (g.setHeader csid h).setHeader csid h' = g.setHeader csid h' := by
  simp only [setHeader, Globals.mk.injEq, true_and, and_true]
  funext c
  by_cases hc : c = csid
  · simp [hc]
  · simp [hc]

@[simp] theorem setHeader_currCsid (g : Globals) (csid : Int) (h : MessageHeader) :
    (g.setHeader csid h).currCsid = g.currCsid := rfl

@[simp] theorem setHeader_setDataFrame (g : Globals) (csid : Int) (h : MessageHeader) :
    (g.setHeader csid h).setDataFrame = g.setDataFrame := rfl

@[simp] theorem setHeader_audioVideoBuffer (g : Globals) (csid : Int) (h : MessageHeader) :
    (g.setHeader csid h).audioVideoBuffer = g.audioVideoBuffer := rfl

@[simp] theorem setHeader_consumers (g : Globals) (csid : Int) (h : MessageHeader) :
    (g.setHeader csid h).consumers = g.consumers := rfl

/-- `consumers.begin()->second`, which needs a consumer to be there. Only the first one is
ever looked at. -/
def slot (g : Globals) : Option Slot := g.consumers.head?.map Prod.snd

/-- `consumers.begin()->second = x`. Without a consumer there is nothing to store it in. -/
def setSlot (g : Globals) (x : Slot) : Globals :=
  { g with consumers :=
      match g.consumers with
      | [] => []
      | (stfd, _) :: rest => (stfd, x) :: rest }

/-- Where there is a consumer, the first one's slot holds what was stored last. -/
theorem slot_setSlot {g : Globals} {x : Slot} (h : g.slot ≠ none) :
    (g.setSlot x).slot = some x := by
  unfold slot setSlot at *
  cases hc : g.consumers with
  | nil => simp [hc] at h
  | cons c cs => rfl

@[simp] theorem setSlot_csidHeader (g : Globals) (x : Slot) :
    (g.setSlot x).csidHeader = g.csidHeader := rfl

@[simp] theorem setSlot_currCsid (g : Globals) (x : Slot) :
    (g.setSlot x).currCsid = g.currCsid := rfl

@[simp] theorem setSlot_audioVideoBuffer (g : Globals) (x : Slot) :
    (g.setSlot x).audioVideoBuffer = g.audioVideoBuffer := rfl

/-- The slot depends on the consumers alone, whatever else changes. -/
theorem slot_congr {g g' : Globals} (h : g'.consumers = g.consumers) : g'.slot = g.slot := by
  rw [slot, slot, h]

/-- A key that is there is not changed by looking it up. -/
theorem touch_of_some {g : Globals} {csid : Int} {h : MessageHeader}
    (hg : g.csidHeader csid = some h) : g.touch csid = g := by
  cases g with
  | mk currCsid setDataFrame csidHeader audioVideoBuffer consumers =>
    simp only [touch, setHeader, header, Globals.mk.injEq, true_and, and_true] at hg ⊢
    funext c
    by_cases hc : c = csid
    · rw [if_pos hc, hc, hg]
      rfl
    · rw [if_neg hc]

end Globals

/-- The data of an `IO_Message` object: what its `read_payload` stored, which is all that
later calls can find of the message. -/
structure IoMessage where
  commandName : Bytes := []
  transactionId : UInt64 := 0
  object : List Property := []

/-- `std::unordered_map::insert`: a key that is already there keeps its value, and the new
one is dropped. -/
def insertProperty (object : List Property) (kv : Property) : List Property :=
  if object.any (fun p => p.1 = kv.1) then object else object ++ [kv]

/-- The session's own data: `Client` with its `IO_Buffer`, and the message
object the session thread holds in `message_ptr`. -/
structure Client where
  stfdClient : Nat := 0
  chunkSize : Nat := 128
  ioBuffer : Bytes := []
  message : IoMessage := {}

/-- What the code of one session works on: the globals that all sessions share, and the
session's own data. -/
structure State where
  globals : Globals := {}
  client : Client := {}

namespace State

/-- `csid_header[csid] = h`, in a session's state. The table is shared with every other
session. -/
def setHeader (s : State) (csid : Int) (h : MessageHeader) : State :=
  { s with globals := s.globals.setHeader csid h }

/-- The message object after its `read_payload` stored something in it. -/
def setMessage (s : State) (message : IoMessage) : State :=
  { s with client := { s.client with message } }

/-- `set_data_frame = frame`: the list of the publisher, which every later consumer is sent. -/
def setMetaData (s : State) (frame : List Property) : State :=
  { s with globals := { s.globals with setDataFrame := frame } }

/-- `curr_csid = csid`, the chunk stream of the audio or video message being received. -/
def setCurrCsid (s : State) (csid : Int) : State :=
  { s with globals := { s.globals with currCsid := csid } }

end State

/-- The two byte strings a session receives into: its own `IO_Buffer`, and the audio/video
buffer that all sessions share. -/
inductive Buffer where
  | ioBuffer
  | audioVideoBuffer

namespace State

/-- The contents of the one or the other, as bytes in the order in which they were received. -/
def buffer (s : State) : Buffer → Bytes
  | .ioBuffer => s.client.ioBuffer
  | .audioVideoBuffer => s.globals.audioVideoBuffer

/-- The state with the contents of one of them replaced, and nothing else changed. -/
def setBuffer (s : State) : Buffer → Bytes → State
  | .ioBuffer, bytes => { s with client := { s.client with ioBuffer := bytes } }
  | .audioVideoBuffer, bytes => { s with globals := { s.globals with audioVideoBuffer := bytes } }

/-- `std::string::append` to one of them: everything that is received gets there this way. -/
def append (s : State) (b : Buffer) (bytes : Bytes) : State := s.setBuffer b (s.buffer b ++ bytes)

@[simp] theorem buffer_setBuffer (s : State) (b : Buffer) (bytes : Bytes) :
    (s.setBuffer b bytes).buffer b = bytes := by
  cases b <;> rfl

@[simp] theorem setBuffer_setBuffer (s : State) (b : Buffer) (x y : Bytes) :
    (s.setBuffer b x).setBuffer b y = s.setBuffer b y := by
  cases b <;> rfl

@[simp] theorem setBuffer_buffer (s : State) (b : Buffer) : s.setBuffer b (s.buffer b) = s := by
  cases b <;> rfl

@[simp] theorem append_nil (s : State) (b : Buffer) : s.append b [] = s := by
  rw [append, List.append_nil, setBuffer_buffer]

@[simp] theorem append_append (s : State) (b : Buffer) (x y : Bytes) :
    (s.append b x).append b y = s.append b (x ++ y) := by
  simp [append]

@[simp] theorem buffer_append (s : State) (b : Buffer) (bytes : Bytes) :
    (s.append b bytes).buffer b = s.buffer b ++ bytes := by
  simp [append]

@[simp] theorem setBuffer_header (s : State) (b : Buffer) (bytes : Bytes) (csid : Int) :
    (s.setBuffer b bytes).globals.header csid = s.globals.header csid := by
  cases b <;> rfl

@[simp] theorem setBuffer_csidHeader (s : State) (b : Buffer) (bytes : Bytes) :
    (s.setBuffer b bytes).globals.csidHeader = s.globals.csidHeader := by
  cases b <;> rfl

@[simp] theorem setBuffer_currCsid (s : State) (b : Buffer) (bytes : Bytes) :
    (s.setBuffer b bytes).globals.currCsid = s.globals.currCsid := by
  cases b <;> rfl

@[simp] theorem setBuffer_chunkSize (s : State) (b : Buffer) (bytes : Bytes) :
    (s.setBuffer b bytes).client.chunkSize = s.client.chunkSize := by
  cases b <;> rfl

@[simp] theorem setBuffer_message (s : State) (b : Buffer) (bytes : Bytes) :
    (s.setBuffer b bytes).client.message = s.client.message := by
  cases b <;> rfl

@[simp] theorem setHeader_buffer (s : State) (csid : Int) (h : MessageHeader) (b : Buffer) :
    (s.setHeader csid h).buffer b = s.buffer b := by
  cases b <;> rfl

@[simp] theorem setHeader_header (s : State) (csid : Int) (h : MessageHeader) :
    (s.setHeader csid h).globals.header csid = h :=
  Globals.header_setHeader ..

@[simp] theorem setHeader_csidHeader (s : State) (csid : Int) (h : MessageHeader) :
    (s.setHeader csid h).globals.csidHeader csid = some h :=
  Globals.csidHeader_setHeader ..

@[simp] theorem setHeader_setHeader (s : State) (csid : Int) (h h' : MessageHeader) :
    (s.setHeader csid h).setHeader csid h' = s.setHeader csid h' := by
  simp [setHeader]

@[simp] theorem setHeader_currCsid (s : State) (csid : Int) (h : MessageHeader) :
    (s.setHeader csid h).globals.currCsid = s.globals.currCsid := rfl

@[simp] theorem setHeader_chunkSize (s : State) (csid : Int) (h : MessageHeader) :
    (s.setHeader csid h).client.chunkSize = s.client.chunkSize := rfl

@[simp] theorem setHeader_client (s : State) (csid : Int) (h : MessageHeader) :
    (s.setHeader csid h).client = s.client := rfl

/-- Buffers are written outside, header records inside: one order for both, so that states
can be compared. -/
@[simp] theorem setBuffer_setHeader (s : State) (b : Buffer) (bytes : Bytes) (csid : Int)
    (h : MessageHeader) :
    (s.setBuffer b bytes).setHeader csid h = (s.setHeader csid h).setBuffer b bytes := by
  cases b <;> rfl

@[simp] theorem setCurrCsid_buffer (s : State) (csid : Int) (b : Buffer) :
    (s.setCurrCsid csid).buffer b = s.buffer b := by
  cases b <;> rfl

@[simp] theorem setCurrCsid_currCsid (s : State) (csid : Int) :
    (s.setCurrCsid csid).globals.currCsid = csid := rfl

@[simp] theorem setCurrCsid_setCurrCsid (s : State) (c d : Int) :
    (s.setCurrCsid c).setCurrCsid d = s.setCurrCsid d := rfl

@[simp] theorem setCurrCsid_header (s : State) (csid c : Int) :
    (s.setCurrCsid csid).globals.header c = s.globals.header c := rfl

@[simp] theorem setCurrCsid_csidHeader (s : State) (csid : Int) :
    (s.setCurrCsid csid).globals.csidHeader = s.globals.csidHeader := rfl

@[simp] theorem setCurrCsid_client (s : State) (csid : Int) :
    (s.setCurrCsid csid).client = s.client := rfl

@[simp] theorem setBuffer_setCurrCsid (s : State) (b : Buffer) (bytes : Bytes) (csid : Int) :
    (s.setBuffer b bytes).setCurrCsid csid = (s.setCurrCsid csid).setBuffer b bytes := by
  cases b <;> rfl

/-! The same of `append`. -/

@[simp] theorem append_setBuffer (s : State) (b : Buffer) (x y : Bytes) :
    (s.append b x).setBuffer b y = s.setBuffer b y := by
  rw [append, setBuffer_setBuffer]

@[simp] theorem append_header (s : State) (b : Buffer) (bytes : Bytes) (csid : Int) :
    (s.append b bytes).globals.header csid = s.globals.header csid :=
  setBuffer_header ..

@[simp] theorem append_csidHeader (s : State) (b : Buffer) (bytes : Bytes) :
    (s.append b bytes).globals.csidHeader = s.globals.csidHeader :=
  setBuffer_csidHeader ..

@[simp] theorem append_currCsid (s : State) (b : Buffer) (bytes : Bytes) :
    (s.append b bytes).globals.currCsid = s.globals.currCsid :=
  setBuffer_currCsid ..

@[simp] theorem append_chunkSize (s : State) (b : Buffer) (bytes : Bytes) :
    (s.append b bytes).client.chunkSize = s.client.chunkSize :=
  setBuffer_chunkSize ..

@[simp] theorem append_message (s : State) (b : Buffer) (bytes : Bytes) :
    (s.append b bytes).client.message = s.client.message :=
  setBuffer_message ..

@[simp] theorem append_setHeader (s : State) (b : Buffer) (bytes : Bytes) (csid : Int)
    (h : MessageHeader) :
    (s.append b bytes).setHeader csid h = (s.setHeader csid h).append b bytes := by
  rw [append, append, setBuffer_setHeader, setHeader_buffer]

@[simp] theorem append_setCurrCsid (s : State) (b : Buffer) (bytes : Bytes) (csid : Int) :
    (s.append b bytes).setCurrCsid csid = (s.setCurrCsid csid).append b bytes := by
  rw [append, append, setBuffer_setCurrCsid, setCurrCsid_buffer]

@[simp] theorem setMetaData_buffer (s : State) (frame : List Property) (b : Buffer) :
    (s.setMetaData frame).buffer b = s.buffer b := by
  cases b <;> rfl

@[simp] theorem setMetaData_client (s : State) (frame : List Property) :
    (s.setMetaData frame).client = s.client := rfl

@[simp] theorem setMetaData_setDataFrame (s : State) (frame : List Property) :
    (s.setMetaData frame).globals.setDataFrame = frame := rfl

@[simp] theorem append_setMetaData (s : State) (b : Buffer) (bytes : Bytes)
    (frame : List Property) :
    (s.append b bytes).setMetaData frame = (s.setMetaData frame).append b bytes := by
  cases b <;> rfl

@[simp] theorem append_setDataFrame (s : State) (b : Buffer) (bytes : Bytes) :
    (s.append b bytes).globals.setDataFrame = s.globals.setDataFrame := by
  cases b <;> rfl

/-- Looking a key up with `operator[]`, in a session's state. It may create the entry. -/
def touch (s : State) (csid : Int) : State := { s with globals := s.globals.touch csid }

/-- An entry that is there is not changed by looking it up. -/
theorem touch_of_some {s : State} {csid : Int} {h : MessageHeader}
    (hs : s.globals.csidHeader csid = some h) : s.touch csid = s := by
  rw [touch, Globals.touch_of_some hs]

/-- A key that has been looked up is there, so a second look changes nothing. -/
theorem touch_touch (s : State) (csid : Int) : (s.touch csid).touch csid = s.touch csid := by
  have hthere : (s.touch csid).globals.csidHeader csid = some (s.globals.header csid) :=
    Globals.csidHeader_setHeader ..
  exact touch_of_some hthere

end State

/-! ## The calls that may block -/

/-- What `st_read_fully` gives for a request of `nbyte` bytes: `-1`, or a
count of at most `nbyte` and that many bytes. -/
inductive ReadResult (nbyte : Nat) where
  | error
  | data (bytes : Bytes) (_h : bytes.length ≤ nbyte)

/-- What one `writev` gives for `nbyte` bytes: an error, or how many it took. -/
inductive WriteResult (nbyte : Nat) where
  | error
  | wrote (n : Nat) (_h : n ≤ nbyte)

/-- A `writev` may have taken all that it was given, and need not be called again. -/
theorem WriteResult.all_le (bytes : Bytes) : bytes.length ≤ bytes.length := Nat.le_refl _

/-- The calls in which a coroutine may be switched: `st_read_fully`, one
`writev` of `st_writev` with the wait that follows it, and `st_usleep`. -/
inductive Call where
  | stReadFully (nbyte : Nat)
  | writev (bytes : Bytes)
  | stUsleep

/-- What each of these calls is answered with: bytes, a count of bytes, or nothing at all. -/
@[reducible] def Call.Reply : Call → Type
  | .stReadFully nbyte => ReadResult nbyte
  | .writev bytes => WriteResult bytes.length
  | .stUsleep => Unit

/-- The blocking calls of the server, with their replies, as a signature of the coroutine
library. -/
abbrev st : Sig := ⟨Call, Call.Reply⟩

/-- Code of a session thread: it may block in these calls, and works on the state in
between. -/
abbrev Routine := Prog st State

/-- `st_read_fully`, as the code calls it: one call that gives up to `nbyte` bytes, or an
error. -/
def stReadFully (nbyte : Nat) : Routine (ReadResult nbyte) :=
  .call (Call.stReadFully nbyte) .ret

/-- One `writev` inside `st_writev`, which need not take everything. -/
def writevOnce (bytes : Bytes) : Routine (WriteResult bytes.length) :=
  .call (Call.writev bytes) .ret

/-- `st_usleep`, of which the session code knows only that it comes back. -/
def stUsleep : Routine Unit := .call Call.stUsleep .ret

/-! ### A peer that sends a stream and takes everything -/

/-- The two directions of a connection: what the peer has sent and is not read
yet, and what has been written to it. -/
structure Stream where
  inp : Bytes
  out : Bytes := []

/-- The peer delivers its bytes in order, each request in full once all of it
is there, and takes whatever is written. -/
def streamEnv : Env st Stream
  | .stReadFully nbyte, e =>
    if nbyte ≤ e.inp.length then
      some (.data (e.inp.take nbyte) (List.length_take_le _ _), { e with inp := e.inp.drop nbyte })
    else none
  | .writev bytes, e => some (.wrote bytes.length (Nat.le_refl _), { e with out := e.out ++ bytes })
  | .stUsleep, e => some ((), e)

/-! ### Answers as plain data -/

/-- An answer of the environment, before it is matched with the call it is for. -/
inductive Answer where
  | error
  | bytes (bs : Bytes)
  | wrote (n : Nat)
  | wake
  deriving DecidableEq

/-- The answer as a reply to the call, if it is one: a count has to be one that the call can
give. -/
def answer : (c : Call) → Answer → Option (Call.Reply c)
  | .stReadFully _, .error => some .error
  | .stReadFully nbyte, .bytes bs => if h : bs.length ≤ nbyte then some (.data bs h) else none
  | .writev _, .error => some .error
  | .writev bytes, .wrote n => if h : n ≤ bytes.length then some (.wrote n h) else none
  | .stUsleep, .wake => some ()
  | _, _ => none

end RtmpServer
