import RtmpServer.Chunks

/-!
# `IO_Message`: writing and receiving a message

The parts of `io_message.cpp` that every message class shares. The virtual
functions are parameters: `writeMessage` takes the class's `write_payload`,
`recvMessage` its `read_payload`.

The result of this file is `sendAll_receivesAll`: what `write_message` emits
for any sequence of messages, `recv_audio_video` takes apart again, message by
message.

Mirroring notes:
- `se2be_3bytes` and its siblings reverse the first bytes of a number's memory;
  that is the number's big-endian form in that width (`beBytes`).
- the pointer arguments are never null, so `write_header` cannot fail.
-/

namespace RtmpServer

open Coroutine Coroutine.Prog Endian Framing

/-! ## Writing -/

/-- The first basic header byte, `(fmt << 6) | csid`, which is all of it for a chunk stream
from 2 to 63. -/
def basicByte (fmt : Nat) (csid : Int) : UInt8 := UInt8.ofNat (fmt <<< 6) ||| lowByte csid

/-- The basic header of `write_header`: one, two or three bytes, by the size of the chunk
stream's number. -/
def basicHeaderBytes (fmt : Nat) (csid : Int) : Bytes :=
  if 2 ≤ csid ∧ csid ≤ 63 then [basicByte fmt csid]
  else if csid ≤ 319 then [UInt8.ofNat (fmt <<< 6) &&& 0xc0, lowByte (csid - 64)]
  else (UInt8.ofNat (fmt <<< 6) ||| 0x01) :: memBytes 2 (csid - 64)

/-- All that `write_header` pushes: the basic header, the fields of the format, and the
extended timestamp if there is one. -/
def headerBytes (fmt : Nat) (csid : Int) (timestamp : BitVec 32) (messageLength : Int)
    (messageType : UInt8) (streamId : BitVec 32) : Bytes :=
  let mhSize := mhSizeArray fmt
  let extendedstamp : Bool := 0 < mhSize ∧ 0xffffff < timestamp.toInt
  basicHeaderBytes fmt csid
    ++ (if 0 < mhSize then
          (if extendedstamp then beBytes 3 0xffffff else beBytes 3 timestamp.toNat)
          ++ (if 7 ≤ mhSize then (memBytes 3 messageLength).reverse ++ [messageType] else [])
          ++ (if 7 < mhSize then leBytes 4 streamId.toNat else [])
        else [])
    ++ (if extendedstamp then beBytes 4 timestamp.toNat else [])

/-- `IO_Message::write_header`, which pushes the header to `io_buffer` and does not fail. -/
def writeHeader (fmt : Nat) (csid : Int) (timestamp : BitVec 32) (messageLength : Int)
    (messageType : UInt8) (streamId : BitVec 32) : Routine Int := do
  modify fun s => s.append .ioBuffer
    (headerBytes fmt csid timestamp messageLength messageType streamId)
  return 0

/-- `IO_Message::write_message`: the header and the payload go to `io_buffer`, and from
there out in chunks. -/
def writeMessage (writePayload : Routine Int) (fmt : Nat) (csid : Int) (timestamp : BitVec 32)
    (messageLength : Int) (messageType : UInt8) (streamId : BitVec 32) : Routine Int := do
  let rc ← writeHeader fmt csid timestamp messageLength messageType streamId
  if rc = -1 then
    return -1
  let headerSize ← gets fun s => (s.buffer .ioBuffer).length
  let rc ← writePayload
  if rc = -1 then
    return -1
  let messageSize ← gets fun s => (s.buffer .ioBuffer).length
  writeChunks csid headerSize messageSize

/-- `delete message_ptr`: the destructor of the base class clears `io_buffer` for the next
message. -/
def deleteMessage : Routine Unit :=
  modify fun s => { s with client := { s.client with ioBuffer := [], message := {} } }

/-! ## Receiving -/

/-- `csid_header[csid].field`: the map inserts a missing record, with its defaults, before
it is read. -/
def lookup {α : Type} (csid : Int) (field : MessageHeader → α) : Routine α := do
  modify fun s => s.touch csid
  gets fun s => field (s.globals.header csid)

/-- `IO_Message::recv_message`; the virtual `readPayload` is given `bh_size`, `mh_size`,
`message_length` and `chunk_size`. -/
def recvMessage (readPayload : Nat → Nat → Int → Nat → Routine Int) : Routine Int := do
  let (rc, fmt, csid, bhSize) ← readBasicHeader
  if rc = -1 then
    return -1
  let (rc, mhSize) ← readMessageHeader fmt csid bhSize
  if rc = -1 then
    return -1
  let messageLength ← lookup csid MessageHeader.messageLength
  let chunkSize ← gets fun s => s.client.chunkSize
  let rc ← readPayload bhSize mhSize messageLength chunkSize
  if rc = -1 then
    return -1
  return 0

/-- `IO_Message::recv_audio_video_payload`: the chunks of the payload, with the headers
between them cut out. -/
def recvAudioVideoPayload (csid : Int) : Routine Int :=
  dechunk .audioVideoBuffer (lookup csid MessageHeader.messageLength)
    (gets fun s => s.client.chunkSize)

/-- `IO_Message::recv_audio_video`, called with `curr_csid` for its `csid`: the
return value, `bh_size` and `mh_size`. -/
def recvAudioVideo : Routine (Int × Nat × Nat) := do
  let (rc, fmt, csid, bhSize) ← readAudioVideoBasicHeader
  if rc = -1 then
    return (-1, bhSize, 0)
  let (rc, mhSize) ← readAudioVideoMessageHeader fmt csid bhSize
  if rc = -1 then
    return (-1, bhSize, mhSize)
  -- `csid` is a reference to `curr_csid`, which the reads above may have let change
  let csid ← gets fun s => s.globals.currCsid
  let _ ← lookup csid MessageHeader.timestamp
  let rc ← recvAudioVideoPayload csid
  if rc = -1 then
    return (-1, bhSize, mhSize)
  return (0, bhSize, mhSize)

/-! ## What is written -/

theorem lowByte_of_lt {n : Nat} (h : n < 256) : (lowByte n).toNat = n := by
  have hmod : ((n : Int) % 256).toNat = n := by omega
  rw [lowByte, hmod, UInt8.toNat_ofNat_of_lt' (by simpa using h)]

theorem basicByte_toNat {fmt csid : Nat} (hfmt : fmt < 4) (hcsid : csid < 64) :
    (basicByte fmt csid).toNat = fmt * 64 + csid := by
  have hshift : fmt <<< 6 = fmt * 64 := by rw [Nat.shiftLeft_eq]
  have hor : fmt <<< 6 ||| csid = fmt <<< 6 + csid :=
    (Nat.shiftLeft_add_eq_or_of_lt hcsid fmt).symm
  rw [basicByte, UInt8.toNat_or, lowByte_of_lt (by omega),
    UInt8.toNat_ofNat_of_lt' (by show _ < 256; omega), hor, hshift]

/-- The header `write_message` puts in front of a message with a short
timestamp, as the readers' header form. -/
theorem headerBytes_fmt0 {csid : Nat} {timestamp : BitVec 32} {length : Nat} {type : UInt8}
    {streamId : BitVec 32} (h2 : 2 ≤ csid) (h63 : csid ≤ 63) (ht : timestamp.toNat < 0xFFFFFF) :
    headerBytes 0 csid timestamp length type streamId
      = basicByte 0 csid :: (ChunkHeader.fmt0 ⟨timestamp.setWidth 24, 0⟩ (BitVec.ofNat 24 length)
          type streamId).encode := by
  have hint : timestamp.toInt = timestamp.toNat := BitVec.toInt_eq_toNat_of_lt (by omega)
  have hshort : ¬ (0xffffff : Int) < timestamp.toInt := by omega
  have hrange : (2 : Int) ≤ csid ∧ (csid : Int) ≤ 63 := by omega
  have hfield : timestamp.setWidth 24 ≠ 0xFFFFFF#24 := by
    rw [Ne, ← BitVec.toNat_inj, BitVec.toNat_setWidth]
    show ¬ timestamp.toNat % 2 ^ 24 = 0xFFFFFF
    omega
  have htime : beBytes 3 (timestamp.toNat % 16777216) = beBytes 3 timestamp.toNat :=
    beBytes_mod 3 _
  have hlength : beBytes 3 (length % 16777216) = (memBytes 3 length).reverse := by
    rw [memBytes_natCast]
    exact beBytes_mod 3 _
  simp [headerBytes, basicHeaderBytes, mhSizeArray, hshort, hrange, ChunkHeader.encode,
    ChunkHeader.fields, ChunkHeader.extendedBytes, Stamp.fieldBytes, Stamp.extendedBytes, hfield,
    htime, hlength]

/-- A message with a non-empty payload leaves as its header and its chunks. -/
theorem wp_writeMessage {writePayload : Routine Int} {fmt : Nat} {csid : Int}
    {timestamp : BitVec 32} {messageLength : Int} {type : UInt8} {streamId : BitVec 32}
    {payload inp out : Bytes} {Q : Int → State → Stream → Prop} {s t : State}
    (hempty : s.buffer .ioBuffer = []) (hcs : 0 < t.client.chunkSize) (hne : payload ≠ [])
    (hpayload : ∀ {Q e}, wp streamEnv writePayload Q (s.append .ioBuffer
        (headerBytes fmt csid timestamp messageLength type streamId)) e ↔ Q 0 t e)
    (hbuf : t.buffer .ioBuffer
      = headerBytes fmt csid timestamp messageLength type streamId ++ payload)
    (hQ : Q 0 t ⟨inp, out ++ frame [headerFmt3 csid] t.client.chunkSize
        (headerBytes fmt csid timestamp messageLength type streamId) payload⟩) :
    wp streamEnv (writeMessage writePayload fmt csid timestamp messageLength type streamId) Q s
      ⟨inp, out⟩ := by
  simp only [writeMessage, writeHeader, bind_eq, pure_eq, wp_bind, wp_modify, wp_ret]
  rw [if_neg (by decide), wp_bind, wp_gets, wp_bind, hpayload, if_neg (by decide), wp_bind, wp_gets,
    hbuf, State.buffer_append, hempty, List.nil_append, List.length_append]
  exact wp_writeChunks hbuf hcs hne hQ

/-! ## What is received -/

theorem wp_lookup {ε α : Type} {env : Env st ε} {e : ε} {csid : Int} {s : State}
    {m : MessageHeader} {field : MessageHeader → α} {Q : α → State → ε → Prop}
    (hm : s.globals.csidHeader csid = some m) :
    wp env (lookup csid field) Q s e ↔ Q (field m) s e := by
  have hget : s.globals.header csid = m := by
    rw [Globals.header, hm]
    rfl
  simp [lookup, State.touch_of_some hm, hget]

theorem wlp_lookup {ε α : Type} {env : Env st ε} {e : ε} {csid : Int} {s : State}
    {m : MessageHeader} {field : MessageHeader → α} {Q : α → State → ε → Prop}
    (hm : s.globals.csidHeader csid = some m) :
    wlp env (lookup csid field) Q s e ↔ Q (field m) s e := by
  have hget : s.globals.header csid = m := by
    rw [Globals.header, hm]
    rfl
  simp [lookup, State.touch_of_some hm, hget]

/-- A one-byte basic header is read back as its format and its chunk stream: `*csid` is
stored once. -/
theorem wp_readBasicHeaderOn {b : Buffer} {store : Int → Routine Unit} {fmt csid : Nat}
    {rest out : Bytes} {Q : Int × Nat × Int × Nat → State → Stream → Prop} {s : State}
    (hempty : s.buffer b = []) (hfmt : fmt < 4) (h2 : 2 ≤ csid) (h63 : csid ≤ 63) :
    wp streamEnv (readBasicHeaderOn b store) Q s ⟨basicByte fmt csid :: rest, out⟩ ↔
      wp streamEnv (store csid) (fun _ => Q (0, fmt, csid, 1))
        (s.append b [basicByte fmt csid]) ⟨rest, out⟩ := by
  have hbyte : (basicByte fmt csid).toNat = fmt * 64 + csid := basicByte_toNat hfmt (by omega)
  have hdiv : (basicByte fmt csid).toNat / 64 % 4 = fmt := by omega
  have hmod : ((basicByte fmt csid).toNat : Int) % 64 = csid := by omega
  have hread : ((s.append b [basicByte fmt csid]).buffer b)[0]? = some (basicByte fmt csid) := by
    rw [State.buffer_append, hempty]
    rfl
  simp only [readBasicHeaderOn, bind_eq, pure_eq, wp_bind]
  rw [← List.singleton_append, wp_readNbytesCycleOn_append (by rw [hempty]; rfl)]
  rw [if_neg (by simp), wp_bind, wp_read, hread]
  simp only [Option.some.injEq, exists_eq_left', wp_bind, hdiv, hmod]
  refine wp_congr fun _ _ _ => ?_
  rw [if_neg (by omega), if_neg (by omega), wp_ret]

/-- A chunk stream in the forms that a basic header has for it. -/
inductive ChunkStream where
  | one (csid : Nat) (h2 : 2 ≤ csid) (h63 : csid ≤ 63)
  | two (b1 : UInt8)
  | three (b1 b2 : UInt8)

namespace ChunkStream

/-- The basic header that names this chunk stream, for a message header of the form `fmt`. -/
def bytes (fmt : Nat) : ChunkStream → Bytes
  | one csid _ _ => [basicByte fmt csid]
  | two b1 => [basicByte fmt 0, b1]
  | three b1 b2 => [basicByte fmt 1, b1, b2]

/-- The number that the readers make of it, which for the longer forms adds up signed bytes. -/
def csid : ChunkStream → Int
  | one csid _ _ => csid
  | two b1 => 64 + schar b1
  | three b1 b2 => 64 + schar b1 + schar b2 * 256

/-- What a basic header reader makes of it, where storing `*csid` is the update `f`
of the state. -/
theorem wp_readBasicHeaderOn (c : ChunkStream) {b : Buffer} {store : Int → Routine Unit}
    {f : Int → State → State} {fmt : Nat} {rest out : Bytes}
    {Q : Int × Nat × Int × Nat → State → Stream → Prop} {s : State}
    (hstore : ∀ {csid Q s e}, wp streamEnv (store csid) Q s e ↔ Q () (f csid s) e)
    (hbuffer : ∀ csid s, (f csid s).buffer b = s.buffer b)
    (happend : ∀ csid s x, (f csid s).append b x = f csid (s.append b x))
    (hlast : ∀ c d s, f c (f d s) = f c s) (hempty : s.buffer b = []) (hfmt : fmt < 4) :
    wp streamEnv (readBasicHeaderOn b store) Q s ⟨c.bytes fmt ++ rest, out⟩ ↔
      Q (0, fmt, c.csid, (c.bytes fmt).length) (f c.csid (s.append b (c.bytes fmt)))
        ⟨rest, out⟩ := by
  have hdiv : ∀ low : Nat, low < 64 → (basicByte fmt low).toNat / 64 % 4 = fmt := by
    intro low hlow
    have hbyte := basicByte_toNat hfmt hlow
    omega
  have hmod : ∀ low : Nat, low < 64 → ((basicByte fmt low).toNat : Int) % 64 = low := by
    intro low hlow
    have hbyte := basicByte_toNat hfmt hlow
    omega
  have hread : ∀ low : Nat, ((s.append b [basicByte fmt low]).buffer b)[0]?
      = some (basicByte fmt low) := by
    intro low
    rw [State.buffer_append, hempty]
    rfl
  have hone : 1 = (s.buffer b).length + 1 := by rw [hempty]; rfl
  simp only [readBasicHeaderOn, bind_eq, pure_eq, wp_bind]
  cases c with
  | one csid h2 h63 =>
    have hbytes : (one csid h2 h63).bytes fmt ++ rest = [basicByte fmt csid] ++ rest := rfl
    rw [hbytes, wp_readNbytesCycleOn_append hone, if_neg (by simp), wp_bind, wp_read, hread]
    simp only [Option.some.injEq, exists_eq_left', wp_bind, hstore, hdiv csid (by omega),
      hmod csid (by omega)]
    rw [if_neg (by omega), if_neg (by omega), wp_ret]
    rfl
  | two b1 =>
    have hdiv0 := hdiv 0 (by decide)
    have hmod0 := hmod 0 (by decide)
    have hread0 := hread 0
    have hbytes : (two b1).bytes fmt ++ rest = [basicByte fmt 0] ++ ([b1] ++ rest) := rfl
    rw [hbytes, wp_readNbytesCycleOn_append hone, if_neg (by simp), wp_bind, wp_read]
    simp only [Int.ofNat_zero] at hdiv0 hmod0 hread0
    rw [hread0]
    simp only [Option.some.injEq, exists_eq_left', wp_bind, hstore, hdiv0, hmod0]
    rw [if_pos trivial, wp_bind, wp_readNbytesOn_append (by simp [hbuffer, hempty]),
      if_neg (by decide), wp_bind, wp_read]
    simp [hempty, bytes, ChunkStream.csid, hstore, hbuffer, happend, hlast]
  | three b1 b2 =>
    have hdiv1 := hdiv 1 (by decide)
    have hmod1 := hmod 1 (by decide)
    have hread1 := hread 1
    have hbytes : (three b1 b2).bytes fmt ++ rest
        = [basicByte fmt 1] ++ ([b1, b2] ++ rest) := rfl
    rw [hbytes, wp_readNbytesCycleOn_append hone, if_neg (by simp), wp_bind, wp_read]
    simp only [Int.ofNat_one] at hdiv1 hmod1 hread1
    rw [hread1]
    simp only [Option.some.injEq, exists_eq_left', wp_bind, hstore, hdiv1, hmod1]
    rw [if_neg (by decide), if_pos trivial, wp_bind,
      wp_readNbytesOn_append (by simp [hbuffer, hempty]), if_neg (by decide), wp_bind, wp_read]
    simp [hempty, bytes, ChunkStream.csid, hstore, hbuffer, happend, hlast]

/-- The control reader takes any of the three forms and leaves the bytes in `io_buffer`. -/
theorem wp_readBasicHeader (c : ChunkStream) {fmt : Nat} {rest out : Bytes}
    {Q : Int × Nat × Int × Nat → State → Stream → Prop} {s : State}
    (hempty : s.buffer .ioBuffer = []) (hfmt : fmt < 4) :
    wp streamEnv readBasicHeader Q s ⟨c.bytes fmt ++ rest, out⟩ ↔
      Q (0, fmt, c.csid, (c.bytes fmt).length) (s.append .ioBuffer (c.bytes fmt)) ⟨rest, out⟩ :=
  c.wp_readBasicHeaderOn (f := fun _ s => s) wp_ret (fun _ _ => rfl) (fun _ _ _ => rfl)
    (fun _ _ _ => rfl) hempty hfmt

/-- The audio/video reader takes any of the three forms, and stores the chunk stream in
`curr_csid`. -/
theorem wp_readAudioVideoBasicHeader (c : ChunkStream) {fmt : Nat} {rest out : Bytes}
    {Q : Int × Nat × Int × Nat → State → Stream → Prop} {s : State}
    (hempty : s.buffer .audioVideoBuffer = []) (hfmt : fmt < 4) :
    wp streamEnv readAudioVideoBasicHeader Q s ⟨c.bytes fmt ++ rest, out⟩ ↔
      Q (0, fmt, c.csid, (c.bytes fmt).length)
        ((s.append .audioVideoBuffer (c.bytes fmt)).setCurrCsid c.csid) ⟨rest, out⟩ :=
  c.wp_readBasicHeaderOn (f := fun csid s => s.setCurrCsid csid) wp_modify
    (fun csid s => s.setCurrCsid_buffer csid _)
    (fun csid s x => (s.append_setCurrCsid _ x csid).symm) (fun _ _ _ => rfl) hempty hfmt

/-- A control message is its header, which sets the entry of its chunk stream, and then
whatever its class reads. -/
theorem wp_recvMessage (c : ChunkStream) {readPayload : Nat → Nat → Int → Nat → Routine Int}
    {h : ChunkHeader} {m : MessageHeader} {rest out : Bytes} {Q : Int → State → Stream → Prop}
    {s : State} (hempty : s.buffer .ioBuffer = [])
    (hm : (h.control c.csid s).globals.csidHeader c.csid = some m) :
    wp streamEnv (recvMessage readPayload) Q s
        ⟨c.bytes h.fmt ++ (h.controlBytes ++ rest), out⟩ ↔
      wp streamEnv (readPayload (c.bytes h.fmt).length h.controlBytes.length m.messageLength
          (h.control c.csid s).client.chunkSize)
        (fun rc => Q (if rc = -1 then -1 else 0))
        ((h.control c.csid s).append .ioBuffer (c.bytes h.fmt ++ h.controlBytes)) ⟨rest, out⟩ := by
  have hbh : (c.bytes h.fmt).length
      = ((s.append .ioBuffer (c.bytes h.fmt)).buffer .ioBuffer).length := by
    simp [hempty]
  simp only [recvMessage, bind_eq, pure_eq, wp_bind]
  rw [c.wp_readBasicHeader hempty h.fmt_lt, if_neg (by simp), wp_bind]
  rw [hbh, wp_readMessageHeader, if_neg (by simp), wp_bind, ← hbh, control_append,
    State.append_append, wp_lookup (m := m) (by simpa using hm), wp_bind, wp_gets, wp_bind,
    State.append_chunkSize]
  refine wp_congr fun rc s' e' => ?_
  by_cases hrc : rc = -1
  · rw [if_pos hrc, if_pos hrc, wp_ret]
  · rw [if_neg hrc, if_neg hrc, wp_ret]

end ChunkStream

/-- A control message on a chunk stream from 2 to 63, whose basic header is one byte. -/
theorem wp_recvMessage {readPayload : Nat → Nat → Int → Nat → Routine Int} {h : ChunkHeader}
    {csid : Nat} {m : MessageHeader} {rest out : Bytes} {Q : Int → State → Stream → Prop}
    {s : State} (hempty : s.buffer .ioBuffer = []) (h2 : 2 ≤ csid) (h63 : csid ≤ 63)
    (hm : (h.control csid s).globals.csidHeader csid = some m)
    (hQ : wp streamEnv
      (readPayload 1 h.controlBytes.length m.messageLength (h.control csid s).client.chunkSize)
      (fun rc => Q (if rc = -1 then -1 else 0))
      ((h.control csid s).append .ioBuffer (basicByte h.fmt csid :: h.controlBytes)) ⟨rest, out⟩) :
    wp streamEnv (recvMessage readPayload) Q s
      ⟨basicByte h.fmt csid :: (h.controlBytes ++ rest), out⟩ :=
  (ChunkStream.wp_recvMessage (.one csid h2 h63) hempty hm).mpr hQ

/-- An audio/video message is its header, which is stored, and then its payload. -/
theorem wp_recvAudioVideo_header {h : ChunkHeader} {c : ChunkStream} {rest out : Bytes}
    {Q : Int × Nat × Nat → State → Stream → Prop} {s : State}
    (hempty : s.buffer .audioVideoBuffer = [])
    (hentry : h.fmt = 3 → s.globals.csidHeader c.csid ≠ none) :
    wp streamEnv recvAudioVideo Q s ⟨c.bytes h.fmt ++ (h.encode ++ rest), out⟩ ↔
      wp streamEnv (recvAudioVideoPayload c.csid)
        (fun rc => Q (if rc = -1 then -1 else 0, (c.bytes h.fmt).length, h.encode.length))
        (((s.setCurrCsid c.csid).setHeader c.csid (h.received (s.globals.header c.csid))).append
          .audioVideoBuffer (c.bytes h.fmt ++ h.encode)) ⟨rest, out⟩ := by
  have hfmt : h.fmt < 4 := h.fmt_lt
  simp only [recvAudioVideo, bind_eq, pure_eq, wp_bind]
  rw [c.wp_readAudioVideoBasicHeader hempty hfmt, if_neg (by simp), wp_bind]
  have hbh : (c.bytes h.fmt).length = (((s.append .audioVideoBuffer (c.bytes h.fmt)).setCurrCsid
      c.csid).buffer .audioVideoBuffer).length := by simp [hempty]
  rw [hbh, wp_readAudioVideoMessageHeader h (by simpa using hentry), if_neg (by simp), wp_bind,
    wp_gets, wp_bind, ← hbh]
  rw [wp_lookup (m := h.received (s.globals.header c.csid)) (by simp), wp_bind]
  simp only [State.append_currCsid, State.setHeader_currCsid, State.setCurrCsid_currCsid,
    State.append_setCurrCsid, State.append_setHeader, State.append_append, State.append_header,
    State.setCurrCsid_header]
  refine wp_congr fun rc s' e' => ?_
  by_cases hrc : rc = -1
  · rw [if_pos hrc, if_pos hrc, wp_ret]
  · rw [if_neg hrc, if_neg hrc, wp_ret]

/-- A message whose header announces its payload is received whole, and nothing
behind it is touched. -/
theorem wp_recvAudioVideo {h : ChunkHeader} {csid : Nat} {payload rest out : Bytes} {c : UInt8}
    {Q : Int × Nat × Nat → State → Stream → Prop} {s : State}
    (hempty : s.buffer .audioVideoBuffer = []) (h2 : 2 ≤ csid) (h63 : csid ≤ 63)
    (hentry : h.fmt = 3 → s.globals.csidHeader csid ≠ none)
    (hlen : (h.received (s.globals.header csid)).messageLength = payload.length)
    (hcs : 0 < s.client.chunkSize)
    (hQ : Q (0, 1, h.encode.length)
      (((s.setCurrCsid csid).setHeader csid (h.received (s.globals.header csid))).append
        .audioVideoBuffer (basicByte h.fmt csid :: (h.encode ++ payload))) ⟨rest, out⟩) :
    wp streamEnv recvAudioVideo Q s ⟨basicByte h.fmt csid ::
      (h.encode ++ (frame [c] s.client.chunkSize [] payload ++ rest)), out⟩ := by
  refine (wp_recvAudioVideo_header (c := .one csid h2 h63) hempty hentry).mpr ?_
  refine wp_dechunk (fun bytes => ?_) (fun bytes => ?_) hcs ?_
  · rw [wp_lookup (m := h.received (s.globals.header csid)) (by simp [ChunkStream.csid]), hlen]
  · simp
  · rw [if_neg (by decide)]
    simpa [ChunkStream.bytes, ChunkStream.csid] using hQ

/-! ## Chunking and dechunking -/

/-- A message as `write_message` can be asked to send it, with a timestamp that
needs no extension. -/
structure OutMessage where
  csid : Nat
  timestamp : BitVec 32
  type : UInt8
  streamId : BitVec 32
  payload : Bytes
  csid_ge : 2 ≤ csid
  csid_le : csid ≤ 63
  timestamp_lt : timestamp.toNat < 0xFFFFFF
  payload_ne : payload ≠ []
  payload_le : payload.length ≤ 0xFFFFFF

namespace OutMessage

/-- The header of the message as `write_header` puts it on the wire, with format 0. -/
def header (m : OutMessage) : Bytes :=
  headerBytes 0 m.csid m.timestamp m.payload.length m.type m.streamId

/-- The same header in the form the readers take, without its basic header. -/
def chunkHeader (m : OutMessage) : ChunkHeader :=
  .fmt0 ⟨m.timestamp.setWidth 24, 0⟩ (BitVec.ofNat 24 m.payload.length) m.type m.streamId

/-- All the bytes of the message: its header and its payload in chunks, each but the first
behind a continuation header. -/
def wire (chunkSize : Nat) (m : OutMessage) : Bytes :=
  frame [headerFmt3 m.csid] chunkSize m.header m.payload

/-- A message object that pushes the payload, sent and deleted, as `process_thread` does
with each. -/
def send (m : OutMessage) : Routine Unit := do
  let _ ← writeMessage
    (do
      modify fun s => s.append .ioBuffer m.payload
      return 0)
    0 m.csid m.timestamp m.payload.length m.type m.streamId
  deleteMessage

def sendAll : List OutMessage → Routine Unit
  | [] => return ()
  | m :: ms => do
    send m
    sendAll ms

/-- Received one after the other, with the buffer cleared in between: every
call returns 0 with the header and the payload in the buffer, the header sizes
add up, `csid_header` has the fields, and the stream stands at the next
message. -/
def ReceivesAll (chunkSize : Nat) : List OutMessage → State → Stream → Prop
  | [], _, e => e.inp = []
  | m :: ms, s, e => wp streamEnv recvAudioVideo (fun r s' e' =>
      r.1 = 0 ∧ r.2.1 + r.2.2 = 12 ∧ m.header.length = 12 ∧
      s'.buffer .audioVideoBuffer = m.header ++ m.payload ∧
      (s'.globals.header m.csid).messageLength = m.payload.length ∧
      (s'.globals.header m.csid).messageType = m.type ∧
      (s'.globals.header m.csid).streamId = m.streamId ∧
      e'.inp = ms.flatMap (wire chunkSize) ∧
      ReceivesAll chunkSize ms (s'.setBuffer .audioVideoBuffer []) e') s e

theorem header_eq (m : OutMessage) : m.header = basicByte 0 m.csid :: m.chunkHeader.encode :=
  headerBytes_fmt0 m.csid_ge m.csid_le m.timestamp_lt

theorem chunkHeader_extendedBytes (m : OutMessage) : m.chunkHeader.extendedBytes = [] := by
  have hlt := m.timestamp_lt
  have hfield : m.timestamp.setWidth 24 ≠ 0xFFFFFF#24 := by
    rw [Ne, ← BitVec.toNat_inj, BitVec.toNat_setWidth]
    show ¬ m.timestamp.toNat % 2 ^ 24 = 0xFFFFFF
    omega
  exact if_neg hfield

theorem header_length (m : OutMessage) : m.header.length = 12 := by
  rw [header_eq, ChunkHeader.encode, chunkHeader_extendedBytes]
  simp [chunkHeader, ChunkHeader.fmt, mhSizeArray]

/-- A control message with this header: the header is read, and its class finds the chunks
behind it. -/
theorem wp_recvMessage_wire (m : OutMessage) {readPayload : Nat → Nat → Int → Nat → Routine Int}
    {Q : Int → State → Stream → Prop} {s : State} {size : Nat} {rest out : Bytes}
    (hempty : s.buffer .ioBuffer = [])
    (hQ : wp streamEnv (readPayload 1 11 m.payload.length s.client.chunkSize)
      (fun rc => Q (if rc = -1 then -1 else 0))
      ((m.chunkHeader.control m.csid s).append .ioBuffer m.header)
      ⟨frame [headerFmt3 m.csid] size [] m.payload ++ rest, out⟩) :
    wp streamEnv (recvMessage readPayload) Q s ⟨m.wire size ++ rest, out⟩ := by
  have hlen := m.header_length
  have hhdr : m.header = basicByte m.chunkHeader.fmt m.csid :: m.chunkHeader.controlBytes := by
    rw [header_eq, ChunkHeader.encode, chunkHeader_extendedBytes]
    rfl
  have hctl : m.chunkHeader.controlBytes.length = 11 := by
    rw [hhdr, List.length_cons] at hlen
    omega
  have hpay : (BitVec.ofNat 24 m.payload.length).toNat = m.payload.length := by
    have hle := m.payload_le
    rw [BitVec.toNat_ofNat, Nat.mod_eq_of_lt (by omega)]
  rw [wire, frame_hdr, hhdr, List.append_assoc, List.cons_append]
  refine wp_recvMessage (m := { s.globals.header m.csid with messageLength := m.payload.length })
    hempty m.csid_ge m.csid_le ?_ ?_
  · simp [chunkHeader, ChunkHeader.control, hpay]
  · rw [hctl, ← hhdr]
    exact hQ

theorem wp_send (m : OutMessage) {Q : Unit → State → Stream → Prop} {s : State} {inp out : Bytes}
    (hempty : s.buffer .ioBuffer = []) (hcs : 0 < s.client.chunkSize)
    (hQ : ∀ s' : State, s'.buffer .ioBuffer = [] → s'.client.chunkSize = s.client.chunkSize →
      Q () s' ⟨inp, out ++ m.wire s.client.chunkSize⟩) :
    wp streamEnv m.send Q s ⟨inp, out⟩ := by
  rw [send, bind_eq, wp_bind]
  refine wp_writeMessage (t := s.append .ioBuffer (m.header ++ m.payload)) hempty
    (by simpa using hcs) m.payload_ne ?_ ?_ ?_
  · intro Q e
    simp [header]
  · simp [hempty, header]
  · simp only [deleteMessage, wp_modify]
    exact hQ _ rfl rfl

theorem wp_sendAll (ms : List OutMessage) {cs : Nat} (hcs : 0 < cs) :
    ∀ {Q : Unit → State → Stream → Prop} {s : State} {inp out : Bytes},
      s.buffer .ioBuffer = [] → s.client.chunkSize = cs →
      (∀ s', Q () s' ⟨inp, out ++ ms.flatMap (wire cs)⟩) →
      wp streamEnv (sendAll ms) Q s ⟨inp, out⟩ := by
  induction ms with
  | nil =>
    intro Q s inp out _ _ hQ
    simpa [sendAll] using hQ s
  | cons m ms ih =>
    intro Q s inp out hempty hsize hQ
    rw [sendAll, bind_eq, wp_bind]
    refine wp_send m hempty (by omega) fun s' hempty' hsize' => ?_
    rw [hsize]
    refine ih hempty' (by rw [hsize', hsize]) fun s'' => ?_
    have h := hQ s''
    rwa [List.flatMap_cons, ← List.append_assoc] at h

theorem receivesAll_wire {cs : Nat} (hcs : 0 < cs) (ms : List OutMessage) :
    ∀ {s : State} {out : Bytes}, s.buffer .audioVideoBuffer = [] → s.client.chunkSize = cs →
      ReceivesAll cs ms s ⟨ms.flatMap (wire cs), out⟩ := by
  induction ms with
  | nil => intro s out _ _; rfl
  | cons m ms ih =>
    intro s out hempty hsize
    have hwire : m.wire cs ++ ms.flatMap (wire cs) = basicByte m.chunkHeader.fmt m.csid ::
        (m.chunkHeader.encode ++ (frame [headerFmt3 m.csid] s.client.chunkSize [] m.payload
          ++ ms.flatMap (wire cs))) := by
      rw [wire, frame_hdr, header_eq, hsize, List.append_assoc]
      rfl
    have hpay : (BitVec.ofNat 24 m.payload.length).toNat = m.payload.length := by
      have hle := m.payload_le
      rw [BitVec.toNat_ofNat, Nat.mod_eq_of_lt (by omega)]
    rw [List.flatMap_cons, hwire]
    refine wp_recvAudioVideo hempty m.csid_ge m.csid_le (by simp [chunkHeader, ChunkHeader.fmt])
      ?_ (by omega) ?_
    · simp [chunkHeader, ChunkHeader.received, hpay]
    · have hlen := m.header_length
      have hsum : 1 + m.chunkHeader.encode.length = 12 := by
        rw [header_eq, List.length_cons] at hlen
        omega
      have hbuf : basicByte m.chunkHeader.fmt m.csid :: (m.chunkHeader.encode ++ m.payload)
          = m.header ++ m.payload := by
        rw [header_eq]
        rfl
      rw [hbuf]
      refine ⟨rfl, hsum, hlen, ?_, ?_, ?_, ?_, rfl, ih ?_ ?_⟩
      · simp [hempty]
      · simp [chunkHeader, ChunkHeader.received, hpay]
      · simp [chunkHeader, ChunkHeader.received]
      · simp [chunkHeader, ChunkHeader.received]
      · simp
      · simpa using hsize

/-- Chunking and then dechunking is the identity: what `write_message` emits
for a list of messages, `recv_audio_video` receives message by message. -/
theorem sendAll_receivesAll (ms : List OutMessage) (cs : Nat) (hcs : 1 ≤ cs)
    (sender receiver : State)
    (hsend : sender.buffer .ioBuffer = []) (hrecv : receiver.buffer .audioVideoBuffer = [])
    (hsender : sender.client.chunkSize = cs) (hreceiver : receiver.client.chunkSize = cs) :
    wp streamEnv (sendAll ms) (fun _ _ e => e.out = ms.flatMap (wire cs) ∧
      ReceivesAll cs ms receiver ⟨e.out, []⟩) sender ⟨[], []⟩ :=
  wp_sendAll ms hcs hsend hsender fun _ =>
    ⟨rfl, receivesAll_wire hcs ms hrecv hreceiver⟩

/-- Two messages, the first of them in three chunks: both are sent, and both are received. -/
theorem sendAll_receivesAll_two :
    let a : OutMessage := ⟨6, 40, 9, 1, [1, 2, 3, 4, 5], by decide, by decide, by decide,
      by decide, by decide⟩
    let b : OutMessage := ⟨7, 41, 8, 1, [6], by decide, by decide, by decide, by decide, by decide⟩
    wp streamEnv (sendAll [a, b]) (fun _ _ e => e.out = [a, b].flatMap (wire 2) ∧
      ReceivesAll 2 [a, b] { client := { chunkSize := 2 } } ⟨e.out, []⟩)
      { client := { chunkSize := 2 } } ⟨[], []⟩ :=
  sendAll_receivesAll _ 2 (by decide) _ _ rfl rfl rfl rfl

end OutMessage

end RtmpServer
