import RtmpServer.Lib.Interference
import RtmpServer.Received

/-!
# What the chunk parser looks at, and what it changes

The readers of a connection run on globals that other connections run on as
well. `View own av` is the part of the state that decides what they do: the
connection's own data, the records of the chunk streams in `own`, and, where
audio and video are received (`av`), the buffer and `curr_csid`. `Frame others
av` is what they leave alone: the records in `others` and, where no audio and
video is received, those two.

Each reader is shown to `Simulates` itself between two states of one view. The
control reader needs no record when the header is of fmt 0: it looks up the
length it has stored before it blocks again.
-/

namespace RtmpServer

open Coroutine Coroutine.Prog

/-- Two states a connection cannot tell apart: its own data, the records of its own chunk
streams and, if it receives audio or video, the shared buffer are the same in both. -/
structure View (own : Int → Prop) (av : Prop) (s t : State) : Prop where
  client : s.client = t.client
  header : ∀ c, own c → s.globals.csidHeader c = t.globals.csidHeader c
  buffer : av → s.globals.audioVideoBuffer = t.globals.audioVideoBuffer
  currCsid : av → s.globals.currCsid = t.globals.currCsid

/-- What a connection may do to the state: the records of the others' chunk streams stay,
and without audio or video so does the shared buffer. -/
structure Frame (others : Int → Prop) (av : Prop) (s s' : State) : Prop where
  header : ∀ c, others c → s'.globals.csidHeader c = s.globals.csidHeader c
  buffer : ¬ av → s'.globals.audioVideoBuffer = s.globals.audioVideoBuffer
  currCsid : ¬ av → s'.globals.currCsid = s.globals.currCsid

/-- The connection may receive into `b`: into its own buffer always, into the shared one if
it receives audio or video. -/
def Receives (av : Prop) (b : Buffer) : Prop := b = .ioBuffer ∨ av

section

variable {own others : Int → Prop} {av : Prop} {b : Buffer}

namespace Frame

variable {s s' s'' : State}

/-- To do nothing stays within the frame. -/
theorem refl (s : State) : Frame others av s s := ⟨fun _ _ => rfl, fun _ => rfl, fun _ => rfl⟩

/-- Two changes within the frame are one within it. -/
theorem trans (h : Frame others av s s') (h' : Frame others av s' s'') : Frame others av s s'' where
  header c hc := (h'.header c hc).trans (h.header c hc)
  buffer hav := (h'.buffer hav).trans (h.buffer hav)
  currCsid hav := (h'.currCsid hav).trans (h.currCsid hav)

/-- To write a buffer that the connection receives into stays within the frame. -/
theorem setBuffer (hb : Receives av b) (s : State) (bytes : Bytes) :
    Frame others av s (s.setBuffer b bytes) where
  header c _ := by rw [State.setBuffer_csidHeader]
  buffer hav := by
    rcases hb with rfl | hav'
    · rfl
    · exact absurd hav' hav
  currCsid _ := by rw [State.setBuffer_currCsid]

/-- So does the record of a chunk stream that is not the others'. -/
theorem setHeader {csid : Int} (hc : ¬ others csid) (s : State) (h : MessageHeader) :
    Frame others av s (s.setHeader csid h) where
  header c hother := by
    have hne : c ≠ csid := fun heq => hc (heq ▸ hother)
    exact Globals.csidHeader_setHeader_ne _ _ hne
  buffer _ := rfl
  currCsid _ := rfl

/-- So does the current chunk stream, for a connection with audio or video. -/
theorem setCurrCsid (hav : av) (s : State) (csid : Int) :
    Frame others av s (s.setCurrCsid csid) where
  header _ _ := rfl
  buffer _ := rfl
  currCsid h := absurd hav h

end Frame

namespace View

variable {s t : State}

/-- A buffer that the connection receives into holds the same in both states. -/
theorem buffer_eq (h : View own av s t) (hb : Receives av b) : s.buffer b = t.buffer b := by
  cases b with
  | ioBuffer => rw [State.buffer, State.buffer, h.client]
  | audioVideoBuffer =>
    rcases hb with hb | hav
    · cases hb
    · exact h.buffer hav

/-- The record of a chunk stream of its own is the same in both. -/
theorem header_eq (h : View own av s t) {csid : Int} (hc : own csid) :
    s.globals.header csid = t.globals.header csid := by
  rw [Globals.header, Globals.header, h.header csid hc]

/-- The same bytes written into a buffer of both states leave them alike. -/
theorem setBuffer (h : View own av s t) (b : Buffer) (bytes : Bytes) :
    View own av (s.setBuffer b bytes) (t.setBuffer b bytes) := by
  cases b with
  | ioBuffer =>
    refine ⟨?_, h.header, h.buffer, h.currCsid⟩
    show { s.client with ioBuffer := bytes } = { t.client with ioBuffer := bytes }
    rw [h.client]
  | audioVideoBuffer => exact ⟨h.client, h.header, fun _ => rfl, h.currCsid⟩

/-- Storing a record: the same one, or one that is not looked at. -/
theorem setHeader (h : View own av s t) {csid : Int} {m m' : MessageHeader}
    (hm : own csid → m = m') : View own av (s.setHeader csid m) (t.setHeader csid m') where
  client := h.client
  header c hc := by
    show (s.globals.setHeader csid m).csidHeader c = (t.globals.setHeader csid m').csidHeader c
    by_cases heq : c = csid
    · rw [heq, Globals.csidHeader_setHeader, Globals.csidHeader_setHeader, hm (heq ▸ hc)]
    · rw [Globals.csidHeader_setHeader_ne _ _ heq, Globals.csidHeader_setHeader_ne _ _ heq]
      exact h.header c hc
  buffer := h.buffer
  currCsid := h.currCsid

/-- The same chunk stream made the current one leaves them alike. -/
theorem setCurrCsid (h : View own av s t) (csid : Int) :
    View own av (s.setCurrCsid csid) (t.setCurrCsid csid) :=
  ⟨h.client, h.header, h.buffer, fun _ => rfl⟩

/-- So does the same data stored in the message. -/
theorem setMessage (h : View own av s t) (message : IoMessage) :
    View own av (s.setMessage message) (t.setMessage message) := by
  refine ⟨?_, h.header, h.buffer, h.currCsid⟩
  show { s.client with message } = { t.client with message }
  rw [h.client]

/-- The metadata of a stream is nothing the parser looks at, so it may even differ. -/
theorem setMetaData (h : View own av s t) (frame frame' : List Property) :
    View own av (s.setMetaData frame) (t.setMetaData frame') :=
  ⟨h.client, h.header, h.buffer, h.currCsid⟩

end View

/-! ## Reads -/

section

variable {V F : State → State → Prop} (hrefl : ∀ s, F s s)
  (hF : ∀ s bytes, F s (s.setBuffer b bytes)) (hbuf : ∀ s t, V s t → s.buffer b = t.buffer b)
  (hset : ∀ s t bytes, V s t → V (s.setBuffer b bytes) (t.setBuffer b bytes))
include hrefl hF hbuf hset

omit hrefl in
/-- To append the same bytes keeps the states alike. -/
theorem simulates_append (bytes : Bytes) :
    Simulates V F V (modify fun s => s.append b bytes : Routine Unit) fun _ => V := by
  refine simulates_modify (fun s _ _ => hF s _) fun s t h => ?_
  rw [State.append, State.append, hbuf s t h]
  exact hset s t _ h

/-- An exact read looks at its buffer and appends to it, so from states that look alike it
does the same. -/
theorem simulates_readNbytesCycleOn (n : Nat) :
    Simulates V F V (readNbytesCycleOn b n) fun _ => V := by
  refine ⟨fun _ => V, simulates_gets hrefl (fun s t h => by rw [hbuf s t h]) (fun _ _ h => h),
    fun size _ => simulates_ite (fun _ => ?_) (fun _ _ _ h => h)⟩
  refine ⟨fun _ => V, ⟨fun _ => V, fun _ _ h => h, fun buffer => ?_⟩, fun r _ => ?_⟩
  · refine simulates_ite (fun _ => ⟨fun _ => V, ⟨fun _ _ h => h, fun _ _ _ h => h⟩, fun r _ => ?_⟩)
      (fun _ _ _ h => h)
    cases r with
    | error => exact fun _ _ h => h
    | data bytes _ => exact simulates_ite (fun _ _ _ h => h) (fun _ _ _ h => h)
  · exact simulates_ite (fun _ _ _ h => h) fun _ =>
      ⟨fun _ => V, simulates_append hF hbuf hset _, fun _ _ _ _ h => h⟩

/-- So does a read in one step. -/
theorem simulates_readNbytesOn (n : Nat) : Simulates V F V (readNbytesOn b n) fun _ => V := by
  refine ⟨fun _ => V, simulates_gets hrefl (fun s t h => by rw [hbuf s t h]) (fun _ _ h => h),
    fun size _ => simulates_ite (fun _ => ?_) (fun _ _ _ h => h)⟩
  refine ⟨fun _ => V, ⟨fun _ _ h => h, fun _ _ _ h => h⟩, fun r _ => ?_⟩
  cases r with
  | error => exact fun _ _ h => h
  | data bytes _ =>
    exact simulates_ite (fun _ _ _ h => h) fun _ =>
      ⟨fun _ => V, simulates_append hF hbuf hset _, fun _ _ _ _ h => h⟩

/-- The basic header: `P csid` is what storing `csid` leaves, and it holds unless the header
could not be read. -/
theorem simulates_readBasicHeaderOn {store : Int → Routine Unit} {P : Int → State → State → Prop}
    (hstore : ∀ csid, Simulates V F V (store csid) fun _ => P csid)
    (hP : ∀ csid s t, P csid s t → V s t) :
    Simulates V F V (readBasicHeaderOn b store) fun r s t =>
      V s t ∧ (r.1 ≠ -1 → P r.2.2.1 s t) := by
  have hcycle := simulates_readNbytesCycleOn hrefl hF hbuf hset
  have hsingle := simulates_readNbytesOn hrefl hF hbuf hset
  have hbyte : ∀ k : Nat, Simulates V F V
      (read fun s => (s.buffer b)[k]? : Routine UInt8) fun _ => V :=
    fun k => simulates_read hrefl (fun s t h => by rw [hbuf s t h]) (fun _ _ _ h _ => h)
  have hfail : ∀ {s t : State} (r : Nat × Int × Nat), V s t →
      V s t ∧ ((-1 : Int) ≠ -1 → P r.2.1 s t) := fun r h => ⟨h, fun hne => absurd rfl hne⟩
  refine ⟨fun _ => V, hcycle 1, fun r _ => simulates_ite (fun _ s t h => hfail _ h) fun _ => ?_⟩
  refine ⟨fun _ => V, hbyte 0, fun bh _ => ⟨fun _ => P _, hstore _, fun _ _ => ?_⟩⟩
  refine simulates_ite (fun _ => ?_) fun _ => simulates_ite (fun _ => ?_) fun _ => ?_
  · refine ⟨fun _ => V, Simulates.mono _ (hsingle 2) (hP _) (fun _ _ _ h => h), fun rc _ => ?_⟩
    refine simulates_ite (fun _ s t h => hfail _ h) fun _ => ⟨fun _ => V, hbyte 1, fun b1 _ =>
      ⟨fun _ => P _, hstore _, fun _ _ s t h => ⟨hP _ s t h, fun _ => h⟩⟩⟩
  · refine ⟨fun _ => V, Simulates.mono _ (hsingle 3) (hP _) (fun _ _ _ h => h), fun rc _ => ?_⟩
    refine simulates_ite (fun _ s t h => hfail _ h) fun _ => ⟨fun _ => V, hbyte 1, fun b1 _ =>
      ⟨fun _ => V, hbyte 2, fun b2 _ =>
        ⟨fun _ => P _, hstore _, fun _ _ s t h => ⟨hP _ s t h, fun _ => h⟩⟩⟩⟩
  · exact fun s t h => ⟨hP _ s t h, fun _ => h⟩

/-- To take out the continuation headers is to read the buffer, and two numbers that are the
same in both states. -/
theorem simulates_dechunk {messageLength : Routine Int} {chunkSize : Routine Nat}
    (hml : Simulates V F V messageLength fun _ => V)
    (hcs : Simulates V F V chunkSize fun _ => V) :
    Simulates V F V (dechunk b messageLength chunkSize) fun _ => V := by
  refine ⟨fun _ => V, fun _ _ h => h, fun nread => ⟨fun _ => V, hml, fun ml _ =>
    simulates_ite (fun _ => ⟨fun _ => V, hcs, fun cs _ => ?_⟩) fun _ _ _ h => h⟩⟩
  refine ⟨fun _ => V, simulates_gets hrefl (fun s t h => by rw [hbuf s t h]) (fun _ _ h => h),
    fun size _ => ⟨fun _ => V, simulates_readNbytesCycleOn hrefl hF hbuf hset _, fun r _ =>
      simulates_ite (fun _ _ _ h => h) fun _ => simulates_ite (fun _ => ?_) fun _ _ _ h => h⟩⟩
  refine ⟨fun _ => V, simulates_modify (fun s _ _ => hF s _) (fun s t h => ?_),
    fun _ _ _ _ h => h⟩
  rw [hbuf s t h]
  exact hset s t _ h

end

/-! ## The control path -/

/-- The view, and one length of chunk stream `csid`: all that the control reader needs of a
record that may be another's. -/
def SameLength (own : Int → Prop) (av : Prop) (csid : Int) (s t : State) : Prop :=
  View own av s t ∧ (s.globals.header csid).messageLength = (t.globals.header csid).messageLength

section

variable {csid : Int} (hc : ¬ others csid)

/-- The session's own reads keep the view. -/
theorem simulates_readNbytesCycle (n : Nat) :
    Simulates (View own av) (Frame others av) (View own av) (readNbytesCycle n)
      fun _ => View own av :=
  simulates_readNbytesCycleOn Frame.refl (fun s _ => Frame.setBuffer (.inl rfl) s _)
    (fun _ _ h => h.buffer_eq (.inl rfl)) (fun _ _ bytes h => h.setBuffer _ bytes) n

/-- So does the basic header of a control message, which stores nothing outside the buffer. -/
theorem simulates_readBasicHeader :
    Simulates (View own av) (Frame others av) (View own av) readBasicHeader fun _ => View own av :=
  Simulates.mono _ (simulates_readBasicHeaderOn (P := fun _ => View own av) Frame.refl
    (fun s _ => Frame.setBuffer (.inl rfl) s _) (fun _ _ h => h.buffer_eq (.inl rfl))
    (fun _ _ bytes h => h.setBuffer _ bytes) (fun _ _ _ h => h) (fun _ _ _ h => h))
    (fun _ _ h => h) (fun _ _ _ h => h.1)

include hc

/-- The length a control header announces is in its record when the header has
been read: stored from it, or there already and one's own. -/
theorem simulates_readMessageHeader {fmt bhSize : Nat} (hown : own csid ∨ fmt = 0) :
    Simulates (View own av) (Frame others av) (View own av) (readMessageHeader fmt csid bhSize)
      fun r s t => View own av s t ∧ (r.1 ≠ -1 → SameLength own av csid s t) := by
  have hfail : ∀ {s t : State}, View own av s t →
      View own av s t ∧ ((-1 : Int) ≠ -1 → SameLength own av csid s t) :=
    fun h => ⟨h, fun hne => absurd rfl hne⟩
  have hbytes : ∀ k n, Simulates (View own av) (Frame others av) (View own av)
      (read fun s => bytesAt k n (s.buffer .ioBuffer) : Routine Bytes) fun _ => View own av :=
    fun k n => simulates_read Frame.refl (fun s t h => by rw [h.buffer_eq (.inl rfl)])
      (fun _ _ _ h _ => h)
  have hdelta : Simulates (View own av) (Frame others av) (View own av) (controlDelta fmt bhSize)
      fun delta s t => View own av s t ∧ (fmt = 0 → delta = 0) := by
    refine simulates_ite (fun hfmt => ⟨fun _ => View own av, hbytes _ _, fun bytes _ s t h => ?_⟩)
      fun _ s t h => ⟨h, fun _ => rfl⟩
    exact ⟨h, fun h0 => by omega⟩
  have hstore : Simulates (View own av) (Frame others av) (View own av)
      (storeMessageLength fmt csid bhSize) fun _ => SameLength own av csid := by
    refine simulates_ite (fun _ => ⟨fun _ => View own av, hbytes _ _, fun bytes _ => ?_⟩)
      fun hfmt s t h => ⟨h, ?_⟩
    · refine simulates_modify (fun s _ _ => Frame.setHeader hc s _) fun s t h => ⟨?_, ?_⟩
      · exact h.setHeader fun ho => by rw [h.header_eq ho]
      · rw [State.setHeader_header, State.setHeader_header]
    · -- nothing is stored: the record is there and one's own
      rcases hown with ho | h0
      · rw [h.header_eq ho]
      · omega
  refine ⟨fun _ => View own av, simulates_readNbytesCycle _, fun r _ =>
    simulates_ite (fun _ s t h => hfail h) fun _ => ?_⟩
  refine ⟨_, hdelta, fun delta ⟨_, _, _, h0⟩ => ⟨fun _ => SameLength own av csid,
    Simulates.mono _ hstore (fun _ _ h => h.1) (fun _ _ _ h => h), fun _ _ => ?_⟩⟩
  refine simulates_ite (fun hext => ?_) fun _ s t h => ⟨h.1, fun _ => h⟩
  have ho : own csid := by
    rcases hown with ho | hfmt
    · exact ho
    · rw [h0 hfmt] at hext
      cases hext
  refine ⟨fun _ => View own av, Simulates.mono _ (simulates_readNbytesCycle _) (fun _ _ h => h.1)
    (fun _ _ _ h => h), fun r _ => simulates_ite (fun _ s t h => hfail h) fun _ s t h => ?_⟩
  exact ⟨h, fun _ => ⟨h, by rw [h.header_eq ho]⟩⟩

/-- The length one has made sure of is looked up, and is the same in both states. -/
theorem simulates_lookupLength :
    Simulates (View own av) (Frame others av) (SameLength own av csid)
      (lookup csid MessageHeader.messageLength) fun _ => View own av := by
  refine ⟨fun _ => SameLength own av csid, simulates_modify (fun s _ _ => Frame.setHeader hc s _)
    (fun s t h => ⟨h.1.setHeader fun ho => h.1.header_eq ho, ?_⟩), fun _ _ => ?_⟩
  · show (Globals.header (Globals.setHeader ..) csid).messageLength
      = (Globals.header (Globals.setHeader ..) csid).messageLength
    rw [Globals.header_setHeader, Globals.header_setHeader, h.2]
  · exact simulates_gets Frame.refl (fun s t h => h.2) fun s t h => h.1

end

/-- A parser is given the same bytes and the same message in both states. -/
theorem simulates_parseBuffer (headerSize : Nat)
    (parse : Bytes → IoMessage → Option (Int × IoMessage)) :
    Simulates (View own av) (Frame others av) (View own av) (parseBuffer headerSize parse)
      fun _ => View own av := by
  intro s t a s' h hf
  obtain ⟨r, hr, heq⟩ := Option.map_eq_some_iff.mp hf
  cases heq
  refine ⟨⟨fun _ _ => rfl, fun _ => rfl, fun _ => rfl⟩, t.setMessage r.2, ?_, h.setMessage r.2⟩
  show (parse ((t.buffer .ioBuffer).drop headerSize) t.client.message).map _ = _
  rw [← h.buffer_eq (.inl rfl), ← h.client, hr]
  rfl

/-- The metadata of a stream is stored, whatever there is of it already. -/
theorem simulates_setDataFrame (bhSize mhSize : Nat) (messageLength : Int) (chunkSize : Nat) :
    Simulates (View own av) (Frame others av) (View own av)
      (SetDataFrame.readPayload bhSize mhSize messageLength chunkSize) fun _ => View own av := by
  refine ⟨fun _ => View own av, ⟨fun _ => View own av, simulates_readNbytesCycle _,
    fun _ _ _ _ h => h⟩, fun rc _ => simulates_ite (fun _ _ _ h => h) fun _ => ?_⟩
  intro s t a s' h hf
  dsimp only at hf ⊢
  rw [← h.buffer_eq (.inl rfl)]
  cases hp : parseSetDataFrame ((s.buffer .ioBuffer).drop (bhSize + mhSize)) with
  | error f =>
    cases f with
    | minusOne =>
      rw [hp] at hf
      cases hf
      exact ⟨Frame.refl s, t, rfl, h⟩
    | undefined =>
      rw [hp] at hf
      cases hf
  | ok r =>
    rw [hp] at hf
    obtain ⟨r', hr', heq⟩ := Option.map_eq_some_iff.mp hf
    cases heq
    have hframe := parseEntries_frame r.1 r.2 s.globals.setDataFrame t.globals.setDataFrame
    rw [hr'] at hframe
    obtain ⟨r'', hr'', hrc⟩ := Option.map_eq_some_iff.mp hframe.symm
    refine ⟨⟨fun _ _ => rfl, fun _ => rfl, fun _ => rfl⟩, t.setMetaData r''.2, ?_,
      h.setMetaData _ _⟩
    show (parseEntries r.1 r.2 t.globals.setDataFrame).map _ = _
    rw [hr'']
    show some (r''.1, _) = some (r'.1, _)
    rw [hrc]

/-- Every class's `read_payload` looks at its connection's own data only, and at the length
and the chunk size it is given. -/
theorem simulates_readPayload (type : Received) (bhSize mhSize : Nat) (messageLength : Int)
    (chunkSize : Nat) :
    Simulates (View own av) (Frame others av) (View own av)
      (type.readPayload bhSize mhSize messageLength chunkSize) fun _ => View own av := by
  have hwhole : ∀ {k : Routine Int},
      Simulates (View own av) (Frame others av) (View own av) k (fun _ => View own av) →
      Simulates (View own av) (Frame others av) (View own av) (do
        let rc ← readWhole bhSize mhSize messageLength
        if rc = -1 then return -1 else k) fun _ => View own av := fun hk =>
    ⟨fun _ => View own av, ⟨fun _ => View own av, simulates_readNbytesCycle _,
      fun _ _ _ _ h => h⟩, fun rc _ => simulates_ite (fun _ _ _ h => h) fun _ => hk⟩
  have hcommand : Simulates (View own av) (Frame others av) (View own av)
      (readPayloadCommand bhSize mhSize messageLength chunkSize) fun _ => View own av :=
    hwhole (simulates_parseBuffer _ _)
  have hdropped : Simulates (View own av) (Frame others av) (View own av)
      (readPayloadDropped bhSize mhSize messageLength chunkSize) fun _ => View own av :=
    hwhole fun _ _ h => h
  cases type with
  | connectMessage =>
    refine ⟨fun _ => View own av, simulates_dechunk Frame.refl
      (fun s _ => Frame.setBuffer (.inl rfl) s _) (fun _ _ h => h.buffer_eq (.inl rfl))
      (fun _ _ bytes h => h.setBuffer _ bytes) (fun _ _ h => h) (fun _ _ h => h), fun rc _ =>
        simulates_ite (fun _ _ _ h => h) fun _ => simulates_parseBuffer _ _⟩
  | releaseStream => exact hcommand
  | fcPublish => exact hcommand
  | createStream => exact hcommand
  | checkBw => exact hdropped
  | getStreamLength => exact hcommand
  | playCommandMessage => exact hcommand
  | unknownMessage => exact hdropped
  | publish => exact hwhole (simulates_parseBuffer _ _)
  | setDataFrame => exact simulates_setDataFrame _ _ _ chunkSize

/-- What `recv_message` does once it has read the header: the payload, by the length that
the header has left in the table. -/
def recvPayload (type : Received) (csid : Int) (bhSize mhSize : Nat) : Routine Int := do
  let messageLength ← lookup csid MessageHeader.messageLength
  let chunkSize ← gets fun s => s.client.chunkSize
  let rc ← type.readPayload bhSize mhSize messageLength chunkSize
  if rc = -1 then
    return -1
  return 0

/-- The payload is received alike in both states, the length being the same. -/
theorem simulates_recvPayload {csid : Int} (hc : ¬ others csid) (type : Received)
    (bhSize mhSize : Nat) :
    Simulates (View own av) (Frame others av) (SameLength own av csid)
      (recvPayload type csid bhSize mhSize) fun _ => View own av :=
  ⟨fun _ => View own av, simulates_lookupLength hc, fun messageLength _ =>
    ⟨fun _ => View own av,
      simulates_gets Frame.refl (fun s t h => by rw [h.client]) (fun _ _ h => h), fun chunkSize _ =>
      ⟨fun _ => View own av, simulates_readPayload type bhSize mhSize messageLength chunkSize,
        fun _ _ => simulates_ite (fun _ _ _ h => h) fun _ _ _ h => h⟩⟩⟩

/-! ## The audio/video path -/

/-- The view while a message of chunk stream `csid` is received, which is the current one. -/
def InStream (own : Int → Prop) (av : Prop) (csid : Int) (s t : State) : Prop :=
  View own av s t ∧ s.globals.currCsid = csid

/-- What `recv_audio_video` does once it has read the basic header: the message header, a look
at the timestamp of its record, and the payload. -/
def recvAudioVideoRest (fmt : Nat) (csid : Int) (bhSize : Nat) : Routine (Int × Nat × Nat) := do
  let (rc, mhSize) ← readAudioVideoMessageHeader fmt csid bhSize
  if rc = -1 then
    return (-1, bhSize, mhSize)
  let csid ← gets fun s => s.globals.currCsid
  let _ ← lookup csid MessageHeader.timestamp
  let rc ← recvAudioVideoPayload csid
  if rc = -1 then
    return (-1, bhSize, mhSize)
  return (0, bhSize, mhSize)

/-- To write a buffer changes nothing about the current chunk stream. -/
theorem InStream.setBuffer {csid : Int} {s t : State} (h : InStream own av csid s t) (b : Buffer)
    (bytes : Bytes) : InStream own av csid (s.setBuffer b bytes) (t.setBuffer b bytes) :=
  ⟨h.1.setBuffer b bytes, by rw [State.setBuffer_currCsid, h.2]⟩

section

variable {csid : Int} (hown : own csid) (hc : ¬ others csid)
include hown hc

/-- The record of the current chunk stream, which is the connection's own, is updated alike. -/
theorem simulates_updateHeader (f : MessageHeader → MessageHeader) :
    Simulates (InStream own av csid) (Frame others av) (InStream own av csid)
      (updateHeader csid f) fun _ => InStream own av csid :=
  simulates_modify (fun s _ _ => Frame.setHeader hc s _) fun s t h =>
    ⟨h.1.setHeader fun _ => by rw [h.1.header_eq hown], h.2⟩

/-- And looked up alike. -/
theorem simulates_lookup {α : Type} (field : MessageHeader → α) :
    Simulates (InStream own av csid) (Frame others av) (InStream own av csid)
      (lookup csid field) fun _ => InStream own av csid :=
  ⟨fun _ => InStream own av csid, simulates_modify (fun s _ _ => Frame.setHeader hc s _)
    (fun s t h => ⟨h.1.setHeader fun _ => h.1.header_eq hown, h.2⟩), fun _ _ =>
      simulates_gets Frame.refl (fun s t h => by rw [h.1.header_eq hown]) (fun _ _ h => h)⟩

end

section

variable (hav : av)
include hav

/-- The audio/video reader's basic header makes its chunk stream the current one, unless it
fails. -/
theorem simulates_readAudioVideoBasicHeader :
    Simulates (View own av) (Frame others av) (View own av) readAudioVideoBasicHeader
      fun r s t => View own av s t ∧ (r.1 ≠ -1 → InStream own av r.2.2.1 s t) :=
  simulates_readBasicHeaderOn (P := InStream own av) Frame.refl
    (fun s _ => Frame.setBuffer (.inr hav) s _) (fun _ _ h => h.buffer_eq (.inr hav))
    (fun _ _ bytes h => h.setBuffer _ bytes)
    (fun csid => simulates_modify (fun s _ _ => Frame.setCurrCsid hav s csid)
      fun _ _ h => ⟨h.setCurrCsid csid, rfl⟩)
    (fun _ _ _ h => h.1)

variable {csid : Int}

/-- The reads that follow keep it so. -/
theorem simulates_readNbytesCycleAv (n : Nat) :
    Simulates (InStream own av csid) (Frame others av) (InStream own av csid)
      (readNbytesCycleAv n) fun _ => InStream own av csid :=
  simulates_readNbytesCycleOn Frame.refl (fun s _ => Frame.setBuffer (.inr hav) s _)
    (fun _ _ h => h.1.buffer_eq (.inr hav)) (fun _ _ bytes h => h.setBuffer _ bytes) n

variable (hown : own csid) (hc : ¬ others csid)
include hown hc

/-- The message header is read and stored alike in both states. -/
theorem simulates_readAudioVideoMessageHeader (fmt bhSize : Nat) :
    Simulates (InStream own av csid) (Frame others av) (InStream own av csid)
      (readAudioVideoMessageHeader fmt csid bhSize) fun _ => InStream own av csid := by
  have hupdate : ∀ f, Simulates (InStream own av csid) (Frame others av) (InStream own av csid)
      (updateHeader csid f) fun _ => InStream own av csid := simulates_updateHeader hown hc
  refine ⟨fun _ => InStream own av csid, simulates_readNbytesCycleAv hav _, fun r _ =>
    simulates_ite (fun _ _ _ h => h) fun _ => simulates_ite (fun _ => ?_) fun _ => ?_⟩
  · refine ⟨fun _ => InStream own av csid, simulates_gets Frame.refl
      (fun s t h => h.1.header csid hown) (fun _ _ h => h), fun m _ =>
        simulates_ite (fun _ _ _ h => h) fun _ =>
          ⟨fun _ => InStream own av csid, hupdate _, fun _ _ _ _ h => h⟩⟩
  refine ⟨fun _ => InStream own av csid, simulates_read Frame.refl
    (fun s t h => by rw [h.1.header_eq hown, h.1.buffer_eq (.inr hav)]) (fun _ _ _ h _ => h),
    fun m _ => ⟨fun _ => InStream own av csid, hupdate _, fun _ _ =>
      simulates_ite (fun _ => ?_) fun _ =>
        ⟨fun _ => InStream own av csid, hupdate _, fun _ _ _ _ h => h⟩⟩⟩
  refine ⟨fun _ => InStream own av csid, simulates_readNbytesCycleAv hav _, fun r _ =>
    simulates_ite (fun _ _ _ h => h) fun _ => ⟨fun _ => InStream own av csid,
      simulates_read Frame.refl (fun s t h => by rw [h.1.buffer_eq (.inr hav)])
        (fun _ _ _ h _ => h), fun ext _ => ?_⟩⟩
  exact ⟨fun _ => InStream own av csid, hupdate _, fun _ _ =>
    ⟨fun _ => InStream own av csid, hupdate _, fun _ _ _ _ h => h⟩⟩

/-- And so is the rest of the message, with its payload. -/
theorem simulates_recvAudioVideoRest (fmt bhSize : Nat) :
    Simulates (InStream own av csid) (Frame others av) (InStream own av csid)
      (recvAudioVideoRest fmt csid bhSize) fun _ => InStream own av csid := by
  refine ⟨fun _ => InStream own av csid,
    simulates_readAudioVideoMessageHeader hav hown hc fmt bhSize, fun r _ =>
      simulates_ite (fun _ _ _ h => h) fun _ => ?_⟩
  -- `curr_csid` is the chunk stream still
  refine ⟨fun csid' s t => csid' = csid ∧ InStream own av csid s t, simulates_gets Frame.refl
    (fun s t h => h.1.currCsid hav) (fun _ _ h => ⟨h.2, h⟩), fun csid' ⟨_, _, heq, _⟩ => ?_⟩
  subst heq
  refine Simulates.mono _ (show Simulates _ _ (InStream own av csid') _ _ from ?_)
    (fun _ _ h => h.2) fun _ _ _ h => h
  refine ⟨fun _ => InStream own av csid', simulates_lookup hown hc _, fun _ _ =>
    ⟨fun _ => InStream own av csid', ?_, fun rc _ =>
      simulates_ite (fun _ _ _ h => h) fun _ _ _ h => h⟩⟩
  exact simulates_dechunk Frame.refl (fun s _ => Frame.setBuffer (.inr hav) s _)
    (fun _ _ h => h.1.buffer_eq (.inr hav)) (fun _ _ bytes h => h.setBuffer _ bytes)
    (simulates_lookup hown hc _)
    (simulates_gets Frame.refl (fun s t h => by rw [h.1.client]) fun _ _ h => h)

end

end

end RtmpServer
