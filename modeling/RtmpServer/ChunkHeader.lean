import RtmpServer.IoSocket

/-!
# The chunk header readers

`read_basic_header` and `read_message_header` of the control path, and their
`audio_video` twins. The basic header readers are one text over two buffers;
the message header readers are not, and this file says what each leaves in
`csid_header`: `wp_readMessageHeader` and `wp_readAudioVideoMessageHeader`.

Two results about them follow. `timestamps_correct_iff`: the running timestamp
is the RTMP one exactly as long as every fmt 0 header carries timestamp 0,
because a fmt 0 header's timestamp is added to itself. `readers_agree_iff`:
when the two readers leave the same entry.

Mirroring notes:
- the control reader keeps timestamp, type and stream id in locals that are
  only logged; of these the model has the delta, which decides whether the
  extended timestamp is read.
- `mh_size_array` is indexed with a 2-bit `fmt`.
-/

namespace RtmpServer

open Coroutine Coroutine.Prog Endian

/-! ## Basic header -/

/-- The body of `read_basic_header` and `read_audio_video_basic_header`. The
result is the return value, `*fmt`, `*csid` and `*bh_size`; `store` is what
else an assignment to `*csid` does. -/
def readBasicHeaderOn (b : Buffer) (store : Int → Routine Unit) :
    Routine (Int × Nat × Int × Nat) := do
  let (rc, _) ← readNbytesCycleOn b 1
  if rc = -1 then
    return (-1, 0, 0, 1)
  let bh ← read fun s => (s.buffer b)[0]?
  let fmt := bh.toNat / 64 % 4
  let csid := bh.toNat % 64
  store csid
  if csid = 0 then
    let rc ← readNbytesOn b 2
    if rc = -1 then
      return (-1, fmt, csid, 1)
    let b1 ← read fun s => (s.buffer b)[1]?
    store (64 + schar b1)
    return (0, fmt, 64 + schar b1, 2)
  else if csid = 1 then
    let rc ← readNbytesOn b 3
    if rc = -1 then
      return (-1, fmt, csid, 1)
    let b1 ← read fun s => (s.buffer b)[1]?
    let b2 ← read fun s => (s.buffer b)[2]?
    store (64 + schar b1 + schar b2 * 256)
    return (0, fmt, 64 + schar b1 + schar b2 * 256, 3)
  else
    return (0, fmt, csid, 1)

/-- `IO_Message::read_basic_header`, which receives into the session's own buffer and stores
nothing else. -/
def readBasicHeader : Routine (Int × Nat × Int × Nat) :=
  readBasicHeaderOn .ioBuffer fun _ => .ret ()

/-- `IO_Message::read_audio_video_basic_header`, called with `curr_csid` for its `csid`, so
that every assignment to it is seen by all sessions. -/
def readAudioVideoBasicHeader : Routine (Int × Nat × Int × Nat) :=
  readBasicHeaderOn .audioVideoBuffer fun csid => modify fun s => s.setCurrCsid csid

/-- The `fmt` and the chunk stream that the bytes of a basic header name. -/
def basicHeader (p : Bytes) : Option (Nat × Int) := do
  let bh ← p[0]?
  let fmt := bh.toNat / 64 % 4
  if bh.toNat % 64 = 0 then
    let b1 ← p[1]?
    return (fmt, 64 + schar b1)
  else if bh.toNat % 64 = 1 then
    let b1 ← p[1]?
    let b2 ← p[2]?
    return (fmt, 64 + schar b1 + schar b2 * 256)
  else
    return (fmt, bh.toNat % 64)

/-- `*bh_size`, when as much of the basic header has been received; the first byte settles
it. -/
def basicSize : Bytes → Nat
  | [] => 1
  | first :: _ => if first.toNat % 64 = 0 then 2 else if first.toNat % 64 = 1 then 3 else 1

/-- A basic header that is complete stays what it is, whatever follows it. -/
theorem basicHeader_append {p : Bytes} {r : Nat × Int} (h : basicHeader p = some r) (y : Bytes) :
    basicHeader (p ++ y) = some r := by
  have hat : ∀ {i : Nat} {b : UInt8}, p[i]? = some b → (p ++ y)[i]? = some b := by
    intro i b hb
    rw [List.getElem?_append_left (List.getElem?_eq_some_iff.mp hb).1, hb]
  unfold basicHeader at h ⊢
  obtain ⟨bh, hbh, h⟩ := Option.bind_eq_some_iff.mp h
  rw [hat hbh, Option.bind_eq_bind, Option.bind_some]
  by_cases h0 : bh.toNat % 64 = 0
  · rw [if_pos h0] at h ⊢
    obtain ⟨b1, hb1, h⟩ := Option.bind_eq_some_iff.mp h
    rw [hat hb1]
    exact h
  · rw [if_neg h0] at h ⊢
    by_cases h1 : bh.toNat % 64 = 1
    · rw [if_pos h1] at h ⊢
      obtain ⟨b1, hb1, h⟩ := Option.bind_eq_some_iff.mp h
      obtain ⟨b2, hb2, h⟩ := Option.bind_eq_some_iff.mp h
      rw [hat hb1, hat hb2]
      exact h
    · rw [if_neg h1] at h ⊢
      exact h

/-- The `fmt` is two bits of the first byte. -/
theorem basicHeader_fmt_lt {p : Bytes} {r : Nat × Int} (h : basicHeader p = some r) : r.1 < 4 := by
  unfold basicHeader at h
  obtain ⟨bh, _, h⟩ := Option.bind_eq_some_iff.mp h
  have hlt : bh.toNat / 64 % 4 < 4 := Nat.mod_lt _ (by decide)
  by_cases h0 : bh.toNat % 64 = 0
  · rw [if_pos h0] at h
    obtain ⟨b1, _, h⟩ := Option.bind_eq_some_iff.mp h
    cases h
    exact hlt
  · rw [if_neg h0] at h
    by_cases h1 : bh.toNat % 64 = 1
    · rw [if_pos h1] at h
      obtain ⟨b1, _, h⟩ := Option.bind_eq_some_iff.mp h
      obtain ⟨b2, _, h⟩ := Option.bind_eq_some_iff.mp h
      cases h
      exact hlt
    · rw [if_neg h1] at h
      cases h
      exact hlt

/-- There is no basic header without a byte. -/
theorem basicHeader_ne_nil {p : Bytes} {r : Nat × Int} (h : basicHeader p = some r) : p ≠ [] := by
  intro hnil
  rw [hnil] at h
  cases h

/-- The size of a basic header is that of its first byte, whatever follows. -/
theorem basicSize_append {p : Bytes} (h : p ≠ []) (y : Bytes) :
    basicSize (p ++ y) = basicSize p := by
  cases p with
  | nil => exact absurd rfl h
  | cons first p => rfl

/-- How a basic header reader ends that has received `p`; `f csid` is what storing
`*csid` does to the state. -/
inductive BasicHeaderRead (b : Buffer) (f : Int → State → State) (s : State) :
    Bytes → Int × Nat × Int × Nat → State → Prop where
  | nothing : BasicHeaderRead b f s [] (-1, 0, 0, 1) s
  | cut {first : UInt8} {more : Bytes} : basicHeader (first :: more) = none →
    BasicHeaderRead b f s (first :: more) (-1, first.toNat / 64 % 4, first.toNat % 64, 1)
      (f (first.toNat % 64) (s.append b [first]))
  | whole {p : Bytes} {fmt : Nat} {csid : Int} : basicHeader p = some (fmt, csid) →
    p.length = basicSize p →
    BasicHeaderRead b f s p (0, fmt, csid, p.length) (f csid (s.append b p))

/-- A basic header reader, whatever the answers: what it has received is nothing, a header
that is cut off, or a whole one, and it ends accordingly. -/
theorem wlp_readBasicHeaderOn {ε : Type} {env : Env st ε} {took : ε → Bytes → ε → Prop} {s : State}
    {e : ε} {b : Buffer} {store : Int → Routine Unit} {f : Int → State → State}
    (hacc : Account env took)
    (hstore : ∀ {csid Q s e}, wlp env (store csid) Q s e ↔ Q () (f csid s) e)
    (hbuffer : ∀ csid s, (f csid s).buffer b = s.buffer b)
    (happend : ∀ csid s x, (f csid s).append b x = f csid (s.append b x))
    (hlast : ∀ c d s, f c (f d s) = f c s) (hempty : s.buffer b = []) :
    wlp env (readBasicHeaderOn b store) (fun r s' e' => ∃ p, took e p e' ∧
      BasicHeaderRead b f s p r s') s e := by
  unfold readBasicHeaderOn
  simp only [bind_eq, pure_eq, wlp_bind]
  refine wlp_mono (wlp_readNbytesCycleOn_received hacc) fun r s1 e1 hreceived => ?_
  obtain ⟨p, hp, h⟩ := hreceived
  rw [hempty, List.length_nil, Nat.sub_zero] at h
  rcases h with ⟨hrc, hs1, hlt⟩ | ⟨hr, hs1, hlen⟩
  · have hnil : p = [] := List.eq_nil_of_length_eq_zero (Nat.lt_one_iff.mp hlt)
    subst hs1 hnil
    rw [if_pos hrc, wlp_ret]
    exact ⟨[], hp, .nothing⟩
  obtain ⟨bh, hbh⟩ : ∃ bh, p = [bh] := List.length_eq_one_iff.mp hlen
  subst hr hs1 hbh
  have hbuf : (s.append b [bh]).buffer b = [bh] := by
    rw [State.buffer_append, hempty, List.nil_append]
  rw [if_neg (by simp), wlp_bind, wlp_read, hbuf]
  intro c hc
  cases hc
  rw [wlp_bind, hstore]
  -- the two longer forms read once more
  have hmore : ∀ {n : Nat} {Q : Int → State → ε → Prop}, (∀ rc s' e', (∃ more,
      took e (bh :: more) e' ∧ (rc = -1 ∧ s' = f (bh.toNat % 64) (s.append b [bh]) ∧
          more.length < n - 1 ∨
        rc = 0 ∧ s' = f (bh.toNat % 64) (s.append b (bh :: more)) ∧ more.length = n - 1)) →
        Q rc s' e') →
      wlp env (readNbytesOn b n) Q (f (bh.toNat % 64) (s.append b [bh])) e1 := by
    intro n Q hQ
    refine wlp_mono (wlp_readNbytesOn_received hacc) fun rc s2 e2 hreceived => hQ rc s2 e2 ?_
    obtain ⟨more, hm, h⟩ := hreceived
    rw [hbuffer, hbuf, List.length_singleton, happend, State.append_append] at h
    exact ⟨more, hacc.append hp hm, h⟩
  have hread : ∀ more, (f (bh.toNat % 64) (s.append b (bh :: more))).buffer b = bh :: more := by
    intro more
    rw [hbuffer, State.buffer_append, hempty, List.nil_append]
  by_cases h0 : bh.toNat % 64 = 0
  · have h0' : (bh.toNat : Int) % 64 = 0 := by omega
    rw [if_pos h0', wlp_bind]
    refine hmore fun rc s2 e2 hreceived => ?_
    obtain ⟨more, htook, h⟩ := hreceived
    rcases h with ⟨hrc, hs2, hlt⟩ | ⟨hrc, hs2, hlen2⟩
    · have hnil : more = [] := List.eq_nil_of_length_eq_zero (by omega)
      subst hs2 hnil
      rw [if_pos hrc, wlp_ret]
      exact ⟨[bh], htook, .cut (by simp [basicHeader, h0])⟩
    · obtain ⟨b1, hb1⟩ : ∃ b1, more = [b1] := List.length_eq_one_iff.mp hlen2
      subst hs2 hb1
      rw [if_neg (by rw [hrc]; decide), wlp_bind, wlp_read, hread]
      intro c hc
      cases hc
      rw [wlp_bind, hstore, wlp_ret, hlast]
      refine ⟨[bh, b1], htook, .whole ?_ ?_⟩
      · simp [basicHeader, h0]
      · simp [basicSize, h0]
  by_cases h1 : bh.toNat % 64 = 1
  · have h0' : ¬ (bh.toNat : Int) % 64 = 0 := by omega
    have h1' : (bh.toNat : Int) % 64 = 1 := by omega
    rw [if_neg h0', if_pos h1', wlp_bind]
    refine hmore fun rc s2 e2 hreceived => ?_
    obtain ⟨more, htook, h⟩ := hreceived
    rcases h with ⟨hrc, hs2, hlt⟩ | ⟨hrc, hs2, hlen2⟩
    · subst hs2
      rw [if_pos hrc, wlp_ret]
      refine ⟨bh :: more, htook, .cut ?_⟩
      have hlast : more[1]? = none := List.getElem?_eq_none (by omega)
      cases hb1 : more[0]? with
      | none => simp [basicHeader, h1, hb1]
      | some b1 => simp [basicHeader, h1, hb1, hlast]
    · obtain ⟨b1, b2, hb⟩ : ∃ b1 b2, more = [b1, b2] := by
        obtain ⟨b1, tail, rfl⟩ := List.exists_cons_of_length_eq_add_one hlen2
        obtain ⟨b2, rfl⟩ := List.length_eq_one_iff.mp (Nat.succ.inj hlen2)
        exact ⟨b1, b2, rfl⟩
      subst hs2 hb
      rw [if_neg (by rw [hrc]; decide), wlp_bind, wlp_read, hread]
      intro c hc
      cases hc
      rw [wlp_bind, wlp_read, hread]
      intro c hc
      cases hc
      rw [wlp_bind, hstore, wlp_ret, hlast]
      refine ⟨[bh, b1, b2], htook, .whole ?_ ?_⟩
      · simp [basicHeader, h1]
      · simp [basicSize, h1]
  · have h0' : ¬ (bh.toNat : Int) % 64 = 0 := by omega
    have h1' : ¬ (bh.toNat : Int) % 64 = 1 := by omega
    rw [if_neg h0', if_neg h1', wlp_ret]
    refine ⟨[bh], hp, .whole ?_ ?_⟩
    · simp [basicHeader, h0, h1]
    · simp [basicSize, h0, h1]

section

variable {ε : Type} {env : Env st ε} {took : ε → Bytes → ε → Prop} {s : State} {e : ε}

/-- The control reader's basic header, with an empty buffer to begin with. -/
theorem wlp_readBasicHeader (hacc : Account env took) (hempty : s.buffer .ioBuffer = []) :
    wlp env readBasicHeader (fun r s' e' => ∃ p, took e p e' ∧
      BasicHeaderRead .ioBuffer (fun _ s => s) s p r s') s e :=
  wlp_readBasicHeaderOn hacc wlp_ret (fun _ _ => rfl) (fun _ _ _ => rfl) (fun _ _ _ => rfl) hempty

/-- The audio/video reader's basic header, which in addition has stored its chunk stream in
`curr_csid`. -/
theorem wlp_readAudioVideoBasicHeader (hacc : Account env took)
    (hempty : s.buffer .audioVideoBuffer = []) :
    wlp env readAudioVideoBasicHeader (fun r s' e' => ∃ p, took e p e' ∧
      BasicHeaderRead .audioVideoBuffer (fun csid s => s.setCurrCsid csid) s p r s') s e :=
  wlp_readBasicHeaderOn hacc wlp_modify (fun csid s => s.setCurrCsid_buffer csid _)
    (fun csid s x => (s.append_setCurrCsid _ x csid).symm)
    (fun c d s => s.setCurrCsid_setCurrCsid d c) hempty

end

/-! ## Message header -/

/-- `mh_size_array`, the sizes of the four message headers without an extended timestamp. -/
def mhSizeArray : Nat → Nat
  | 0 => 11
  | 1 => 7
  | 2 => 3
  | _ => 0

/-- `n` bytes of a buffer from position `k`, if they are there. The code reads them without
a look at the end. -/
def bytesAt (k n : Nat) (buffer : Bytes) : Option Bytes :=
  if k + n ≤ buffer.length then some ((buffer.drop k).take n) else none

/-- The local `timestamp_delta` of `read_message_header`: the 3-byte field of a
fmt 1 or 2 header, else its initial 0. -/
def controlDelta (fmt bhSize : Nat) : Routine Nat :=
  if fmt = 1 ∨ fmt = 2 then do
    let bytes ← read fun s => bytesAt bhSize 3 (s.buffer .ioBuffer)
    return ofBeBytes bytes
  else return 0

/-- Its `message_length`, which a fmt 0 or 1 header stores in `csid_header` before the
extended timestamp is read. -/
def storeMessageLength (fmt : Nat) (csid : Int) (bhSize : Nat) : Routine Unit :=
  if fmt ≤ 1 then do
    let bytes ← read fun s => bytesAt (bhSize + 3) 3 (s.buffer .ioBuffer)
    modify fun s =>
      s.setHeader csid { s.globals.header csid with messageLength := ofBeBytes bytes }
  else return ()

/-- `IO_Message::read_message_header`: the return value and `*mh_size`. Of the fields it
keeps the message length alone. -/
def readMessageHeader (fmt : Nat) (csid : Int) (bhSize : Nat) : Routine (Int × Nat) := do
  let mhSize := mhSizeArray fmt
  let (rc, _) ← readNbytesCycle (bhSize + mhSize)
  if rc = -1 then
    return (-1, mhSize)
  let timestampDelta ← controlDelta fmt bhSize
  storeMessageLength fmt csid bhSize
  if timestampDelta = 0xFFFFFF then
    let (rc, _) ← readNbytesCycle (bhSize + mhSize + 4)
    if rc = -1 then
      return (-1, mhSize)
    return (0, mhSize + 4)
  return (0, mhSize)

/-- The cut of a delta that was read from the 3-byte field, as the code makes it after each
of them. -/
def clampDelta (timestampDelta : BitVec 32) : BitVec 32 :=
  if 0xFFFFFF ≤ timestampDelta.toInt then 0xFFFFFF else timestampDelta

namespace MessageHeader

/-- `timestamp += timestamp_delta`, modulo 2^32. -/
def addDelta (h : MessageHeader) : MessageHeader :=
  { h with timestamp := h.timestamp + h.timestampDelta }

/-- What the header bytes `p` of a fmt 0, 1 or 2 header put into an entry,
before the extended timestamp is looked at. -/
def poke (fmt : Nat) (p : Bytes) (h : MessageHeader) : Option MessageHeader := do
  let time := BitVec.ofNat 32 (ofBeBytes (← bytesAt 0 3 p))
  let h :=
    if fmt = 0 then { h with timestamp := time, timestampDelta := time }
    else { h with timestampDelta := clampDelta time }
  if fmt ≤ 1 then
    let messageLength ← bytesAt 3 3 p
    let messageType ← p[6]?
    let h := { h with messageLength := ofBeBytes messageLength, messageType }
    if fmt < 1 then
      return { h with streamId := BitVec.ofNat 32 (ofLeBytes (← bytesAt 7 4 p)) }
    else return h
  else return h

end MessageHeader

/-- `csid_header[csid] = f(csid_header[csid])`, with the entry that is there or the default
one. -/
def updateHeader (csid : Int) (f : MessageHeader → MessageHeader) : Routine Unit :=
  modify fun s => s.setHeader csid (f (s.globals.header csid))

/-- The body of `IO_Message::read_audio_video_message_header`, with a parameter for
its last statement: the return value and `*mh_size`. -/
def readAudioVideoMessageHeaderWith (addDelta : Routine Unit) (fmt : Nat) (csid : Int)
    (bhSize : Nat) : Routine (Int × Nat) := do
  let mhSize := mhSizeArray fmt
  let (rc, _) ← readNbytesCycleAv (bhSize + mhSize)
  if rc = -1 then
    return (-1, mhSize)
  if fmt = 3 then
    if (← gets fun s => s.globals.csidHeader csid) = none then
      return (-1, mhSize)
    addDelta
    return (0, mhSize)
  let h ← read fun s =>
    (s.globals.header csid).poke fmt ((s.buffer .audioVideoBuffer).drop bhSize)
  updateHeader csid fun _ => h
  if h.timestampDelta = 0xFFFFFF then
    let (rc, _) ← readNbytesCycleAv (bhSize + mhSize + 4)
    if rc = -1 then
      return (-1, mhSize)
    let ext ← read fun s => bytesAt (bhSize + mhSize) 4 (s.buffer .audioVideoBuffer)
    updateHeader csid fun h => { h with timestampDelta := BitVec.ofNat 32 (ofBeBytes ext) }
    addDelta
    return (0, mhSize + 4)
  addDelta
  return (0, mhSize)

/-- `IO_Message::read_audio_video_message_header`: it ends by adding the delta to the
timestamp. -/
def readAudioVideoMessageHeader (fmt : Nat) (csid : Int) (bhSize : Nat) : Routine (Int × Nat) :=
  readAudioVideoMessageHeaderWith (updateHeader csid MessageHeader.addDelta) fmt csid bhSize

/-! ## Message headers on the wire -/

/-- A 3-byte timestamp field, with the 4 bytes that follow the header when the
field is `0xFFFFFF`. -/
structure Stamp where
  field : BitVec 24
  extended : BitVec 32
  deriving DecidableEq

namespace Stamp

/-- The three bytes of the field. -/
def fieldBytes (t : Stamp) : Bytes := beBytes 3 t.field.toNat

/-- The four bytes of the extension, if the field says that there is one. -/
def extendedBytes (t : Stamp) : Bytes :=
  if t.field = 0xFFFFFF then beBytes 4 t.extended.toNat else []

/-- The time that the field and the extension carry: the extension, where there is one, in
the place of the field. -/
def value (t : Stamp) : BitVec 32 := if t.field = 0xFFFFFF then t.extended else t.field.setWidth 32

end Stamp

/-- The four forms of a message header, each with the fields that it has on the wire. -/
inductive ChunkHeader where
  | fmt0 (t : Stamp) (length : BitVec 24) (type : UInt8) (streamId : BitVec 32)
  | fmt1 (t : Stamp) (length : BitVec 24) (type : UInt8)
  | fmt2 (t : Stamp)
  | fmt3
  deriving DecidableEq

namespace ChunkHeader

/-- The two bits by which the basic header tells the forms apart. -/
def fmt : ChunkHeader → Nat
  | fmt0 .. => 0
  | fmt1 .. => 1
  | fmt2 .. => 2
  | fmt3 => 3

/-- The `mh_size_array[fmt]` bytes of a header, the stream id being the only field in
little-endian order. -/
def fields : ChunkHeader → Bytes
  | fmt0 t length type streamId =>
    t.fieldBytes ++ (beBytes 3 length.toNat ++ (type :: leBytes 4 streamId.toNat))
  | fmt1 t length type => t.fieldBytes ++ (beBytes 3 length.toNat ++ [type])
  | fmt2 t => t.fieldBytes
  | fmt3 => []

/-- The extended timestamp that follows them. A fmt 3 header has none here, and neither
reader looks for one. -/
def extendedBytes : ChunkHeader → Bytes
  | fmt0 t _ _ _ => t.extendedBytes
  | fmt1 t _ _ => t.extendedBytes
  | fmt2 t => t.extendedBytes
  | fmt3 => []

/-- The whole message header, as it stands behind the basic header. -/
def encode (h : ChunkHeader) : Bytes := h.fields ++ h.extendedBytes

/-- The control reader looks for no extended timestamp behind a fmt 0 header. -/
def controlExtended : ChunkHeader → Bytes
  | fmt0 .. => []
  | h => h.extendedBytes

/-- The bytes that the control reader takes of a header. -/
def controlBytes (h : ChunkHeader) : Bytes := h.fields ++ h.controlExtended

/-- What the control reader stores: the message length of a header that has one, and nothing
else. -/
def control (csid : Int) : ChunkHeader → State → State
  | fmt0 _ length _ _, s | fmt1 _ length _, s =>
    s.setHeader csid { s.globals.header csid with messageLength := length.toNat }
  | _, s => s

/-- What the audio/video reader makes of an entry before it looks for the extension. -/
def poked : ChunkHeader → MessageHeader → MessageHeader
  | fmt0 t length type streamId, m =>
    { m with timestamp := t.field.setWidth 32, timestampDelta := t.field.setWidth 32,
             messageLength := length.toNat, messageType := type, streamId }
  | fmt1 t length type, m =>
    { m with timestampDelta := t.field.setWidth 32,
             messageLength := length.toNat, messageType := type }
  | fmt2 t, m => { m with timestampDelta := t.field.setWidth 32 }
  | fmt3, m => m

/-- What the audio/video reader makes of an entry in the end: a fmt 0 header counts its own
time twice. -/
def received : ChunkHeader → MessageHeader → MessageHeader
  | fmt0 t length type streamId, m =>
    { m with timestamp := t.field.setWidth 32 + t.value, timestampDelta := t.value,
             messageLength := length.toNat, messageType := type, streamId }
  | fmt1 t length type, m =>
    { m with timestamp := m.timestamp + t.value, timestampDelta := t.value,
             messageLength := length.toNat, messageType := type }
  | fmt2 t, m => { m with timestamp := m.timestamp + t.value, timestampDelta := t.value }
  | fmt3, m => m.addDelta

/-- What the entry holds before the addition, which is the last thing that the reader does. -/
def stored : ChunkHeader → MessageHeader → MessageHeader
  | fmt0 t length type streamId, m =>
    { m with timestamp := t.field.setWidth 32, timestampDelta := t.value,
             messageLength := length.toNat, messageType := type, streamId }
  | fmt1 t length type, m =>
    { m with timestampDelta := t.value, messageLength := length.toNat, messageType := type }
  | fmt2 t, m => { m with timestampDelta := t.value }
  | fmt3, m => m

/-- The addition is all that is left to do from there. -/
theorem addDelta_stored (h : ChunkHeader) (m : MessageHeader) :
    (h.stored m).addDelta = h.received m := by
  cases h <;> rfl

/-- There are four forms. -/
theorem fmt_lt (h : ChunkHeader) : h.fmt < 4 := by
  cases h <;> simp [fmt]

/-- The fields take as many bytes as `mh_size_array` says. -/
@[simp] theorem fields_length (h : ChunkHeader) : h.fields.length = mhSizeArray h.fmt := by
  cases h <;> simp [fields, fmt, mhSizeArray, Stamp.fieldBytes]

/-- The header of the form `fmt` with these fields, as far as the form has them. -/
def ofFmt (fmt : Nat) (t : Stamp) (length : BitVec 24) (type : UInt8)
    (streamId : BitVec 32) : ChunkHeader :=
  match fmt with
  | 0 => .fmt0 t length type streamId
  | 1 => .fmt1 t length type
  | 2 => .fmt2 t
  | _ => .fmt3

/-- Its form is the one that was asked for. -/
theorem ofFmt_fmt {fmt : Nat} {t : Stamp} {length : BitVec 24} {type : UInt8}
    {streamId : BitVec 32} (hfmt : fmt < 4) : (ofFmt fmt t length type streamId).fmt = fmt := by
  rcases (by omega : fmt = 0 ∨ fmt = 1 ∨ fmt = 2 ∨ fmt = 3) with h | h | h | h
  · rw [h]; rfl
  · rw [h]; rfl
  · rw [h]; rfl
  · rw [h]; rfl

/-- Its extension is that of the timestamp, in the forms that have one. -/
theorem ofFmt_extendedBytes {fmt : Nat} {t : Stamp} {length : BitVec 24} {type : UInt8}
    {streamId : BitVec 32} (hfmt : fmt ≤ 2) :
    (ofFmt fmt t length type streamId).extendedBytes = t.extendedBytes := by
  rcases (by omega : fmt = 0 ∨ fmt = 1 ∨ fmt = 2) with h | h | h
  · rw [h]; rfl
  · rw [h]; rfl
  · rw [h]; rfl

/-- What the control reader takes for an extension, in the forms that have one: nothing
behind fmt 0. -/
theorem ofFmt_controlExtended {fmt : Nat} {t : Stamp} {length : BitVec 24}
    {type : UInt8} {streamId : BitVec 32} (hfmt : fmt ≤ 2) :
    (ofFmt fmt t length type streamId).controlExtended
      = if fmt = 0 then [] else t.extendedBytes := by
  rcases (by omega : fmt = 0 ∨ fmt = 1 ∨ fmt = 2) with h | h | h
  · rw [h]; rfl
  · rw [h]; rfl
  · rw [h]; rfl

end ChunkHeader

/-! ## What the readers do with them -/

/-- A field of three bytes is read back as the number it was. -/
theorem toNat_ofBeBytes_field (t : BitVec 24) : ofBeBytes (beBytes 3 t.toNat) = t.toNat := by
  rw [ofBeBytes_beBytes]
  exact Nat.mod_eq_of_lt t.isLt

/-- So are the four bytes of an extension. -/
theorem ofNat_ofBeBytes_extended (t : BitVec 32) :
    BitVec.ofNat 32 (ofBeBytes (beBytes 4 t.toNat)) = t := by
  rw [ofBeBytes_beBytes, Nat.mod_eq_of_lt (show t.toNat < 256 ^ 4 from t.isLt)]
  simp

/-- And the four bytes of a stream id, which are little-endian. -/
theorem ofNat_ofLeBytes_streamId (t : BitVec 32) :
    BitVec.ofNat 32 (ofLeBytes (leBytes 4 t.toNat)) = t := by
  rw [ofLeBytes_leBytes, Nat.mod_eq_of_lt (show t.toNat < 256 ^ 4 from t.isLt)]
  simp

/-- The escape value of the field, as the number that the control reader compares. -/
theorem field_extended_iff (t : BitVec 24) : t.toNat = 0xFFFFFF ↔ t = 0xFFFFFF := by
  rw [← BitVec.toNat_inj]
  rfl

/-- The escape value of the field, in the 32 bits that the audio/video reader compares. -/
theorem setWidth_extended_iff (t : BitVec 24) : t.setWidth 32 = 0xFFFFFF#32 ↔ t = 0xFFFFFF := by
  have h : t.toNat < 2 ^ 24 := t.isLt
  rw [← field_extended_iff, ← BitVec.toNat_inj, BitVec.toNat_setWidth]
  show t.toNat % 2 ^ 32 = 0xFFFFFF ↔ _
  omega

/-- Three bytes are never above `0xFFFFFF`, so the cut changes nothing. -/
theorem clampDelta_field (t : BitVec 24) : clampDelta (t.setWidth 32) = t.setWidth 32 := by
  have hlt : t.toNat < 2 ^ 24 := t.isLt
  have hnat : (t.setWidth 32).toNat = t.toNat := by
    rw [BitVec.toNat_setWidth, Nat.mod_eq_of_lt (by omega)]
  have hint : (t.setWidth 32).toInt = t.toNat := by
    rw [BitVec.toInt_eq_toNat_of_lt (by omega), hnat]
  unfold clampDelta
  by_cases h : 0xFFFFFF ≤ (t.setWidth 32).toInt
  · have ht : t = 0xFFFFFF := (field_extended_iff t).mp (by omega)
    rw [if_pos h, ht]
    rfl
  · rw [if_neg h]

/-- What the reader puts into an entry is what the header's fields say. -/
theorem poke_fields (h : ChunkHeader) (hfmt : h.fmt ≠ 3) (m : MessageHeader) :
    m.poke h.fmt h.fields = some (h.poked m) := by
  cases h with
  | fmt0 t length type streamId =>
    have h1 : bytesAt 0 3 (ChunkHeader.fmt0 t length type streamId).fields =
        some t.fieldBytes := rfl
    have h2 : bytesAt 3 3 (ChunkHeader.fmt0 t length type streamId).fields
        = some (beBytes 3 length.toNat) := rfl
    have h3 : (ChunkHeader.fmt0 t length type streamId).fields[6]? = some type := rfl
    have h4 : bytesAt 7 4 (ChunkHeader.fmt0 t length type streamId).fields
        = some (leBytes 4 streamId.toNat) := rfl
    simp [MessageHeader.poke, h1, h2, h3, h4, ChunkHeader.poked, ChunkHeader.fmt, Stamp.fieldBytes,
      toNat_ofBeBytes_field, ofNat_ofLeBytes_streamId]
  | fmt1 t length type =>
    have h1 : bytesAt 0 3 (ChunkHeader.fmt1 t length type).fields = some t.fieldBytes := rfl
    have h2 : bytesAt 3 3 (ChunkHeader.fmt1 t length type).fields
        = some (beBytes 3 length.toNat) := rfl
    have h3 : (ChunkHeader.fmt1 t length type).fields[6]? = some type := rfl
    simp [MessageHeader.poke, h1, h2, h3, ChunkHeader.poked, ChunkHeader.fmt, Stamp.fieldBytes,
      toNat_ofBeBytes_field, clampDelta_field]
  | fmt2 t =>
    have h1 : bytesAt 0 3 (ChunkHeader.fmt2 t).fields = some t.fieldBytes := rfl
    simp [MessageHeader.poke, h1, ChunkHeader.poked, ChunkHeader.fmt, Stamp.fieldBytes,
      toNat_ofBeBytes_field, clampDelta_field]
  | fmt3 => exact absurd rfl hfmt

/-- The bytes at a position are those that were put there. -/
theorem bytesAt_append {k n : Nat} {pre x post : Bytes} (hk : pre.length = k)
    (hn : x.length = n) : bytesAt k n (pre ++ (x ++ post)) = some x := by
  have h : k + n ≤ (pre ++ (x ++ post)).length := by
    simp only [List.length_append]
    omega
  rw [bytesAt, if_pos h, ← hk, ← hn, List.drop_left, List.take_left]

section
variable {s : State} {csid : Int}

/-- What `controlDelta` finds behind the basic header: the field of a fmt 1 or 2 header. -/
def ChunkHeader.controlDelta : ChunkHeader → Nat
  | fmt1 t _ _ | fmt2 t => t.field.toNat
  | _ => 0

/-- With the header's fields in the buffer, the control reader finds that delta. -/
theorem wp_controlDelta {ε : Type} {env : Env st ε} {e : ε} {Q : Nat → State → ε → Prop}
    (h : ChunkHeader) {pre : Bytes} (hbuf : s.buffer .ioBuffer = pre ++ h.fields) :
    wp env (controlDelta h.fmt pre.length) Q s e ↔ Q h.controlDelta s e := by
  cases h with
  | fmt0 t length type streamId => simp [controlDelta, ChunkHeader.fmt, ChunkHeader.controlDelta]
  | fmt1 t length type =>
    have hb : bytesAt pre.length 3 (s.buffer .ioBuffer) = some (beBytes 3 t.field.toNat) := by
      rw [hbuf]
      exact bytesAt_append rfl rfl
    simp [controlDelta, ChunkHeader.fmt, ChunkHeader.controlDelta, hb, toNat_ofBeBytes_field]
  | fmt2 t =>
    have hb : bytesAt pre.length 3 (s.buffer .ioBuffer) = some (beBytes 3 t.field.toNat) := by
      rw [hbuf, ← List.append_nil (ChunkHeader.fields _)]
      exact bytesAt_append rfl rfl
    simp [controlDelta, ChunkHeader.fmt, ChunkHeader.controlDelta, hb, toNat_ofBeBytes_field]
  | fmt3 => simp [controlDelta, ChunkHeader.fmt, ChunkHeader.controlDelta]

/-- And with the header's fields in the buffer it stores that message length. -/
theorem wp_storeMessageLength {ε : Type} {env : Env st ε} {e : ε} {Q : Unit → State → ε → Prop}
    (h : ChunkHeader) {pre : Bytes} (hbuf : s.buffer .ioBuffer = pre ++ h.fields) :
    wp env (storeMessageLength h.fmt csid pre.length) Q s e ↔ Q () (h.control csid s) e := by
  cases h with
  | fmt0 t length type streamId =>
    have hb : bytesAt (pre.length + 3) 3 (s.buffer .ioBuffer) = some (beBytes 3 length.toNat) := by
      rw [hbuf, ChunkHeader.fields, ← List.append_assoc]
      exact bytesAt_append List.length_append rfl
    simp [storeMessageLength, ChunkHeader.fmt, ChunkHeader.control, hb, toNat_ofBeBytes_field]
  | fmt1 t length type =>
    have hb : bytesAt (pre.length + 3) 3 (s.buffer .ioBuffer) = some (beBytes 3 length.toNat) := by
      rw [hbuf, ChunkHeader.fields, ← List.append_assoc]
      exact bytesAt_append List.length_append rfl
    simp [storeMessageLength, ChunkHeader.fmt, ChunkHeader.control, hb, toNat_ofBeBytes_field]
  | fmt2 t => simp [storeMessageLength, ChunkHeader.fmt, ChunkHeader.control]
  | fmt3 => simp [storeMessageLength, ChunkHeader.fmt, ChunkHeader.control]

variable {Q : Int × Nat → State → Stream → Prop} {rest out : Bytes}

/-- What is stored in the table and what is appended to a buffer do not get in each other's
way. -/
theorem control_append (h : ChunkHeader) (b : Buffer) (bytes : Bytes) :
    h.control csid (s.append b bytes) = (h.control csid s).append b bytes := by
  cases h <;> simp [ChunkHeader.control]

/-- The buffers are not touched by what is stored in the table. -/
theorem control_buffer (h : ChunkHeader) (b : Buffer) :
    (h.control csid s).buffer b = s.buffer b := by
  cases h <;> simp [ChunkHeader.control]

/-- An extended timestamp is there exactly when the delta that the control reader has seen
says so. -/
theorem controlExtended_length (h : ChunkHeader) :
    h.controlExtended.length = if h.controlDelta = 0xFFFFFF then 4 else 0 := by
  cases h with
  | fmt0 t length type streamId => simp [ChunkHeader.controlExtended, ChunkHeader.controlDelta]
  | fmt1 t length type =>
    simp only [ChunkHeader.controlExtended, ChunkHeader.extendedBytes, Stamp.extendedBytes,
      ChunkHeader.controlDelta, field_extended_iff]
    split <;> simp
  | fmt2 t =>
    simp only [ChunkHeader.controlExtended, ChunkHeader.extendedBytes, Stamp.extendedBytes,
      ChunkHeader.controlDelta, field_extended_iff]
    split <;> simp
  | fmt3 => simp [ChunkHeader.controlExtended, ChunkHeader.extendedBytes, ChunkHeader.controlDelta]

/-- The control reader on a stream that begins with the header: it takes its bytes of it,
stores the message length, and is behind them. -/
theorem wp_readMessageHeader (h : ChunkHeader) :
    wp streamEnv (readMessageHeader h.fmt csid (s.buffer .ioBuffer).length) Q s
        ⟨h.controlBytes ++ rest, out⟩ ↔
      Q (0, h.controlBytes.length) ((h.control csid s).append .ioBuffer h.controlBytes)
        ⟨rest, out⟩ := by
  have hlen := controlExtended_length h
  simp only [readMessageHeader, bind_eq, pure_eq, wp_bind]
  rw [ChunkHeader.controlBytes, List.append_assoc, readNbytesCycle,
    wp_readNbytesCycleOn_append (by rw [ChunkHeader.fields_length])]
  rw [if_neg (by simp), wp_bind, wp_controlDelta h (State.buffer_append s _ _), wp_bind,
    wp_storeMessageLength h (State.buffer_append s _ _), control_append]
  by_cases hext : h.controlDelta = 0xFFFFFF
  · rw [if_pos hext] at hlen ⊢
    rw [wp_bind, wp_readNbytesCycleOn_append (by simp [hlen, control_buffer])]
    simp [hlen]
  · rw [if_neg hext] at hlen ⊢
    simp [List.eq_nil_of_length_eq_zero hlen]

/-- The audio/video reader asks the delta it has just stored, and finds an extension exactly
where the header has one. -/
theorem extendedBytes_length (h : ChunkHeader) (hfmt : h.fmt ≠ 3) (m : MessageHeader) :
    h.extendedBytes.length = if (h.poked m).timestampDelta = 0xFFFFFF then 4 else 0 := by
  have ht : ∀ t : Stamp, t.extendedBytes.length
      = if t.field.setWidth 32 = 0xFFFFFF#32 then 4 else 0 := by
    intro t
    simp only [Stamp.extendedBytes, setWidth_extended_iff]
    split <;> simp
  cases h with
  | fmt0 t length type streamId => exact ht t
  | fmt1 t length type => exact ht t
  | fmt2 t => exact ht t
  | fmt3 => exact absurd rfl hfmt

/-- With the extension, or the field where there is none, the delta is complete. -/
theorem stored_of_extended (h : ChunkHeader) (hfmt : h.fmt ≠ 3) (m : MessageHeader)
    (hext : (h.poked m).timestampDelta = 0xFFFFFF) :
    { h.poked m with timestampDelta := BitVec.ofNat 32 (ofBeBytes h.extendedBytes) }
      = h.stored m := by
  have ht : ∀ t : Stamp, t.field.setWidth 32 = 0xFFFFFF#32 →
      BitVec.ofNat 32 (ofBeBytes t.extendedBytes) = t.value := by
    intro t h
    rw [setWidth_extended_iff] at h
    rw [Stamp.extendedBytes, if_pos h, Stamp.value, if_pos h, ofNat_ofBeBytes_extended]
  cases h with
  | fmt0 t length type streamId =>
    simp [ChunkHeader.extendedBytes, ht t hext, ChunkHeader.stored, ChunkHeader.poked]
  | fmt1 t length type =>
    simp [ChunkHeader.extendedBytes, ht t hext, ChunkHeader.stored, ChunkHeader.poked]
  | fmt2 t =>
    simp [ChunkHeader.extendedBytes, ht t hext, ChunkHeader.stored, ChunkHeader.poked]
  | fmt3 => exact absurd rfl hfmt

/-- Without an extension, the field already is the whole delta. -/
theorem stored_of_field (h : ChunkHeader) (hfmt : h.fmt ≠ 3) (m : MessageHeader)
    (hext : (h.poked m).timestampDelta ≠ 0xFFFFFF) : h.poked m = h.stored m := by
  have ht : ∀ t : Stamp, t.field.setWidth 32 ≠ 0xFFFFFF#32 → t.field.setWidth 32 = t.value := by
    intro t h
    rw [Ne, setWidth_extended_iff] at h
    rw [Stamp.value, if_neg h]
  cases h with
  | fmt0 t length type streamId => simp [ht t hext, ChunkHeader.stored, ChunkHeader.poked]
  | fmt1 t length type => simp [ht t hext, ChunkHeader.stored, ChunkHeader.poked]
  | fmt2 t => simp [ht t hext, ChunkHeader.stored, ChunkHeader.poked]
  | fmt3 => exact absurd rfl hfmt

/-- With the extension in the entry, what remains is the addition. -/
theorem received_of_extended (h : ChunkHeader) (hfmt : h.fmt ≠ 3) (m : MessageHeader)
    (hext : (h.poked m).timestampDelta = 0xFFFFFF) :
    ({ h.poked m with
      timestampDelta := BitVec.ofNat 32 (ofBeBytes h.extendedBytes) }).addDelta = h.received m := by
  rw [stored_of_extended h hfmt m hext, h.addDelta_stored]

/-- Without one, what remains is the addition, too. -/
theorem received_of_field (h : ChunkHeader) (hfmt : h.fmt ≠ 3) (m : MessageHeader)
    (hext : (h.poked m).timestampDelta ≠ 0xFFFFFF) : (h.poked m).addDelta = h.received m := by
  rw [stored_of_field h hfmt m hext, h.addDelta_stored]

/-- The reader takes the whole header, if it comes through the addition: `ok` is
what that asks of the entry. -/
theorem wp_readAudioVideoMessageHeaderWith {addDelta : Routine Unit} (ok : MessageHeader → Prop)
    (hadd : ∀ {Q : Unit → State → Stream → Prop} {s : State} {e : Stream},
      wp streamEnv addDelta Q s e ↔ ok (s.globals.header csid) ∧
        Q () (s.setHeader csid (s.globals.header csid).addDelta) e)
    (h : ChunkHeader) (hentry : h.fmt = 3 → s.globals.csidHeader csid ≠ none) :
    wp streamEnv (readAudioVideoMessageHeaderWith addDelta h.fmt csid
        (s.buffer .audioVideoBuffer).length) Q s ⟨h.encode ++ rest, out⟩ ↔
      ok (h.stored (s.globals.header csid)) ∧ Q (0, h.encode.length)
        ((s.setHeader csid (h.received (s.globals.header csid))).append .audioVideoBuffer h.encode)
        ⟨rest, out⟩ := by
  simp only [readAudioVideoMessageHeaderWith, updateHeader, bind_eq, pure_eq, wp_bind]
  rw [ChunkHeader.encode, List.append_assoc, readNbytesCycleAv,
    wp_readNbytesCycleOn_append (by rw [ChunkHeader.fields_length])]
  rw [if_neg (by simp)]
  by_cases hfmt : h.fmt = 3
  · have h3 : h = .fmt3 := by
      cases h with
      | fmt3 => rfl
      | _ => simp [ChunkHeader.fmt] at hfmt
    have hsome := hentry hfmt
    subst h3
    simp [ChunkHeader.fmt, mhSizeArray, hsome, ChunkHeader.fields, ChunkHeader.extendedBytes,
      ChunkHeader.received, ChunkHeader.stored, hadd]
  · have hlen := extendedBytes_length h hfmt (s.globals.header csid)
    have hread : (s.globals.header csid).poke h.fmt
        (((s.append .audioVideoBuffer h.fields).buffer .audioVideoBuffer).drop
          (s.buffer .audioVideoBuffer).length) = some (h.poked (s.globals.header csid)) := by
      rw [State.buffer_append, List.drop_left, poke_fields h hfmt]
    rw [if_neg hfmt, wp_bind, wp_read, ← h.addDelta_stored]
    simp only [State.append_header, hread, Option.some.injEq, exists_eq_left', wp_bind, wp_modify]
    by_cases hext : (h.poked (s.globals.header csid)).timestampDelta = 0xFFFFFF
    · rw [if_pos hext] at hlen ⊢
      have hext' := stored_of_extended h hfmt _ hext
      have hbytes : bytesAt ((s.buffer .audioVideoBuffer).length + mhSizeArray h.fmt) 4
          (s.buffer .audioVideoBuffer ++ (h.fields ++ h.extendedBytes)) = some h.extendedBytes := by
        have hat : bytesAt (s.buffer .audioVideoBuffer ++ h.fields).length 4
            ((s.buffer .audioVideoBuffer ++ h.fields) ++ (h.extendedBytes ++ []))
            = some h.extendedBytes := bytesAt_append rfl hlen
        simpa using hat
      rw [wp_bind, wp_readNbytesCycleOn_append (by simp [hlen])]
      simp [hbytes, hext', hlen, hadd]
    · rw [if_neg hext] at hlen ⊢
      have hext' := stored_of_field h hfmt _ hext
      have hnil := List.eq_nil_of_length_eq_zero hlen
      simp [hext', hnil, hadd]

/-- The audio/video reader takes the whole header; a fmt 3 header needs an
entry to be there. -/
theorem wp_readAudioVideoMessageHeader (h : ChunkHeader)
    (hentry : h.fmt = 3 → s.globals.csidHeader csid ≠ none) :
    wp streamEnv (readAudioVideoMessageHeader h.fmt csid (s.buffer .audioVideoBuffer).length) Q s
        ⟨h.encode ++ rest, out⟩ ↔
      Q (0, h.encode.length)
        ((s.setHeader csid (h.received (s.globals.header csid))).append .audioVideoBuffer h.encode)
        ⟨rest, out⟩ := by
  rw [readAudioVideoMessageHeader, wp_readAudioVideoMessageHeaderWith (fun _ => True) _ h hentry,
    true_and]
  intro Q s e
  rw [updateHeader, wp_modify, true_and]

end
/-! ## Do the two readers agree? -/

namespace ChunkHeader

/-- The bytes of a header that the control reader leaves in the stream. -/
def unread : ChunkHeader → Bytes
  | fmt0 t _ _ _ => t.extendedBytes
  | _ => []

/-- The entry that the control reader leaves. -/
def controlEntry : ChunkHeader → MessageHeader → MessageHeader
  | fmt0 _ length _ _, m | fmt1 _ length _, m => { m with messageLength := length.toNat }
  | _, m => m

/-- A header is what the control reader takes of it, and what it leaves unread. -/
theorem encode_eq_control (h : ChunkHeader) : h.encode = h.controlBytes ++ h.unread := by
  cases h <;> simp [encode, controlBytes, controlExtended, extendedBytes, unread]

/-- That entry is the one in the table afterwards. -/
theorem control_entry {s : State} {csid : Int} {m : MessageHeader} (h : ChunkHeader)
    (hm : s.globals.csidHeader csid = some m) :
    (h.control csid s).globals.csidHeader csid = some (h.controlEntry m) := by
  have hget : s.globals.header csid = m := by
    rw [Globals.header, hm]
    rfl
  cases h <;> simp [control, controlEntry, hm, hget]

/-- Both readers, given the basic header `bh` and the same stream: they report
the same, take the same bytes, and leave the same entry. -/
def Agree (h : ChunkHeader) (csid : Int) (bh rest : Bytes) (s : State) : Prop :=
  wp streamEnv (readMessageHeader h.fmt csid bh.length) (fun r s1 e1 =>
    wp streamEnv (readAudioVideoMessageHeader h.fmt csid bh.length) (fun r' s2 e2 =>
      r = r' ∧ e1.inp = e2.inp ∧ s1.globals.csidHeader csid = s2.globals.csidHeader csid)
      (s.setBuffer .audioVideoBuffer bh) ⟨h.encode ++ rest, []⟩)
    (s.setBuffer .ioBuffer bh) ⟨h.encode ++ rest, []⟩

/-- On a stream with the header, to agree is to leave nothing unread and to make the same of
the entry. -/
theorem agree_iff_entries {h : ChunkHeader} {csid : Int} {bh rest : Bytes} {s : State}
    {m : MessageHeader} (hm : s.globals.csidHeader csid = some m) :
    h.Agree csid bh rest s ↔ h.unread = [] ∧ h.controlEntry m = h.received m := by
  have hget : s.globals.header csid = m := by
    rw [Globals.header, hm]
    rfl
  have hio : bh.length = ((s.setBuffer .ioBuffer bh).buffer .ioBuffer).length := by simp
  have hav : bh.length = ((s.setBuffer .audioVideoBuffer bh).buffer .audioVideoBuffer).length := by
    simp
  have hctl : (h.control csid (s.setBuffer .ioBuffer bh)).globals.csidHeader csid
      = some (h.controlEntry m) := control_entry h (by rw [State.setBuffer_csidHeader, hm])
  unfold Agree
  rw [hio, encode_eq_control, List.append_assoc, wp_readMessageHeader, ← List.append_assoc,
    ← encode_eq_control, ← hio, hav, wp_readAudioVideoMessageHeader h (by simp [hm])]
  simp only [State.append_csidHeader, hctl, State.setBuffer_header, hget,
    State.setHeader_csidHeader, Option.some.injEq]
  rw [encode_eq_control]
  constructor
  · intro hagree
    obtain ⟨hlen, _, hentry⟩ := hagree
    have h0 : h.unread.length = 0 := by
      simp only [List.length_append, Prod.mk.injEq, true_and] at hlen
      omega
    exact ⟨List.eq_nil_of_length_eq_zero h0, hentry⟩
  · intro hsame
    obtain ⟨h0, hentry⟩ := hsame
    simp [h0, hentry]

/-- When they agree: the entry already held everything the control reader
does not store, and the audio/video reader added nothing. -/
def NothingNew : ChunkHeader → MessageHeader → Prop
  | fmt0 t _ type streamId, m =>
    t.field ≠ 0xFFFFFF ∧ m.timestamp = t.value + t.value ∧ m.timestampDelta = t.value ∧
      m.messageType = type ∧ m.streamId = streamId
  | fmt1 t _ type, m => t.value = 0 ∧ m.timestampDelta = 0 ∧ m.messageType = type
  | fmt2 t, m => t.value = 0 ∧ m.timestampDelta = 0
  | fmt3, m => m.timestampDelta = 0

end ChunkHeader

/-- There is no extension exactly where the field is not the escape value. -/
theorem Stamp.extendedBytes_eq_nil (t : Stamp) : t.extendedBytes = [] ↔ t.field ≠ 0xFFFFFF := by
  unfold extendedBytes
  by_cases h : t.field = 0xFFFFFF
  · rw [if_pos h]
    exact ⟨fun hnil => absurd hnil (List.ne_nil_of_length_eq_add_one (beBytes_length 4 _)),
      fun hne => absurd h hne⟩
  · rw [if_neg h]
    exact ⟨fun _ => h, fun _ => rfl⟩

/-- The two header readers agree on a header if and only if it brings nothing
new: they are not two implementations of one decoder. -/
theorem readers_agree_iff (h : ChunkHeader) (csid : Int) (bh rest : Bytes) (s : State)
    (m : MessageHeader) (hm : s.globals.csidHeader csid = some m) :
    h.Agree csid bh rest s ↔ h.NothingNew m := by
  rw [ChunkHeader.agree_iff_entries hm]
  cases m with
  | mk headerLength timestamp timestampDelta messageLength messageType stream =>
  cases h with
  | fmt0 t length type streamId =>
    simp only [ChunkHeader.unread, Stamp.extendedBytes_eq_nil, ChunkHeader.NothingNew]
    refine and_congr_right fun hfield => ?_
    have hvalue : t.field.setWidth 32 = t.value := by rw [Stamp.value, if_neg hfield]
    simp [ChunkHeader.controlEntry, ChunkHeader.received, hvalue]
  | fmt1 t length type =>
    have hdelta : t.value = 0 → (timestampDelta = t.value ↔ timestampDelta = 0) := by
      intro h0
      rw [h0]
    simpa [ChunkHeader.unread, ChunkHeader.controlEntry, ChunkHeader.received,
      ChunkHeader.NothingNew] using fun h0 _ => hdelta h0
  | fmt2 t =>
    have hdelta : t.value = 0 → (timestampDelta = t.value ↔ timestampDelta = 0) := by
      intro h0
      rw [h0]
    simpa [ChunkHeader.unread, ChunkHeader.controlEntry, ChunkHeader.received,
      ChunkHeader.NothingNew] using hdelta
  | fmt3 =>
    simp [ChunkHeader.unread, ChunkHeader.controlEntry, ChunkHeader.received,
      ChunkHeader.NothingNew, MessageHeader.addDelta]

/-- A fmt 1 header that says again what the entry holds is read alike by both. -/
theorem readers_agree_repeated :
    (ChunkHeader.fmt1 ⟨0, 0⟩ 300 9).Agree 4 [0x44] []
      (State.setHeader {} 4 { timestampDelta := 0, messageLength := 12, messageType := 9 }) :=
  (readers_agree_iff _ 4 [0x44] [] _ _ (State.setHeader_csidHeader _ _ _)).mpr
    ⟨by decide, rfl, rfl⟩

/-- The header of a data message on the wire: type 18, stream 1. The control
reader keeps neither, so the next audio/video header inherits the wrong ones. -/
theorem setDataFrame_readers_differ :
    ¬ (ChunkHeader.fmt0 ⟨0, 0⟩ 300 18 1).Agree 4 [0x04] []
      (State.setHeader {} 4 { messageLength := 300 }) := by
  intro h
  have hentry := (ChunkHeader.agree_iff_entries (State.setHeader_csidHeader _ _ _)).mp h
  simp [ChunkHeader.controlEntry, ChunkHeader.received] at hentry

/-! ## The running timestamp -/

/-- The headers of a chunk stream read one after the other, each with its basic
header in the buffer: `csid_header[csid].timestamp` after each. -/
def timestamps (csid : Int) : List (Bytes × ChunkHeader) → Routine (List (BitVec 32))
  | [] => return []
  | (bh, h) :: hs => do
    modify fun s => s.setBuffer .audioVideoBuffer bh
    let _ ← readAudioVideoMessageHeader h.fmt csid bh.length
    let timestamp ← gets fun s => (s.globals.header csid).timestamp
    let later ← timestamps csid hs
    return timestamp :: later

/-- What RTMP says a header makes of the timestamp and the last delta. -/
def rtmpStep : ChunkHeader → BitVec 32 × BitVec 32 → BitVec 32 × BitVec 32
  | .fmt0 t _ _ _, _ => (t.value, t.value)
  | .fmt1 t _ _, (timestamp, _) | .fmt2 t, (timestamp, _) => (timestamp + t.value, t.value)
  | .fmt3, (timestamp, delta) => (timestamp + delta, delta)

/-- The RTMP timestamps of a sequence of headers, from a timestamp and a delta. -/
def rtmpTimestamps : BitVec 32 × BitVec 32 → List ChunkHeader → List (BitVec 32)
  | _, [] => []
  | clock, h :: hs => (rtmpStep h clock).1 :: rtmpTimestamps (rtmpStep h clock) hs

/-- The timestamps that the reader computes, one header after the other, from an entry. -/
def receivedTimestamps : MessageHeader → List ChunkHeader → List (BitVec 32)
  | _, [] => []
  | m, h :: hs => (h.received m).timestamp :: receivedTimestamps (h.received m) hs

/-- A fmt 0 header, if it is one, carries timestamp 0, which is the same twice. -/
def ChunkHeader.StartsAtZero : ChunkHeader → Prop
  | fmt0 t _ _ _ => t.field = 0
  | _ => True

/-- On a stream with these headers the reader's timestamps are those, as long as the first
header has an entry to start from or is not of fmt 3. -/
theorem wp_timestamps {csid : Int} {rest out : Bytes} {P : List (BitVec 32) → Prop} :
    ∀ (hs : List (Bytes × ChunkHeader)) (s : State),
      (s.globals.csidHeader csid ≠ none ∨ ∀ h ∈ hs.head?, h.2.fmt ≠ 3) →
      (wp streamEnv (timestamps csid hs) (fun ts _ _ => P ts) s
          ⟨hs.flatMap (fun h => h.2.encode) ++ rest, out⟩ ↔
        P (receivedTimestamps (s.globals.header csid) (hs.map Prod.snd))) := by
  intro hs
  induction hs generalizing P with
  | nil => intro s _; simp [timestamps, receivedTimestamps]
  | cons x hs ih =>
    intro s hfirst
    obtain ⟨bh, h⟩ := x
    have hentry : h.fmt = 3 →
        (s.setBuffer .audioVideoBuffer bh).globals.csidHeader csid ≠ none := by
      intro h3
      rcases hfirst with hsome | hne
      · rwa [State.setBuffer_csidHeader]
      · exact absurd h3 (hne (bh, h) rfl)
    have hlen : bh.length
        = ((s.setBuffer .audioVideoBuffer bh).buffer .audioVideoBuffer).length := by simp
    simp only [timestamps, bind_eq, pure_eq, wp_bind, wp_modify, List.flatMap_cons,
      List.append_assoc]
    rw [hlen, wp_readAudioVideoMessageHeader h hentry]
    simp only [wp_bind, wp_gets, State.append_header, State.setHeader_header,
      State.setBuffer_header]
    rw [wp_congr fun _ _ _ => wp_ret, ih (P := fun later => P (_ :: later))]
    · simp [receivedTimestamps]
    · -- the entry is there for the headers that follow
      left
      simp

/-- The reader's timestamps are the RTMP ones from where it stands exactly if
every fmt 0 header of the rest starts at 0. -/
theorem receivedTimestamps_eq_iff (hs : List ChunkHeader) :
    ∀ m : MessageHeader,
      receivedTimestamps m hs = rtmpTimestamps (m.timestamp, m.timestampDelta) hs
        ↔ ∀ h ∈ hs, h.StartsAtZero := by
  induction hs with
  | nil => intro m; simp [receivedTimestamps, rtmpTimestamps]
  | cons h hs ih =>
    intro m
    -- the head is right exactly when a fmt 0 header starts at 0, and then
    -- entry and clock agree again
    have hhead : (h.received m).timestamp = (rtmpStep h (m.timestamp, m.timestampDelta)).1
        ↔ h.StartsAtZero := by
      cases h with
      | fmt0 t length type streamId =>
        have hzero : t.field.setWidth 32 = 0#32 ↔ t.field = 0 := by
          have hlt : t.field.toNat < 2 ^ 24 := t.field.isLt
          rw [← BitVec.toNat_inj, ← BitVec.toNat_inj, BitVec.toNat_setWidth]
          show t.field.toNat % 2 ^ 32 = 0 ↔ t.field.toNat = 0
          omega
        simp [ChunkHeader.received, rtmpStep, ChunkHeader.StartsAtZero, hzero]
      | fmt1 t length type => simp [ChunkHeader.received, rtmpStep, ChunkHeader.StartsAtZero]
      | fmt2 t => simp [ChunkHeader.received, rtmpStep, ChunkHeader.StartsAtZero]
      | fmt3 =>
        simp [ChunkHeader.received, rtmpStep, ChunkHeader.StartsAtZero, MessageHeader.addDelta]
    have hdelta : (h.received m).timestampDelta
        = (rtmpStep h (m.timestamp, m.timestampDelta)).2 := by
      cases h <;> rfl
    simp only [receivedTimestamps, rtmpTimestamps, List.cons.injEq, List.forall_mem_cons]
    constructor
    · intro ⟨h1, h2⟩
      refine ⟨hhead.mp h1, (ih (h.received m)).mp ?_⟩
      rw [h2, h1, hdelta]
    · intro ⟨h1, h2⟩
      have h1' := hhead.mpr h1
      refine ⟨h1', ?_⟩
      rw [(ih (h.received m)).mpr h2, h1', hdelta]

/-- The headers of a chunk stream that starts with a fmt 0 header are given
their RTMP timestamps if and only if every fmt 0 header among them carries
timestamp 0: the reader adds a fmt 0 header's timestamp to itself. -/
theorem timestamps_correct_iff (csid : Int) (bh : Bytes) (t : Stamp) (length : BitVec 24)
    (type : UInt8) (streamId : BitVec 32) (hs : List (Bytes × ChunkHeader)) (rest : Bytes)
    (s : State) :
    wp streamEnv (timestamps csid ((bh, .fmt0 t length type streamId) :: hs))
        (fun ts _ _ => ts
          = rtmpTimestamps (0, 0) (.fmt0 t length type streamId :: hs.map Prod.snd)) s
        ⟨((bh, ChunkHeader.fmt0 t length type streamId) :: hs).flatMap (fun h => h.2.encode)
          ++ rest, []⟩
      ↔ ∀ h ∈ ChunkHeader.fmt0 t length type streamId :: hs.map Prod.snd, h.StartsAtZero := by
  rw [wp_timestamps _ s (Or.inr fun x hx => by
    cases hx
    simp [ChunkHeader.fmt])]
  rw [List.map_cons, ← receivedTimestamps_eq_iff _ (s.globals.header csid)]
  rfl

/-- One fmt 0 header with timestamp 40 is read as 80: the field is stored as the timestamp
and added to it as the delta. -/
theorem timestamp_fmt0_doubled :
    ¬ wp streamEnv (timestamps 6 [([0x06], .fmt0 ⟨40, 0⟩ 5 9 1)])
        (fun ts _ _ => ts = rtmpTimestamps (0, 0) [.fmt0 ⟨40, 0⟩ 5 9 1]) {}
        ⟨(ChunkHeader.fmt0 ⟨40, 0⟩ 5 9 1).encode, []⟩ := by
  have hin : (ChunkHeader.fmt0 ⟨40, 0⟩ 5 9 1).encode
      = [(([0x06] : Bytes), ChunkHeader.fmt0 ⟨40, 0⟩ 5 9 1)].flatMap
          (fun h => h.2.encode) ++ [] := rfl
  rw [hin, wp_timestamps _ _ (Or.inr fun x hx => by
    cases hx
    simp [ChunkHeader.fmt])]
  decide

end RtmpServer
