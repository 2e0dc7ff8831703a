import RtmpServer.Heard

/-!
# One message through the shared buffer

What a publisher leaves in `audio_video_buffer` and `csid_header` when
`recv_audio_video` has returned, and what a consumer makes of it in one pass of
its relay loop, each alone with its peer. `Ready` is the state in between:
`wlp_recvAudioVideo` says that a receive ends in it, `wlp_relayPass` that a
pass that starts in it writes the message.

Mirroring notes:
- `pos` and `iov[1].iov_base` are positions in `audio_video_buffer`; the slot
  is never anything but `NULL` or the start of that buffer. Arithmetic on a
  `NULL` slot is undefined.
- the relay loop looks at `consumers`, `csid_header` and `curr_csid` anew
  wherever the code does.
-/

namespace RtmpServer

open Coroutine Coroutine.Prog Endian Framing

/-! ## The pass -/

/-- `csid_header[curr_csid]`, read: the entry of the chunk stream that the publisher was
heard on last. -/
def currHeader : Routine MessageHeader := do
  modify fun s => s.touch s.globals.currCsid
  gets fun s => s.globals.header s.globals.currCsid

/-- The chunk stream a message type is relayed on: 7 for audio, 6 for video, and 0 for
anything else. -/
def sendCsid (messageType : UInt8) : Int :=
  if messageType = 0x08 then 7 else if messageType = 0x09 then 6 else 0

/-- The array `header`, as far as `iov_len` goes: 12 bytes, or 16 of them. -/
def relayHeader (h : MessageHeader) : Bytes :=
  let extended : Bool := 0xFFFFFF ≤ h.timestamp.toInt
  lowByte (sendCsid h.messageType) ::
    ((if extended then [0xff, 0xff, 0xff] else beBytes 3 h.timestamp.toNat)
      ++ ((memBytes 3 h.messageLength).reverse ++ h.messageType :: leBytes 4 h.streamId.toNat)
      ++ (if extended then beBytes 4 h.timestamp.toNat else []))

/-- The vector of one `writev`: what stands in a local array, and `len` bytes of
`audio_video_buffer` from `pos`. -/
def relayIov (front : Bytes) (pos len : Int) (s : State) : Option Bytes :=
  if 0 ≤ pos ∧ 0 ≤ len then
    (bytesAt pos.toNat len.toNat (s.buffer .audioVideoBuffer)).map (front ++ ·)
  else none

/-- One round of the inner `while`: the loop carries `pos`,
`totol_payload_send` and `iov[1].iov_len`. -/
def relayChunk (chunkSize : Int) : Int × Int × Int → Routine ((Int × Int × Int) ⊕ Int)
  | (pos, sent, len) => do
    let size ← read fun s =>
      if s.globals.slot = some .audioVideoData then
        some ((s.buffer .audioVideoBuffer).length : Int)
      else none
    if pos < size then
      let h ← currHeader
      let front :=
        if pos = h.headerLength then relayHeader h else [headerFmt3 (sendCsid h.messageType)]
      let (rc, nwrite) ← writev (relayIov front pos len) (front.length + len.toNat)
      if rc = -1 then
        return .inr (-1)
      let h ← currHeader
      -- the header is taken for 12 bytes, also where it was 16
      let sent := sent + (nwrite - if pos = h.headerLength then 12 else 1)
      return .inl (h.headerLength + sent, sent, min (h.messageLength - sent) chunkSize)
    else return .inr 0

/-- The relay loop's body between the test of the slot and its reset: 0, or -1
where the thread returns. -/
def relayPass : Routine Int := do
  let h ← currHeader
  let chunkSize ← gets fun s => s.client.chunkSize
  .iter (relayChunk chunkSize) (h.headerLength, 0, min h.messageLength chunkSize)

/-- A message as it stands in the globals: the slot is set, and behind the
header bytes there are as many bytes as the entry of `curr_csid` says. -/
structure Ready (g : Globals) (h : MessageHeader) (payload : Bytes) : Prop where
  slot : g.slot = some .audioVideoData
  entry : g.csidHeader g.currCsid = some h
  buffer : ∃ hdr, g.audioVideoBuffer = hdr ++ payload ∧ h.headerLength = hdr.length
  length : h.messageLength = payload.length

/-- A timestamp as RTMP writes it: with an extension from `0xFFFFFF` on, where the field is
`0xFFFFFF`. -/
def stampOf (timestamp : BitVec 32) : Stamp :=
  ⟨if timestamp.toNat < 0xFFFFFF then timestamp.setWidth 24 else 0xFFFFFF, timestamp⟩

/-- What a consumer has to be sent for a message: its RTMP header and its
payload in chunks. -/
def relayed (chunkSize : Nat) (h : MessageHeader) (payload : Bytes) : Bytes :=
  frame [headerFmt3 (sendCsid h.messageType)] chunkSize
    (basicByte 0 (sendCsid h.messageType) ::
      (ChunkHeader.fmt0 (stampOf h.timestamp) (BitVec.ofNat 24 payload.length) h.messageType
        h.streamId).encode)
    payload

/-- The messages that a pass gets right: audio or video, with something to
send, and a timestamp that needs no extension, or needs one that fits an `int`
in front of a payload of one chunk. -/
def Relayable (chunkSize : Nat) (h : MessageHeader) (payload : Bytes) : Prop :=
  (h.messageType = 0x08 ∨ h.messageType = 0x09) ∧ payload ≠ [] ∧
    (h.timestamp.toNat < 0xFFFFFF ∨ h.timestamp.toNat < 2 ^ 31 ∧ payload.length ≤ chunkSize)

instance (chunkSize : Nat) (h : MessageHeader) (payload : Bytes) :
    Decidable (Relayable chunkSize h payload) :=
  inferInstanceAs (Decidable (_ ∧ _ ∧ _))

/-- The timestamp field of `relayHeader`, and the extension that a reader would
take for it. -/
def relayStamp (timestamp : BitVec 32) : Stamp :=
  ⟨if 0xFFFFFF ≤ timestamp.toInt then 0xFFFFFF else timestamp.setWidth 24, timestamp⟩

/-- The header of a pass is a fmt 0 header, unless it looks extended and is not. -/
theorem relayHeader_encode {h : MessageHeader} {payload : Bytes}
    (hlen : h.messageLength = payload.length)
    (hts : h.timestamp.toInt < 0xFFFFFF → h.timestamp.setWidth 24 ≠ 0xFFFFFF#24) :
    relayHeader h = basicByte 0 (sendCsid h.messageType) ::
      (ChunkHeader.fmt0 (relayStamp h.timestamp) (BitVec.ofNat 24 payload.length) h.messageType
        h.streamId).encode := by
  have hfirst : lowByte (sendCsid h.messageType) = basicByte 0 (sendCsid h.messageType) :=
    UInt8.zero_or.symm
  have hlength : (memBytes 3 h.messageLength).reverse
      = beBytes 3 (BitVec.ofNat 24 payload.length).toNat := by
    rw [hlen, memBytes_natCast, BitVec.toNat_ofNat]
    exact (beBytes_mod 3 _).symm
  unfold relayHeader
  rw [hfirst, hlength]
  by_cases hext : (0xFFFFFF : Int) ≤ h.timestamp.toInt
  · have hfield : beBytes 3 16777215 = [0xff, 0xff, 0xff] := by decide
    simp [hext, hfield, relayStamp, ChunkHeader.encode, ChunkHeader.fields,
      ChunkHeader.extendedBytes, Stamp.fieldBytes, Stamp.extendedBytes]
  · have hfield := hts (by omega)
    have htime : beBytes 3 (h.timestamp.toNat % 16777216) = beBytes 3 h.timestamp.toNat :=
      beBytes_mod 3 _
    simp [hext, hfield, htime, relayStamp, ChunkHeader.encode, ChunkHeader.fields,
      ChunkHeader.extendedBytes, Stamp.fieldBytes, Stamp.extendedBytes]

theorem relayStamp_eq {timestamp : BitVec 32} (h : timestamp.toNat < 2 ^ 31) :
    relayStamp timestamp = stampOf timestamp := by
  have hint : timestamp.toInt = timestamp.toNat := BitVec.toInt_eq_toNat_of_lt (by omega)
  unfold relayStamp stampOf
  rw [hint]
  by_cases hts : timestamp.toNat < 0xFFFFFF
  · rw [if_pos hts, if_neg (by omega)]
  · rw [if_neg hts, if_pos (by omega)]

/-- The array `header` is that header, behind the basic header of the chunk stream it is
sent on. -/
theorem relayHeader_eq {chunkSize : Nat} {h : MessageHeader} {payload : Bytes}
    (hlen : h.messageLength = payload.length) (hrelay : Relayable chunkSize h payload) :
    relayHeader h = basicByte 0 (sendCsid h.messageType) ::
      (ChunkHeader.fmt0 (stampOf h.timestamp) (BitVec.ofNat 24 payload.length) h.messageType
        h.streamId).encode := by
  have hlt : h.timestamp.toNat < 2 ^ 31 := by
    obtain ⟨_, _, hts | ⟨hts, _⟩⟩ := hrelay
    · omega
    · exact hts
  have hint : h.timestamp.toInt = h.timestamp.toNat := BitVec.toInt_eq_toNat_of_lt (by omega)
  rw [← relayStamp_eq hlt]
  refine relayHeader_encode hlen fun hshort => ?_
  rw [Ne, ← BitVec.toNat_inj, BitVec.toNat_setWidth]
  show ¬ h.timestamp.toNat % 2 ^ 24 = 0xFFFFFF
  omega

theorem relayHeader_length (h : MessageHeader) :
    (relayHeader h).length = if h.timestamp.toInt < 0xFFFFFF then 12 else 16 := by
  unfold relayHeader
  by_cases hext : h.timestamp.toInt < 0xFFFFFF
  · have hnot : ¬ (0xFFFFFF : Int) ≤ h.timestamp.toInt := by omega
    simp [hext, hnot]
  · have hyes : (0xFFFFFF : Int) ≤ h.timestamp.toInt := by omega
    simp [hext, hyes]

/-! ## What a pass writes -/

section

variable {ε : Type} {env : Env st ε} {out : ε → Bytes} {s : State} {e : ε}

/-- `out` is what the peer has been given: each `writev` that is not an error adds to it
what it took. -/
def Writes (env : Env st ε) (out : ε → Bytes) : Prop :=
  ∀ bytes n h e e', env (.writev bytes) e = some (.wrote n h, e') →
    out e' = out e ++ bytes.take n

/-- A gathered write that succeeds has handed over all its bytes, in however
many pieces. -/
theorem wlp_stWritev (hout : Writes env out) {iov : State → Option Bytes} {bytes : Bytes} {n : Nat}
    (hiov : iov s = some bytes) (hn : bytes.length = n) :
    wlp env (stWritev iov n) (fun r s' e' => s' = s ∧
      ∀ k, r = some k → k = n ∧ out e' = out e ++ bytes) s e := by
  refine wlp_iter_of_inv (fun written s' e' => s' = s ∧ written ≤ n ∧
    out e' = out e ++ bytes.take written) ?_ ⟨rfl, Nat.zero_le _, by simp⟩
  intro written s' e' ⟨hs, hle, he⟩
  subst hs
  by_cases hlt : written < n
  · rw [if_pos hlt, bind_eq, wlp_bind, wlp_read]
    intro memory hmem
    rw [hiov, Option.some.injEq] at hmem
    subst hmem
    rw [bind_eq, wlp_bind, wlp_writevOnce]
    intro r e1 hr
    cases r with
    | error =>
      rw [pure_eq, wlp_ret]
      exact ⟨rfl, fun k hk => nomatch hk⟩
    | wrote k hk =>
      simp only [pure_eq, wlp_ret]
      rw [List.length_drop] at hk
      refine ⟨trivial, by omega, ?_⟩
      rw [hout _ _ _ _ _ hr, he, List.append_assoc, List.take_add]
  · have heq : written = n := by omega
    rw [if_neg hlt, pure_eq, wlp_ret]
    refine ⟨rfl, fun k hk => ⟨(Option.some.inj hk).symm, ?_⟩⟩
    rw [he, heq, ← hn, List.take_length]

theorem wlp_writev (hout : Writes env out) {iov : State → Option Bytes} {bytes : Bytes} {n : Nat}
    (hiov : iov s = some bytes) (hn : bytes.length = n) :
    wlp env (writev iov n) (fun r s' e' => s' = s ∧
      (r.1 ≠ -1 → r = (0, n) ∧ out e' = out e ++ bytes)) s e := by
  unfold writev
  rw [bind_eq, wlp_bind]
  refine wlp_mono (wlp_stWritev hout hiov hn) fun r s' e' hr => ?_
  cases r with
  | none =>
    rw [pure_eq, wlp_ret]
    exact ⟨hr.1, fun h => absurd rfl h⟩
  | some k =>
    obtain ⟨hk, he⟩ := hr.2 k rfl
    simp only [pure_eq, wlp_ret, hk]
    exact ⟨hr.1, fun _ => ⟨trivial, he⟩⟩

theorem wlp_currHeader {h : MessageHeader} {Q : MessageHeader → State → ε → Prop}
    (hentry : s.globals.csidHeader s.globals.currCsid = some h) :
    wlp env currHeader Q s e ↔ Q h s e := by
  have hget : s.globals.header s.globals.currCsid = h := by
    rw [Globals.header, hentry]
    rfl
  simp [currHeader, State.touch_of_some hentry, hget]

theorem relayIov_eq {front hdr payload : Bytes} {sent size : Nat}
    (hbuf : s.buffer .audioVideoBuffer = hdr ++ payload) (hsent : sent < payload.length) :
    relayIov front (hdr.length + sent : Nat) (min (payload.length - sent) size : Nat) s
      = some (front ++ (payload.drop sent).take size) := by
  have hchunk : bytesAt (hdr.length + sent) (min (payload.length - sent) size)
      (s.buffer .audioVideoBuffer) = some ((payload.drop sent).take size) := by
    rw [hbuf]
    exact bytesAt_chunk hsent
  rw [relayIov, if_pos ⟨Int.natCast_nonneg _, Int.natCast_nonneg _⟩, Int.toNat_natCast,
    Int.toNat_natCast, hchunk]
  rfl

/-- What stands in front of a chunk of the payload: the whole header at first, one byte
later on. -/
def relayFront (h : MessageHeader) (sent : Nat) : Bytes :=
  if sent = 0 then relayHeader h else [headerFmt3 (sendCsid h.messageType)]

/-- One round with something left to send: a front part, a chunk of the payload,
and the front part counted for 12 bytes or one. -/
theorem wlp_relayChunk (hout : Writes env out) {h : MessageHeader} {hdr payload : Bytes}
    {sent : Nat}
    (hready : Ready s.globals h payload) (hbuf : s.globals.audioVideoBuffer = hdr ++ payload)
    (hhl : h.headerLength = hdr.length) (hlt : sent < payload.length) :
    wlp env (relayChunk s.client.chunkSize ((hdr.length + sent : Nat), (sent : Int),
        (min (payload.length - sent) s.client.chunkSize : Nat)))
      (fun x s' e' => s' = s ∧ (x = .inr (-1) ∨
        out e' = out e ++ (relayFront h sent ++ (payload.drop sent).take s.client.chunkSize) ∧
        ∃ sent' : Int, x = .inl (hdr.length + sent', sent',
            min (payload.length - sent') s.client.chunkSize) ∧
          sent' = sent + ((relayFront h sent).length
            + (min (payload.length - sent) s.client.chunkSize : Nat)
            - if sent = 0 then 12 else 1))) s e := by
  have hsize : (s.buffer .audioVideoBuffer).length = hdr.length + payload.length := by
    show s.globals.audioVideoBuffer.length = _
    rw [hbuf, List.length_append]
  have hmore : ((hdr.length + sent : Nat) : Int) < (hdr.length + payload.length : Nat) := by omega
  have hfirst : ((hdr.length + sent : Nat) : Int) = h.headerLength ↔ sent = 0 := by
    rw [hhl]
    omega
  have hlen : (relayFront h sent ++ (payload.drop sent).take s.client.chunkSize).length
      = (relayFront h sent).length + min (payload.length - sent) s.client.chunkSize := by
    rw [List.length_append, List.length_take, List.length_drop, Nat.min_comm]
  rw [relayChunk, bind_eq, wlp_bind, wlp_read, hready.slot, if_pos rfl, hsize]
  simp only [Option.some.injEq, forall_eq', if_pos hmore, wlp_bind, bind_eq, pure_eq]
  rw [wlp_currHeader hready.entry]
  simp only [hfirst, Int.toNat_natCast]
  rw [← relayFront, wlp_bind]
  refine wlp_mono (wlp_writev hout (relayIov_eq hbuf hlt) hlen) fun r s1 e1 hr => ?_
  obtain ⟨hs1, hr⟩ := hr
  subst hs1
  by_cases hrc : r.1 = -1
  · rw [if_pos hrc, wlp_ret]
    exact ⟨rfl, Or.inl rfl⟩
  · obtain ⟨hr, he1⟩ := hr hrc
    rw [if_neg hrc, wlp_bind, wlp_currHeader hready.entry, wlp_ret, hr, hready.length, hhl]
    exact ⟨rfl, Or.inr ⟨he1, _, rfl, by omega⟩⟩

/-- A pass that starts with a message in the buffer writes that message, and
leaves everything as it was. -/
theorem wlp_relayPass (hout : Writes env out) {h : MessageHeader} {payload : Bytes}
    (hready : Ready s.globals h payload) (hrelay : Relayable s.client.chunkSize h payload)
    (hcs : 0 < s.client.chunkSize) :
    wlp env relayPass (fun rc s' e' => s' = s ∧
      (rc ≠ -1 → out e' = out e ++ relayed s.client.chunkSize h payload)) s e := by
  have henc : relayed s.client.chunkSize h payload = frame [headerFmt3 (sendCsid h.messageType)]
      s.client.chunkSize (relayHeader h) payload := by
    rw [relayed, ← relayHeader_eq hready.length hrelay]
  obtain ⟨_, hne, hts⟩ := hrelay
  have hfit : h.timestamp.toInt < 0xFFFFFF ∨ payload.length ≤ s.client.chunkSize := by
    rcases hts with hts | ⟨_, hle⟩
    · rw [BitVec.toInt_eq_toNat_of_lt (by omega)]
      omega
    · exact Or.inr hle
  obtain ⟨hdr, hbuf, hhl⟩ := hready.buffer
  have hpos : 0 < payload.length := List.length_pos_iff.mpr hne
  have hsize : (s.buffer .audioVideoBuffer).length = hdr.length + payload.length := by
    show s.globals.audioVideoBuffer.length = _
    rw [hbuf, List.length_append]
  unfold relayPass
  rw [bind_eq, wlp_bind, wlp_currHeader hready.entry, bind_eq, wlp_bind, wlp_gets]
  -- either the frames written and the frames to come make up the message, or,
  -- behind a long header, all of it has gone and `pos` stands behind the end
  refine wlp_iter_of_inv (fun (x : Int × Int × Int) s' e' => s' = s ∧
    ((∃ sent : Nat, sent ≤ payload.length ∧
        x = (((hdr.length + sent : Nat) : Int), (sent : Int),
          ((min (payload.length - sent) s.client.chunkSize : Nat) : Int)) ∧
        out e' ++ framesFrom [headerFmt3 (sendCsid h.messageType)] s.client.chunkSize
            (relayHeader h) payload sent = out e ++ relayed s.client.chunkSize h payload) ∨
      (((hdr.length + payload.length : Nat) : Int) ≤ x.1 ∧
        out e' = out e ++ relayed s.client.chunkSize h payload))) ?_ ⟨rfl, Or.inl ⟨0, ?_, ?_, ?_⟩⟩
  · intro ⟨pos, total, len⟩ s' e' ⟨hs, hinv⟩
    subst hs
    -- at the end of the buffer the loop is done
    have hdone : ((hdr.length + payload.length : Nat) : Int) ≤ pos →
        out e' = out e ++ relayed s'.client.chunkSize h payload →
        wlp env (relayChunk s'.client.chunkSize (pos, total, len)) (fun x s1 e1 =>
          match x with
          | .inl _ => False
          | .inr rc => s1 = s' ∧
            (rc ≠ -1 → out e1 = out e ++ relayed s'.client.chunkSize h payload)) s' e' := by
      intro hend he
      rw [relayChunk, bind_eq, wlp_bind, wlp_read, hready.slot, if_pos rfl, hsize]
      simp only [Option.some.injEq, forall_eq', if_neg (Int.not_lt.mpr hend), pure_eq, wlp_ret]
      exact ⟨trivial, fun _ => he⟩
    rcases hinv with ⟨sent, hle, hx, he⟩ | ⟨hend, he⟩
    · cases hx
      by_cases hlt : sent < payload.length
      · refine wlp_mono (wlp_relayChunk hout hready hbuf hhl hlt) fun x s1 e1 hx => ?_
        obtain ⟨hs1, rfl | ⟨he1, sent', rfl, hsent'⟩⟩ := hx
        · exact ⟨hs1, fun h => absurd rfl h⟩
        · rw [framesFrom_step hcs hlt, ← relayFront, ← List.append_assoc, ← List.append_assoc,
            List.append_assoc (out e'), ← he1] at he
          refine ⟨hs1, ?_⟩
          by_cases hlong : sent = 0 ∧ ¬ h.timestamp.toInt < 0xFFFFFF
          · -- four bytes too many are counted, behind the last chunk
            obtain ⟨h0, hext⟩ := hlong
            have hlast : payload.length ≤ s'.client.chunkSize := hfit.resolve_left hext
            rw [relayFront, if_pos h0, if_pos h0, relayHeader_length, if_neg hext] at hsent'
            rw [framesFrom_end (by omega) (by omega), List.append_nil] at he
            exact Or.inr ⟨by omega, he⟩
          · have hfront : ((relayFront h sent).length : Int) = if sent = 0 then 12 else 1 := by
              unfold relayFront
              by_cases h0 : sent = 0
              · have hshort : h.timestamp.toInt < 0xFFFFFF := by omega
                rw [if_pos h0, if_pos h0, relayHeader_length, if_pos hshort]
                rfl
              · rw [if_neg h0, if_neg h0]
                rfl
            have heq : sent' = (sent + min (payload.length - sent) s'.client.chunkSize : Nat) := by
              omega
            subst heq
            refine Or.inl ⟨_, by omega, ?_, he⟩
            rw [Prod.mk.injEq, Prod.mk.injEq]
            exact ⟨by omega, rfl, by omega⟩
      · have hend : sent = payload.length := by omega
        rw [framesFrom_end (by omega) (by omega), List.append_nil] at he
        refine wlp_mono (hdone (by omega) he) fun x s1 e1 hx => ?_
        cases x with
        | inl b => exact absurd hx id
        | inr rc => exact hx
    · refine wlp_mono (hdone hend he) fun x s1 e1 hx => ?_
      cases x with
      | inl b => exact absurd hx id
      | inr rc => exact hx
  · exact Nat.zero_le _
  · rw [hhl, hready.length, Prod.mk.injEq, Prod.mk.injEq]
    exact ⟨rfl, rfl, by omega⟩
  · rw [framesFrom_zero, henc]

/-! ## What a receive leaves -/

/-- After a receive that returned 0, the entry of `curr_csid` is there and the
buffer is as long as the three lengths say. -/
theorem wlp_recvAudioVideo (hempty : s.buffer .audioVideoBuffer = []) :
    wlp env recvAudioVideo (fun r s' _ => r.1 ≠ -1 → r.1 = 0 ∧ ∃ m,
      s'.globals.csidHeader s'.globals.currCsid = some m ∧
      (s'.buffer .audioVideoBuffer).length = r.2.1 + r.2.2 + m.messageLength.toNat) s e := by
  refine wlp_mono (wlp_recvAudioVideo_heard account_came hempty)
    fun r s' e' ⟨p, _, hrecv⟩ hrc => ?_
  rcases hrecv.result with herr | ⟨h0, h, hacc⟩
  · exact absurd herr hrc
  · obtain ⟨hdr, more, payload, -, hhdr, hbuf, hread⟩ := hacc.body
    refine ⟨h0, _, hacc.entry, ?_⟩
    rw [hbuf, List.length_append, hhdr, hrecv.size, unframe_payload_length (hread [])]

end

/-! ## What they leave alone -/

section

variable {R : State → State → Prop} (hrefl : ∀ s, R s s)
include hrefl

theorem lookup_keeps {α : Type} (htouch : ∀ s csid, R s (s.touch csid)) (csid : Int)
    (field : MessageHeader → α) : (lookup csid field).Keeps R :=
  ⟨keeps_modify fun s => htouch s csid, fun _ => keeps_gets hrefl⟩

variable (hbuffer : ∀ s bytes, R s (s.setBuffer .audioVideoBuffer bytes))
include hbuffer

theorem readNbytesCycleAv_keeps (n : Nat) : (readNbytesCycleAv n).Keeps R :=
  readNbytesCycleOn_keeps hrefl fun s _ => hbuffer s _

theorem readAudioVideoBasicHeader_keeps (hcsid : ∀ s csid, R s (s.setCurrCsid csid)) :
    readAudioVideoBasicHeader.Keeps R := by
  have hsingle : ∀ n, (readNbytesOn .audioVideoBuffer n).Keeps R := fun n =>
    readNbytesOn_keeps hrefl fun s _ => hbuffer s _
  refine ⟨readNbytesCycleAv_keeps hrefl hbuffer _, fun r => keeps_ite trivial ⟨keeps_read hrefl,
    fun bh => ⟨keeps_modify fun s => hcsid s _, fun _ => keeps_ite ?_ (keeps_ite ?_ trivial)⟩⟩⟩
  · exact ⟨hsingle _, fun rc => keeps_ite trivial ⟨keeps_read hrefl, fun b1 =>
      ⟨keeps_modify fun s => hcsid s _, fun _ => trivial⟩⟩⟩
  · exact ⟨hsingle _, fun rc => keeps_ite trivial ⟨keeps_read hrefl, fun b1 =>
      ⟨keeps_read hrefl, fun b2 => ⟨keeps_modify fun s => hcsid s _, fun _ => trivial⟩⟩⟩⟩

theorem recvAudioVideoPayload_keeps (htouch : ∀ s csid, R s (s.touch csid)) (csid : Int) :
    (recvAudioVideoPayload csid).Keeps R := by
  intro nread
  refine ⟨lookup_keeps hrefl htouch _ _, fun ml => keeps_ite ⟨keeps_gets hrefl, fun cs =>
    ⟨keeps_gets hrefl, fun size => ⟨readNbytesCycleAv_keeps hrefl hbuffer _, fun r =>
      keeps_ite trivial (keeps_ite ?_ ?_)⟩⟩⟩ trivial⟩
  · exact ⟨keeps_modify fun s => hbuffer s _, fun _ => trivial⟩
  · exact trivial

/-- A receive does nothing to the state but fill the buffer, set `curr_csid`
and store header records. -/
theorem recvAudioVideo_keeps (hcsid : ∀ s csid, R s (s.setCurrCsid csid))
    (hheader : ∀ s csid h, R s (s.setHeader csid h)) : recvAudioVideo.Keeps R := by
  have hcycle := readNbytesCycleAv_keeps hrefl hbuffer
  have htouch : ∀ s csid, R s (s.touch csid) := fun s csid => hheader s csid _
  have hupdate : ∀ csid f, (updateHeader csid f).Keeps R := fun csid f =>
    keeps_modify fun s => hheader s csid _
  have hmessage : ∀ fmt csid bhSize, (readAudioVideoMessageHeader fmt csid bhSize).Keeps R := by
    intro fmt csid bhSize
    refine ⟨hcycle _, fun r => keeps_ite trivial (keeps_ite ?_ ?_)⟩
    · exact ⟨keeps_gets hrefl, fun m => keeps_ite trivial ⟨hupdate _ _, fun _ => trivial⟩⟩
    · refine ⟨keeps_read hrefl, fun m => ⟨hupdate _ _, fun _ => keeps_ite ?_ ?_⟩⟩
      · exact ⟨hcycle _, fun r => keeps_ite trivial ⟨keeps_read hrefl, fun ext =>
          ⟨hupdate _ _, fun _ => ⟨hupdate _ _, fun _ => trivial⟩⟩⟩⟩
      · exact ⟨hupdate _ _, fun _ => trivial⟩
  exact ⟨readAudioVideoBasicHeader_keeps hrefl hbuffer hcsid, fun r => keeps_ite trivial
    ⟨hmessage _ _ _, fun r2 => keeps_ite trivial ⟨keeps_gets hrefl, fun csid =>
      ⟨lookup_keeps hrefl htouch _ _, fun _ => ⟨recvAudioVideoPayload_keeps hrefl hbuffer htouch _,
        fun rc => keeps_ite trivial trivial⟩⟩⟩⟩⟩

end

/-- A pass changes nothing while the entry of `curr_csid` is there: without it, the lookups
would add one. -/
theorem relayPass_keeps : relayPass.Keeps fun s s' =>
    s.globals.csidHeader s.globals.currCsid ≠ none → s' = s := by
  have hrefl : ∀ s : State, s.globals.csidHeader s.globals.currCsid ≠ none → s = s := fun _ _ => rfl
  have hcurr : currHeader.Keeps fun s s' =>
      s.globals.csidHeader s.globals.currCsid ≠ none → s' = s := by
    refine ⟨keeps_modify fun s hs => ?_, fun _ => keeps_gets hrefl⟩
    obtain ⟨h, hh⟩ := Option.ne_none_iff_exists'.mp hs
    exact State.touch_of_some hh
  refine ⟨hcurr, fun h => ⟨keeps_gets hrefl, fun cs x => ⟨keeps_read hrefl, fun size =>
    keeps_ite ⟨hcurr, fun h' => ⟨writev_keeps hrefl _ _, fun r => keeps_ite trivial
      ⟨hcurr, fun h'' => trivial⟩⟩⟩ trivial⟩⟩⟩

end RtmpServer
