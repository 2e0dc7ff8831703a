import RtmpServer.Broadcast
import RtmpServer.RelayWrites

/-!
# Is what a pass writes decodable?

A consumer reads the relayed bytes with a decoder like the server's own. This
file says for which messages that decoder gives the message back and stands at
the start of the next one (`relayed_decodable_iff`).

Where it does not, it takes another number of bytes than the pass has written.
So the argument counts: `wlp_recvAudioVideo_stream` says how many bytes a
receive takes from a stream that starts with a fmt 0 header, and
`relayWrites_length` how many a pass writes.
-/

namespace RtmpServer

open Coroutine Coroutine.Prog Endian Framing

/-! ## What a receive takes -/

section

variable {s : State} {e : Stream}

/-- A basic header of fmt 0 that is not of three bytes is of two bytes if the first one is
0, and of one otherwise. -/
theorem basicHeader_fmt0 {first : UInt8} {p : Bytes} {fmt : Nat} {csid : Int}
    (h : basicHeader (first :: p) = some (fmt, csid)) (hfmt : first.toNat < 64)
    (hone : first.toNat ≠ 1) :
    fmt = 0 ∧ basicSize (first :: p) = if first = 0 then 2 else 1 := by
  have hdiv : first.toNat / 64 % 4 = 0 := by omega
  have hzero : first = 0 ↔ first.toNat = 0 := by
    rw [← UInt8.toNat_inj]
    rfl
  by_cases h0 : first.toNat = 0
  · have h0' : first.toNat % 64 = 0 := by omega
    simp only [basicHeader, List.getElem?_cons_zero, Option.bind_eq_bind, Option.bind_some,
      if_pos h0',
      hdiv] at h
    obtain ⟨b1, _, h⟩ := Option.bind_eq_some_iff.mp h
    cases h
    exact ⟨rfl, by rw [if_pos (hzero.mpr h0), basicSize, if_pos h0']⟩
  · have h0' : ¬ first.toNat % 64 = 0 := by omega
    have h1' : ¬ first.toNat % 64 = 1 := by omega
    simp only [basicHeader, List.getElem?_cons_zero, Option.bind_eq_bind, Option.bind_some,
      if_neg h0',
      if_neg h1', hdiv] at h
    cases h
    exact ⟨rfl, by rw [if_neg fun h => h0 (hzero.mp h), basicSize, if_neg h0', if_neg h1']⟩

/-- What is accepted of a stream that starts with a fmt 0 header: the sizes of
both headers, the length that is stored, and what is made of the stream behind
them. -/
theorem wlp_recvAudioVideo_stream {first : UInt8} {inp : Bytes}
    (hempty : s.buffer .audioVideoBuffer = []) (hinp : e.inp = first :: inp)
    (hfmt : first.toNat < 64) (hone : first.toNat ≠ 1) :
    wlp streamEnv recvAudioVideo (fun r s' e' => r.1 = 0 → ∃ bhSize mhSize hdr later payload n,
      bhSize = (if first = 0 then 2 else 1) ∧
      mhSize = (if ofBeBytes ((e.inp.drop bhSize).take 3) = 0xFFFFFF then 15 else 11) ∧
      e.inp = hdr ++ later ∧ hdr.length = bhSize + mhSize ∧
      n = ofBeBytes ((e.inp.drop (bhSize + 3)).take 3) ∧
      (s'.globals.header s'.globals.currCsid).messageLength = n ∧
      unframe s.client.chunkSize n later = some (payload, e'.inp)) s e := by
  refine wlp_mono (wlp_recvAudioVideo_heard account_tookFrom hempty)
    fun r s' e' ⟨p, htook, hrecv⟩ hrc => ?_
  rw [TookFrom] at htook
  rcases hrecv.result with herr | ⟨-, h, hacc⟩
  · rw [hrc] at herr
    cases herr
  obtain ⟨hdr, more, payload, hp, hhdr, -, hread⟩ := hacc.body
  obtain ⟨⟨fmt, csid⟩, hbasic, hheard⟩ := Option.bind_eq_some_iff.mp hacc.heard
  obtain ⟨x, hx, heq⟩ := Option.bind_eq_some_iff.mp hheard
  cases heq
  -- the bytes taken start as the stream does
  obtain ⟨p', rfl⟩ : ∃ p', p = first :: p' := by
    cases p with
    | nil => cases hbasic
    | cons c p' =>
      rw [hinp, List.cons_append, List.cons.injEq] at htook
      exact ⟨p', by rw [htook.1]⟩
  obtain ⟨rfl, hbh⟩ := basicHeader_fmt0 hbasic hfmt hone
  obtain ⟨rfl, hle⟩ := heardMessage_eq_whole hx
  -- `q` are the bytes behind the basic header
  obtain ⟨q, hq⟩ : ∃ q, q = (first :: p').drop (basicSize (first :: p')) := ⟨_, rfl⟩
  have hlen : q.length = (first :: p').length - basicSize (first :: p') := by
    rw [hq, List.length_drop]
  rw [← hq] at hle hread
  have hlt : 0 < 4 := by decide
  rw [ChunkHeader.encode_length hlt, ChunkHeader.ofBytes_extendedBytes (by decide) hlt,
    Stamp.extendedBytes_length] at hle
  have h11 : mhSizeArray 0 = 11 := rfl
  have hdrop : ∀ k, k ≤ 8 →
      (e.inp.drop (basicSize (first :: p') + k)).take 3 = (q.drop k).take 3 := by
    intro k hk
    rw [htook, take_drop_append (by omega), hq, List.drop_drop]
  have hstamp : (e.inp.drop (basicSize (first :: p'))).take 3 = q.take 3 := hdrop 0 (by decide)
  have hlength := hdrop 3 (by decide)
  have hfield : (Stamp.ofBytes (mhSizeArray 0) q).field = 0xFFFFFF
      ↔ ofBeBytes (q.take 3) = 0xFFFFFF := by
    have hbytes : beBytes 3 (Stamp.ofBytes (mhSizeArray 0) q).field.toNat = q.take 3 :=
      Stamp.ofBytes_fieldBytes (by omega)
    rw [← field_extended_iff, ← toNat_ofBeBytes_field, hbytes]
  have hmh : messageHeaderSize 0 q = if ofBeBytes (q.take 3) = 0xFFFFFF then 15 else 11 := by
    by_cases hf : ofBeBytes (q.take 3) = 0xFFFFFF
    · rw [if_pos (hfield.mpr hf)] at hle
      rw [if_pos hf, messageHeaderSize_extended (by decide) hf hle]
      rfl
    · rw [if_neg hf, messageHeaderSize_short (Or.inr (Or.inl hf))]
      rfl
  have hlt24 : ofBeBytes ((q.drop 3).take 3) < 2 ^ 24 := by
    have h := ofBeBytes_lt ((q.drop 3).take 3)
    rwa [length_take_drop (by omega)] at h
  have hml : ((ChunkHeader.ofBytes 0 q).received
      (s.globals.header s'.globals.currCsid)).messageLength = ofBeBytes ((q.drop 3).take 3) := by
    show ((BitVec.ofNat 24 (ofBeBytes ((q.drop 3).take 3))).toNat : Int) = _
    rw [BitVec.toNat_ofNat, Nat.mod_eq_of_lt hlt24]
  refine ⟨basicSize (first :: p'), _, hdr, more ++ e'.inp, payload, _, hbh, rfl,
    ?_, ?_, rfl, ?_, ?_⟩
  · rw [htook, hp, List.append_assoc]
  · rw [hhdr, headerSize, hbasic, hstamp, ← hmh, hq]
  · rw [Globals.header, hacc.entry, Option.getD_some, ← hq, hml, hlength]
  · rw [hml, Int.toNat_natCast] at hread
    rw [hlength]
    exact hread _

end

/-! ## What a pass writes, as bytes -/

theorem relayWrites_length {chunkSize : Nat} {h : MessageHeader} {payload : Bytes}
    (hcs : 0 < chunkSize) (hne : payload ≠ []) :
    (relayWrites chunkSize h payload).flatten.length = (relayHeader h).length
      + min payload.length chunkSize + (payload.length - secondStart chunkSize h)
      + (payload.length - secondStart chunkSize h + (chunkSize - 1)) / chunkSize := by
  rw [relayWrites, if_neg hne, List.flatten_cons, List.length_append, List.length_append,
    List.length_take, separated_length, pieces_flatten hcs, pieces_length hcs, List.length_drop,
    List.length_singleton, Nat.one_mul, Nat.min_comm]
  omega

/-- Nothing is left out of a payload of one chunk: what is written is the header and then
the payload. -/
theorem relayWrites_short {chunkSize : Nat} {h : MessageHeader} {payload : Bytes}
    (hne : payload ≠ []) (hle : payload.length ≤ chunkSize) :
    (relayWrites chunkSize h payload).flatten
      = frame [headerFmt3 (sendCsid h.messageType)] chunkSize (relayHeader h) payload := by
  have hnil : payload.drop (secondStart chunkSize h) = [] := by
    refine List.drop_eq_nil_of_le ?_
    unfold secondStart
    omega
  rw [relayWrites, if_neg hne, hnil, pieces_nil, List.map_nil, List.flatten_cons, List.flatten_nil,
    List.append_nil, frame_short hle, List.take_of_length_le hle]

/-- The timestamp field that a reader finds behind a one-byte basic header, `FFFFFF` where
an extension follows. -/
theorem relayHeader_field (h : MessageHeader) (rest : Bytes) :
    ((relayHeader h ++ rest).drop 1).take 3
      = if 0xFFFFFF ≤ h.timestamp.toInt then [0xff, 0xff, 0xff]
        else beBytes 3 h.timestamp.toNat := by
  unfold relayHeader
  by_cases hext : (0xFFFFFF : Int) ≤ h.timestamp.toInt
  · simp [hext]
  · have htake : ∀ later : Bytes, (beBytes 3 h.timestamp.toNat ++ later).take 3
        = beBytes 3 h.timestamp.toNat := fun later => List.take_left' (beBytes_length 3 _)
    simp [hext, htake]

/-! ## Which messages come back -/

/-- A receive from `bytes` with more behind them gives the message back: its
type, its length and its payload, and only `rest` is left. -/
def Decodes (h : MessageHeader) (payload bytes rest : Bytes) (decoder : State) : Prop :=
  wp streamEnv recvAudioVideo (fun r s' e' => r.1 = 0 ∧
    (s'.globals.header s'.globals.currCsid).messageType = h.messageType ∧
    (s'.globals.header s'.globals.currCsid).messageLength = payload.length ∧
    (s'.buffer .audioVideoBuffer).drop (r.2.1 + r.2.2) = payload ∧ e'.inp = rest) decoder
    ⟨bytes ++ rest, []⟩

/-- Audio and video, with a length that fits its field (every length that was
read from one does), and a timestamp that does not look extended by accident,
or that is extended in front of a payload of one chunk. -/
def Decodable (h : MessageHeader) (payload : Bytes) : Prop :=
  (h.messageType = 0x08 ∨ h.messageType = 0x09) ∧ payload.length ≤ 0xFFFFFF ∧
    (h.timestamp.toInt < 0xFFFFFF ∧ h.timestamp.setWidth 24 ≠ 0xFFFFFF#24 ∨
      0xFFFFFF ≤ h.timestamp.toInt ∧ payload.length ≤ 4096)

section

variable {h : MessageHeader} {payload rest : Bytes} {decoder : State}

/-- A header that is read as it was meant, and a payload in one piece or behind
a header of 12 bytes. -/
theorem decodes_of_decodable (hne : payload ≠ []) (hml : h.messageLength = payload.length)
    (hempty : decoder.buffer .audioVideoBuffer = []) (hcs : decoder.client.chunkSize = 4096)
    (hdec : Decodable h payload) :
    Decodes h payload (relayWrites 4096 h payload).flatten rest decoder := by
  obtain ⟨htype, hlen, hts⟩ := hdec
  obtain ⟨csid, hcsid, h2, h63⟩ : ∃ csid : Nat, sendCsid h.messageType = csid ∧ 2 ≤ csid ∧
      csid ≤ 63 := by
    rcases htype with ht | ht
    · exact ⟨7, by rw [ht]; rfl, by decide, by decide⟩
    · exact ⟨6, by rw [ht]; rfl, by decide, by decide⟩
  have hwrites : (relayWrites 4096 h payload).flatten
      = frame [headerFmt3 (sendCsid h.messageType)] 4096 (relayHeader h) payload := by
    rcases hts with ⟨hshort, -⟩ | ⟨-, hle⟩
    · have hhdr : (relayHeader h).length = 12 := by rw [relayHeader_length, if_pos hshort]
      rw [relayWrites_flatten (by decide) hhdr, if_neg hne]
    · exact relayWrites_short hne hle
  have hfield : h.timestamp.toInt < 0xFFFFFF → h.timestamp.setWidth 24 ≠ 0xFFFFFF#24 := by
    intro hlt
    rcases hts with ⟨-, hne⟩ | ⟨hge, -⟩
    · exact hne
    · omega
  have hpay : (BitVec.ofNat 24 payload.length).toNat = payload.length := by
    rw [BitVec.toNat_ofNat, Nat.mod_eq_of_lt (by omega)]
  unfold Decodes
  rw [hwrites, frame_hdr, relayHeader_encode hml hfield, hcsid, ← hcs]
  simp only [List.cons_append, List.append_assoc]
  refine wp_recvAudioVideo (h := .fmt0 (relayStamp h.timestamp) (BitVec.ofNat 24 payload.length)
    h.messageType h.streamId) hempty h2 h63 (fun h3 => absurd h3 (by simp [ChunkHeader.fmt])) ?_
    (by omega) ?_
  · simp [ChunkHeader.received, hpay]
  · have hdrop : ∀ (first : UInt8) (hdr : Bytes),
        (first :: (hdr ++ payload)).drop (1 + hdr.length) = payload := by
      intro first hdr
      rw [Nat.add_comm, List.drop_succ_cons, List.drop_left]
    refine ⟨rfl, ?_, ?_, ?_, rfl⟩
    · simp [ChunkHeader.received]
    · simp [ChunkHeader.received, hpay]
    · rw [State.buffer_append, State.setHeader_buffer, State.setCurrCsid_buffer, hempty,
        List.nil_append]
      exact hdrop _ _

/-- The first byte of a relayed message is the basic header of its chunk stream,
or the 0 of a longer one. -/
theorem lowByte_sendCsid (type : UInt8) :
    (lowByte (sendCsid type)).toNat < 64 ∧ (lowByte (sendCsid type)).toNat ≠ 1 ∧
      (lowByte (sendCsid type) = 0 ↔ ¬ (type = 0x08 ∨ type = 0x09)) := by
  unfold sendCsid
  by_cases h8 : type = 0x08
  · rw [if_pos h8]
    exact ⟨by decide, by decide, fun h0 => absurd h0 (by decide), fun hn => absurd (Or.inl h8) hn⟩
  · rw [if_neg h8]
    by_cases h9 : type = 0x09
    · rw [if_pos h9]
      exact ⟨by decide, by decide, fun h0 => absurd h0 (by decide),
        fun hn => absurd (Or.inr h9) hn⟩
    · rw [if_neg h9]
      exact ⟨by decide, by decide, fun _ hn => hn.elim h8 h9, fun _ => by decide⟩

/-- Otherwise the receive takes more or fewer bytes than were written, so that it does not
come back as it was. -/
theorem decodable_of_decodes (hne : payload ≠ []) (hml : h.messageLength = payload.length)
    (hempty : decoder.buffer .audioVideoBuffer = []) (hcs : decoder.client.chunkSize = 4096)
    (hdec : Decodes h payload (relayWrites 4096 h payload).flatten rest decoder) :
    Decodable h payload := by
  have hpos : 0 < payload.length := List.length_pos_iff.mpr hne
  -- the stream starts with the header
  obtain ⟨later, hstream⟩ : ∃ later, (relayWrites 4096 h payload).flatten ++ rest
      = relayHeader h ++ later := by
    rw [relayWrites, if_neg hne, List.flatten_cons, List.append_assoc, List.append_assoc]
    exact ⟨_, rfl⟩
  obtain ⟨tail, hhdr⟩ : ∃ tail, relayHeader h = lowByte (sendCsid h.messageType) :: tail := ⟨_, rfl⟩
  have hfirst := lowByte_sendCsid h.messageType
  obtain ⟨r, s', e', hrun, hrc, _, hlength, _, hrest⟩ := hdec
  obtain ⟨bhSize, mhSize, hdr, behind, payload', n, hbh, hmh, hinp, hsizes, hn, hml', hread⟩ :=
    wlp_recvAudioVideo_stream hempty
      (show _ = _ :: (tail ++ later) by rw [hstream, hhdr]; rfl) hfirst.1 hfirst.2.1 _ _ _ hrun hrc
  dsimp only at hmh hn hinp
  rw [hml', Int.ofNat_inj] at hlength
  have hstored := hlength.symm.trans hn
  -- how many bytes are taken
  have htaken := congrArg List.length hinp
  rw [hcs, hrest, hlength] at hread
  rw [List.length_append, List.length_append, hsizes, (unframe_length (by decide) hread).2,
    relayWrites_length (by decide) hne, secondStart, relayHeader_length] at htaken
  have hle : payload.length ≤ 0xFFFFFF := by
    have hlt := ofBeBytes_lt (((relayHeader h ++ later).drop (bhSize + 3)).take 3)
    have hpow := Nat.pow_le_pow_right (n := 256) (by decide)
      (List.length_take_le 3 ((relayHeader h ++ later).drop (bhSize + 3)))
    rw [← hstream, ← hstored] at hlt
    rw [← hstream] at hpow
    omega
  by_cases htype : h.messageType = 0x08 ∨ h.messageType = 0x09
  · rw [if_neg fun h0 => hfirst.2.2.mp h0 htype] at hbh
    rw [hbh, hstream, relayHeader_field] at hmh
    refine ⟨htype, hle, ?_⟩
    by_cases hext : (0xFFFFFF : Int) ≤ h.timestamp.toInt
    · -- the header is read to its end, so four bytes of a second chunk are missed
      rw [if_pos hext, if_pos (by decide)] at hmh
      rw [if_neg (by omega)] at htaken
      exact Or.inr ⟨hext, by omega⟩
    · rw [if_pos (by omega)] at htaken
      refine Or.inl ⟨by omega, fun hfield => ?_⟩
      -- four bytes of the payload are taken for an extended timestamp
      have h24 : ofBeBytes (beBytes 3 h.timestamp.toNat) = 0xFFFFFF := by
        have hnat := congrArg BitVec.toNat hfield
        rw [BitVec.toNat_setWidth] at hnat
        rw [ofBeBytes_beBytes]
        exact hnat
      rw [if_neg hext, if_pos h24] at hmh
      omega
  · exfalso
    -- the basic header is read as one of two bytes
    rw [if_pos (hfirst.2.2.mpr htype)] at hbh
    have hmh' : mhSize = 11 ∨ mhSize = 15 := by
      rw [hmh]
      split
      · exact Or.inr rfl
      · exact Or.inl rfl
    by_cases hext : (0xFFFFFF : Int) ≤ h.timestamp.toInt
    · rw [if_neg (by omega)] at htaken
      -- by its bytes alone a payload of two bytes more than a chunk could do
      have h4098 : payload.length = 4098 := by omega
      rw [hbh, hstream, h4098] at hstored
      have hml' : (memBytes 3 h.messageLength).reverse = [0, 16, 2] := by
        rw [hml, h4098]
        decide
      have hbytes : ((relayHeader h ++ later).drop (2 + 3)).take 3 = [16, 2, h.messageType] := by
        unfold relayHeader
        rw [hml']
        simp [hext]
      rw [hbytes] at hstored
      have hvalue : ofBeBytes [16, 2, h.messageType] = h.messageType.toNat + 1049088 := rfl
      omega
    · rw [if_pos (by omega)] at htaken
      omega

end

/-- Whatever `recv_audio_video` accepts in the publisher loop, a consumer's pass
sends nothing of it or something that decodes to it, if and only if there is
no payload or the message is `Decodable`. -/
theorem relayed_decodable_iff {ε : Type} (env : Env st ε) (s s' : State) (e e' : ε)
    (bhSize mhSize : Nat) (client : Client) (decoder : State) (rest : Bytes)
    (hclear : s.buffer .audioVideoBuffer = [])
    (haccepted : Runs env recvAudioVideo s e (0, bhSize, mhSize) s' e')
    (hconsumer : s'.globals.slot ≠ none) (hclient : client.chunkSize = 4096)
    (hempty : decoder.buffer .audioVideoBuffer = []) (hcs : decoder.client.chunkSize = 4096) :
    wp streamEnv relayPass (fun rc _ e => rc = 0 ∧ (e.out = [] ∨
        Decodes ((Broadcast.publish s' (bhSize + mhSize)).header s'.globals.currCsid)
          ((s'.buffer .audioVideoBuffer).drop (bhSize + mhSize)) e.out rest decoder))
        ⟨Broadcast.publish s' (bhSize + mhSize), client⟩ ⟨[], []⟩ ↔
      (s'.buffer .audioVideoBuffer).drop (bhSize + mhSize) = [] ∨
        Decodable ((Broadcast.publish s' (bhSize + mhSize)).header s'.globals.currCsid)
          ((s'.buffer .audioVideoBuffer).drop (bhSize + mhSize)) := by
  obtain ⟨-, m, hm, hlen⟩ := wlp_recvAudioVideo hclear _ _ _ haccepted (by simp)
  by_cases hne : (s'.buffer .audioVideoBuffer).drop (bhSize + mhSize) = []
  · have hget : s'.globals.header s'.globals.currCsid = m := by
      rw [Globals.header, hm]
      rfl
    have hentry : (Broadcast.publish s' (bhSize + mhSize)).csidHeader s'.globals.currCsid
        = some { m with headerLength := (bhSize + mhSize : Nat) } := by
      rw [Broadcast.publish, hget, Globals.setSlot_csidHeader, Globals.csidHeader_setHeader]
    have hend := List.drop_eq_nil_iff.mp hne
    refine ⟨fun _ => Or.inl hne, fun _ => ?_⟩
    refine wp_relayPass_nothing (Globals.slot_setSlot hconsumer) hentry ?_ ⟨rfl, Or.inl rfl⟩
    exact Int.ofNat_le.mpr hend
  · have hready := Broadcast.ready_publish hconsumer hm hlen hne
    have hpass := wp_relayPass streamEnv_takesAll (e := ⟨[], []⟩)
      (s := ⟨Broadcast.publish s' (bhSize + mhSize), client⟩) hready (by simp [hclient])
    rw [foldl_stream, List.nil_append, hclient] at hpass
    have hout : (relayWrites 4096 ((Broadcast.publish s' (bhSize + mhSize)).header
        s'.globals.currCsid) ((s'.buffer .audioVideoBuffer).drop (bhSize + mhSize))).flatten
          ≠ [] := by
      rw [relayWrites, if_neg hne]
      exact List.cons_ne_nil _ _
    constructor
    · intro h
      obtain ⟨_, _, _, hrun, -, hq⟩ := h
      obtain ⟨-, -, he⟩ := wlp_of_wp hpass _ _ _ hrun
      rw [he] at hq
      exact Or.inr (decodable_of_decodes hne hready.length hempty hcs (hq.resolve_left hout))
    · intro h
      refine wp_mono hpass fun rc _ e hsent => ?_
      obtain ⟨hrc, _, he⟩ := hsent
      refine ⟨hrc, Or.inr ?_⟩
      rw [he]
      exact decodes_of_decodable hne hready.length hempty hcs (h.resolve_left hne)

/-- A publisher with one consumer registered, whose slot is empty and can take the next
message. -/
def publisherState : State where
  globals := { consumers := [(5, .null)] }

/-- A message of two bytes on the wire, behind a header of fmt 0 on chunk stream 6. -/
def twoBytes (type : UInt8) : Stream := ⟨[6, 0, 0, 0, 0, 0, 2, type, 1, 0, 0, 0, 1, 2], []⟩

/-- It is accepted, and the slot is free; what stands in the globals when it has been
published. -/
theorem twoBytes_accepted (type : UInt8) (htype : type = 9 ∨ type = 18) :
    ∃ s' e', Runs streamEnv recvAudioVideo publisherState (twoBytes type) (0, 1, 11) s' e' ∧
      s'.globals.slot = some .null ∧ (s'.buffer .audioVideoBuffer).drop 12 = [1, 2] ∧
      (Broadcast.publish s' 12).header s'.globals.currCsid = ⟨12, 0, 0, 2, type, 1⟩ := by
  have hexec : (exec streamEnv 20 recvAudioVideo publisherState (twoBytes type)).map (fun r =>
      (r.1, r.2.1.globals.slot, (r.2.1.buffer .audioVideoBuffer).drop 12,
        (Broadcast.publish r.2.1 12).header r.2.1.globals.currCsid))
      = some ((0, 1, 11), some .null, [1, 2], ⟨12, 0, 0, 2, type, 1⟩) := by
    rcases htype with h | h
    · subst h
      decide
    · subst h
      decide
  obtain ⟨⟨r, s', e'⟩, hrun, heq⟩ := Option.map_eq_some_iff.mp hexec
  simp only [Prod.mk.injEq] at heq
  obtain ⟨hr, hslot, hpayload, hheader⟩ := heq
  rw [hr] at hrun
  exact ⟨s', e', ⟨20, hrun⟩, hslot, hpayload, hheader⟩

/-- A video message comes back: what the player is sent can be received by the server's own
code. -/
theorem relayed_decodable_video :
    ∃ s' e', Runs streamEnv recvAudioVideo publisherState (twoBytes 9) (0, 1, 11) s' e' ∧
      wp streamEnv relayPass (fun rc _ e => rc = 0 ∧ (e.out = [] ∨
        Decodes ((Broadcast.publish s' (1 + 11)).header s'.globals.currCsid)
          ((s'.buffer .audioVideoBuffer).drop (1 + 11)) e.out []
            { client := { chunkSize := 4096 } }))
        ⟨Broadcast.publish s' (1 + 11), { chunkSize := 4096 }⟩ ⟨[], []⟩ := by
  obtain ⟨s', e', hrun, hslot, hpayload, hheader⟩ := twoBytes_accepted 9 (Or.inl rfl)
  refine ⟨s', e', hrun, (relayed_decodable_iff streamEnv publisherState s' (twoBytes 9) e' 1 11
    { chunkSize := 4096 } { client := { chunkSize := 4096 } } [] rfl hrun (by rw [hslot]; simp) rfl
    rfl rfl).mpr (Or.inr ?_)⟩
  rw [hheader, hpayload]
  exact ⟨Or.inr rfl, by decide, Or.inl ⟨by decide, by decide⟩⟩

/-- A data message is accepted, but relayed on chunk stream 0, and does not come back. -/
theorem data_message_undecodable :
    ∃ s' e', Runs streamEnv recvAudioVideo publisherState (twoBytes 18) (0, 1, 11) s' e' ∧
      ¬ wp streamEnv relayPass (fun rc _ e => rc = 0 ∧ (e.out = [] ∨
        Decodes ((Broadcast.publish s' (1 + 11)).header s'.globals.currCsid)
          ((s'.buffer .audioVideoBuffer).drop (1 + 11)) e.out []
            { client := { chunkSize := 4096 } }))
        ⟨Broadcast.publish s' (1 + 11), { chunkSize := 4096 }⟩ ⟨[], []⟩ := by
  obtain ⟨s', e', hrun, hslot, hpayload, hheader⟩ := twoBytes_accepted 18 (Or.inr rfl)
  obtain ⟨-, m, hm, hlen⟩ := wlp_recvAudioVideo (by rfl) _ _ _ hrun (by decide)
  have hne : (s'.buffer .audioVideoBuffer).drop (1 + 11) ≠ [] := by
    rw [hpayload]
    exact List.cons_ne_nil _ _
  have hready := Broadcast.ready_publish (by rw [hslot]; simp) hm hlen hne
  refine ⟨s', e', hrun, fun ⟨_, _, _, hpass, _, hq⟩ => ?_⟩
  obtain ⟨-, -, he⟩ := wlp_of_wp (wp_relayPass streamEnv_takesAll (e := ⟨[], []⟩)
    (s := ⟨Broadcast.publish s' (1 + 11), { chunkSize := 4096 }⟩) hready (by simp)) _ _ _ hpass
  rw [foldl_stream, List.nil_append] at he
  rw [he] at hq
  rcases hq with hnil | hdec
  · rw [relayWrites, if_neg hne] at hnil
    cases hnil
  · have htype := (decodable_of_decodes hne hready.length rfl rfl hdec).1
    rw [show (1 + 11 : Nat) = 12 from rfl, hheader] at htype
    revert htype
    decide

end RtmpServer
