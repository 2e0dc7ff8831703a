import RtmpServer.Relay

/-!
# What a pass of the relay loop writes

`wlp_relayPass` says what a pass writes for the messages it gets right. Here
is what it writes for any message, call by call (`relayWrites`), against a
peer that takes everything. The header is counted for 12 bytes, so behind one
of 16 bytes the second chunk starts four bytes too late.

From it: for an audio or video message with a short timestamp the pass writes
what `write_message` writes (`relayPass_eq_writeMessage`), and behind an
extended timestamp all of the payload goes out if and only if it fits the
first chunk (`relay_extended_iff`).
-/

namespace RtmpServer

open Coroutine Coroutine.Prog Endian Framing

/-- The first byte of the payload that the second chunk starts at: the count takes every
header for one of 12 bytes. -/
def secondStart (chunkSize : Nat) (h : MessageHeader) : Nat :=
  chunkSize + ((relayHeader h).length - 12)

/-- What a pass hands to `writev`, call by call: the header with the first chunk, and then
each piece behind a continuation header. -/
def relayWrites (chunkSize : Nat) (h : MessageHeader) (payload : Bytes) : List Bytes :=
  if payload = [] then []
  else (relayHeader h ++ payload.take chunkSize) ::
    (pieces chunkSize (payload.drop (secondStart chunkSize h))).map
      ([headerFmt3 (sendCsid h.messageType)] ++ ·)

/-- Past the end of a list it does not matter how far, so a short list may be counted as
full. -/
theorem drop_min_add (l : Bytes) (size d : Nat) :
    l.drop (min l.length size + d) = l.drop (size + d) := by
  rcases Nat.lt_or_ge size l.length with hlong | hshort
  · rw [Nat.min_eq_right (Nat.le_of_lt hlong)]
  · rw [List.drop_eq_nil_of_le (by omega), List.drop_eq_nil_of_le (by omega)]

theorem relayHeader_length_ge (h : MessageHeader) : 12 ≤ (relayHeader h).length := by
  rw [relayHeader_length]
  split
  · exact Nat.le_refl _
  · decide

section

variable {ε : Type} {env : Env st ε} {put : ε → Bytes → ε} {s : State} {e : ε}
variable {h : MessageHeader} {hdr payload : Bytes}

theorem wp_currHeader {Q : MessageHeader → State → ε → Prop}
    (hentry : s.globals.csidHeader s.globals.currCsid = some h) :
    wp env currHeader Q s e ↔ Q h s e := by
  have hget : s.globals.header s.globals.currCsid = h := by
    rw [Globals.header, hentry]
    rfl
  simp [currHeader, State.touch_of_some hentry, hget]

/-- One round with something left to send: it hands over one chunk, and the count goes on by
what was written less 12 or 1. -/
theorem wp_relayChunk {sent : Nat} {Q : (Int × Int × Int) ⊕ Int → State → ε → Prop}
    (htakes : TakesAll env put) (hready : Ready s.globals h payload)
    (hbuf : s.globals.audioVideoBuffer = hdr ++ payload) (hhl : h.headerLength = hdr.length)
    (hlt : sent < payload.length) :
    wp env (relayChunk s.client.chunkSize ((hdr.length + sent : Nat), (sent : Int),
        min ((payload.length : Int) - sent) s.client.chunkSize)) Q s e ↔
      ∀ sent' : Int, sent' = sent + (((relayFront h sent).length
          + min (payload.length - sent) s.client.chunkSize : Nat) - if sent = 0 then 12 else 1) →
        Q (.inl (hdr.length + sent', sent', min (payload.length - sent') s.client.chunkSize)) s
          (put e (relayFront h sent ++ (payload.drop sent).take s.client.chunkSize)) := by
  have hsize : (s.buffer .audioVideoBuffer).length = hdr.length + payload.length := by
    show s.globals.audioVideoBuffer.length = _
    rw [hbuf, List.length_append]
  have hmore : ((hdr.length + sent : Nat) : Int) < (hdr.length + payload.length : Nat) := by omega
  have hfirst : ((hdr.length + sent : Nat) : Int) = h.headerLength ↔ sent = 0 := by
    rw [hhl]
    omega
  have hmin : min ((payload.length : Int) - sent) s.client.chunkSize
      = (min (payload.length - sent) s.client.chunkSize : Nat) := by omega
  have hlen : (relayFront h sent ++ (payload.drop sent).take s.client.chunkSize).length
      = (relayFront h sent).length + min (payload.length - sent) s.client.chunkSize := by
    rw [List.length_append, List.length_take, List.length_drop, Nat.min_comm]
  have hpos : 0 < (relayFront h sent).length := by
    have hhdr := relayHeader_length_ge h
    unfold relayFront
    split
    · omega
    · exact Nat.zero_lt_one
  rw [hmin, relayChunk, bind_eq, wp_bind, wp_read, hready.slot, if_pos rfl, hsize]
  simp only [Option.some.injEq, exists_eq_left', if_pos hmore, wp_bind, bind_eq, pure_eq]
  rw [wp_currHeader hready.entry]
  simp only [hfirst, Int.toNat_natCast]
  rw [← relayFront, wp_bind, wp_writev_takes htakes (relayIov_eq hbuf hlt) hlen (by omega)]
  rw [if_neg (by simp), wp_bind, wp_currHeader hready.entry, wp_ret, hready.length, hhl]
  simp only [show ((hdr.length + sent : Nat) : Int) = hdr.length ↔ sent = 0 by omega, forall_eq]

/-- Behind the end of the buffer the loop is done, whatever the count says. -/
theorem wp_relayChunk_end {pos sent len : Int} {Q : (Int × Int × Int) ⊕ Int → State → ε → Prop}
    (hslot : s.globals.slot = some .audioVideoData)
    (hend : (s.globals.audioVideoBuffer.length : Int) ≤ pos) :
    wp env (relayChunk s.client.chunkSize (pos, sent, len)) Q s e ↔ Q (.inr 0) s e := by
  have hsize : (s.buffer .audioVideoBuffer).length = s.globals.audioVideoBuffer.length := rfl
  rw [relayChunk, bind_eq, wp_bind, wp_read, hslot, if_pos rfl, hsize]
  simp only [Option.some.injEq, exists_eq_left', if_neg (Int.not_lt.mpr hend), pure_eq, wp_ret]

/-- A pass over a buffer with nothing behind the header does nothing, and returns 0. -/
theorem wp_relayPass_nothing (hslot : s.globals.slot = some .audioVideoData)
    (hentry : s.globals.csidHeader s.globals.currCsid = some h)
    (hend : (s.globals.audioVideoBuffer.length : Int) ≤ h.headerLength)
    {Q : Int → State → ε → Prop} (hQ : Q 0 s e) : wp env relayPass Q s e := by
  unfold relayPass
  rw [bind_eq, wp_bind, wp_currHeader hentry, bind_eq, wp_bind, wp_gets, wp_iter,
    wp_relayChunk_end hslot hend, wp_again_inr]
  exact hQ

/-- A pass over a message in the buffer ends, leaves everything as it was, and
has made the calls of `relayWrites`. -/
theorem wp_relayPass (htakes : TakesAll env put) (hready : Ready s.globals h payload)
    (hcs : 0 < s.client.chunkSize) :
    wp env relayPass (fun rc s' e' => rc = 0 ∧ s' = s ∧
      e' = (relayWrites s.client.chunkSize h payload).foldl put e) s e := by
  obtain ⟨hdr, hbuf, hhl⟩ := hready.buffer
  unfold relayPass
  rw [bind_eq, wp_bind, wp_currHeader hready.entry, bind_eq, wp_bind, wp_gets]
  -- `sent` is the loop's count; the calls still to come are those for the payload behind it
  refine wp_iter_of_inv (fun (x : Int × Int × Int) s' e' => s' = s ∧ ∃ sent : Nat,
      x = (((hdr.length + sent : Nat) : Int), (sent : Int),
        min ((payload.length : Int) - sent) s.client.chunkSize) ∧
      (relayWrites s.client.chunkSize h payload).foldl put e
        = (if sent = 0 then relayWrites s.client.chunkSize h payload
            else (pieces s.client.chunkSize (payload.drop sent)).map
              ([headerFmt3 (sendCsid h.messageType)] ++ ·)).foldl put e')
    (fun x _ _ => (hdr.length + payload.length - x.1).toNat) ?_ ⟨rfl, 0, ?_, ?_⟩
  · intro x s' e' ⟨hs, sent, hx, he⟩
    subst hs hx
    by_cases hlt : sent < payload.length
    · rw [wp_relayChunk htakes hready hbuf hhl hlt]
      intro sent' hsent'
      have hge := relayHeader_length_ge h
      have hne : payload ≠ [] := List.ne_nil_of_length_pos (by omega)
      by_cases h0 : sent = 0
      · subst h0
        rw [relayFront, if_pos rfl, if_pos rfl] at hsent'
        have hnext : sent'.toNat = min payload.length s'.client.chunkSize
            + ((relayHeader h).length - 12) := by omega
        refine ⟨⟨rfl, sent'.toNat, ?_, ?_⟩, by omega⟩
        · rw [Prod.mk.injEq, Prod.mk.injEq]
          exact ⟨by omega, by omega, by omega⟩
        · -- a payload that fits the first chunk leaves nothing, wherever the second would start
          have hrest : payload.drop sent'.toNat
              = payload.drop (secondStart s'.client.chunkSize h) := by
            rw [hnext, drop_min_add]
            rfl
          rw [he, if_pos rfl, relayWrites, if_neg hne, List.foldl_cons, if_neg (by omega), hrest]
          rfl
      · rw [relayFront, if_neg h0, if_neg h0] at hsent'
        have hnext : sent'.toNat = sent + min (payload.length - sent) s'.client.chunkSize := by
          rw [hsent']
          simp only [List.length_singleton]
          omega
        have hdrop : payload.drop sent ≠ [] := by
          intro hnil
          have hle := List.drop_eq_nil_iff.mp hnil
          omega
        refine ⟨⟨rfl, sent'.toNat, ?_, ?_⟩, by omega⟩
        · rw [Prod.mk.injEq, Prod.mk.injEq]
          exact ⟨by omega, by omega, by omega⟩
        · have hrest : (payload.drop sent).drop s'.client.chunkSize
              = payload.drop sent'.toNat := by
            rw [hnext, ← List.drop_drop, ← List.length_drop]
            exact (drop_min_add (payload.drop sent) s'.client.chunkSize 0).symm
          rw [he, if_neg h0, pieces_step hcs hdrop, List.map_cons, List.foldl_cons,
            if_neg (by omega), hrest, relayFront, if_neg h0]
    · have hend : (s'.globals.audioVideoBuffer.length : Int) ≤ (hdr.length + sent : Nat) := by
        rw [hbuf, List.length_append]
        omega
      rw [wp_relayChunk_end hready.slot hend]
      refine ⟨rfl, rfl, ?_⟩
      rw [he]
      have hnil : payload.drop sent = [] := List.drop_eq_nil_of_le (by omega)
      by_cases h0 : sent = 0
      · subst h0
        rw [List.drop_zero] at hnil
        rw [if_pos rfl, relayWrites, if_pos hnil, List.foldl_nil]
      · rw [if_neg h0, hnil, pieces_nil, List.map_nil, List.foldl_nil]
  · rw [hhl, hready.length]
    simp
  · rw [if_pos rfl]

end

/-! ## A short timestamp: what `write_message` writes -/

/-- A `write_payload` that pushes `payload`, as any class of messages may. -/
def pushPayload (payload : Bytes) : Routine Int := do
  modify fun s => s.append .ioBuffer payload
  return 0

/-- What `write_message` sends for a payload, be it empty: then no round of its
loop is made. -/
theorem wp_writeMessage_push {csid : Int} {timestamp : BitVec 32} {messageLength : Int}
    {type : UInt8} {streamId : BitVec 32} {payload inp out : Bytes} {s : State}
    (hempty : s.buffer .ioBuffer = []) (hcs : 0 < s.client.chunkSize) :
    wp streamEnv (writeMessage (pushPayload payload) 0 csid timestamp messageLength type streamId)
      (fun rc _ e => rc = 0 ∧ e = ⟨inp, out ++ if payload = [] then [] else
        frame [headerFmt3 csid] s.client.chunkSize
          (headerBytes 0 csid timestamp messageLength type streamId) payload⟩) s ⟨inp, out⟩ := by
  by_cases hne : payload = []
  · subst hne
    simp only [writeMessage, writeHeader, pushPayload, bind_eq, pure_eq, wp_bind, wp_modify, wp_ret]
    rw [if_neg (by decide), wp_bind, wp_gets, wp_bind, wp_bind, wp_modify, wp_ret,
      if_neg (by decide), wp_bind, wp_gets, writeChunks, wp_iter]
    simp
  · refine wp_writeMessage (t := s.append .ioBuffer
      (headerBytes 0 csid timestamp messageLength type streamId ++ payload)) hempty
      (by rwa [State.append_chunkSize]) hne ?_ ?_ ?_
    · intro Q e
      simp [pushPayload]
    · rw [State.buffer_append, hempty, List.nil_append]
    · rw [if_neg hne, State.append_chunkSize]
      exact ⟨rfl, rfl⟩

/-- The two header writers agree up to `0xFFFFFE`, the last timestamp for which both have no
extension. -/
theorem relayHeader_eq_headerBytes {h : MessageHeader}
    (htype : h.messageType = 0x08 ∨ h.messageType = 0x09) (hts : h.timestamp.toNat ≤ 0xFFFFFE) :
    relayHeader h = headerBytes 0 (sendCsid h.messageType) h.timestamp h.messageLength
      h.messageType h.streamId := by
  have hint : h.timestamp.toInt = h.timestamp.toNat := BitVec.toInt_eq_toNat_of_lt (by omega)
  have hrelay : ¬ (0xFFFFFF : Int) ≤ h.timestamp.toInt := by omega
  have hwrite : ¬ (0xFFFFFF : Int) < h.timestamp.toInt := by omega
  have hrange : (2 : Int) ≤ sendCsid h.messageType ∧ sendCsid h.messageType ≤ 63 := by
    rcases htype with ht | ht
    · rw [ht]
      decide
    · rw [ht]
      decide
  have hfirst : lowByte (sendCsid h.messageType) = basicByte 0 (sendCsid h.messageType) :=
    UInt8.zero_or.symm
  simp [relayHeader, headerBytes, basicHeaderBytes, mhSizeArray, hrelay, hwrite, hrange, hfirst]

theorem relayWrites_flatten {chunkSize : Nat} {h : MessageHeader} {payload : Bytes}
    (hcs : 0 < chunkSize) (hhdr : (relayHeader h).length = 12) :
    (relayWrites chunkSize h payload).flatten = if payload = [] then [] else
      frame [headerFmt3 (sendCsid h.messageType)] chunkSize (relayHeader h) payload := by
  unfold relayWrites
  by_cases hne : payload = []
  · rw [if_pos hne, if_pos hne, List.flatten_nil]
  · rw [if_neg hne, if_neg hne, frame_eq_pieces hcs, List.flatten_cons, secondStart, hhdr]
    rfl

/-- Calls taken by the stream, one after the other, are their bytes in a row. -/
theorem foldl_stream (writes : List Bytes) (e : Stream) :
    writes.foldl (fun e bytes => { e with out := e.out ++ bytes }) e
      = { e with out := e.out ++ writes.flatten } := by
  induction writes generalizing e with
  | nil => simp
  | cons bytes writes ih => rw [List.foldl_cons, ih, List.flatten_cons, List.append_assoc]

/-- For audio and video with a timestamp up to `0xFFFFFE`, a pass of the relay
loop ends and writes the very bytes that `write_message` writes. -/
theorem relayPass_eq_writeMessage (s writer : State) (h : MessageHeader)
    (payload inp out : Bytes) (hready : Ready s.globals h payload)
    (htype : h.messageType = 0x08 ∨ h.messageType = 0x09) (hts : h.timestamp.toNat ≤ 0xFFFFFE)
    (hcs : 1 ≤ s.client.chunkSize) (hempty : writer.buffer .ioBuffer = [])
    (hsize : writer.client.chunkSize = s.client.chunkSize) :
    wp streamEnv relayPass (fun rc s' e => rc = 0 ∧ s' = s ∧
      wp streamEnv (writeMessage (pushPayload payload) 0
          (if h.messageType = 0x08 then 7 else 6) h.timestamp payload.length h.messageType
          h.streamId)
        (fun rc' _ e' => rc' = 0 ∧ e' = e) writer ⟨inp, out⟩) s ⟨inp, out⟩ := by
  have hcsid : (if h.messageType = 0x08 then 7 else 6) = sendCsid h.messageType := by
    rcases htype with ht | ht
    · rw [ht]
      decide
    · rw [ht]
      decide
  have hhdr : (relayHeader h).length = 12 := by
    rw [relayHeader_length, BitVec.toInt_eq_toNat_of_lt (by omega), if_pos (by omega)]
  refine wp_mono (wp_relayPass streamEnv_takesAll hready hcs) fun rc s' e ⟨hrc, hs, he⟩ => ?_
  refine ⟨hrc, hs, wp_mono (wp_writeMessage_push hempty (hsize ▸ hcs)) fun rc' s'' e' hw => ?_⟩
  refine ⟨hw.1, ?_⟩
  rw [hw.2, he, foldl_stream, relayWrites_flatten hcs hhdr, hsize, hcsid, ← hready.length,
    ← relayHeader_eq_headerBytes htype hts]

/-- A message behind a header of 12 bytes, in front of a consumer. -/
def holding (h : MessageHeader) (payload : Bytes) (chunkSize : Nat) : State where
  globals :=
    { currCsid := 6
      csidHeader := fun c => if c = 6 then some h else none
      audioVideoBuffer := List.replicate 12 0 ++ payload
      consumers := [(5, .audioVideoData)] }
  client := { chunkSize }

theorem ready_holding {h : MessageHeader} {payload : Bytes} {chunkSize : Nat}
    (hhl : h.headerLength = 12) (hml : h.messageLength = payload.length) :
    Ready (holding h payload chunkSize).globals h payload where
  slot := rfl
  entry := rfl
  buffer := ⟨List.replicate 12 0, rfl, hhl⟩
  length := hml

/-- A video message of three chunks, relayed and written as a message: the wire has the same
bytes. -/
theorem relayPass_eq_writeMessage_three :
    wp streamEnv relayPass (fun rc s' e => rc = 0 ∧ s' = holding ⟨12, 40, 40, 5, 9, 1⟩
        [1, 2, 3, 4, 5] 2 ∧
      wp streamEnv (writeMessage (pushPayload [1, 2, 3, 4, 5]) 0 6 40 5 9 1)
        (fun rc' _ e' => rc' = 0 ∧ e' = e) { client := { chunkSize := 2 } } ⟨[], []⟩)
      (holding ⟨12, 40, 40, 5, 9, 1⟩ [1, 2, 3, 4, 5] 2) ⟨[], []⟩ :=
  relayPass_eq_writeMessage _ { client := { chunkSize := 2 } } ⟨12, 40, 40, 5, 9, 1⟩
    [1, 2, 3, 4, 5] [] [] (ready_holding rfl rfl) (Or.inr rfl) (by decide) (by decide) rfl rfl

/-! ## An extended timestamp: what is lost -/

/-- A peer that keeps what each `writev` gives it, as a list of the calls. -/
def gatherEnv : Env st (List Bytes)
  | .stReadFully _, _ => none
  | .writev bytes, e => some (.wrote bytes.length (WriteResult.all_le bytes), e ++ [bytes])
  | .stUsleep, e => some ((), e)

theorem gatherEnv_takesAll : TakesAll gatherEnv fun e bytes => e ++ [bytes] := fun _ _ => rfl

/-- The payload parts of the calls of a pass: what comes after the 16-byte
header, and after each one-byte header. -/
def payloadParts : List Bytes → Bytes
  | [] => []
  | first :: later => first.drop 16 ++ (later.map (List.drop 1)).flatten

theorem foldl_gather (writes e : List Bytes) :
    writes.foldl (fun e bytes => e ++ [bytes]) e = e ++ writes := by
  induction writes generalizing e with
  | nil => simp
  | cons bytes writes ih => rw [List.foldl_cons, ih, List.append_assoc, List.singleton_append]

/-- Four bytes are left out behind the first chunk, by as many as the header is longer than
12. -/
theorem payloadParts_relayWrites {chunkSize : Nat} {h : MessageHeader} {payload : Bytes}
    (hcs : 0 < chunkSize) (hhdr : (relayHeader h).length = 16) :
    payloadParts (relayWrites chunkSize h payload)
      = payload.take chunkSize ++ payload.drop (chunkSize + 4) := by
  unfold relayWrites
  by_cases hne : payload = []
  · rw [if_pos hne, hne, payloadParts, List.take_nil, List.drop_nil, List.append_nil]
  · have hmap : ∀ l : List Bytes, (l.map ([headerFmt3 (sendCsid h.messageType)] ++ ·)).map
        (List.drop 1) = l := by
      intro l
      rw [List.map_map]
      exact List.map_id l
    rw [if_neg hne, payloadParts, hmap, pieces_flatten hcs, List.drop_left' hhdr, secondStart, hhdr]

/-- With a timestamp in `0xFFFFFF..2^31-1` the payload parts of a pass make up
the payload if and only if it fits the first chunk. -/
theorem relay_extended_iff (s : State) (h : MessageHeader) (payload : Bytes)
    (hready : Ready s.globals h payload) (hlo : 0xFFFFFF ≤ h.timestamp.toNat)
    (hhi : h.timestamp.toNat < 2 ^ 31) (hcs : 1 ≤ s.client.chunkSize) :
    wp gatherEnv relayPass (fun _ _ writes => payloadParts writes = payload) s []
      ↔ payload.length ≤ s.client.chunkSize := by
  have hhdr : (relayHeader h).length = 16 := by
    rw [relayHeader_length, BitVec.toInt_eq_toNat_of_lt (by omega), if_neg (by omega)]
  have hpass := wp_relayPass gatherEnv_takesAll (e := []) hready hcs
  have hparts : payloadParts ((relayWrites s.client.chunkSize h payload).foldl
      (fun e bytes => e ++ [bytes]) []) = payload ↔ payload.length ≤ s.client.chunkSize := by
    rw [foldl_gather, List.nil_append, payloadParts_relayWrites hcs hhdr]
    constructor
    · intro heq
      have hlen := congrArg List.length heq
      rw [List.length_append, List.length_take, List.length_drop] at hlen
      omega
    · intro hle
      rw [List.take_of_length_le hle, List.drop_eq_nil_of_le (by omega), List.append_nil]
  constructor
  · intro h
    obtain ⟨_, _, _, hrun, hq⟩ := h
    obtain ⟨_, _, he⟩ := wlp_of_wp hpass _ _ _ hrun
    exact hparts.mp (he ▸ hq)
  · intro hle
    refine wp_mono hpass fun rc s' e' hend => ?_
    rw [hend.2.2]
    exact hparts.mpr hle

/-- A payload of one chunk goes out whole, extended timestamp or not. -/
theorem relay_extended_one_chunk :
    wp gatherEnv relayPass (fun _ _ writes => payloadParts writes = [1, 2, 3])
      (holding ⟨12, 0x1000000, 40, 3, 9, 1⟩ [1, 2, 3] 4096) [] :=
  (relay_extended_iff _ ⟨12, 0x1000000, 40, 3, 9, 1⟩ [1, 2, 3] (ready_holding rfl rfl) (by decide)
    (by decide) (by decide)).mpr (by decide)

/-- Of a payload of 4100 bytes behind an extended timestamp the last four are never sent. -/
theorem relay_extended_loses :
    ¬ wp gatherEnv relayPass (fun _ _ writes => payloadParts writes = List.replicate 4100 7)
      (holding ⟨12, 0x1000000, 40, 4100, 9, 1⟩ (List.replicate 4100 7) 4096) [] := by
  intro ⟨_, _, _, hrun, hq⟩
  have hready : Ready (holding ⟨12, 0x1000000, 40, 4100, 9, 1⟩ (List.replicate 4100 7) 4096).globals
      ⟨12, 0x1000000, 40, 4100, 9, 1⟩ (List.replicate 4100 7) :=
    ready_holding rfl (by rw [List.length_replicate]; rfl)
  obtain ⟨_, _, he⟩ := wlp_of_wp (wp_relayPass gatherEnv_takesAll hready (by decide)) _ _ _ hrun
  rw [he, foldl_gather, List.nil_append, payloadParts_relayWrites (by decide) (by decide)] at hq
  have hlen := congrArg List.length hq
  simp only [List.length_append, List.length_take, List.length_drop, List.length_replicate] at hlen
  have hcs : (holding ⟨12, 0x1000000, 40, 4100, 9, 1⟩ (List.replicate 4100 7) 4096).client.chunkSize
      = 4096 := rfl
  omega

end RtmpServer
