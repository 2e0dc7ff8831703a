import RtmpServer.ChunkHeader
import RtmpServer.Lib.Framing

/-!
# The two chunk loops

`write_message` cuts a payload into chunks, `ConnectMessage::read_payload` and
`recv_audio_video_payload` put the chunks of a payload together. The loops are
written independently; both are proved here against `Framing.framesFrom`, the
writer for what it leaves behind (`wp_writeChunks`), the reader for what it
needs in front of it (`wp_dechunk`).

Mirroring notes:
- `pos` and `iov[1].iov_base` of the writer are `header_size` plus
  `totol_payload_send` into the session's own buffer; the loop variable here is
  that sum's second part.
- the reader re-reads the message length before every chunk where the code
  does, so it takes a routine for it, and one for the chunk size.
-/

namespace RtmpServer

open Coroutine Coroutine.Prog Framing

/-! ## Writing -/

/-- The low byte of an `int`, which is all that a `char` keeps of it. -/
def lowByte (x : Int) : UInt8 := UInt8.ofNat (x % 256).toNat

/-- `(0x03 << 6) | (int8_t)csid`, the one byte in front of every chunk but the first. -/
def headerFmt3 (csid : Int) : UInt8 := 0xC0 ||| lowByte csid

/-- The vector of one chunk: the header or a fmt 3 basic header, and `len`
bytes of the payload. -/
def chunkIov (csid : Int) (headerSize sent len : Nat) (s : State) : Option Bytes := do
  let front ←
    if sent = 0 then bytesAt 0 headerSize (s.buffer .ioBuffer) else some [headerFmt3 csid]
  let chunk ← bytesAt (headerSize + sent) len (s.buffer .ioBuffer)
  return front ++ chunk

/-- The chunk loop of `IO_Message::write_message`; the buffer holds the header
in its first `headerSize` bytes and the payload up to `messageSize`. -/
def writeChunks (csid : Int) (headerSize messageSize : Nat) : Routine Int :=
  .iter (fun sent : Nat =>
    if headerSize + sent < messageSize then do
      let chunkSize ← gets fun s => s.client.chunkSize
      let len := min (messageSize - headerSize - sent) chunkSize
      let frontSize := if sent = 0 then headerSize else 1
      let (rc, nwrite) ← writev (chunkIov csid headerSize sent len) (frontSize + len)
      if rc = -1 then
        return .inr (-1)
      return .inl (sent + (nwrite - frontSize))
    else return .inr 0) 0

theorem writeChunks_keeps {R : State → State → Prop} (hrefl : ∀ s, R s s) (csid : Int)
    (headerSize messageSize : Nat) : (writeChunks csid headerSize messageSize).Keeps R :=
  fun _ => keeps_ite ⟨keeps_gets hrefl, fun _ => ⟨writev_keeps hrefl _ _, fun _ =>
    keeps_ite trivial trivial⟩⟩ trivial

/-- A peer that takes what each `writev` gives it, whole; `put` is what that
does to it. -/
def TakesAll {ε : Type} (env : Env st ε) (put : ε → Bytes → ε) : Prop :=
  ∀ bytes e, env (.writev bytes) e
    = some (.wrote bytes.length (WriteResult.all_le bytes), put e bytes)

theorem streamEnv_takesAll :
    TakesAll streamEnv fun e bytes => { e with out := e.out ++ bytes } :=
  fun _ _ => rfl

section

variable {ε : Type} {env : Env st ε} {put : ε → Bytes → ε} {s : State} {e : ε}

theorem wp_writevOnce_takes {bytes : Bytes} {Q : WriteResult bytes.length → State → ε → Prop}
    (htakes : TakesAll env put) :
    wp env (writevOnce bytes) Q s e
      ↔ Q (.wrote bytes.length (Nat.le_refl _)) s (put e bytes) := by
  rw [wp_writevOnce, htakes]
  refine ⟨fun hwritten => ?_, fun hq => ⟨_, _, rfl, hq⟩⟩
  obtain ⟨_, _, h, hq⟩ := hwritten
  cases h
  exact hq

/-- A gathered write hands over all the bytes of its vector: one round writes
them, and the next finds nothing left. -/
theorem wp_stWritev_takes {iov : State → Option Bytes} {bytes : Bytes}
    {Q : Option Nat → State → ε → Prop} (htakes : TakesAll env put) (hiov : iov s = some bytes)
    (hpos : 0 < bytes.length) :
    wp env (stWritev iov bytes.length) Q s e ↔ Q (some bytes.length) s (put e bytes) := by
  rw [stWritev, wp_iter]
  simp only [if_pos hpos, bind_eq, pure_eq, wp_bind, wp_read, hiov, Option.some.injEq,
    exists_eq_left']
  rw [wp_writevOnce_takes htakes]
  simp only [wp_ret, wp_again_inl, Nat.zero_add]
  rw [wp_iter]
  simp

theorem wp_writev_takes {iov : State → Option Bytes} {bytes : Bytes} {n : Nat}
    {Q : Int × Nat → State → ε → Prop} (htakes : TakesAll env put) (hiov : iov s = some bytes)
    (hn : bytes.length = n) (hpos : 0 < n) :
    wp env (writev iov n) Q s e ↔ Q (0, n) s (put e bytes) := by
  subst hn
  simp only [writev, bind_eq, pure_eq, wp_bind]
  rw [wp_stWritev_takes htakes hiov hpos]
  simp

end

theorem wp_writev_stream {iov : State → Option Bytes} {bytes : Bytes}
    {Q : Int × Nat → State → Stream → Prop} {s : State} {e : Stream} {n : Nat}
    (hiov : iov s = some bytes) (hn : bytes.length = n) :
    wp streamEnv (writev iov n) Q s e ↔ Q (0, n) s { e with out := e.out ++ bytes } := by
  rcases Nat.eq_zero_or_pos n with h0 | hpos
  · have hnil : bytes = [] := List.eq_nil_of_length_eq_zero (hn.trans h0)
    subst hnil h0
    simp only [writev, stWritev, bind_eq, pure_eq, wp_bind]
    rw [wp_iter]
    simp
  · exact wp_writev_takes streamEnv_takesAll hiov hn hpos

/-- A chunk's part of the payload, in a buffer with `hdr` in front. -/
theorem bytesAt_chunk {hdr payload : Bytes} {sent size : Nat} (hsent : sent < payload.length) :
    bytesAt (hdr.length + sent) (min (payload.length - sent) size) (hdr ++ payload)
      = some ((payload.drop sent).take size) := by
  have hsplit : hdr ++ payload = (hdr ++ payload.take sent)
      ++ ((payload.drop sent).take size ++ (payload.drop sent).drop size) := by
    rw [List.take_append_drop, List.append_assoc, List.take_append_drop]
  rw [hsplit]
  refine bytesAt_append ?_ ?_
  · rw [List.length_append, List.length_take]
    omega
  · rw [List.length_take, List.length_drop]
    omega

theorem chunkIov_eq {csid : Int} {hdr payload : Bytes} {s : State} {sent size : Nat}
    (hbuf : s.buffer .ioBuffer = hdr ++ payload) (hsent : sent < payload.length) :
    chunkIov csid hdr.length sent (min (payload.length - sent) size) s
      = some ((if sent = 0 then hdr else [headerFmt3 csid]) ++ (payload.drop sent).take size) := by
  have hfront : bytesAt 0 hdr.length (s.buffer .ioBuffer) = some hdr := by
    have h : bytesAt 0 hdr.length ([] ++ (hdr ++ payload)) = some hdr := bytesAt_append rfl rfl
    rwa [hbuf]
  have hchunk : bytesAt (hdr.length + sent) (min (payload.length - sent) size) (s.buffer .ioBuffer)
      = some ((payload.drop sent).take size) := by
    rw [hbuf]
    exact bytesAt_chunk hsent
  unfold chunkIov
  by_cases h0 : sent = 0
  · subst h0
    simp [hfront, show bytesAt hdr.length (min payload.length size) (s.buffer .ioBuffer)
      = some (payload.take size) from hchunk]
  · simp [h0, hchunk]

/-- The chunk loop leaves the header, the payload cut into chunks, and the
fmt 3 headers between them; nothing at all if the payload is empty. -/
theorem wp_writeChunks {csid : Int} {hdr payload : Bytes} {Q : Int → State → Stream → Prop}
    {s : State} {inp out : Bytes} (hbuf : s.buffer .ioBuffer = hdr ++ payload)
    (hcs : 0 < s.client.chunkSize) (hne : payload ≠ [])
    (hQ : Q 0 s ⟨inp, out ++ frame [headerFmt3 csid] s.client.chunkSize hdr payload⟩) :
    wp streamEnv (writeChunks csid hdr.length (hdr.length + payload.length)) Q s ⟨inp, out⟩ := by
  have hpos : 0 < payload.length := List.length_pos_iff.mpr hne
  -- what is written and what is still to be written make up the frames
  refine wp_iter_of_inv (fun sent s' e => s' = s ∧ sent ≤ payload.length ∧
      ∃ written, e = ⟨inp, written⟩ ∧
        written ++ framesFrom [headerFmt3 csid] s.client.chunkSize hdr payload sent
          = out ++ frame [headerFmt3 csid] s.client.chunkSize hdr payload)
    (fun sent _ _ => payload.length - sent) ?_
    ⟨rfl, Nat.zero_le _, out, rfl, by rw [framesFrom_zero]⟩
  intro sent s' e ⟨hs, hle, written, he, hout⟩
  subst hs he
  by_cases hlt : sent < payload.length
  · have hmore : hdr.length + sent < hdr.length + payload.length := by omega
    have hrem : hdr.length + payload.length - hdr.length - sent = payload.length - sent := by omega
    have hlen : ((if sent = 0 then hdr else [headerFmt3 csid])
          ++ (payload.drop sent).take s'.client.chunkSize).length
        = (if sent = 0 then hdr.length else 1)
          + min (payload.length - sent) s'.client.chunkSize := by
      rw [List.length_append, List.length_take, List.length_drop, Nat.min_comm]
      split <;> rfl
    simp only [if_pos hmore, hrem, bind_eq, pure_eq, wp_bind, wp_gets]
    rw [wp_writev_stream (chunkIov_eq hbuf hlt) hlen, if_neg (by simp), wp_ret]
    rw [framesFrom_step hcs hlt, ← List.append_assoc, ← List.append_assoc,
      List.append_assoc written] at hout
    simp only [Nat.add_sub_cancel_left]
    exact ⟨⟨trivial, by omega, _, rfl, hout⟩, by omega⟩
  · have hmore : ¬ hdr.length + sent < hdr.length + payload.length := by omega
    rw [framesFrom_end (by omega) (by omega), List.append_nil] at hout
    simp only [if_neg hmore, pure_eq, wp_ret]
    rw [hout]
    exact hQ

/-! ## Reading -/

/-- The chunk loop of `ConnectMessage::read_payload` and of `recv_audio_video_payload`;
`nread` counts payload bytes. Behind each full chunk it reads one byte more, and cuts out
the byte in front of what follows. -/
def dechunk (b : Buffer) (messageLength : Routine Int) (chunkSize : Routine Nat) : Routine Int :=
  .iter (fun nread : Nat => do
    let messageLength ← messageLength
    if (nread : Int) < messageLength then
      let chunkSize ← chunkSize
      let remaining := (messageLength - nread).toNat
      -- from the second chunk on there is a basic header in front
      let nBytes := min remaining chunkSize + if 0 < nread then 1 else 0
      let size ← gets fun s => (s.buffer b).length
      let (rc, temp) ← readNbytesCycleOn b (nBytes + size)
      if rc = -1 then
        return .inr (-1)
      if 0 < nread then
        let temp := temp - 1
        modify fun s => s.setBuffer b ((s.buffer b).eraseIdx ((s.buffer b).length - 1 - temp))
        return .inl (nread + temp)
      return .inl (nread + temp)
    else return .inr 0) 0

/-- Cutting out the byte in front of the last `x.length` ones leaves what is around it. -/
theorem eraseIdx_front (pre x : Bytes) (c : UInt8) :
    (pre ++ c :: x).eraseIdx ((pre ++ c :: x).length - 1 - x.length) = pre ++ x := by
  have hidx : (pre ++ c :: x).length - 1 - x.length = pre.length := by
    simp only [List.length_append, List.length_cons]
    omega
  rw [hidx, List.eraseIdx_append_of_length_le (Nat.le_refl _), Nat.sub_self, List.eraseIdx_zero,
    List.tail_cons]

/-- The chunks of a payload in the stream become the payload in the buffer,
whatever bytes stand between them. -/
theorem wp_dechunk {b : Buffer} {messageLength : Routine Int} {chunkSize : Routine Nat}
    {payload rest out : Bytes} {size : Nat} {c : UInt8} {Q : Int → State → Stream → Prop}
    {s : State}
    (hml : ∀ {Q e} bytes, wp streamEnv messageLength Q (s.append b bytes) e
      ↔ Q payload.length (s.append b bytes) e)
    (hcs : ∀ {Q e} bytes, wp streamEnv chunkSize Q (s.append b bytes) e
      ↔ Q size (s.append b bytes) e)
    (hsize : 0 < size) (hQ : Q 0 (s.append b payload) ⟨rest, out⟩) :
    wp streamEnv (dechunk b messageLength chunkSize) Q s
      ⟨frame [c] size [] payload ++ rest, out⟩ := by
  -- the buffer holds what was read of the payload, the stream what is left of the frames
  refine wp_iter_of_inv (fun nread s' e => nread ≤ payload.length ∧
      s' = s.append b (payload.take nread) ∧
      e = ⟨framesFrom [c] size [] payload nread ++ rest, out⟩)
    (fun nread _ _ => payload.length - nread) ?_
    ⟨Nat.zero_le _, by simp, by rw [framesFrom_zero]⟩
  intro nread s' e ⟨hle, hs, he⟩
  subst hs he
  simp only [bind_eq, pure_eq, wp_bind]
  rw [hml]
  by_cases hlt : nread < payload.length
  · have hmore : (nread : Int) < payload.length := by omega
    have hrem : ((payload.length : Int) - nread).toNat = payload.length - nread := by omega
    rw [if_pos hmore, wp_bind, hcs, hrem, wp_bind, wp_gets, framesFrom_step hsize hlt]
    have hchunk : ((payload.drop nread).take size).length = min (payload.length - nread) size := by
      rw [List.length_take, List.length_drop, Nat.min_comm]
    have htake : payload.take nread ++ (payload.drop nread).take size
        = payload.take (nread + min (payload.length - nread) size) := by
      rw [List.take_add]
      congr 1
      rw [List.take_eq_take_iff, List.length_drop]
      omega
    rcases Nat.eq_zero_or_pos nread with h0 | hpos
    · -- the first chunk comes without a header
      subst h0
      rw [if_pos rfl, List.nil_append, List.append_assoc, wp_bind,
        wp_readNbytesCycleOn_append (by simp only [hchunk, if_neg (Nat.lt_irrefl 0)]; omega)]
      rw [if_neg (by simp), if_neg (Nat.lt_irrefl 0), wp_ret]
      exact ⟨⟨by omega, by rw [hchunk, ← htake]; simp, by rw [hchunk]⟩, by omega⟩
    · have hfront : [c] ++ ((payload.drop nread).take size
            ++ framesFrom [c] size [] payload (nread + min (payload.length - nread) size)) ++ rest
          = (c :: (payload.drop nread).take size)
            ++ (framesFrom [c] size [] payload (nread + min (payload.length - nread) size)
              ++ rest) := by simp
      rw [if_neg (by omega : ¬ nread = 0), hfront, wp_bind,
        wp_readNbytesCycleOn_append (by simp only [hchunk, if_pos hpos, List.length_cons]; omega)]
      rw [if_neg (by simp), if_pos hpos]
      have herase := eraseIdx_front (s.buffer b ++ payload.take nread)
        ((payload.drop nread).take size) c
      have hbuf : ((s.append b (payload.take nread)).append b
            (c :: (payload.drop nread).take size)).buffer b
          = (s.buffer b ++ payload.take nread) ++ c :: (payload.drop nread).take size := by simp
      rw [wp_bind, wp_modify, wp_ret, hbuf, List.length_cons, Nat.add_sub_cancel, herase, hchunk]
      refine ⟨⟨by omega, ?_, rfl⟩, by omega⟩
      rw [State.append_setBuffer, State.append_setBuffer, ← htake, List.append_assoc]
      rfl
  · have hmore : ¬ (nread : Int) < payload.length := by omega
    have heq : nread = payload.length := by omega
    rw [if_neg hmore, wp_ret]
    have hend : framesFrom [c] size [] payload nread = [] := by
      rcases Nat.eq_zero_or_pos nread with h0 | hpos
      · rw [h0, framesFrom_zero, frame_short (by omega), List.nil_append]
        exact List.eq_nil_of_length_eq_zero (by omega)
      · exact framesFrom_end hpos (by omega)
    rw [hend, heq, List.take_length, List.nil_append]
    exact hQ

/-- Whatever comes in, the chunk loop makes of it what a reader of frames does. -/
theorem wlp_dechunk {ε : Type} {env : Env st ε} {b : Buffer} {took : ε → Bytes → ε → Prop}
    {messageLength : Routine Int} {chunkSize : Routine Nat} {ml : Int} {size : Nat} {s : State}
    {e : ε} (hacc : Account env took)
    (hml : ∀ {Q e'} bytes, wlp env messageLength Q (s.append b bytes) e'
      ↔ Q ml (s.append b bytes) e')
    (hcs : ∀ {Q e'} bytes, wlp env chunkSize Q (s.append b bytes) e'
      ↔ Q size (s.append b bytes) e') :
    wlp env (dechunk b messageLength chunkSize) (fun rc s' e' => ∃ p payload, took e p e' ∧
      s' = s.append b payload ∧ (rc = -1 ∧ unframe size ml.toNat p = none ∨
        rc = 0 ∧ ∀ rest, unframe size ml.toNat (p ++ rest) = some (payload, rest))) s e := by
  generalize hn : ml.toNat = n
  -- what is read so far, and what the reader of frames makes of anything that follows
  refine wlp_iter_of_inv (fun (nread : Nat) s' e' => nread ≤ n ∧ (size = 0 → nread = 0) ∧
    ∃ p done, took e p e' ∧ done.length = nread ∧ s' = s.append b done ∧
    ∀ more, unframe size n (p ++ more) = (if nread = 0 then unframe size n more
        else unframeNext size (n - nread) more).map fun r => (done ++ r.1, r.2))
    ?_ ⟨Nat.zero_le _, fun _ => rfl, [], [], hacc.nil e, rfl, (State.append_nil s b).symm, ?_⟩
  · intro nread s' e' hinv
    obtain ⟨hle, hstay, p, done, hp, hdone, hs, hread⟩ := hinv
    subst hs
    simp only [bind_eq, pure_eq, wlp_bind]
    rw [hml]
    by_cases hlt : nread < n
    · have hrem : (ml - nread).toNat = n - nread := by omega
      rw [if_pos (by omega), wlp_bind, hcs, hrem, wlp_bind, wlp_gets, wlp_bind]
      refine wlp_mono (wlp_readNbytesCycleOn_received hacc) fun r s1 e1 hreceived => ?_
      obtain ⟨x, hx, h⟩ := hreceived
      have hpx : took e (p ++ x) e1 := hacc.append hp hx
      simp only [Nat.add_sub_cancel] at h
      rcases Nat.eq_zero_or_pos size with hsize | hsize
      · -- nothing is asked for, and the loop goes round
        have h0 := hstay hsize
        subst hsize h0
        rw [Nat.min_zero, if_neg (Nat.lt_irrefl 0)] at h
        rcases h with ⟨-, -, hshort⟩ | ⟨hr, hs1, hlen⟩
        · exact absurd hshort (Nat.not_lt_zero _)
        · have hnil : x = [] := List.eq_nil_of_length_eq_zero hlen
          subst hs1 hr hnil
          rw [if_neg (by simp), if_neg (Nat.lt_irrefl 0), wlp_ret]
          exact ⟨Nat.zero_le _, fun _ => rfl, p, done, by simpa using hpx, hdone,
            State.append_nil .., hread⟩
      rcases h with ⟨hrc, hs1, hshort⟩ | ⟨hr, hs1, hlen⟩
      · subst hs1
        rw [if_pos hrc, wlp_ret]
        refine ⟨p ++ x, done, hpx, rfl, Or.inl ⟨rfl, ?_⟩⟩
        rw [hread]
        by_cases h0 : nread = 0
        · rw [if_neg (by omega)] at hshort
          rw [if_pos h0, unframe_short hsize (by omega)]
          rfl
        · rw [if_pos (by omega)] at hshort
          have hdrop : (x.drop 1).length < n - nread := by
            rw [List.length_drop]
            omega
          rw [if_neg h0, unframeNext, if_neg (by omega), unframe_short hsize hdrop]
          rfl
      subst hs1 hr
      rw [if_neg (by simp)]
      rcases Nat.eq_zero_or_pos nread with h0 | hpos
      · rw [if_neg (by omega), Nat.add_zero] at hlen
        have hnil : done = [] := List.eq_nil_of_length_eq_zero (hdone.trans h0)
        subst hnil h0
        rw [if_neg (Nat.lt_irrefl 0), wlp_ret]
        refine ⟨by dsimp only; omega, fun h => by omega, p ++ x, x, hpx,
          by simp, by simp, fun more => ?_⟩
        rw [List.append_assoc, hread, if_pos rfl, unframe_step hsize (by omega),
          if_neg (by dsimp only; omega), Option.map_map]
        simp only [Nat.zero_add]
        rfl
      · rw [if_pos hpos] at hlen
        obtain ⟨c, y, rfl⟩ : ∃ c y, x = c :: y := List.exists_cons_of_length_pos (by omega)
        rw [List.length_cons, Nat.add_right_cancel_iff] at hlen
        have herase := eraseIdx_front (s.buffer b ++ done) y c
        have hbuf : ((s.append b done).append b (c :: y)).buffer b
            = (s.buffer b ++ done) ++ c :: y := by simp
        rw [if_pos hpos, wlp_bind, wlp_modify, wlp_ret, hbuf, List.length_cons,
          Nat.add_sub_cancel, herase]
        refine ⟨by omega, fun h => by omega, p ++ c :: y, done ++ y, hpx,
          by rw [List.length_append, hdone], ?_,
          fun more => ?_⟩
        · rw [State.append_setBuffer, State.append_setBuffer, List.append_assoc]
          rfl
        · have hsub : n - nread - y.length = n - (nread + y.length) := by omega
          rw [List.append_assoc, hread, if_neg (by omega), unframeNext, if_neg (by omega),
            List.cons_append, List.drop_one, List.tail_cons, unframe_step hsize hlen,
            if_neg (by omega), hsub, Option.map_map]
          congr 1
          funext r
          simp
    · have heq : nread = n := by omega
      rw [if_neg (by omega), wlp_ret]
      refine ⟨p, done, hp, rfl, Or.inr ⟨rfl, fun rest => ?_⟩⟩
      rw [hread]
      by_cases h0 : nread = 0
      · have hnil : done = [] := List.eq_nil_of_length_eq_zero (hdone.trans h0)
        rw [if_pos h0, unframe, dif_pos (by omega), if_pos (by omega), ← heq, h0, hnil]
        simp
      · rw [if_neg h0, unframeNext, if_pos (by omega)]
        simp
  · intro more
    rw [if_pos rfl]
    simp

end RtmpServer
