import Mathlib.Data.List.Forall2
import RtmpServer.Lib.Calls
import RtmpServer.Clients
import RtmpServer.Threads
import RtmpServer.Undisturbed

/-!
# What a client hears

Every byte that a session writes is part of the handshake or of a message that
the code sends, and what it is depends on nothing but the line, the chunk size
and, for `OnMetaData`, the announced list: the messages are put together in the
session's own buffer, so that neither the others nor the pieces in which the
socket takes the bytes can do anything to them. `Session.hears` says so for
every run of a session, call by call.

The chunk size is 128 up to `announceChunkSize` and 4096 behind it
(`Session.chunkSize_eq`), so a session whose calls have returned 0 has written
the `transcript` of its lines (`Session.hears_transcript`).
-/

namespace RtmpServer

open Coroutine Coroutine.Prog Endian Framing

/-! ## Calls that write nothing -/

/-- The call is a read of the socket. -/
def Call.Reads : Call → Prop
  | .stReadFully _ => True
  | _ => False

/-- The call writes nothing, be it a read or a pause. -/
def Call.Quiet : Call → Prop
  | .writev _ => False
  | _ => True

/-- A read writes nothing. -/
theorem Call.Reads.quiet (c : Call) (h : c.Reads) : c.Quiet := by
  cases c with
  | writev bytes => exact h
  | _ => trivial

/-- The read in one step makes reads only. -/
theorem readNbytesOn_reads (b : Buffer) (n : Nat) : (readNbytesOn b n).CallsOnly Call.Reads := by
  refine ⟨trivial, fun size => callsOnly_ite ⟨⟨trivial, fun _ => trivial⟩, fun r => ?_⟩ trivial⟩
  cases r with
  | error => exact trivial
  | data bytes _ => exact callsOnly_ite trivial ⟨trivial, fun _ => trivial⟩

/-- So does the exact read, in every round of its loop. -/
theorem readNbytesCycleOn_reads (b : Buffer) (n : Nat) :
    (readNbytesCycleOn b n).CallsOnly Call.Reads := by
  have hcycle : ∀ missing, (readCycle missing).CallsOnly Call.Reads := by
    intro missing buffer
    refine callsOnly_ite ⟨⟨trivial, fun _ => trivial⟩, fun r => ?_⟩ trivial
    cases r with
    | error => exact trivial
    | data bytes _ => exact callsOnly_ite trivial trivial
  exact ⟨trivial, fun size => callsOnly_ite ⟨hcycle _, fun r => callsOnly_ite trivial
    ⟨trivial, fun _ => trivial⟩⟩ trivial⟩

/-- And with them the basic header of a control message. -/
theorem readBasicHeader_reads : readBasicHeader.CallsOnly Call.Reads := by
  refine ⟨readNbytesCycleOn_reads _ _, fun r => callsOnly_ite trivial ⟨trivial, fun bh =>
    ⟨trivial, fun _ => callsOnly_ite ?_ (callsOnly_ite ?_ trivial)⟩⟩⟩
  · exact ⟨readNbytesOn_reads _ _, fun rc => callsOnly_ite trivial ⟨trivial, fun b1 =>
      ⟨trivial, fun _ => trivial⟩⟩⟩
  · exact ⟨readNbytesOn_reads _ _, fun rc => callsOnly_ite trivial ⟨trivial, fun b1 =>
      ⟨trivial, fun b2 => ⟨trivial, fun _ => trivial⟩⟩⟩⟩

/-- Its message header makes reads only, the extended timestamp included. -/
theorem readMessageHeader_reads (fmt : Nat) (csid : Int) (bhSize : Nat) :
    (readMessageHeader fmt csid bhSize).CallsOnly Call.Reads := by
  have hdelta : (controlDelta fmt bhSize).CallsOnly Call.Reads :=
    callsOnly_ite ⟨trivial, fun _ => trivial⟩ trivial
  have hstore : (storeMessageLength fmt csid bhSize).CallsOnly Call.Reads :=
    callsOnly_ite ⟨trivial, fun _ => trivial⟩ trivial
  exact ⟨readNbytesCycleOn_reads _ _, fun r => callsOnly_ite trivial ⟨hdelta, fun delta =>
    ⟨hstore, fun _ => callsOnly_ite ⟨readNbytesCycleOn_reads _ _, fun r =>
      callsOnly_ite trivial trivial⟩ trivial⟩⟩⟩

/-- A lookup makes no call at all. -/
theorem lookup_reads {α : Type} (csid : Int) (field : MessageHeader → α) :
    (lookup csid field).CallsOnly Call.Reads :=
  ⟨trivial, fun _ => trivial⟩

/-- So every call that receives a message only reads, whatever the class of the message. -/
theorem Received.recv_reads (type : Received) : type.recv.CallsOnly Call.Reads := by
  have hfetch : ∀ bhSize mhSize messageLength chunkSize,
      (type.fetch bhSize mhSize messageLength chunkSize).CallsOnly Call.Reads := by
    intro bhSize mhSize messageLength chunkSize
    have hwhole : (readWhole bhSize mhSize messageLength).CallsOnly Call.Reads :=
      ⟨readNbytesCycleOn_reads _ _, fun _ => trivial⟩
    cases type with
    | connectMessage =>
      exact fun nread => ⟨trivial, fun ml => callsOnly_ite ⟨trivial, fun cs => ⟨trivial,
        fun size => ⟨readNbytesCycleOn_reads _ _, fun r => callsOnly_ite trivial
          (callsOnly_ite ⟨trivial, fun _ => trivial⟩ trivial)⟩⟩⟩ trivial⟩
    | _ => exact hwhole
  have hparse : ∀ headerSize, (type.parsePayload headerSize).CallsOnly Call.Reads := by
    intro headerSize
    cases type with
    | _ => exact trivial
  have hpayload : ∀ bhSize mhSize messageLength chunkSize,
      (type.readPayload bhSize mhSize messageLength chunkSize).CallsOnly Call.Reads := by
    intro bhSize mhSize messageLength chunkSize
    rw [type.readPayload_eq]
    exact ⟨hfetch _ _ _ _, fun rc => callsOnly_ite trivial (hparse _)⟩
  exact ⟨readBasicHeader_reads, fun _ => callsOnly_ite trivial ⟨readMessageHeader_reads _ _ _,
    fun _ => callsOnly_ite trivial ⟨lookup_reads _ _, fun _ => ⟨trivial, fun _ =>
      ⟨hpayload _ _ _ _, fun _ => callsOnly_ite trivial trivial⟩⟩⟩⟩⟩

/-- And so does the question which flow it is. -/
theorem readHeaderGetPayloadLength_reads : readHeaderGetPayloadLength.CallsOnly Call.Reads :=
  ⟨readBasicHeader_reads, fun _ => callsOnly_ite trivial ⟨readMessageHeader_reads _ _ _,
    fun _ => callsOnly_ite trivial (lookup_reads _ _)⟩⟩

/-- The wait for the metadata neither reads nor writes. -/
theorem waitMetaData_quiet : waitMetaData.CallsOnly Call.Quiet :=
  fun _ => ⟨trivial, fun _ => callsOnly_ite ⟨⟨trivial, fun _ => trivial⟩, fun _ => trivial⟩ trivial⟩

/-! ## What the calls write -/

/-- `out` is what a socket has been written; a `writev` that failed may have
written a front part. -/
structure Hears {ε : Type} (env : Env (st.amid Others) ε) (out : ε → Bytes) : Prop where
  wrote : ∀ {bytes n h o e e'}, env (.writev bytes) e = some ((.wrote n h, o), e') →
    out e' = out e ++ bytes.take n
  failed : ∀ {bytes o e e'}, env (.writev bytes) e = some ((.error, o), e') →
    ∃ x, x <+: bytes ∧ out e' = out e ++ x
  quiet : ∀ {c r e e'}, Call.Quiet c → env c e = some (r, e') → out e' = out e

/-- A call that is to write `bytes` has written them, or a front part of them if
it failed. -/
def Wrote {ε : Type} (out : ε → Bytes) (bytes : Bytes) (e : ε) (rc : Int) (e' : ε) : Prop :=
  ∃ x, x <+: bytes ∧ out e' = out e ++ x ∧ (rc = 0 → x = bytes)

section

variable {ε : Type} {env : Env (st.amid Others) ε} {out : ε → Bytes} {s : State} {e : ε}

/-- A quiet call writes nothing, so the socket has been written what it was before. -/
theorem wlp_quiet {α : Type} (hout : Hears env out) {p : Routine α}
    (hp : p.CallsOnly Call.Quiet) :
    wlp env (p.amid Others.apply) (fun _ _ e' => out e' = out e) s e :=
  CallsOnly.wlp (R := fun e e' => out e' = out e) (fun _ => rfl) (fun _ _ _ h h' => h'.trans h)
    (fun _ _ _ _ hc => hout.quiet hc) _ (hp.amid Others.apply _)

/-- A call that is to write nothing has done so. -/
theorem wrote_nil {e' : ε} {rc : Int} (h : out e' = out e) : Wrote out [] e rc e' :=
  ⟨[], List.prefix_refl [], by rw [h, List.append_nil], fun _ => rfl⟩

/-- A gathered write of what the session has in its own memory: all of it, or a
front part. -/
theorem wlp_stWritev_hears (hout : Hears env out) {iov : State → Option Bytes} {bytes : Bytes}
    {n : Nat} (hiov : ∀ s', s'.client = s.client → iov s' = some bytes) (hn : bytes.length = n) :
    wlp env ((stWritev iov n).amid Others.apply) (fun r s' e' => s'.client = s.client ∧
      ∃ x, x <+: bytes ∧ out e' = out e ++ x ∧ ∀ k, r = some k → k = n ∧ x = bytes) s e := by
  unfold stWritev
  rw [amid_iter]
  refine wlp_iter_of_inv (fun written s' e' => s'.client = s.client ∧ written ≤ n ∧
    out e' = out e ++ bytes.take written) ?_ ⟨rfl, Nat.zero_le _, by simp⟩
  intro written s1 e1 hinv
  obtain ⟨hs1, hle, he1⟩ := hinv
  by_cases hlt : written < n
  · rw [if_pos hlt, bind_eq, amid_bind, wlp_bind, amid_read, wlp_read]
    intro memory hmem
    rw [hiov s1 hs1, Option.some.injEq] at hmem
    subst hmem
    rw [bind_eq, amid_bind, wlp_bind]
    refine (wlp_amid_call Others.apply).mpr fun r o e2 hr => wlp_ret.mpr ?_
    cases r with
    | error =>
      rw [pure_eq, amid_ret, wlp_ret]
      obtain ⟨x, hx, he2⟩ := hout.failed hr
      refine ⟨hs1, bytes.take written ++ x, ?_, by rw [he2, he1, List.append_assoc], ?_⟩
      · -- what the failed call has sent comes behind what was written before it
        obtain ⟨rest, hrest⟩ := hx
        exact ⟨rest, by rw [List.append_assoc, hrest, List.take_append_drop]⟩
      · intro k hk
        cases hk
    | wrote k hk =>
      dsimp only
      rw [pure_eq, amid_ret, wlp_ret]
      rw [List.length_drop] at hk
      refine ⟨hs1, by omega, ?_⟩
      rw [hout.wrote hr, he1, List.append_assoc, List.take_add]
  · have hall : written = n := by omega
    rw [if_neg hlt, pure_eq, amid_ret, wlp_ret]
    have htake : bytes.take written = bytes := List.take_of_length_le (by omega)
    refine ⟨hs1, bytes, List.prefix_refl bytes, by rw [he1, htake], ?_⟩
    intro k hk
    cases hk
    exact ⟨rfl, rfl⟩

/-- A `writev` of bytes that the session itself holds: a front part of them, and all of them
unless it returns `-1`. -/
theorem wlp_writev_hears (hout : Hears env out) {iov : State → Option Bytes} {bytes : Bytes}
    {n : Nat} (hiov : ∀ s', s'.client = s.client → iov s' = some bytes) (hn : bytes.length = n) :
    wlp env ((writev iov n).amid Others.apply) (fun r s' e' => s'.client = s.client ∧
      ∃ x, x <+: bytes ∧ out e' = out e ++ x ∧ (r.1 = -1 ∨ r = (0, n) ∧ x = bytes)) s e := by
  unfold writev
  rw [bind_eq, amid_bind, wlp_bind]
  refine wlp_mono (wlp_stWritev_hears hout hiov hn) fun r s1 e1 hr => ?_
  obtain ⟨hs1, x, hx, he1, hall⟩ := hr
  cases r with
  | none =>
    rw [pure_eq, amid_ret, wlp_ret]
    exact ⟨hs1, x, hx, he1, Or.inl rfl⟩
  | some k =>
    obtain ⟨hk, hxall⟩ := hall k rfl
    dsimp only
    rw [pure_eq, amid_ret, wlp_ret, hk]
    exact ⟨hs1, x, hx, he1, Or.inr ⟨rfl, hxall⟩⟩

/-- The chunk loop: the frames of the payload, or a front part of them. -/
theorem wlp_writeChunks_hears (hout : Hears env out) {csid : Int} {hdr payload : Bytes}
    (hbuf : s.buffer .ioBuffer = hdr ++ payload) (hcs : 0 < s.client.chunkSize)
    (hne : payload ≠ []) :
    wlp env ((writeChunks csid hdr.length (hdr.length + payload.length)).amid Others.apply)
      (fun rc _ e' => Wrote out (frame [headerFmt3 csid] s.client.chunkSize hdr payload) e rc e')
      s e := by
  have hpos : 0 < payload.length := List.length_pos_iff.mpr hne
  unfold writeChunks
  rw [amid_iter]
  -- what is written and what is still to be written make up the frames
  refine wlp_iter_of_inv (fun sent s' e' => s'.client = s.client ∧ sent ≤ payload.length ∧
      ∃ written, out e' = out e ++ written ∧
        written ++ framesFrom [headerFmt3 csid] s.client.chunkSize hdr payload sent
          = frame [headerFmt3 csid] s.client.chunkSize hdr payload)
    ?_ ⟨rfl, Nat.zero_le _, [], (List.append_nil _).symm, by rw [framesFrom_zero]; rfl⟩
  intro sent s1 e1 hinv
  obtain ⟨hs1, hle, written, he1, hframes⟩ := hinv
  by_cases hlt : sent < payload.length
  · have hmore : hdr.length + sent < hdr.length + payload.length := by omega
    have hrem : hdr.length + payload.length - hdr.length - sent = payload.length - sent := by omega
    have hlen : ((if sent = 0 then hdr else [headerFmt3 csid])
          ++ (payload.drop sent).take s.client.chunkSize).length
        = (if sent = 0 then hdr.length else 1)
          + min (payload.length - sent) s.client.chunkSize := by
      rw [List.length_append, List.length_take, List.length_drop, Nat.min_comm]
      split
      · rfl
      · rfl
    have hiov : ∀ s', s'.client = s1.client →
        chunkIov csid hdr.length sent (min (payload.length - sent) s.client.chunkSize) s'
          = some ((if sent = 0 then hdr else [headerFmt3 csid])
            ++ (payload.drop sent).take s.client.chunkSize) := by
      intro s' hs'
      refine chunkIov_eq ?_ hlt
      show s'.client.ioBuffer = hdr ++ payload
      rw [hs', hs1]
      exact hbuf
    rw [if_pos hmore, bind_eq, amid_bind, wlp_bind, amid_gets, wlp_gets, hs1]
    simp only [hrem]
    rw [bind_eq, amid_bind, wlp_bind]
    refine wlp_mono (wlp_writev_hears hout hiov hlen) fun r s2 e2 hr => ?_
    rw [framesFrom_step hcs hlt, ← List.append_assoc (if sent = 0 then hdr else [headerFmt3 csid]),
      ← List.append_assoc written] at hframes
    obtain ⟨hs2, x, hx, he2, hrc | ⟨hr, hxall⟩⟩ := hr
    · rw [if_pos hrc, pure_eq, amid_ret, wlp_ret]
      refine ⟨written ++ x, ?_, by rw [he2, he1, List.append_assoc], fun h => ?_⟩
      · rw [← hframes]
        exact ((List.prefix_append_right_inj written).mpr hx).trans (List.prefix_append _ _)
      · cases h
    · have hrc : r.1 ≠ -1 := by
        rw [hr]
        exact fun h => by cases h
      rw [if_neg hrc, pure_eq, amid_ret, wlp_ret, hr]
      refine ⟨hs2.trans hs1, ?_, written ++ x, by rw [he2, he1, List.append_assoc], ?_⟩
      · dsimp only
        omega
      · rw [hxall]
        dsimp only
        rw [Nat.add_sub_cancel_left]
        exact hframes
  · rw [if_neg (by omega), pure_eq, amid_ret, wlp_ret]
    rw [framesFrom_end (by omega) (by omega), List.append_nil] at hframes
    exact ⟨written, hframes ▸ List.prefix_refl _, he1, fun _ => hframes⟩

/-- A message whose payload is put together in the session's own buffer is written as it
stands there, whatever the others do. -/
theorem wlp_writeMessage_hears (hout : Hears env out) {writePayload : Routine Int} {fmt : Nat}
    {csid : Int} {timestamp : BitVec 32} {messageLength : Int} {type : UInt8}
    {streamId : BitVec 32} {payload : Bytes} (hempty : s.buffer .ioBuffer = [])
    (hcs : 0 < s.client.chunkSize) (hne : payload ≠ [])
    (hpayload : wlp env (writePayload.amid Others.apply) (fun rc t e' => rc = 0 ∧ e' = e ∧
        t.client.chunkSize = s.client.chunkSize ∧ t.buffer .ioBuffer
          = headerBytes fmt csid timestamp messageLength type streamId ++ payload)
      (s.append .ioBuffer (headerBytes fmt csid timestamp messageLength type streamId)) e) :
    wlp env ((writeMessage writePayload fmt csid timestamp messageLength type streamId).amid
      Others.apply) (fun rc _ e' => Wrote out (frame [headerFmt3 csid] s.client.chunkSize
        (headerBytes fmt csid timestamp messageLength type streamId) payload) e rc e') s e := by
  unfold writeMessage writeHeader
  simp only [bind_eq, pure_eq, amid_bind, amid_ite, amid_ret, amid_modify, amid_gets, wlp_bind,
    wlp_modify, wlp_ret]
  rw [if_neg (by decide), wlp_bind, wlp_gets, wlp_bind]
  refine wlp_mono hpayload fun rc t e1 ht => ?_
  obtain ⟨hrc, he1, ht, hbuf⟩ := ht
  rw [if_neg (by rw [hrc]; decide), wlp_bind, wlp_gets, hbuf, State.buffer_append, hempty,
    List.nil_append, List.length_append, he1, ← ht]
  exact wlp_writeChunks_hears hout hbuf (by rw [ht]; exact hcs) hne

end

/-! ## What the calls are to write -/

namespace Send

/-- What `write_payload` puts behind the header, for a message that is declared with its
size. -/
def payload (m : Send) : Bytes := (m.message.writePayload.map Prod.fst).getD []

/-- The message on the wire: its header and its payload, with the continuation headers that
the chunk size asks for. -/
def wire (chunkSize : Nat) (m : Send) : Bytes :=
  frame [headerFmt3 m.csid] chunkSize m.header m.payload

end Send

namespace Step

/-- All that the call is to write, when the list of announced properties is
`frame`. -/
def speech (chunkSize : Nat) (frame : List Property) : Step → Bytes
  | handshake => helloBack
  | send m => m.wire chunkSize
  | announceChunkSize => Send.setChunkSize.wire chunkSize
  | sendOnMetaData => Framing.frame [headerFmt3 4] chunkSize (headerBytes 0 4 0 395 18 1)
      (onMetaDataPayload (frame ++ [serverEntry]))
  | _ => []

/-- The two loops do not come to an end, so their calls are not among these. -/
def loops : Step → Bool
  | relayLoop => true
  | publishLoop => true
  | _ => false

/-- A message that `process_thread` sends is one of those in `Send.fixed`, whose payloads
are known. -/
def sendsFixed : Step → Bool
  | send m => decide (m ∈ Send.fixed)
  | _ => true

end Step

/-- So it is with every line of the flows. -/
theorem sendsFixed_of_part {part : List Line} (hpart : part ∈ Line.parts) {line : Line}
    (hline : line ∈ part) : line.step.sendsFixed = true := by
  have hall : ∀ part ∈ Line.parts, ∀ line ∈ part, line.step.sendsFixed = true := by decide +kernel
  exact hall part hpart line hline

section

variable {ε : Type} {env : Env (st.amid Others) ε} {out : ε → Bytes} {s : State} {e : ε}

/-- Such a message is heard as it is on the wire. -/
theorem wlp_send_hears (hout : Hears env out) {m : Send} (hm : m.Declared)
    (hempty : s.buffer .ioBuffer = []) (hcs : 0 < s.client.chunkSize) :
    wlp env (m.write.amid Others.apply)
      (fun rc _ e' => Wrote out (m.wire s.client.chunkSize) e rc e') s e := by
  obtain ⟨payload, hpush, _, hne⟩ := hm
  have hpayload : m.payload = payload := by
    rw [Send.payload, hpush]
    rfl
  rw [Send.wire, hpayload]
  refine wlp_writeMessage_hears hout hempty hcs hne ?_
  rw [hpush, wlp_amid_run_push, State.append_append, State.append_chunkSize, State.buffer_append,
    hempty]
  exact ⟨rfl, rfl, rfl, rfl⟩

/-- So is `OnMetaData`, with the list that the session finds. -/
theorem wlp_sendOnMetaData_hears (hout : Hears env out) (hstorable : HoldsStorable s)
    (hempty : s.buffer .ioBuffer = []) (hcs : 0 < s.client.chunkSize) :
    wlp env (sendOnMetaData.amid Others.apply) (fun rc _ e' => Wrote out
      (Step.sendOnMetaData.speech s.client.chunkSize s.globals.setDataFrame) e rc e') s e := by
  refine wlp_writeMessage_hears hout hempty hcs (List.cons_ne_nil _ _) ?_
  unfold OnMetaData.writePayload
  rw [bind_eq, amid_bind, wlp_bind, amid_modify, wlp_modify, bind_eq, amid_bind, wlp_bind,
    amid_gets, wlp_gets, State.setMetaData_setDataFrame]
  show wlp env (amid Others.apply (onMetaDataBytes _ (s.globals.setDataFrame ++ _)).run) _ _ e
  rw [onMetaDataBytes_storable (storable_append_server hstorable), wlp_amid_run_push]
  refine ⟨rfl, rfl, rfl, ?_⟩
  rw [State.buffer_append]
  show s.buffer .ioBuffer ++ _ ++ _ = _
  rw [hempty]
  rfl

/-- The handshake writes between its two reads, and writes what it always does. -/
theorem wlp_handshake_hears (hout : Hears env out) :
    wlp env (handshake.amid Others.apply) (fun rc _ e' => Wrote out helloBack e rc e') s e := by
  have hnone : ∀ {e1 : ε}, out e1 = out e → Wrote out helloBack e (-1) e1 := fun h =>
    ⟨[], List.nil_prefix, by rw [h, List.append_nil], fun h => by cases h⟩
  unfold handshake
  rw [bind_eq, amid_bind, wlp_bind]
  refine wlp_mono (wlp_quiet hout (CallsOnly.mono Call.Reads.quiet _ (readNbytesOn_reads _ _)))
    fun rc s1 e1 he1 => ?_
  rw [amid_ite, wlp_ite]
  split
  · exact wlp_ret.mpr (hnone he1)
  rw [bind_eq, amid_bind, wlp_bind, amid_read, wlp_read]
  intro p _
  rw [amid_ite, wlp_ite]
  split
  · exact wlp_ret.mpr (hnone he1)
  unfold write
  rw [bind_eq, amid_bind, wlp_bind, bind_eq, amid_bind, wlp_bind]
  have hiov : ∀ s' : State, s'.client = s1.client →
      some helloBack = some helloBack := fun _ _ => rfl
  refine wlp_mono (wlp_stWritev_hears hout hiov rfl) fun r s2 e2 hr => ?_
  obtain ⟨-, x, hx, he2, hall⟩ := hr
  rw [he1] at he2
  cases r with
  | none =>
    rw [pure_eq, amid_ret, wlp_ret]
    exact wlp_ret.mpr ⟨x, hx, he2, fun h => by cases h⟩
  | some k =>
    obtain ⟨hk, hxall⟩ := hall k rfl
    rw [hxall] at he2
    have hwhole : ∀ {e3 : ε} {rc : Int}, out e3 = out e2 → Wrote out helloBack e rc e3 :=
      fun h => ⟨helloBack, List.prefix_refl _, h.trans he2, fun _ => rfl⟩
    dsimp only
    rw [hk, if_neg (not_not_intro rfl), pure_eq, amid_ret, wlp_ret, amid_ite, wlp_ite]
    split
    · exact wlp_ret.mpr (hwhole rfl)
    rw [bind_eq, amid_bind, wlp_bind]
    refine wlp_mono (wlp_quiet hout (CallsOnly.mono Call.Reads.quiet _ (readNbytesOn_reads _ _)))
      fun rc s3 e3 he3 => ?_
    rw [amid_ite, wlp_ite]
    split
    · exact wlp_ret.mpr (hwhole he3)
    · exact wlp_ret.mpr (hwhole he3)

/-- Every call before the loops writes what its line says, or a front part of it. -/
theorem wlp_call_hears (hout : Hears env out) (order : Order) {step : Step}
    (hloops : step.loops = false) (hfixed : step.sendsFixed = true) (hstorable : HoldsStorable s)
    (hempty : receives step = false → s.buffer .ioBuffer = []) (hcs : 0 < s.client.chunkSize) :
    wlp env ((step.call order).amid Others.apply) (fun rc _ e' =>
      Wrote out (step.speech s.client.chunkSize s.globals.setDataFrame) e rc e') s e := by
  have hquiet : ∀ {p : Routine Int}, p.CallsOnly Call.Quiet →
      wlp env (p.amid Others.apply) (fun rc _ e' => Wrote out [] e rc e') s e :=
    fun hp => wlp_mono (wlp_quiet hout hp) fun _ _ _ h => wrote_nil h
  have hreads : ∀ {p : Routine Int}, p.CallsOnly Call.Reads →
      wlp env (p.amid Others.apply) (fun rc _ e' => Wrote out [] e rc e') s e :=
    fun hp => hquiet (CallsOnly.mono Call.Reads.quiet _ hp)
  cases step with
  | handshake => exact wlp_handshake_hears hout
  | recv type => exact hreads type.recv_reads
  | send m =>
    have hm := Send.declared_fixed m (of_decide_eq_true hfixed)
    exact wlp_send_hears hout hm (hempty rfl) hcs
  | announceChunkSize =>
    have hm := Send.declared_fixed Send.setChunkSize (by decide)
    exact wlp_send_hears hout hm (hempty rfl) hcs
  | identify => exact hreads readHeaderGetPayloadLength_reads
  | readRest => exact hreads ⟨readNbytesCycleOn_reads _ _, fun _ => trivial⟩
  | waitMetaData => exact hquiet waitMetaData_quiet
  | sendOnMetaData => exact wlp_sendOnMetaData_hears hout hstorable (hempty rfl) hcs
  | register => exact hquiet ⟨trivial, fun _ => trivial⟩
  | relayLoop => cases hloops
  | publishLoop => cases hloops

end

/-! ## Sessions -/

/-- What a call that has returned was to write, by the chunk size and the list that it
found. -/
def Event.speech {ε : Type} (ev : Event ε) : Bytes :=
  ev.line.step.speech ev.before.client.chunkSize ev.before.globals.setDataFrame

/-- `x` is what the call wrote: all it was to write if it returned 0, and a front
part of it in any case. -/
def Event.Spoke {ε : Type} (ev : Event ε) (x : Bytes) : Prop :=
  x <+: ev.speech ∧ (ev.rc = 0 → x = ev.speech)

/-- The chunk size behind the lines: 4096 once it has been announced. -/
def sizeAfter (chunkSize : Nat) (lines : List Line) : Nat :=
  if .announceChunkSize ∈ lines.map Line.step then 4096 else chunkSize

/-- What the calls of the lines write, if all of them come through. -/
def transcript (frame : List Property) (chunkSize : Nat) : List Line → Bytes
  | [] => []
  | line :: lines =>
    line.step.speech chunkSize frame ++ transcript frame (sizeAfter chunkSize [line]) lines

/-- The announcement is in one part of the lines or in the other. -/
theorem sizeAfter_append (chunkSize : Nat) (lines lines' : List Line) :
    sizeAfter chunkSize (lines ++ lines') = sizeAfter (sizeAfter chunkSize lines) lines' := by
  unfold sizeAfter
  rw [List.map_append]
  simp only [List.mem_append]
  split <;> split <;> simp_all

/-- The transcript of some lines and of the others behind them, with the chunk size that the
first leave. -/
theorem transcript_append (frame : List Property) (lines' : List Line) : ∀ (chunkSize : Nat)
    (lines : List Line), transcript frame chunkSize (lines ++ lines')
      = transcript frame chunkSize lines ++
        transcript frame (sizeAfter chunkSize lines) lines' := by
  intro chunkSize lines
  induction lines generalizing chunkSize with
  | nil => rfl
  | cons line lines ih =>
    have hsize := sizeAfter_append chunkSize [line] lines
    rw [List.singleton_append] at hsize
    rw [List.cons_append, transcript, transcript, ih, hsize, List.append_assoc]

/-- A line's own `finish` leaves the chunk size that it says. -/
theorem finish_size {order : Order} {line : Line} {rc : Int} {s : State} :
    (line.step.finish order rc s).client.chunkSize = sizeAfter s.client.chunkSize [line] := by
  obtain ⟨step, checked⟩ := line
  cases step with
  | announceChunkSize => rfl
  | identify =>
    show (Step.finish order .identify rc s).client.chunkSize = s.client.chunkSize
    unfold Step.finish
    dsimp only
    split
    · rfl
    · rfl
  | _ => rfl

namespace Session

variable {order : Order} {ε : Type} {env : Env (st.amid Others) ε} {events : List (Event ε)}
  {lines rest : List Line} {line : Line} {s s' : State} {e e' : ε} {out : ε → Bytes} {rc : Int}

/-- The chunk size of a session: 128, and 4096 behind the announcement, for it is never set
anywhere else. -/
theorem chunkSize_eq (h : Session order env events lines s e) :
    s.client.chunkSize = sizeAfter 128 (events.map Event.line) := by
  induction h with
  | start h =>
    rw [h.client]
    rfl
  | @call events line _ _ s s' e e' rc _ hrun _ ih =>
    have hcall : (line.step.call order).Keeps SameChunkSize :=
      Step.call_keeps sameChunkSize_closed order fun _ => ⟨fun _ => rfl, fun _ _ => rfl⟩
    have hkeeps := Keeps.amid Others.apply (fun _ _ => rfl) _ hcall
    have hsame : s'.client.chunkSize = s.client.chunkSize :=
      Keeps.wlp sameChunkSize_closed.refl sameChunkSize_closed.trans _ hkeeps _ _ _ hrun
    rw [List.map_append, sizeAfter_append, ← ih, ← hsame]
    exact finish_size

/-- A call that the session has gone on from is none of the loops. -/
theorem not_loops (h : Session order env events (line :: rest) s e)
    (hrun : Runs env (line.call order) s e rc s' e') {next : List Line}
    (hfollow : line.follow rc rest = some next) : line.step.loops = false := by
  obtain ⟨part, hpart, past, hsplit⟩ := h.course.part
  have hall : ∀ part ∈ Line.parts, ∀ line ∈ part, line.step = .relayLoop → line.checked = true := by
    decide +kernel
  have hchecked := hall part hpart line (hsplit ▸ List.mem_append_right _ (.head _))
  unfold Line.call at hrun
  cases hstep : line.step with
  | relayLoop =>
    rw [hstep] at hrun
    exact absurd (wlp_relayLoop_rc _ _ _ hrun) (Line.follow_checked hfollow (hchecked hstep))
  | publishLoop =>
    rw [hstep] at hrun
    exact absurd hrun (wlp_publishLoop_rc _ _ _)
  | _ => rfl

/-- One more call of a session is heard behind what was heard before. -/
theorem call_hears (hout : Hears env out) (h : Session order env events (line :: rest) s e)
    (hrun : Runs env (line.call order) s e rc s' e') {next : List Line}
    (hfollow : line.follow rc rest = some next) :
    ∃ x, Event.Spoke ⟨line, s, e, rc, s', e'⟩ x ∧ out e' = out e ++ x := by
  obtain ⟨part, hpart, past, hsplit⟩ := h.course.part
  have hfixed := sendsFixed_of_part hpart (hsplit ▸ List.mem_append_right _ (.head _))
  obtain ⟨x, hx, he', hwhole⟩ := wlp_call_hears hout order (h.not_loops hrun hfollow) hfixed
    h.storable (h.empties line rest rfl) h.chunkSize_pos _ _ _ hrun
  exact ⟨x, ⟨hx, hwhole⟩, he'⟩

/-- In every run of a session, among others that do what they like, the client
hears call by call what the session says: of each call a front part, and of a
call that returned 0 all of it. -/
theorem hears (hout : Hears env out) (h : Session order env events lines s e) :
    ∃ xs : List Bytes, List.Forall₂ Event.Spoke events xs ∧
      out e = out (origin events e) ++ xs.flatten := by
  induction h with
  | start _ => exact ⟨[], .nil, (List.append_nil _).symm⟩
  | @call events line rest next s s' e e' rc hsession hrun hfollow ih =>
    obtain ⟨xs, hspoke, hwritten⟩ := ih
    obtain ⟨x, hx, hmore⟩ := hsession.call_hears hout hrun hfollow
    refine ⟨xs ++ [x], ?_, ?_⟩
    · exact List.rel_append hspoke (.cons hx .nil)
    · rw [hmore, hwritten, origin_concat, List.flatten_append, List.flatten_singleton,
        List.append_assoc]

/-- A session whose calls have come through has said the transcript of its lines. -/
theorem hears_transcript (hout : Hears env out) (h : Session order env events lines s e)
    {frame : List Property} (hall : ∀ ev ∈ events, ev.speech ≠ [] → ev.rc = 0)
    (hframe : ∀ ev ∈ events, ev.line.step = .sendOnMetaData →
      ev.before.globals.setDataFrame = frame) :
    out e = out (origin events e) ++ transcript frame 128 (events.map Event.line) := by
  induction h with
  | start _ => exact (List.append_nil _).symm
  | @call events line rest next s s' e e' rc hsession hrun hfollow ih =>
    have hlast : (⟨line, s, e, rc, s', e'⟩ : Event ε) ∈ events ++ [⟨line, s, e, rc, s', e'⟩] :=
      List.mem_append_right _ (.head _)
    have hwritten := ih (fun ev hev => hall ev (List.mem_append_left _ hev))
      fun ev hev => hframe ev (List.mem_append_left _ hev)
    obtain ⟨x, ⟨hx, hwhole⟩, hmore⟩ := hsession.call_hears hout hrun hfollow
    have hspeech : x = line.step.speech s.client.chunkSize s.globals.setDataFrame := by
      by_cases hnil : Event.speech ⟨line, s, e, rc, s', e'⟩ = []
      · rw [hnil] at hx
        exact (List.prefix_nil.mp hx).trans hnil.symm
      · exact hwhole (hall _ hlast hnil)
    have hlist : line.step.speech s.client.chunkSize s.globals.setDataFrame
        = line.step.speech s.client.chunkSize frame := by
      cases hstep : line.step with
      | sendOnMetaData => rw [hframe _ hlast hstep]
      | _ => rfl
    rw [hmore, hwritten, origin_concat, hspeech, hlist, hsession.chunkSize_eq, List.map_append,
      transcript_append, List.append_assoc]
    show _ = _ ++ (_ ++ (_ ++ transcript _ _ []))
    rw [transcript, List.append_nil]

end Session

/-! ## A client that takes everything -/

/-- A client by itself hears what is written to its stream. -/
theorem hears_byItself : Hears byItself Stream.out where
  wrote {bytes n h o e e'} hc := by
    obtain ⟨x, hx, heq⟩ := Option.map_eq_some_iff.mp hc
    cases hx
    cases heq
    show e.out ++ bytes = _
    rw [List.take_length]
  failed hc := by
    obtain ⟨x, hx, heq⟩ := Option.map_eq_some_iff.mp hc
    cases hx
    cases heq
  quiet {c r e e'} hquiet hc := by
    obtain ⟨x, hx, heq⟩ := Option.map_eq_some_iff.mp hc
    cases heq
    cases c with
    | writev bytes => exact hquiet.elim
    | stReadFully nbyte =>
      simp only [streamEnv] at hx
      split at hx
      · cases hx
        rfl
      · cases hx
    | stUsleep =>
      cases hx
      rfl

/-- A client whose `connect` has been answered has heard the transcript of that. -/
theorem hears_transcript_connected :
    ∃ (events : List (Event Stream)) (s : State) (e : Stream),
      Session .front byItself events [.checkedCall .identify] s e ∧
      e.out = (origin events e).out
        ++ transcript [] 128 [.checkedCall .handshake, .checkedCall (.recv .connectMessage),
          .checkedCall (.send .setWindowSize), .checkedCall (.send .setPeerBandwidth),
          .checkedCall (.send .connectAppResponse), .checkedCall (.send .onBwDone)] := by
  obtain ⟨events, s, out, h, hrc, -⟩ := Session.connected .front
    (m := ObjectMessage.connectLive) (by decide) []
  have hlines : events.map Event.line = Line.negotiation.dropLast := by
    cases h.course with
    | negotiating hsplit _ _ => rw [← hsplit, List.dropLast_concat]
    | flowing rc past _ hsplit _ =>
      have hmem : Line.checkedCall .identify ∈ Line.flow rc :=
        hsplit ▸ List.mem_append_right past (.head _)
      exact absurd rfl (Line.not_identify_of_flow hmem)
  have hframe : ∀ ev ∈ events, ev.line.step = .sendOnMetaData →
      ev.before.globals.setDataFrame = [] := by
    intro ev hev hstep
    have hall : ∀ line ∈ Line.negotiation, line.step ≠ .sendOnMetaData := by decide +kernel
    exact absurd hstep (hall _ (h.line_mem_negotiation (.head _) hev))
  have hheard := h.hears_transcript hears_byItself (fun ev hev _ => hrc ev hev) hframe
  rw [hlines] at hheard
  exact ⟨events, s, _, h, hheard⟩

/-! ## The clients of the server -/

/-- What a client has taken of the calls that wrote to it, one after the other. -/
def heardOf (said : List (Call × Answer)) : Bytes := said.flatMap Broadcast.taken

/-- What was said first is heard first. -/
theorem heardOf_append (said said' : List (Call × Answer)) :
    heardOf (said ++ said') = heardOf said ++ heardOf said' :=
  List.flatMap_append

/-- A client of the server hears what its calls were answered, and nothing of the others'
calls. -/
theorem hears_played : Hears played fun e => heardOf (exchanged e.2) := by
  have hplayed : ∀ {c r} {e e' : List (Answer × Others) × Recording}, played c e = some (r, e') →
      ∃ x, answer c x = some r.1 ∧
        heardOf (exchanged e'.2) = heardOf (exchanged e.2) ++ Broadcast.taken (c, x) := by
    intro c r e e' h
    obtain ⟨x, hx, he⟩ := replay_eq_some h
    obtain ⟨r', hr, heq⟩ := Option.map_eq_some_iff.mp hx
    refine ⟨x.1, ?_, ?_⟩
    · rw [hr, ← heq]
    · rw [he, exchanged_append, heardOf_append]
      show _ ++ (Broadcast.taken (c, x.1) ++ []) = _
      rw [List.append_nil]
  refine ⟨?_, ?_, ?_⟩
  · intro bytes n hn o e e' h
    obtain ⟨x, hx, hout⟩ := hplayed h
    rw [hout]
    cases x with
    | wrote k =>
      simp only [answer] at hx
      split at hx
      · cases hx
        rfl
      · cases hx
    | _ => cases hx
  · intro bytes o e e' h
    obtain ⟨x, hx, hout⟩ := hplayed h
    rw [hout]
    cases x with
    | error => exact ⟨[], List.nil_prefix, rfl⟩
    | wrote k =>
      simp only [answer] at hx
      split at hx
      · cases hx
      · cases hx
    | _ => cases hx
  · intro c r e e' hquiet h
    obtain ⟨x, hx, hout⟩ := hplayed h
    rw [hout]
    cases c with
    | writev bytes => exact hquiet.elim
    | _ => exact List.append_nil _

namespace Server

/-- Whatever the schedule, a client of the server has taken, call by call, what
its session said, and behind that what it took in the call that it waits in. -/
theorem ran_hears {order : Order} {said : Nat → List (Call × Answer)} {b : Server}
    (hran : Ran order said b) {i : Nat} {c : Seat} (hc : b.clients[i]? = some c) {line : Line}
    {rest : List Line} {w : Parked st State Int} (hthread : c.thread = .waiting line rest w) :
    ∃ (events : List (Event _)) (s : State) (before now : Recording) (xs : List Bytes),
      Session order played events (line :: rest) s ([], before) ∧
      said i = exchanged before ++ exchanged now ∧
      List.Forall₂ Event.Spoke events xs ∧
      heardOf (said i) = xs.flatten ++ heardOf (exchanged now) := by
  obtain ⟨g, hfollows⟩ := hran.served.follows i c hc
  rw [hthread] at hfollows
  cases hfollows with
  | @waiting events _ _ s _ before now _ hsession hbegin _ hsaid =>
    obtain ⟨xs, hspoke, hwritten⟩ := hsession.hears hears_played
    rw [hbegin] at hwritten
    refine ⟨events, s, before, now, xs, hsession, ?_, hspoke, ?_⟩
    · rw [← hsaid, exchanged_append]
    · rw [← hsaid, exchanged_append, heardOf_append, hwritten]
      rfl

/-- The player of `onePlayer`: it has heard what its session said up to the relay
loop, in 23 calls of which some failed, and behind that the 14 bytes of its first
message. -/
theorem ran_hears_onePlayer : ∃ (said : Nat → List (Call × Answer)) (b : Server)
    (events : List (Event _)) (s : State) (before now : Recording) (xs : List Bytes)
    (rest : List Line), Ran .front said b ∧ b.clients.length = 2 ∧
      Session .front played events (.checkedCall .relayLoop :: rest) s ([], before) ∧
      said 1 = exchanged before ++ exchanged now ∧ List.Forall₂ Event.Spoke events xs ∧
      heardOf (said 1) = xs.flatten ++ heardOf (exchanged now) := by
  obtain ⟨said, b, c₀, c₁, hran, hclients, -, hline⟩ := ran_onePlayer
  have hget : b.clients[1]? = some c₁ := by rw [hclients]; rfl
  cases hthread : c₁.thread with
  | returned =>
    rw [hthread] at hline
    cases hline
  | waiting line rest w =>
    rw [hthread] at hline
    cases hline
    obtain ⟨events, s, before, now, xs, h⟩ := ran_hears hran hget hthread
    exact ⟨said, b, events, s, before, now, xs, rest, hran, by rw [hclients]; rfl, h⟩

end Server

end RtmpServer
