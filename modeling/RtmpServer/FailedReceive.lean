import RtmpServer.Among
import RtmpServer.Broadcast
import RtmpServer.Lib.Stretch

/-!
# What a failed receive leaves behind

The publisher loop does not look at what `recv_audio_video` returned: it stores
a header length and sets the slot in any case. The receive itself has touched
neither (`recvAudioVideo_untouched`), so what counts is what the publisher finds
when the receive has failed. Up to then it has waited in `st_read_fully`, and a
player may have registered meanwhile: `failed_round_unharmed_iff` is about a
round among the steps of all other sessions.

A receive may fail at every byte, and with it the size that the round stores;
`headerSize` is `bh_size + mh_size` as a function of the bytes that came in.
-/

namespace RtmpServer

open Coroutine Coroutine.Prog Endian

/-! ## What must not change -/

/-- No stored header length and no slot is another: what a later pass would look at first is
as it was. -/
structure Untouched (g g' : Globals) : Prop where
  headerLength : ∀ csid, (g'.header csid).headerLength = (g.header csid).headerLength
  consumers : g'.consumers = g.consumers

namespace Untouched

theorem refl (g : Globals) : Untouched g g := ⟨fun _ => rfl, rfl⟩

theorem trans {g g' g'' : Globals} (h : Untouched g g') (h' : Untouched g' g'') :
    Untouched g g'' :=
  ⟨fun csid => (h'.headerLength csid).trans (h.headerLength csid),
    h'.consumers.trans h.consumers⟩

theorem setHeader (g : Globals) (csid : Int) {m : MessageHeader}
    (hm : m.headerLength = (g.header csid).headerLength) : Untouched g (g.setHeader csid m) := by
  refine ⟨fun c => ?_, rfl⟩
  by_cases hc : c = csid
  · rw [hc, Globals.header_setHeader, hm]
  · rw [Globals.header_setHeader_ne g m hc]

end Untouched

/-- A round has done no harm: nothing it stored is new, and no consumer is
pointed to the buffer. -/
structure Unharmed (g g' : Globals) : Prop extends Untouched g g' where
  slot : g'.slot ≠ some .audioVideoData

/-! ## What a receive touches -/

/-- Between two of its blocking calls, and behind the last one, the program touches
no header length and no slot. -/
def LeavesUntouched {α : Type} (p : Routine α) : Prop :=
  Stretches (fun _ _ => True) (fun _ s t => Untouched s.globals t.globals) Eq p
    fun _ s t => Untouched s.globals t.globals

/-- The fields of a header say nothing of its length, which the publisher loop stores behind
them. -/
theorem poke_headerLength {fmt : Nat} {p : Bytes} {m m' : MessageHeader}
    (h : m.poke fmt p = some m') : m'.headerLength = m.headerLength := by
  unfold MessageHeader.poke at h
  simp only [Option.bind_eq_bind, Option.bind_eq_some_iff] at h
  obtain ⟨time, -, h⟩ := h
  have hstamp : (if fmt = 0 then
        { m with
          timestamp := BitVec.ofNat 32 (ofBeBytes time)
          timestampDelta := BitVec.ofNat 32 (ofBeBytes time) }
      else { m with timestampDelta := clampDelta (BitVec.ofNat 32 (ofBeBytes time)) }).headerLength
        = m.headerLength := by
    split
    · rfl
    · rfl
  generalize (if fmt = 0 then _ else _) = m1 at h hstamp
  split at h
  · obtain ⟨length, -, h⟩ := Option.bind_eq_some_iff.mp h
    obtain ⟨type, -, h⟩ := Option.bind_eq_some_iff.mp h
    split at h
    · obtain ⟨stream, -, h⟩ := Option.bind_eq_some_iff.mp h
      rw [← Option.some.inj h]
      exact hstamp
    · rw [← Option.some.inj h]
      exact hstamp
  · rw [← Option.some.inj h]
    exact hstamp

/-- A receive stores header records, but each with the header length that it found. -/
theorem recvAudioVideo_untouched : LeavesUntouched recvAudioVideo := by
  let R : State → State → Prop := fun s t => Untouched s.globals t.globals
  have hrefl : ∀ s, R s s := fun s => .refl s.globals
  have htrans : ∀ s t u, R s t → R t u → R s u := fun _ _ _ h h' => h.trans h'
  have hbuffer : ∀ s bytes, R s (s.setBuffer .audioVideoBuffer bytes) :=
    fun s _ => ⟨fun _ => rfl, rfl⟩
  have htouch : ∀ s csid, R s (s.touch csid) := fun s csid => .setHeader s.globals csid rfl
  have hkeeps : ∀ {α : Type} {p : Routine α}, p.Keeps R →
      Stretches (fun _ _ => True) (fun _ => R) R p fun _ => R :=
    fun h => Keeps.stretches hrefl htrans (fun _ _ _ h => h) _ h
  have hcycle : ∀ n, (readNbytesCycleAv n).Keeps R := readNbytesCycleAv_keeps hrefl hbuffer
  have hupdate : ∀ csid (f : MessageHeader → MessageHeader),
      (∀ m, (f m).headerLength = m.headerLength) → (updateHeader csid f).Keeps R :=
    fun csid f hf => keeps_modify fun s => .setHeader s.globals csid (hf _)
  have hmessage : ∀ fmt csid bhSize, Stretches (fun _ _ => True) (fun _ => R) R
      (readAudioVideoMessageHeader fmt csid bhSize) fun _ => R := by
    intro fmt csid bhSize
    refine ⟨fun _ => R, hkeeps (hcycle _), fun r => stretches_ite (fun _ _ _ h => h) fun _ =>
      stretches_ite (fun _ => hkeeps ?_) fun _ => ?_⟩
    · exact ⟨keeps_gets hrefl, fun m => keeps_ite trivial ⟨hupdate _ _ fun _ => rfl, fun _ =>
        trivial⟩⟩
    -- what is put back has the header length that was there
    refine ⟨fun m s t => R s t ∧ m.headerLength = (t.globals.header csid).headerLength,
      stretches_read fun s t m h hm => ⟨h, poke_headerLength hm⟩, fun m => ⟨fun _ => R,
        stretches_modify fun s t h => h.1.trans (.setHeader t.globals csid h.2), fun _ => ?_⟩⟩
    refine hkeeps (keeps_ite ⟨hcycle _, fun r => keeps_ite trivial
      ⟨keeps_read hrefl, fun ext => ?_⟩⟩ ?_)
    · exact ⟨hupdate _ _ fun _ => rfl, fun _ => ⟨hupdate _ _ fun _ => rfl, fun _ => trivial⟩⟩
    · exact ⟨hupdate _ _ fun _ => rfl, fun _ => trivial⟩
  refine ⟨fun _ => R, Stretches.mono _ (hkeeps (readAudioVideoBasicHeader_keeps hrefl hbuffer
    fun s _ => ⟨fun _ => rfl, rfl⟩)) ?_ fun _ _ _ h => h, fun r => stretches_ite (fun _ _ _ h => h)
      fun _ => ⟨fun _ => R, hmessage _ _ _, fun r => stretches_ite (fun _ _ _ h => h) fun _ => ?_⟩⟩
  · intro s t h
    rw [h]
    exact hrefl t
  · exact hkeeps ⟨keeps_gets hrefl, fun csid => ⟨lookup_keeps hrefl htouch _ _, fun _ =>
      ⟨recvAudioVideoPayload_keeps hrefl hbuffer htouch _, fun rc => keeps_ite trivial trivial⟩⟩⟩

/-! ## How far a receive comes -/

namespace FieldsRead

variable {fmt : Nat} {d m : MessageHeader} {q : Bytes} (h : FieldsRead fmt d q m)
include h

theorem size_extended (hext : m.timestampDelta = 0xFFFFFF) {y : Bytes} (hy : y.length = 4)
    (z : Bytes) : messageHeaderSize fmt (q ++ y ++ z) = mhSizeArray fmt + 4 := by
  have hsize := messageHeaderSize_encode (ChunkHeader.ofBytes fmt (q ++ y)) z
  rw [h.encode_extended hext hy, ChunkHeader.ofBytes_fmt h.fmt_lt] at hsize
  rw [hsize, List.length_append, h.length, hy]

theorem size_field (hext : m.timestampDelta ≠ 0xFFFFFF) (z : Bytes) :
    messageHeaderSize fmt (q ++ z) = mhSizeArray fmt := by
  have hsize := messageHeaderSize_encode (ChunkHeader.ofBytes fmt q) z
  rw [h.encode_field hext, ChunkHeader.ofBytes_fmt h.fmt_lt] at hsize
  rw [hsize, h.length]

end FieldsRead

section

variable {ε : Type} {env : Env (st.amid Others) ε} {s : State} {e : ε}
  {took : ε → Bytes → ε → Prop} (hacc : Account env.answers took)
  (hspares : Spares env .audioVideoBuffer)
include hacc hspares

/-- The size of a message header is that of the bytes that came in, and if all of
it came in then nothing behind it counts. -/
theorem wlp_readAudioVideoMessageHeader_size {fmt bhSize : Nat} {csid : Int} (hfmt : fmt < 4)
    (hbuf : (s.buffer .audioVideoBuffer).length = bhSize) :
    wlp env ((readAudioVideoMessageHeader fmt csid bhSize).amid Others.apply)
      (fun r _ e' => ∃ q, took e q e' ∧ r.2 = messageHeaderSize fmt q ∧
        (r.1 ≠ -1 → ∀ z, messageHeaderSize fmt (q ++ z) = r.2)) s e := by
  unfold readAudioVideoMessageHeader readAudioVideoMessageHeaderWith readNbytesCycleAv updateHeader
  simp only [bind_eq, pure_eq, amid_bind, amid_ite, amid_ret, amid_gets, amid_read, amid_modify,
    wlp_bind]
  refine wlp_mono (wlp_readNbytesCycleOn_amid hspares hacc) fun r s1 e1 hread => ?_
  obtain ⟨q, hq, h⟩ := hread
  rw [hbuf, Nat.add_sub_cancel_left] at h
  rcases h with ⟨hrc, -, hlt⟩ | ⟨hr, hs1, hlen⟩
  · rw [if_pos hrc, wlp_ret]
    exact ⟨q, hq, (messageHeaderSize_short (Or.inr (Or.inr (by omega)))).symm,
      fun h => absurd rfl h⟩
  subst hr
  rw [if_neg (by simp)]
  by_cases h3 : fmt = 3
  · -- there is no field that could ask for more
    have hsize : ∀ z, messageHeaderSize fmt z = mhSizeArray fmt := fun z =>
      messageHeaderSize_short (Or.inl h3)
    rw [if_pos h3, wlp_bind, wlp_gets]
    split
    · rw [wlp_ret]
      exact ⟨q, hq, (hsize q).symm, fun h => absurd rfl h⟩
    · rw [wlp_bind, wlp_modify, wlp_ret]
      exact ⟨q, hq, (hsize q).symm, fun _ z => hsize _⟩
  rw [if_neg h3, wlp_bind, wlp_read]
  intro m hm
  rw [hs1, List.drop_left' hbuf] at hm
  have hfields : FieldsRead fmt (s1.globals.header csid) q m := ⟨hfmt, h3, hlen, hm⟩
  rw [wlp_bind, wlp_modify]
  -- whatever the others have done, the field of the bytes that came announces an extension
  by_cases hext : m.timestampDelta = 0xFFFFFF
  · rw [if_pos hext, wlp_bind]
    refine wlp_mono (wlp_readNbytesCycleOn_amid hspares hacc) fun r s2 e2 hmore => ?_
    obtain ⟨y, hy, h⟩ := hmore
    have hsub : bhSize + mhSizeArray fmt + 4
        - ((s1.setHeader csid m).buffer .audioVideoBuffer).length = 4 := by
      rw [State.setHeader_buffer, hs1, List.length_append, hbuf, hlen]
      omega
    have hqy : took e (q ++ y) e2 := hacc.append hq hy
    rw [hsub] at h
    rcases h with ⟨hrc, -, hlt⟩ | ⟨hr, -, hlen2⟩
    · rw [if_pos hrc, wlp_ret]
      refine ⟨q ++ y, hqy, (messageHeaderSize_short (Or.inr (Or.inr ?_))).symm,
        fun h => absurd rfl h⟩
      rw [List.length_append, hlen]
      omega
    · subst hr
      rw [if_neg (by simp), wlp_bind, wlp_read]
      intro ext _
      simp only [wlp_bind, wlp_modify, wlp_ret]
      have hsize := hfields.size_extended hext hlen2
      refine ⟨q ++ y, hqy, ?_, fun _ => hsize⟩
      rw [← hsize [], List.append_nil]
  · rw [if_neg hext]
    simp only [wlp_bind, wlp_modify, wlp_ret]
    have hsize := hfields.size_field hext
    refine ⟨q, hq, ?_, fun _ => hsize⟩
    rw [← hsize [], List.append_nil]

/-- A payload takes some bytes more behind the header, whether it is all there or not. -/
theorem wlp_recvAudioVideoPayload_took {csid : Int} :
    wlp env ((recvAudioVideoPayload csid).amid Others.apply) (fun _ _ e' => ∃ y, took e y e')
      s e := by
  unfold recvAudioVideoPayload dechunk lookup
  rw [amid_iter]
  refine wlp_iter_of_inv (fun _ _ e1 => ∃ y, took e y e1) ?_ ⟨[], hacc.nil e⟩
  intro nread s1 e1 htook
  obtain ⟨y, hy⟩ := htook
  simp only [bind_eq, pure_eq, amid_bind, amid_ite, amid_ret, amid_gets, amid_modify, wlp_bind,
    wlp_gets, wlp_modify]
  split
  · rw [wlp_bind, wlp_gets, wlp_bind, wlp_gets, wlp_bind]
    refine wlp_mono (wlp_readNbytesCycleOn_amid hspares hacc) fun r s2 e2 hread => ?_
    obtain ⟨z, hz, -⟩ := hread
    have hyz : took e (y ++ z) e2 := hacc.append hy hz
    split
    · exact wlp_ret.mpr ⟨_, hyz⟩
    · split
      · rw [wlp_bind, wlp_modify, wlp_ret]
        exact ⟨_, hyz⟩
      · exact wlp_ret.mpr ⟨_, hyz⟩
  · exact wlp_ret.mpr ⟨y, hy⟩

/-- While nobody else writes to the buffer, the header sizes are those of the bytes
that came in, whatever happens to the rest. -/
theorem wlp_recvAudioVideo_size (hclear : s.buffer .audioVideoBuffer = []) :
    wlp env (recvAudioVideo.amid Others.apply)
      (fun r _ e' => ∃ p, took e p e' ∧ r.2.1 + r.2.2 = headerSize p) s e := by
  have hbasic : Simulates (SameBuffer .audioVideoBuffer) Anyhow (SameBuffer .audioVideoBuffer)
      readAudioVideoBasicHeader fun _ => SameBuffer .audioVideoBuffer := by
    refine Simulates.mono _ (simulates_readBasicHeaderOn
        (P := fun _ => SameBuffer .audioVideoBuffer)
      (fun _ => trivial) (fun _ _ => trivial) (fun _ _ h => h) (fun _ _ _ h => ?_) (fun csid => ?_)
      (fun _ _ _ h => h)) (fun _ _ h => h) (fun _ _ _ h => h.1)
    · simp
    · exact simulates_modify (fun _ _ _ => trivial) fun s t h => by
        rw [SameBuffer, State.setCurrCsid_buffer, State.setCurrCsid_buffer]
        exact h
  unfold recvAudioVideo
  simp only [bind_eq, pure_eq, amid_bind, amid_ite, amid_ret, amid_gets, wlp_bind]
  refine wlp_mono (wlp_sameBuffer hspares hbasic (wlp_readAudioVideoBasicHeader hacc hclear)) ?_
  intro r s1 e1 hbasicRead
  obtain ⟨t1, ⟨p, hp, hread⟩, hsame⟩ := hbasicRead
  cases hread with
  | nothing =>
    rw [if_pos rfl, wlp_ret]
    exact ⟨[], hp, rfl⟩
  | cut hnone =>
    rw [if_pos rfl, wlp_ret]
    refine ⟨_, hp, ?_⟩
    unfold headerSize
    rw [hnone]
    rfl
  | @whole p fmt csid hwhole hlen =>
    have hbuf : (s1.buffer .audioVideoBuffer).length = p.length := by
      rw [hsame, State.setCurrCsid_buffer, State.buffer_append, hclear, List.nil_append]
    rw [if_neg (by simp), wlp_bind]
    refine wlp_mono (wlp_readAudioVideoMessageHeader_size hacc hspares
      (basicHeader_fmt_lt hwhole) hbuf) fun r s2 e2 hheader => ?_
    obtain ⟨q, hq, hsize, hall⟩ := hheader
    -- from here on the size is settled: no later byte changes what the headers say of it
    have hpq : took e (p ++ q) e2 := hacc.append hp hq
    split
    · rw [wlp_ret]
      exact ⟨p ++ q, hpq, by rw [headerSize_append hwhole hlen, hsize]⟩
    rename_i hok
    unfold lookup
    simp only [bind_eq, amid_bind, amid_gets, amid_modify, wlp_bind, wlp_gets, wlp_modify]
    refine wlp_mono (wlp_recvAudioVideoPayload_took hacc hspares) fun rc s3 e3 hpayload => ?_
    obtain ⟨y, hy⟩ := hpayload
    have hall' : p.length + r.2 = headerSize (p ++ q ++ y) := by
      rw [List.append_assoc, headerSize_append hwhole hlen, hall hok]
    have hpqy : took e (p ++ q ++ y) e3 := hacc.append hpq hy
    split
    · exact wlp_ret.mpr ⟨_, hpqy, hall'⟩
    · exact wlp_ret.mpr ⟨_, hpqy, hall'⟩

end

/-! ## A round with a failed receive -/

/-- Storing does no harm if and only if nobody is there to be pointed to the
buffer and the header length is there already. -/
theorem unharmed_publish_iff {g : Globals} {s : State} {n : Nat}
    (hun : Untouched g s.globals) :
    Unharmed g (Broadcast.publish s n) ↔
      g.consumers = [] ∧ (g.header s.globals.currCsid).headerLength = n := by
  have hconsumers : (Broadcast.publish s n).consumers
      = (Globals.setSlot g .audioVideoData).consumers := by
    unfold Broadcast.publish Globals.setSlot
    rw [Globals.setHeader_consumers, hun.consumers]
  constructor
  · intro h
    refine ⟨?_, ?_⟩
    · -- a first consumer would find its slot set
      have hslot := h.slot
      rw [Globals.slot, hconsumers] at hslot
      cases hcons : g.consumers with
      | nil => rfl
      | cons c cs => exact absurd (by simp [Globals.setSlot, hcons]) hslot
    · rw [← h.headerLength, Broadcast.header_publish, Globals.header_setHeader]
  · intro hboth
    obtain ⟨hnone, hsame⟩ := hboth
    have hempty : (Broadcast.publish s n).consumers = [] := by
      rw [hconsumers, Globals.setSlot, hnone]
    refine ⟨⟨fun c => ?_, by rw [hempty, hnone]⟩, ?_⟩
    · rw [Broadcast.header_publish]
      have hstored := Untouched.setHeader s.globals s.globals.currCsid
        (m := { s.globals.header s.globals.currCsid with headerLength := n })
        ((hun.headerLength _).trans hsame).symm
      exact (hun.trans hstored).headerLength c
    · rw [Globals.slot, hempty]
      intro h
      cases h

/-- A round is a receive and, whatever that returned, the storing of its header
size, with no blocking call in between. -/
theorem receive_of_publisherRound {ε : Type} {env : Env (st.amid Others) ε} {s s' : State}
    {e e' : ε} {rc : Int}
    (hrun : Runs env (Broadcast.publisherRound.amid Others.apply) s e rc s' e') :
    ∃ bhSize mhSize s1, Runs env (recvAudioVideo.amid Others.apply) s e (rc, bhSize, mhSize) s1 e' ∧
      s'.globals = Broadcast.publish s1 (bhSize + mhSize) := by
  unfold Broadcast.publisherRound at hrun
  rw [bind_eq, amid_bind, runs_bind] at hrun
  obtain ⟨r, s1, e1, hrecv, hrest⟩ := hrun
  obtain ⟨_, s2, e2, hmodify, hret⟩ := runs_bind.mp hrest
  obtain ⟨hf, he⟩ := runs_act.mp hmodify
  obtain ⟨hrc, hs, he'⟩ := runs_ret.mp hret
  cases hf
  subst hrc hs he' he
  exact ⟨_, _, s1, hrecv, rfl⟩

/-- The receive itself touches nothing. When it has failed, in the state `s1`, the
round does no harm if and only if no consumer is registered by then and the header
length that it stores, that of the headers it received, is the one that is stored
already. While no other session writes to the buffer, the bytes received say what
that is. -/
theorem failed_round_unharmed_iff {ε : Type} {env : Env (st.amid Others) ε} {s : State} {e : ε}
    {inp : ε → Bytes} (hin : Reads env.answers inp) (s' : State) (e' : ε) (p : Bytes)
    (hclear : s.buffer .audioVideoBuffer = [])
    (hrun : Runs env (Broadcast.publisherRound.amid Others.apply) s e (-1) s' e')
    (hp : inp e' = inp e ++ p) :
    LeavesUntouched recvAudioVideo ∧ ∃ bhSize mhSize s1,
      Runs env (recvAudioVideo.amid Others.apply) s e (-1, bhSize, mhSize) s1 e' ∧
      s'.globals = Broadcast.publish s1 (bhSize + mhSize) ∧
      (Unharmed s1.globals s'.globals ↔ s1.globals.consumers = [] ∧
        (s1.globals.header s1.globals.currCsid).headerLength = (bhSize + mhSize : Nat)) ∧
      (Spares env .audioVideoBuffer → bhSize + mhSize = headerSize p) := by
  obtain ⟨bhSize, mhSize, s1, hrecv, hstored⟩ := receive_of_publisherRound hrun
  refine ⟨recvAudioVideo_untouched, bhSize, mhSize, s1, hrecv, hstored, ?_, fun hspares => ?_⟩
  · rw [hstored]
    exact unharmed_publish_iff (.refl s1.globals)
  · obtain ⟨q, hq, hsize⟩ := wlp_recvAudioVideo_size account_came hspares hclear _ _ _ hrecv
    rw [hq.unique hin hp] at hsize
    exact hsize

/-- Every `st_read_fully` fails, and while it blocks the others do `o`; no other call is
answered. -/
def failing (o : Others) : Env (st.amid Others) Unit
  | .stReadFully _, e => some ((.error, o), e)
  | _, _ => none

theorem reads_failing (o : Others) : Reads (failing o).answers fun _ => [] where
  data _ _ _ _ _ h := nomatch h
  error _ _ _ _ := rfl

/-- No consumer is registered, and the header length 1 is stored for the current chunk
stream. -/
def errorBefore : State := State.setHeader {} 0 { headerLength := 1 }

theorem publisherRound_failing (o : Others) :
    Runs (failing o) (recvAudioVideo.amid Others.apply) errorBefore () (-1, 1, 0)
        (o.apply errorBefore) () ∧
      Runs (failing o) (Broadcast.publisherRound.amid Others.apply) errorBefore () (-1)
        { o.apply errorBefore with globals := Broadcast.publish (o.apply errorBefore) 1 } () :=
  ⟨⟨20, rfl⟩, ⟨20, rfl⟩⟩

theorem spares_otherEntry : Spares (failing otherEntry) .audioVideoBuffer := by
  intro c e r o e' h s
  cases c with
  | stReadFully n =>
    obtain ⟨⟨-, ho⟩, -⟩ : (ReadResult.error = r ∧ otherEntry = o) ∧ e = e' := by
      simpa [failing] using h
    rw [← ho]
    rfl
  | _ => exact nomatch h

/-- The second error in a row, with no consumer: the first one has stored the
header length 1. -/
theorem failed_round_unharmed_twice :
    Unharmed (otherEntry.apply errorBefore).globals
      (Broadcast.publish (otherEntry.apply errorBefore) 1) := by
  obtain ⟨hrecv, hround⟩ := publisherRound_failing otherEntry
  obtain ⟨-, bhSize, mhSize, s1, hrecv', hstored, hiff, hsize⟩ :=
    failed_round_unharmed_iff (reads_failing otherEntry) _ _ [] rfl hround rfl
  obtain ⟨-, rfl, -⟩ := runs_det hrecv hrecv'
  have hone : bhSize + mhSize = 1 := hsize spares_otherEntry
  rw [hone] at hiff
  exact hiff.mpr ⟨rfl, rfl⟩

/-- A player registers: the one change that the others make while the receive fails. -/
def registering : Others where
  change g := { g with consumers := (5, .null) :: g.consumers }
  storable _ h := h

/-- Nobody is registered when the round starts, and the header length that it will
store is there. While the read blocks a player registers; then the read fails, and
the player is pointed to the buffer. -/
theorem failed_round_hands_out :
    errorBefore.globals.consumers = [] ∧
      (errorBefore.globals.header errorBefore.globals.currCsid).headerLength = headerSize [] ∧
      ∃ s1 s', Runs (failing registering) (recvAudioVideo.amid Others.apply) errorBefore ()
        (-1, 1, 0)
          s1 () ∧
        Runs (failing registering) (Broadcast.publisherRound.amid Others.apply) errorBefore () (-1)
          s' () ∧
        ¬ Unharmed s1.globals s'.globals := by
  obtain ⟨hrecv, hround⟩ := publisherRound_failing registering
  exact ⟨rfl, rfl, _, _, hrecv, hround, fun h => h.slot rfl⟩

/-! ## A round by itself -/

theorem Heard.take_headerLength (x : Heard) (m : Option MessageHeader) :
    ((x.take m).getD {}).headerLength = (m.getD {}).headerLength := by
  cases x with
  | whole h =>
    cases h with
    | fmt3 => cases m <;> rfl
    | _ => rfl
  | cut h => cases h <;> rfl

theorem takeIn_headerLength (x : Option (Int × Heard)) (entries : Int → Option MessageHeader)
    (csid : Int) :
    ((takeIn x entries csid).getD {}).headerLength = ((entries csid).getD {}).headerLength := by
  cases x with
  | none => rfl
  | some x =>
    show ((if csid = x.1 then x.2.take (entries csid) else entries csid).getD {}).headerLength = _
    by_cases hc : csid = x.1
    · rw [if_pos hc, x.2.take_headerLength]
    · rw [if_neg hc]

/-- While no other session does anything, the state in which the round starts and the
bytes that come in say it all: `curr_csid` is then the chunk stream that they name. -/
theorem failed_round_alone {ε : Type} {env : Env st ε} {s : State} {e : ε} {inp : ε → Bytes}
    (hin : Reads env inp) {s' : State} {e' : ε} {p : Bytes}
    (hclear : s.buffer .audioVideoBuffer = [])
    (hrun : Runs env Broadcast.publisherRound s e (-1) s' e') (hp : inp e' = inp e ++ p) :
    Unharmed s.globals s'.globals ↔ s.globals.consumers = [] ∧
      (s.globals.header (csidOf s.globals.currCsid p)).headerLength = headerSize p := by
  obtain ⟨bhSize, mhSize, s1, hrecv, hstored⟩ :=
    receive_of_publisherRound ((runs_alone Others.apply_idle).mpr hrun)
  obtain ⟨q, hq, hleft⟩ := wlp_recvAudioVideo_heard account_came hclear _ _ _
    ((runs_alone Others.apply_idle).mp hrecv)
  have hpq := hq.unique hin hp
  subst hpq
  have hun : Untouched s.globals s1.globals := by
    refine ⟨fun csid => ?_, hleft.consumers⟩
    rw [Globals.header, hleft.entries, takeIn_headerLength]
    rfl
  have hsize : bhSize + mhSize = headerSize q := hleft.size
  rw [hstored, hsize, unharmed_publish_iff hun, hleft.currCsid]

end RtmpServer
