import RtmpServer.Session
import RtmpServer.Undisturbed
import RtmpServer.Lib.Idle

/-!
# `IdentifyClient`: looking at a header and putting it back

To tell the push flow from the pull flow, `process_thread` reads the next
header, looks at its message length and pushes the header bytes back into the
cleared buffer. The handler of the push flow then reads the same header out of
the buffer, with the table already changed by the first read. `peek_replay`:
the session cannot tell. Every read of the second pass finds its bytes in the
buffer, the length it stores is the one that is stored, and the key it looks up
is there; so both header readers idle.

Mirroring notes:
- the handler is any `readPayload`; `IdentifyClient` and the handler are fresh
  objects, so the session starts where a message has just been deleted.
- where the return value is 4 the header is not put back.
-/

namespace RtmpServer

open Coroutine Coroutine.Prog Endian

section

variable {s : State}

/-! ## Reads of what is there -/

theorem readNbytesCycleOn_idles {b : Buffer} {n : Nat} (h : n ≤ (s.buffer b).length) :
    (readNbytesCycleOn b n).Idles s (0, 0) := by
  refine (idles_gets s _).bind ?_
  rw [if_neg (by omega)]
  exact idles_ret s _

theorem readNbytesOn_idles {b : Buffer} {n : Nat} (h : n ≤ (s.buffer b).length) :
    (readNbytesOn b n).Idles s 0 := by
  refine (idles_gets s _).bind ?_
  rw [if_neg (by omega)]
  exact idles_ret s _

/-- A basic header that is in the buffer is read from there, without a call and with the
state unchanged. -/
theorem readBasicHeader_idles {fmt : Nat} {csid : Int}
    (h : basicHeader (s.buffer .ioBuffer) = some (fmt, csid)) :
    readBasicHeader.Idles s (0, fmt, csid, basicSize (s.buffer .ioBuffer)) := by
  obtain ⟨bh, hbh, h⟩ := Option.bind_eq_some_iff.mp h
  have hlen : ∀ {i : Nat} {c : UInt8}, (s.buffer .ioBuffer)[i]? = some c →
      i + 1 ≤ (s.buffer .ioBuffer).length := fun hc => (List.getElem?_eq_some_iff.mp hc).1
  have hsize : basicSize (s.buffer .ioBuffer)
      = if bh.toNat % 64 = 0 then 2 else if bh.toNat % 64 = 1 then 3 else 1 := by
    cases hbuf : s.buffer .ioBuffer with
    | nil =>
      rw [hbuf] at hbh
      cases hbh
    | cons first more =>
      rw [hbuf] at hbh
      cases hbh
      rfl
  rw [hsize]
  refine (readNbytesCycleOn_idles (hlen hbh)).bind ?_
  dsimp only
  rw [if_neg (by decide)]
  refine (idles_read s hbh).bind ((idles_ret s ()).bind ?_)
  by_cases h0 : bh.toNat % 64 = 0
  · rw [if_pos h0] at h ⊢
    obtain ⟨b1, hb1, h⟩ := Option.bind_eq_some_iff.mp h
    cases h
    rw [if_pos (by omega)]
    refine (readNbytesOn_idles (hlen hb1)).bind ?_
    rw [if_neg (by decide)]
    exact (idles_read s hb1).bind ((idles_ret s ()).bind (idles_ret s _))
  by_cases h1 : bh.toNat % 64 = 1
  · rw [if_neg h0, if_pos h1] at h ⊢
    obtain ⟨b1, hb1, h⟩ := Option.bind_eq_some_iff.mp h
    obtain ⟨b2, hb2, h⟩ := Option.bind_eq_some_iff.mp h
    cases h
    rw [if_neg (by omega), if_pos (by omega)]
    refine (readNbytesOn_idles (hlen hb2)).bind ?_
    rw [if_neg (by decide)]
    exact (idles_read s hb1).bind ((idles_read s hb2).bind ((idles_ret s ()).bind (idles_ret s _)))
  · rw [if_neg h0, if_neg h1] at h ⊢
    cases h
    rw [if_neg (by omega), if_neg (by omega)]
    exact idles_ret s _

/-! ## The message header -/

/-- What `read_message_header` leaves: its bytes in the buffer, and the length
that is among them in the table. -/
structure HeaderLeft (fmt : Nat) (csid : Int) (bhSize delta : Nat) (s : State) : Prop where
  whole : bhSize + deltaSize fmt delta ≤ (s.buffer .ioBuffer).length
  delta : deltaIn fmt bhSize (s.buffer .ioBuffer) = some delta
  stored : fmt ≤ 1 → ∃ bytes h, bytesAt (bhSize + 3) 3 (s.buffer .ioBuffer) = some bytes ∧
    s.globals.csidHeader csid = some h ∧ h.messageLength = ofBeBytes bytes

namespace HeaderLeft

variable {fmt bhSize delta : Nat} {csid : Int}

/-- Storing the length once more changes nothing, since the entry has the length that stands
in the buffer. -/
theorem storeMessageLength_idles (h : HeaderLeft fmt csid bhSize delta s) :
    (storeMessageLength fmt csid bhSize).Idles s () := by
  unfold storeMessageLength
  by_cases hfmt : fmt ≤ 1
  · rw [if_pos hfmt]
    obtain ⟨bytes, m, hbytes, hm, hlength⟩ := h.stored hfmt
    have hheader : s.globals.header csid = m := by
      rw [Globals.header, hm]
      rfl
    refine (idles_read s hbytes).bind (idles_modify ?_)
    rw [← hlength, hheader, ← hheader]
    exact State.touch_of_some hm
  · rw [if_neg hfmt]
    exact idles_ret s ()

theorem controlDelta_idles (h : HeaderLeft fmt csid bhSize delta s) :
    (controlDelta fmt bhSize).Idles s delta := by
  have hdelta := h.delta
  unfold deltaIn at hdelta
  unfold controlDelta
  by_cases hfmt : fmt = 1 ∨ fmt = 2
  · rw [if_pos hfmt] at hdelta ⊢
    obtain ⟨bytes, hbytes, heq⟩ := Option.map_eq_some_iff.mp hdelta
    subst heq
    exact (idles_read s hbytes).bind (idles_ret s _)
  · rw [if_neg hfmt] at hdelta ⊢
    cases hdelta
    exact idles_ret s _

/-- A header that has been read is read from the buffer, with the same result and the state
unchanged. -/
theorem readMessageHeader_idles (h : HeaderLeft fmt csid bhSize delta s) :
    (readMessageHeader fmt csid bhSize).Idles s (0, deltaSize fmt delta) := by
  have hwhole := h.whole
  unfold deltaSize at hwhole ⊢
  have hfields : bhSize + mhSizeArray fmt ≤ (s.buffer .ioBuffer).length := by
    split at hwhole <;> omega
  refine (readNbytesCycleOn_idles hfields).bind ?_
  dsimp only
  rw [if_neg (by decide)]
  refine h.controlDelta_idles.bind (h.storeMessageLength_idles.bind ?_)
  by_cases hext : delta = 0xFFFFFF
  · simp only [if_pos hext] at hwhole ⊢
    refine (readNbytesCycleOn_idles (by omega)).bind ?_
    dsimp only
    rw [if_neg (by decide)]
    exact idles_ret s _
  · simp only [if_neg hext]
    exact idles_ret s _

/-- Looking the key up does not change what was left: it can only add an entry where none
was stored. -/
theorem touch (h : HeaderLeft fmt csid bhSize delta s) :
    HeaderLeft fmt csid bhSize delta (s.touch csid) where
  whole := h.whole
  delta := h.delta
  stored hfmt := by
    obtain ⟨bytes, m, hbytes, hm, hlength⟩ := h.stored hfmt
    rw [State.touch_of_some hm]
    exact ⟨bytes, m, hbytes, hm, hlength⟩

end HeaderLeft

/-! ## The first pass -/

variable {ε : Type} {env : Env st ε} {e : ε} {fmt bhSize : Nat} {csid : Int}

/-- What a basic header reader has received is a basic header, and what it returns is what
stands there. -/
theorem wlp_readBasicHeader_left (hempty : s.buffer .ioBuffer = []) :
    wlp env readBasicHeader (fun r s' _ => r.1 ≠ -1 → ∃ p, s' = s.append .ioBuffer p ∧
      basicHeader p = some (r.2.1, r.2.2.1) ∧ r = (0, r.2.1, r.2.2.1, basicSize p)) s e := by
  refine wlp_mono (wlp_readBasicHeader account_came hempty) fun r s1 e1 ⟨p, _, hr⟩ hrc => ?_
  cases hr with
  | nothing => exact absurd rfl hrc
  | cut => exact absurd rfl hrc
  | whole hp hlen => exact ⟨p, rfl, hp, by rw [← hlen]⟩

/-- A read that did not fail has put its bytes into the buffer. -/
theorem wlp_readNbytesCycle_left {n : Nat} :
    wlp env (readNbytesCycle n) (fun r s' _ => r.1 ≠ -1 → ∃ x, s' = s.append .ioBuffer x ∧
      n ≤ (s'.buffer .ioBuffer).length) s e := by
  refine wlp_mono (wlp_readNbytesCycleOn_received account_came) fun r s1 e1 ⟨p, _, hr⟩ hrc => ?_
  rcases hr with ⟨hfail, -⟩ | ⟨-, hs1, hlen⟩
  · exact absurd hfail hrc
  · refine ⟨p, hs1, ?_⟩
    rw [hs1, State.buffer_append, List.length_append]
    omega

/-- The message header reader as well, and what it changes besides is the entry. -/
theorem wlp_readMessageHeader_left :
    wlp env (readMessageHeader fmt csid bhSize) (fun r s' _ => r.1 ≠ -1 → ∃ delta x,
      s'.client = (s.append .ioBuffer x).client ∧ HeaderLeft fmt csid bhSize delta s' ∧
        r = (0, deltaSize fmt delta)) s e := by
  unfold readMessageHeader
  simp only [bind_eq, pure_eq, wlp_bind]
  refine wlp_mono wlp_readNbytesCycle_left fun r s1 e1 hleft => ?_
  by_cases hrc : r.1 = -1
  · rw [if_pos hrc, wlp_ret]
    exact fun h => absurd rfl h
  obtain ⟨x, hs1, hlen⟩ := hleft hrc
  rw [if_neg hrc, wlp_bind]
  -- the delta is in the buffer
  have hdelta : wlp env (controlDelta fmt bhSize) (fun delta s' e' => s' = s1 ∧ e' = e1 ∧
      deltaIn fmt bhSize (s1.buffer .ioBuffer) = some delta) s1 e1 := by
    unfold controlDelta deltaIn
    by_cases hfmt : fmt = 1 ∨ fmt = 2
    · rw [if_pos hfmt, if_pos hfmt, bind_eq, wlp_bind, wlp_read]
      intro bytes hbytes
      rw [pure_eq, wlp_ret, hbytes]
      exact ⟨rfl, rfl, rfl⟩
    · rw [if_neg hfmt, if_neg hfmt, pure_eq, wlp_ret]
      exact ⟨rfl, rfl, rfl⟩
  refine wlp_mono hdelta fun delta s' e' hread => ?_
  obtain ⟨hs', he', hd⟩ := hread
  subst hs' he'
  rw [wlp_bind]
  -- and so is the length, which goes to the table
  have hstore : wlp env (storeMessageLength fmt csid bhSize) (fun _ s2 e2 => e2 = e' ∧
      s2.client = s'.client ∧ (fmt ≤ 1 → ∃ bytes h,
        bytesAt (bhSize + 3) 3 (s'.buffer .ioBuffer) = some bytes ∧
        s2.globals.csidHeader csid = some h ∧ h.messageLength = ofBeBytes bytes)) s' e' := by
    unfold storeMessageLength
    by_cases hfmt : fmt ≤ 1
    · rw [if_pos hfmt, bind_eq, wlp_bind, wlp_read]
      intro bytes hbytes
      rw [wlp_modify]
      exact ⟨rfl, rfl, fun _ => ⟨bytes, _, hbytes, State.setHeader_csidHeader .., rfl⟩⟩
    · rw [if_neg hfmt, pure_eq, wlp_ret]
      exact ⟨rfl, rfl, fun h => absurd h hfmt⟩
  refine wlp_mono hstore fun _ s2 e2 hstored2 => ?_
  obtain ⟨he2, hclient, hstored⟩ := hstored2
  subst he2
  have hbuf : s2.buffer .ioBuffer = s'.buffer .ioBuffer := congrArg Client.ioBuffer hclient
  by_cases hext : delta = 0xFFFFFF
  · rw [if_pos hext, wlp_bind]
    refine wlp_mono wlp_readNbytesCycle_left fun r3 s3 e3 hleft3 => ?_
    by_cases hrc3 : r3.1 = -1
    · rw [if_pos hrc3, wlp_ret]
      exact fun h => absurd rfl h
    obtain ⟨y, hs3, hlen3⟩ := hleft3 hrc3
    rw [if_neg hrc3, wlp_ret]
    refine fun _ => ⟨delta, x ++ y, ?_, ⟨?_, ?_, fun hfmt => ?_⟩, ?_⟩
    · rw [hs3, ← State.append_append, ← hs1]
      show { s2.client with ioBuffer := s2.buffer .ioBuffer ++ y } = _
      rw [hclient, hbuf]
      rfl
    · rw [deltaSize, if_pos hext]
      omega
    · rw [hs3, State.buffer_append, hbuf]
      exact deltaIn_append hd y
    · obtain ⟨bytes, h, hbytes, hentry, hlength⟩ := hstored hfmt
      refine ⟨bytes, h, ?_, ?_, hlength⟩
      · rw [hs3, State.buffer_append, hbuf]
        exact bytesAt_of_append hbytes y
      · rw [hs3, State.append_csidHeader]
        exact hentry
    · rw [deltaSize, if_pos hext]
  · rw [if_neg hext, wlp_ret]
    refine fun _ => ⟨delta, x, by rw [hclient, hs1], ⟨?_, ?_, fun hfmt => ?_⟩, ?_⟩
    · rw [deltaSize, if_neg hext, hbuf]
      omega
    · rw [hbuf]
      exact hd
    · rw [hbuf]
      exact hstored hfmt
    · rw [deltaSize, if_neg hext]

/-! ## The second pass -/

variable {s1 : State} {e1 : ε} {ret : Int}

/-- Looking a key up makes no call; it adds the default entry where there was none. -/
theorem runs_lookup {α : Type} (csid : Int) (field : MessageHeader → α) :
    Runs env (lookup csid field) s e (field ((s.touch csid).globals.header csid))
      (s.touch csid) e :=
  runs_bind.mpr ⟨(), s.touch csid, e, runs_act.mpr ⟨rfl, rfl⟩, runs_act.mpr ⟨rfl, rfl⟩⟩

/-- From where the header has been looked at, a receive does what it does from
the start. -/
theorem recvMessage_of_peek (hempty : s.buffer .ioBuffer = [])
    (hpeek : Runs env readHeaderGetPayloadLength s e ret s1 e1) (hret : ret ≠ -1) :
    (∃ x, s1.client = (s.append .ioBuffer x).client) ∧
    ∀ {readPayload : Nat → Nat → Int → Nat → Routine Int} {rc : Int} {s' : State} {e' : ε},
      Runs env (recvMessage readPayload) s1 e1 rc s' e'
        ↔ Runs env (recvMessage readPayload) s e rc s' e' := by
  obtain ⟨⟨rc1, fmt, csid, bhSize⟩, sb, eb, hbasic, hpeek⟩ := runs_bind.mp hpeek
  dsimp only at hpeek
  by_cases hrc1 : rc1 = -1
  · rw [if_pos hrc1, pure_eq, runs_ret] at hpeek
    exact absurd hpeek.1.symm hret
  rw [if_neg hrc1] at hpeek
  obtain ⟨p, hsb, hp, heq⟩ := wlp_readBasicHeader_left hempty _ _ _ hbasic hrc1
  cases heq
  obtain ⟨⟨rc2, mhSize⟩, sm, em, hheader, hpeek⟩ := runs_bind.mp hpeek
  dsimp only at hpeek
  by_cases hrc2 : rc2 = -1
  · rw [if_pos hrc2, pure_eq, runs_ret] at hpeek
    exact absurd hpeek.1.symm hret
  rw [if_neg hrc2] at hpeek
  obtain ⟨delta, x, hclient, hleft, heq⟩ := wlp_readMessageHeader_left _ _ _ hheader hrc2
  cases heq
  obtain ⟨-, hs1, he1⟩ := runs_det (runs_lookup csid MessageHeader.messageLength) hpeek
  subst hs1 he1
  -- what was received stands in the buffer
  have hbuf : (sm.touch csid).client = (s.append .ioBuffer (p ++ x)).client := by
    rw [show (sm.touch csid).client = sm.client from rfl, hclient, hsb, State.append_append]
  have hio : (sm.touch csid).buffer .ioBuffer = p ++ x := by
    have h := congrArg Client.ioBuffer hbuf
    rw [show (s.append .ioBuffer (p ++ x)).client.ioBuffer =
        s.buffer .ioBuffer ++ (p ++ x) from rfl,
      hempty] at h
    exact h
  refine ⟨⟨_, hbuf⟩, fun {readPayload rc s' e'} => ?_⟩
  have hidle : readBasicHeader.Idles (sm.touch csid) (0, fmt, csid, basicSize p) := by
    have h := readBasicHeader_idles (hio ▸ basicHeader_append hp x)
    rwa [hio, basicSize_append (basicHeader_ne_nil hp)] at h
  have hidle' := hleft.touch.readMessageHeader_idles
  unfold recvMessage
  rw [bind_eq, hbasic.bind_iff, (hidle.runs env em).bind_iff]
  dsimp only
  rw [if_neg (by decide), bind_eq, hheader.bind_iff, (hidle'.runs env em).bind_iff]
  dsimp only
  rw [if_neg (by decide), bind_eq, (runs_lookup csid MessageHeader.messageLength).bind_iff,
    (runs_lookup csid MessageHeader.messageLength).bind_iff, State.touch_touch]

/-- The handler that reads the header again, from the cleared buffer into which
it was put back, returns what it would have returned had nobody looked, with
the same buffer, table and position in the stream; it never returns where it
would not have. -/
theorem peek_replay (order : Order) (hnew : s.deleted = s)
    (hpeek : Runs env readHeaderGetPayloadLength s e ret s1 e1) (hret : ret ≠ -1) (hpush : ret ≠ 4)
    (readPayload : Nat → Nat → Int → Nat → Routine Int) (rc : Int) (s' : State) (e' : ε) :
    Runs env (recvMessage readPayload) (Step.identify.finish order ret s1) e1 rc s' e'
      ↔ Runs env (recvMessage readPayload) s e rc s' e' := by
  have hempty : s.buffer .ioBuffer = [] := by rw [← hnew]; rfl
  obtain ⟨⟨x, hclient⟩, hrecv⟩ := recvMessage_of_peek hempty hpeek hret
  -- the message object is as fresh as it was, and the buffer as full
  have hmessage : s1.client.message = {} := by
    rw [hclient, State.append_message, ← hnew]
    rfl
  have hback : Step.identify.finish order ret s1 = s1 := by
    rw [Step.finish, if_neg hpush, State.deleted, ← hmessage]
    rfl
  rw [hback]
  exact hrecv

/-- A fmt 1 header with an extended timestamp: the handler that comes after it finds all its
bytes in the buffer. -/
theorem peek_replay_extended : ∃ s1 e1,
    Runs streamEnv readHeaderGetPayloadLength {}
      ⟨[0x45, 0xff, 0xff, 0xff, 0, 0, 1, 20, 0, 0, 0, 7, 9], []⟩
      1 s1 e1 ∧
    ∀ rc s' e', Runs streamEnv (Received.recv .releaseStream)
        (Step.identify.finish .front 1 s1) e1 rc s' e' ↔
      Runs streamEnv (Received.recv .releaseStream) {}
        ⟨[0x45, 0xff, 0xff, 0xff, 0, 0, 1, 20, 0, 0, 0, 7, 9], []⟩ rc s' e' := by
  have hpeek : ∃ s1 e1, Runs streamEnv readHeaderGetPayloadLength {}
      ⟨[0x45, 0xff, 0xff, 0xff, 0, 0, 1, 20, 0, 0, 0, 7, 9], []⟩ 1 s1 e1 :=
    ⟨_, _, 2, rfl⟩
  obtain ⟨s1, e1, hpeek⟩ := hpeek
  exact ⟨s1, e1, hpeek, peek_replay .front rfl hpeek (by decide) (by decide) _⟩

end

end RtmpServer
