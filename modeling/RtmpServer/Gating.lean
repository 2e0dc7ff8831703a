import RtmpServer.Undisturbed
import RtmpServer.Correlation

/-!
# What a session goes on from

A session should make its next step only when the command before it has come
in and the message before it has gone out. `process_thread` looks at the return
values up to `IdentifyClient` and at none of those after it. `gated` says for
which clients it behaves as if it did: those that send the commands it waits
for, over a socket that does not fail.
-/

namespace RtmpServer

open Coroutine Coroutine.Prog Endian Framing
open Push

/-! ## Commands -/

/-- The command that a message of the class carries, by the name that a client gives it. -/
def Received.command : Received → Option Bytes
  | connectMessage => some (chars "connect")
  | releaseStream => some (chars "releaseStream")
  | fcPublish => some (chars "FCPublish")
  | createStream => some (chars "createStream")
  | checkBw => some (chars "_checkbw")
  | getStreamLength => some (chars "getStreamLength")
  | playCommandMessage => some (chars "play")
  | unknownMessage => none
  | publish => some (chars "publish")
  | setDataFrame => some (chars "@setDataFrame")

/-- The payload begins with the name of the command that the class is for. -/
def Received.Carries (type : Received) (p : Bytes) : Prop :=
  ∀ name, type.command = some name → 0x02 :: (beBytes 2 name.length ++ name) <+: p

/-- No name is so long that the first chunk does not hold it. -/
theorem Received.command_length {type : Received} {name : Bytes}
    (h : type.command = some name) : (0x02 :: (beBytes 2 name.length ++ name)).length ≤ 128 := by
  cases type with
  | unknownMessage => cases h
  | _ =>
    cases h
    decide +kernel

/-- The command that a message must not be sent without, if it answers one. -/
def Response.follows : Response → Option Received
  | onFCPublish _ => some .publish
  | onStatus _ => some .publish
  | m => m.request

namespace Event

variable {ε : Type}

/-- What stands in `io_buffer` behind the header of the message received, when the call has
returned. -/
def payload (ev : Event ε) : Bytes := controlPayload (ev.after.buffer .ioBuffer)

/-- A receive returned 0 on its command, a write returned 0: what a call has to do for the
session to be in order. -/
def Good (ev : Event ε) : Prop :=
  match ev.line.step with
  | .recv type => ev.rc = 0 ∧ type.Carries ev.payload
  | .handshake => ev.rc = 0
  | .readRest => ev.rc = 0
  | .send _ => ev.rc = 0
  | .announceChunkSize => ev.rc = 0
  | .sendOnMetaData => ev.rc = 0
  | _ => True

/-- What the client has sent behind the header of the message, if `p` is what comes
in during the call. The header may have come before: `IdentifyClient` leaves the
one that it has read in `io_buffer`. -/
def sent (ev : Event ε) (p : Bytes) : Bytes := controlPayload (ev.before.buffer .ioBuffer ++ p)

/-- What is asked of the client and its socket. A call that is not checked
meets no failing answer; the bytes that come in for a receive are a message with
its command, and if it is not checked one whose payload its parser accepts. -/
structure Meets (order : Order) (env : Env (st.amid Others) ε) (took : ε → Bytes → ε → Prop)
    (ev : Event ε) : Prop where
  whole : ev.line.checked = false →
    Runs (undisturbed env) (ev.line.call order) ev.before ev.socket ev.rc ev.after ev.socket'
  accepted : ∀ type p, ev.line.step = .recv type → ev.line.checked = false →
    took ev.socket p ev.socket' → type.Accepts (ev.sent p)
  carries : ∀ type p, ev.line.step = .recv type → took ev.socket p ev.socket' →
    type.Carries (ev.sent p)

end Event

/-- What the next step is made from: all receives have returned 0 on their
commands and all writes 0, and a message that answers a command has been
preceded by it. -/
structure Gated {ε : Type} (events : List (Event ε)) (lines : List Line) : Prop where
  good : ∀ ev ∈ events, ev.Good
  follows : ∀ m checked rest type, lines = ⟨.send m, checked⟩ :: rest →
    m.message.follows = some type → ∃ ev ∈ events, ev.line.step = .recv type ∧ ev.rc = 0

/-! ## What the code looks like -/

/-- What the three parts have in common: only `connect` is received in a
checked call, the handshake and the rest are read in checked calls, and what is
sent is as long as announced. -/
def Line.regular (line : Line) : Bool :=
  match line.step with
  | .recv type => decide (type = .connectMessage ↔ line.checked = true)
  | .handshake => line.checked
  | .readRest => line.checked
  | .send m => decide (m ∈ Send.fixed)
  | _ => true

theorem regular_of_part : ∀ part ∈ Line.parts, ∀ line ∈ part, line.regular = true := by
  decide +kernel

/-- A message that answers a command comes after its receive, in the part of the code that
the line is in. -/
def Line.comesAfter (line : Line) (rest : List Line) : Bool :=
  match line.step with
  | .send m =>
    match m.message.follows with
    | some type => decide (∀ next ∈ line :: rest, next.step ≠ .recv type)
    | none => true
  | _ => true

/-- The receives of a part, up to a line that answers one of them. -/
def Line.receivedIn (part : List Line) (line : Line) : Bool :=
  match line.step with
  | .send m =>
    match m.message.follows with
    | some type => decide (∃ past ∈ part, past.step = .recv type)
    | none => true
  | _ => true

theorem comesAfter_of_part : ∀ part ∈ Line.parts, Line.every Line.comesAfter part = true := by
  decide +kernel

theorem receivedIn_of_part :
    ∀ part ∈ Line.parts, ∀ line ∈ part, Line.receivedIn part line = true := by
  decide +kernel

namespace Session

variable {order : Order} {ε : Type} {env : Env (st.amid Others) ε} {events : List (Event ε)}
  {lines : List Line} {s : State} {e : ε}

/-- The lines that have been called are the ones in front, part by part. -/
theorem line_mem (h : Session order env events lines s e) {ev : Event ε} (hev : ev ∈ events) :
    ∃ part ∈ Line.parts, ev.line ∈ part := by
  have hline : ev.line ∈ events.map Event.line := List.mem_map_of_mem hev
  cases h.course with
  | negotiating hsplit _ _ =>
    exact ⟨_, .head _, hsplit ▸ List.mem_append_left _ hline⟩
  | flowing rc past hbehind hsplit _ =>
    rw [hbehind] at hline
    rcases List.mem_append.mp hline with hold | hpast
    · exact ⟨_, .head _, hold⟩
    · exact ⟨_, Line.flow_mem_parts rc, hsplit ▸ List.mem_append_left _ hpast⟩

/-- A line of the same part that is not to come has been called. -/
theorem exists_event_part (h : Session order env events lines s e) :
    ∃ part ∈ Line.parts, ∃ past, past ++ lines = part ∧
      ∀ line ∈ past, ∃ ev ∈ events, ev.line = line := by
  cases h.course with
  | negotiating hsplit _ _ =>
    exact ⟨_, .head _, _, hsplit, fun line hline => List.mem_map.mp hline⟩
  | flowing rc past hbehind hsplit _ =>
    refine ⟨_, Line.flow_mem_parts rc, past, hsplit, fun line hline => List.mem_map.mp ?_⟩
    rw [hbehind]
    exact List.mem_append_right _ hline

variable {took : ε → Bytes → ε → Prop}

/-- A call that reports its failures and meets none has returned 0, and so has
one that is checked. -/
theorem rc_eq_zero {ev : Event ε} (hcalled : ev.Called order env)
    (hmeets : ev.Meets order env took)
    (hreports : ∀ {env' : Env (st.amid Others) ε},
      wlp env' (ev.line.call order) (fun rc _ _ => Reports env' rc) ev.before ev.socket) :
    ev.rc = 0 := by
  by_cases hchecked : ev.line.checked = true
  · rcases hreports _ _ _ hcalled.runs with hrc | ⟨hrc, _⟩
    · exact hrc
    · exact absurd hrc (hcalled.checked hchecked)
  · rcases hreports _ _ _ (hmeets.whole (Bool.not_eq_true _ ▸ hchecked)) with hrc | ⟨_, hfails⟩
    · exact hrc
    · exact absurd (undisturbed_unfailing env) hfails

/-- The receive of `connect` is checked: its bytes may have come in any pieces and
with errors in between. -/
theorem good_of_connect (hacc : Account env.answers took) {ev : Event ε}
    (hcalled : ev.Called order env) (hmeets : ev.Meets order env took)
    (hstep : ev.line.step = .recv .connectMessage) (hchecked : ev.line.checked = true) :
    ev.rc = 0 ∧ Received.connectMessage.Carries ev.payload := by
  have hrun := hcalled.runs
  unfold Line.call at hrun
  rw [hstep] at hrun
  have hrc := hcalled.checked hchecked
  refine ⟨(wlp_recv_rc _ _ _ hrun).resolve_right hrc, fun name hname => ?_⟩
  have hlong := Nat.le_trans (Received.command_length hname) hcalled.chunkSize
  obtain ⟨p, hp, hkeeps⟩ := Received.wlp_recv_connect hacc hlong _ _ _ hrun
  exact hkeeps hrc (hmeets.carries _ p hstep hp name hname)

/-- The other receives are not checked, but nothing fails in them, so what they return is 0
as well. -/
theorem good_of_recv (hacc : Account env.answers took) {ev : Event ε} {type : Received}
    (hmeets : ev.Meets order env took) (hstep : ev.line.step = .recv type)
    (htype : type ≠ .connectMessage) (hchecked : ev.line.checked = false) :
    ev.rc = 0 ∧ type.Carries ev.payload := by
  have hrun := hmeets.whole hchecked
  unfold Line.call at hrun
  rw [hstep] at hrun
  obtain ⟨p, hp, hcame⟩ := Received.wlp_recv (account_undisturbed hacc) htype _ _ _ hrun
  rcases hcame with hbroke | ⟨hbuf, haccepted⟩
  · exact absurd (undisturbed_unfailing env) hbroke.2
  · -- what stands in the buffer is what was sent
    have hpayload : ev.payload = ev.sent p := by
      rw [Event.payload, hbuf, Event.sent]
    rw [← Event.payload, hpayload] at haccepted
    rw [hpayload]
    exact ⟨haccepted (hmeets.accepted type p hstep hchecked hp), hmeets.carries type p hstep hp⟩

/-- One event of a session, by the kind of its line. -/
theorem good_of_meets (hacc : Account env.answers took) {ev : Event ε}
    (hcalled : ev.Called order env) (hmeets : ev.Meets order env took)
    (hregular : ev.line.regular = true) : ev.Good := by
  have hcheckedRc : ev.line.checked = true →
      wlp env (ev.line.call order) (fun rc _ _ => rc = 0 ∨ rc = -1) ev.before ev.socket →
      ev.rc = 0 := by
    intro hchecked hwlp
    exact (hwlp _ _ _ hcalled.runs).resolve_right (hcalled.checked hchecked)
  unfold Event.Good
  unfold Line.regular at hregular
  unfold Line.call at hcheckedRc
  -- each kind of line has its own notion of what went well, and its own reason for it
  cases hstep : ev.line.step with
  | recv type =>
    rw [hstep] at hregular
    have hconnect := of_decide_eq_true hregular
    by_cases hchecked : ev.line.checked = true
    · have htype := hconnect.mpr hchecked
      subst htype
      exact good_of_connect hacc hcalled hmeets hstep hchecked
    · exact good_of_recv hacc hmeets hstep (fun h => hchecked (hconnect.mp h))
        (Bool.eq_false_iff.mpr hchecked)
  | handshake =>
    rw [hstep] at hregular hcheckedRc
    exact hcheckedRc hregular wlp_handshake_rc
  | readRest =>
    rw [hstep] at hregular hcheckedRc
    refine hcheckedRc hregular ?_
    show wlp env (.bind ((readNbytesCycle 4).amid Others.apply) _) _ _ _
    rw [wlp_bind]
    exact wlp_mono wlp_readRest_rc fun r _ _ hr => wlp_ret.mpr hr
  | send m =>
    rw [hstep] at hregular
    refine rc_eq_zero hcalled hmeets ?_
    unfold Line.call
    rw [hstep]
    exact wlp_send_reports (Send.declared_fixed _ (of_decide_eq_true hregular))
  | announceChunkSize =>
    refine rc_eq_zero hcalled hmeets ?_
    unfold Line.call
    rw [hstep]
    exact wlp_send_reports (Send.declared_fixed _ (by decide +kernel))
  | sendOnMetaData =>
    refine rc_eq_zero hcalled hmeets ?_
    unfold Line.call
    rw [hstep]
    exact wlp_sendOnMetaData_reports hcalled.storable
  | identify => exact trivial
  | waitMetaData => exact trivial
  | register => exact trivial
  | relayLoop => exact trivial
  | publishLoop => exact trivial

/-- In every run of a session: as long as the calls that the code does not
check meet no failure, and the messages received are the commands they are
taken for, each step is made from good ones. -/
theorem gated (hacc : Account env.answers took) (h : Session order env events lines s e)
    (hmeets : ∀ ev ∈ events, ev.Meets order env took) : Gated events lines := by
  have hgood : ∀ ev ∈ events, ev.Good := by
    intro ev hev
    obtain ⟨part, hpart, hline⟩ := h.line_mem hev
    exact good_of_meets hacc (h.called ev hev) (hmeets ev hev) (regular_of_part part hpart _ hline)
  refine ⟨hgood, fun m checked rest type hlines hfollows => ?_⟩
  obtain ⟨part, hpart, past, hsplit, hpast⟩ := h.exists_event_part
  rw [hlines] at hsplit
  -- the receive is in the part, and it is not among the lines to come
  have hcomes := Line.test_of_every (comesAfter_of_part part hpart) hsplit
  have hreceived := receivedIn_of_part part hpart ⟨.send m, checked⟩
    (hsplit ▸ List.mem_append_right past (.head _))
  simp only [Line.comesAfter, hfollows] at hcomes
  simp only [Line.receivedIn, hfollows] at hreceived
  obtain ⟨line, hline, hstep⟩ := of_decide_eq_true hreceived
  have hbefore : line ∈ past := by
    rw [← hsplit] at hline
    rcases List.mem_append.mp hline with hmem | hmem
    · exact hmem
    · exact absurd hstep (of_decide_eq_true hcomes line hmem)
  obtain ⟨ev, hev, heq⟩ := hpast line hbefore
  rw [← heq] at hstep
  have hgoodEv := hgood ev hev
  unfold Event.Good at hgoodEv
  rw [hstep] at hgoodEv
  exact ⟨ev, hev, hstep, hgoodEv.1⟩

/-- A session that has received a `connect` and answered it, as the calls of a client have
it. -/
theorem gated_connected :
    ∃ (events : List (Event Stream)) (q : Event Stream) (lines : List Line), q ∈ events ∧
      q.line.step = .recv .connectMessage ∧ Gated events lines := by
  obtain ⟨events, s, out, h, -, hconnect⟩ := connected Order.front
    (m := ObjectMessage.connectLive) (by decide) []
  obtain ⟨q, hq, hqline⟩ := h.exists_event (.checkedCall (.recv .connectMessage))
    (by decide +kernel) (by decide +kernel)
  have hacc : Account byItself.answers TookFrom := by
    rw [answers_alone]
    exact account_tookFrom
  refine ⟨events, q, _, hq, by rw [hqline]; rfl, gated hacc h fun ev hev => ?_⟩
  have hline : ev.line ∈ Line.negotiation := h.line_mem_negotiation (.head _) hev
  have hall : ∀ line ∈ Line.negotiation, line.checked = true ∧
      (line.step = .recv .connectMessage ∨ receives line.step = false) := by decide +kernel
  have hchecked : ev.line.checked ≠ false := by
    rw [(hall _ hline).1]
    decide
  refine ⟨fun h => absurd h hchecked, fun _ _ _ h => absurd h hchecked,
    fun type p htype hp => ?_⟩
  rcases (hall _ hline).2 with hstep | hstep
  · rw [htype] at hstep
    cases hstep
    intro name hname
    cases hname
    obtain ⟨-, -, hempty, htook⟩ := hconnect ev hev htype
    -- one chunk holds the message
    have hshort : (ObjectMessage.connectLive.out (by decide)).wire 128
        = _ := frame_short (by decide)
    have hpwire : p = (ObjectMessage.connectLive.out (by decide)).wire 128 :=
      List.append_cancel_right (hp.symm.trans htook)
    rw [Event.sent, hempty, hpwire, hshort]
    decide +kernel
  · rw [htype] at hstep
    cases hstep

/-- A player that sends something else in the place of its `createStream`:
`CreateStreamResponse` is the next message all the same. -/
theorem not_gated :
    ¬ ∀ (events : List (Event Stream)) (lines : List Line) (s : State) (e : Stream),
      Session Order.front byItself events lines s e → Gated events lines := by
  intro hall
  obtain ⟨events, s, out, h, -⟩ := connected Order.front
    (m := ObjectMessage.connectLive) (by decide) (windowSize (noCommand.wire 1 ++ []))
  obtain ⟨events', s', hempty, h2⟩ := h.pulled
  obtain ⟨c, hcline, -, -, hcrc, h3⟩ := h2.extend Line.pullFlow.tail.tail
    (P := fun rc _ _ => rc = -1)
    (wp_mono (wp_recv_noCommand hempty h2.chunkSize_pos) fun rc _ _ hrc => ⟨rfl, hrc⟩)
  have hgood := (hall _ _ _ _ h3).good c (List.mem_append_right _ (.head _))
  unfold Event.Good at hgood
  rw [hcline] at hgood
  exact absurd (hcrc.symm.trans hgood.1) (by decide)

end Session

end RtmpServer
