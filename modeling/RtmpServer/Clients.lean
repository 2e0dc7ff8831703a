import RtmpServer.History

/-!
# Sessions with a client that sends its bytes in time

Against a client that delivers a stream and takes everything, each line of a
session takes its bytes off the stream. `connected` is the start that all
sessions have in common, for a `connect` with any transaction id.
-/

namespace RtmpServer

open Coroutine Coroutine.Prog Endian Framing

/-- Both parts of the client's handshake as one stretch of the stream, with zeros for its
random bytes. -/
def hello : Bytes := 0x03 :: List.replicate 3072 0

/-- What the server answers to it: the version, and zeros for all the rest. -/
def helloBack : Bytes := 0x03 :: List.replicate 3072 0

/-- The handshake leaves the session as it was, and its answer is on the wire. -/
theorem wp_handshake {Q : Int → State → Stream → Prop} {s : State} {rest out : Bytes}
    (hempty : s.buffer .ioBuffer = []) :
    wp streamEnv handshake Q s ⟨hello ++ rest, out⟩ ↔ Q 0 s ⟨rest, out ++ helloBack⟩ := by
  have hhello : hello = (0x03 :: List.replicate 1536 0) ++ List.replicate 1536 0 := by
    rw [hello, List.cons_append, List.replicate_append_replicate]
  have hfirst : ((s.append .ioBuffer (0x03 :: List.replicate 1536 0)).buffer .ioBuffer)[0]?
      = some (0x03 : UInt8) := by
    rw [State.buffer_append, hempty]
    rfl
  have hlen : ((s.append .ioBuffer (0x03 :: List.replicate 1536 0)).buffer .ioBuffer).length
      = 1537 := by
    rw [State.buffer_append, hempty, List.nil_append, List.length_cons, List.length_replicate]
  have hback : (0x03 :: List.replicate 3072 0 : Bytes).length = 3073 := by
    rw [List.length_cons, List.length_replicate]
  have hs : s.setBuffer .ioBuffer [] = s := by
    rw [← hempty, State.setBuffer_buffer]
  unfold handshake readNbytes
  rw [hhello, List.append_assoc, bind_eq, wp_bind,
    wp_readNbytesOn_append (by rw [hempty, List.length_cons, List.length_replicate]; rfl),
    if_neg (by decide), bind_eq, wp_bind, wp_read, hfirst]
  simp only [Option.some.injEq, exists_eq_left']
  rw [if_neg (not_not_intro rfl), bind_eq, wp_bind, write, bind_eq, wp_bind,
    wp_stWritev_takes streamEnv_takesAll rfl (by rw [hback]; decide)]
  dsimp only
  rw [if_neg (not_not_intro rfl), pure_eq, wp_ret, if_neg (by decide), bind_eq, wp_bind,
    wp_readNbytesOn_append (by rw [hlen, List.length_replicate]), if_neg (by decide), bind_eq,
    wp_bind, wp_modify, wp_ret, State.append_append, State.append_setBuffer, hs]
  rfl

/-- A command with one object, as a message that a client sends: its payload behind a fmt 0
header. -/
def ObjectMessage.out (m : ObjectMessage) (hle : m.payload.length ≤ 0xFFFFFF) : OutMessage where
  csid := 3
  timestamp := 0
  type := 20
  streamId := 0
  payload := m.payload
  csid_ge := by decide
  csid_le := by decide
  timestamp_lt := by decide
  payload_ne := List.cons_ne_nil _ _
  payload_le := hle

/-- A `connect` is received with all that the client has put in it. -/
theorem wp_recv_connect {m : ObjectMessage} (hle : m.payload.length ≤ 0xFFFFFF) {s : State}
    {rest out : Bytes} (hempty : s.buffer .ioBuffer = []) (hcs : 0 < s.client.chunkSize)
    (hmessage : s.client.message = {}) :
    wp streamEnv Received.connectMessage.recv (fun rc s' e' => rc = 0 ∧
        s'.client.message = ⟨m.command, m.transactionId, m.object⟩ ∧
        s'.buffer .ioBuffer = (m.out hle).header ++ m.payload ∧ e' = ⟨rest, out⟩) s
      ⟨(m.out hle).wire s.client.chunkSize ++ rest, out⟩ := by
  refine (m.out hle).wp_recvMessage_wire hempty ?_
  refine ObjectMessage.wp_connect (m := m) (m.out hle).header_length hcs ?_ ?_ fun s' hs' hbuf => ?_
  · simp [control_buffer, hempty]
  · simp [OutMessage.chunkHeader, ChunkHeader.control, hmessage]
  · rw [if_neg (by decide), hs']
    exact ⟨rfl, rfl, hbuf, rfl⟩

/-- `IdentifyClient` reads a header and gives its message length, which leaves the payload
unread. -/
theorem wp_readHeaderGetPayloadLength (h : ChunkHeader) (csid : Nat) (rest out : Bytes)
    {m : MessageHeader} {Q : Int → State → Stream → Prop} {s : State}
    (hempty : s.buffer .ioBuffer = []) (h2 : 2 ≤ csid) (h63 : csid ≤ 63)
    (hm : (h.control csid s).globals.csidHeader csid = some m)
    (hQ : Q m.messageLength
      ((h.control csid s).append .ioBuffer (basicByte h.fmt csid :: h.controlBytes)) ⟨rest, out⟩) :
    wp streamEnv readHeaderGetPayloadLength Q s
      ⟨basicByte h.fmt csid :: (h.controlBytes ++ rest), out⟩ := by
  have hfmt : h.fmt < 4 := h.fmt_lt
  simp only [readHeaderGetPayloadLength, readBasicHeader, bind_eq, pure_eq, wp_bind]
  rw [wp_readBasicHeaderOn hempty hfmt h2 h63, wp_ret, if_neg (by simp), wp_bind]
  have hbh : 1 = ((s.append .ioBuffer [basicByte h.fmt csid]).buffer .ioBuffer).length := by
    simp [hempty]
  rw [hbh, wp_readMessageHeader, if_neg (by simp), control_append, State.append_append,
    wp_lookup (m := m) (by simpa using hm)]
  exact hQ

/-- A message of one byte that is no command, where a command is expected. -/
def noCommand : OutMessage where
  csid := 3
  timestamp := 0
  type := 20
  streamId := 0
  payload := [0x05]
  csid_ge := by decide
  csid_le := by decide
  timestamp_lt := by decide
  payload_ne := by decide
  payload_le := by decide

/-- `CreateStream` rejects it, and the session goes on, for the call is not checked. -/
theorem wp_recv_noCommand {s : State} {rest out : Bytes} (hempty : s.buffer .ioBuffer = [])
    (hcs : 0 < s.client.chunkSize) :
    wp streamEnv Received.createStream.recv (fun rc _ _ => rc = -1) s
      ⟨noCommand.wire 1 ++ rest, out⟩ := by
  have hshort : ∀ {size : Nat}, 0 < size →
      noCommand.wire size = noCommand.header ++ noCommand.payload := fun h => frame_short h
  have hwire : noCommand.wire 1 = noCommand.wire s.client.chunkSize :=
    (hshort Nat.zero_lt_one).trans (hshort hcs).symm
  rw [hwire]
  refine noCommand.wp_recvMessage_wire hempty ?_
  have hbuf : ((noCommand.chunkHeader.control noCommand.csid s).append .ioBuffer
      noCommand.header).buffer .ioBuffer = noCommand.header := by
    rw [State.buffer_append, control_buffer, hempty, List.nil_append]
  have hparse : ∀ message, parseCommand noCommand.payload message = some (-1, message) :=
    fun _ => rfl
  show wp streamEnv (readPayloadCommand 1 11 noCommand.payload.length s.client.chunkSize) _ _ _
  rw [frame_short hcs, List.nil_append, readPayloadCommand, bind_eq, wp_bind,
    wp_readWhole_append (by rw [hbuf, noCommand.header_length]), if_neg (by decide), parseBuffer,
    wp_act, State.buffer_append, hbuf, List.drop_left' noCommand.header_length, hparse]
  exact ⟨-1, _, rfl, rfl⟩

/-! ## Lines of a session -/

/-- The environment of a session that is alone with its client: nobody else runs in a wait. -/
abbrev byItself : Env (st.amid Others) Stream := alone Others.idle streamEnv

namespace Session

variable {order : Order} {events : List (Event Stream)} {line : Line} {rest next : List Line}
  {s : State} {e : Stream}

/-- A line that a client answers is one more event, with the states and the return value of
its run. -/
theorem extend (next : List Line) {P : Int → State → Stream → Prop}
    (h : Session order byItself events (line :: rest) s e)
    (hwp : wp streamEnv (line.step.call order) (fun rc s' e' =>
      line.follow rc rest = some next ∧ P rc s' e') s e) :
    ∃ ev : Event Stream, ev.line = line ∧ ev.before = s ∧ ev.socket = e ∧
      P ev.rc ev.after ev.socket' ∧
      Session order byItself (events ++ [ev]) next (line.step.finish order ev.rc ev.after)
        ev.socket' := by
  obtain ⟨rc, s', e', hrun, hfollow, hP⟩ := hwp
  exact ⟨⟨line, s, e, rc, s', e'⟩, rfl, rfl, rfl, hP,
    h.call ((runs_alone Others.apply_idle).mpr hrun) hfollow⟩

/-- A message is sent, and the stream of what the client says stands where it stood. -/
theorem extend_send {m : Send} {checked : Bool} {inp out : Bytes} (hm : m.Declared)
    (h : Session order byItself events (⟨.send m, checked⟩ :: next) s ⟨inp, out⟩) :
    ∃ (ev : Event Stream) (out' : Bytes), ev.line = ⟨.send m, checked⟩ ∧ ev.rc = 0 ∧
      Session order byItself (events ++ [ev]) next ev.after.deleted ⟨inp, out'⟩ := by
  obtain ⟨payload, hpush, _, hne⟩ := hm
  have hfollow : Line.follow ⟨.send m, checked⟩ 0 next = some next := by
    rw [Line.follow, if_neg (fun h => absurd h.2 (by decide)), if_neg (by intro h; cases h)]
  have hwp : wp streamEnv m.write _ s ⟨inp, out⟩ :=
    Send.wp_write hpush hne (h.empties _ _ rfl rfl) h.chunkSize_pos
  obtain ⟨ev, hline, -, -, ⟨hrc, hsocket⟩, hsession⟩ := h.extend next
    (P := fun rc _ e' => rc = 0 ∧ ∃ out', e' = ⟨inp, out'⟩)
    (wp_mono hwp fun rc s' e' hwritten => by
      obtain ⟨hrc, _, he⟩ := hwritten
      exact ⟨by rw [hrc]; exact hfollow, hrc, _, he⟩)
  obtain ⟨out', hout⟩ := hsocket
  rw [hout] at hsession
  exact ⟨ev, out', hline, hrc, hsession⟩

/-- The start of every session: the client's `connect`, whatever it says, is
received, and the messages up to `onBWDone` are sent. Every call returns 0. -/
theorem connected (order : Order) {m : ObjectMessage} (hle : m.payload.length ≤ 0xFFFFFF)
    (rest : Bytes) :
    ∃ (events : List (Event Stream)) (s : State) (out : Bytes),
      Session order byItself events [.checkedCall .identify] s ⟨rest, out⟩ ∧
      (∀ ev ∈ events, ev.rc = 0) ∧
      ∀ q ∈ events, q.line.step = .recv .connectMessage →
        q.rc = 0 ∧ q.after.client.message = ⟨m.command, m.transactionId, m.object⟩ ∧
          q.before.buffer .ioBuffer = [] ∧ TookFrom q.socket ((m.out hle).wire 128) q.socket' := by
  have hdeclared : ∀ {m : Send}, m ∈ Send.fixed → m.Declared := fun hm => Send.declared_fixed _ hm
  have haccepted : ({} : State).Accepted := ⟨rfl, List.forall_mem_nil _⟩
  -- the handshake
  have hstart : Session order byItself [] Line.negotiation {}
      ⟨hello ++ ((m.out hle).wire 128 ++ rest), []⟩ := .start haccepted
  obtain ⟨h, hline, -, -, ⟨hrc, hafter, hsocket⟩, h1⟩ := hstart.extend Line.negotiation.tail
    (P := fun rc s' e' => rc = 0 ∧ s' = {} ∧
      e' = ⟨(m.out hle).wire 128 ++ rest, [] ++ helloBack⟩)
    ((wp_handshake rfl).mpr ⟨rfl, rfl, rfl, rfl⟩)
  rw [hafter, hsocket] at h1
  -- `connect`
  have hfollow : ∀ (next : List Line) (line : Line) (rest : List Line) (rc : Int),
      rc = 0 → next = rest → line.step ≠ .identify → line.follow rc rest = some next := by
    intro next line rest rc hrc hnext hstep
    rw [Line.follow, hrc, if_neg (fun h => absurd h.2 (by decide)), if_neg hstep, hnext]
  obtain ⟨q, _, hqbefore, hqstream, ⟨hqrc, hqmessage, -, hqsocket⟩, h2⟩ :=
    h1.extend Line.negotiation.tail.tail
    (P := fun rc s' e' => rc = 0 ∧ s'.client.message = ⟨m.command, m.transactionId, m.object⟩ ∧
      s'.buffer .ioBuffer = (m.out hle).header ++ m.payload ∧ e' = ⟨rest, [] ++ helloBack⟩)
    (wp_mono (wp_recv_connect hle rfl (Nat.zero_lt_succ _) rfl) fun rc s' e' hP =>
      ⟨hfollow _ _ _ _ hP.1 rfl (by intro h; cases h), hP⟩)
  rw [hqsocket] at h2
  -- the four messages
  obtain ⟨w, _, hw, hwrc, h3⟩ := h2.extend_send (hdeclared (.head _))
  obtain ⟨b, _, hb, hbrc, h4⟩ := h3.extend_send (hdeclared (.tail _ (.head _)))
  obtain ⟨a, _, ha, harc, h5⟩ := h4.extend_send (hdeclared (.tail _ (.tail _ (.head _))))
  obtain ⟨d, out, hd, hdrc, h6⟩ :=
    h5.extend_send (hdeclared (.tail _ (.tail _ (.tail _ (.head _)))))
  refine ⟨_, _, out, h6, by simp [hrc, hqrc, hwrc, hbrc, harc, hdrc], fun ev hev hstep => ?_⟩
  have hcases : ev = h ∨ ev = q ∨ ev = w ∨ ev = b ∨ ev = a ∨ ev = d := by simpa using hev
  rcases hcases with heq | heq | heq | heq | heq | heq
  · rw [heq, hline] at hstep
    cases hstep
  · rw [heq]
    refine ⟨hqrc, hqmessage, by rw [hqbefore]; rfl, ?_⟩
    rw [TookFrom, hqstream, hqsocket]
  · rw [heq, hw] at hstep
    cases hstep
  · rw [heq, hb] at hstep
    cases hstep
  · rw [heq, ha] at hstep
    cases hstep
  · rw [heq, hd] at hstep
    cases hstep

/-- The header of a `Window Acknowledgement Size`, which is what tells a player
from a publisher. -/
def windowHeader : ChunkHeader := .fmt0 ⟨0, 0⟩ 4 5 0

/-- A player's message after the negotiation, whose length tells it from a publisher's, and
what it sends behind it. -/
def windowSize (rest : Bytes) : Bytes :=
  basicByte 0 2 :: (windowHeader.controlBytes ++ ([0x00, 0x26, 0x25, 0xa0] ++ rest))

/-- The pull flow begins, and the rest of that message is dropped, all its bytes having
come. -/
theorem pulled {rest out : Bytes}
    (h : Session order byItself events [.checkedCall .identify] s ⟨windowSize rest, out⟩) :
    ∃ (events' : List (Event Stream)) (s' : State), s'.buffer .ioBuffer = [] ∧
      Session order byItself (events ++ events') Line.pullFlow.tail s' ⟨rest, out⟩ := by
  have hfollow : (Line.checkedCall .identify).follow 4 [] = some Line.pullFlow := rfl
  have hidentify := wp_readHeaderGetPayloadLength windowHeader 2
    ([0x00, 0x26, 0x25, 0xa0] ++ rest) out (m := { s.globals.header 2 with messageLength := 4 })
    (Q := fun rc _ e' => (Line.checkedCall .identify).follow rc [] = some Line.pullFlow ∧
      rc = 4 ∧ e' = ⟨[0x00, 0x26, 0x25, 0xa0] ++ rest, out⟩)
    (h.empties _ _ rfl rfl) (by decide) (by decide) (Globals.csidHeader_setHeader ..)
    ⟨hfollow, rfl, rfl⟩
  obtain ⟨i, _, -, -, ⟨hirc, hisocket⟩, h1⟩ := h.extend _ hidentify
  rw [hisocket] at h1
  have hempty := h1.empties _ _ rfl rfl
  generalize Step.finish order (Line.checkedCall .identify).step i.rc i.after = s1 at h1 hempty
  have hrest : wp streamEnv (Step.readRest.call order) (fun rc _ e' =>
      (Line.checkedCall .readRest).follow rc Line.pullFlow.tail = some Line.pullFlow.tail ∧
        e' = ⟨rest, out⟩) s1 ⟨[0x00, 0x26, 0x25, 0xa0] ++ rest, out⟩ := by
    refine wp_bind.mpr ((wp_readNbytesCycleOn_append ?_).mpr (wp_ret.mpr ⟨rfl, rfl⟩))
    rw [hempty]
    rfl
  obtain ⟨r, _, -, -, hrsocket, h2⟩ := h1.extend _ hrest
  rw [hrsocket, List.append_assoc] at h2
  exact ⟨_, _, rfl, h2⟩

end Session

end RtmpServer
