import RtmpServer.PeekReplay
import RtmpServer.Printing

/-!
# `RTMP_Protocol::recv_connect_message`

The loop that waits for a connect message. Nothing clears `io_buffer` between
its rounds, so the second round finds the header of the first message in the
buffer and takes it for the next one's (`PeekReplay`); it goes on to append
what comes in, and parses the first message again. The command name is then
the same as before, in every round (`Held.wlp_recv`).

A loop that returns 0 has therefore gone round once, whatever the environment
answers: `recvConnectMessage_once`. `recvConnectMessage_progress_iff` draws the
consequence for streams of command messages: the connect message is the first one,
and both the header readers and `read_object` take it as it was written.

Mirroring notes:
- no code of the repository calls the function; `process_thread` receives the
  connect message itself.
-/

namespace RtmpServer

open Coroutine Coroutine.Prog Endian Framing

/-- The `while`, which `break`s with 0 when the name is `connect`, and returns -1 when a
receive does. -/
def waitConnect : Routine Int :=
  .iter (fun _ : Unit => do
    let rc ← recvMessage ConnectMessage.readPayload
    if rc = -1 then
      return .inr (-1)
    let commandName ← gets fun s => s.client.message.commandName
    if commandName = chars "connect" then
      return .inr 0
    return .inl ()) ()

/-- `RTMP_Protocol::recv_connect_message`, with a `ConnectMessage`; the buffer is cleared
when the loop has ended well. -/
def recvConnectMessage : Routine Int := do
  let rc ← waitConnect
  if rc = -1 then
    return -1
  modify fun s => s.setBuffer .ioBuffer []
  return 0

/-! ## What is in the buffer after a round -/

/-- A message with this header is in front in the buffer, and what its payload
starts with is a command of this name. -/
structure Held (fmt : Nat) (csid : Int) (delta : Nat) (commandName : Bytes) (s : State) : Prop where
  basic : basicHeader (s.buffer .ioBuffer) = some (fmt, csid)
  header : HeaderLeft fmt csid (basicSize (s.buffer .ioBuffer)) delta s
  command : ∃ transactionId more, readCommand 0x03 ((s.buffer .ioBuffer).drop
    (basicSize (s.buffer .ioBuffer) + deltaSize fmt delta)) = .ok (commandName, transactionId, more)

/-- A command that has been read whole is read again from a longer buffer. -/
theorem readCommand_longer {marker : UInt8} {p q commandName : Bytes} {transactionId : UInt64}
    (h : readCommand marker p = .ok (commandName, transactionId, q)) (x : Bytes) :
    readCommand marker (p ++ x) = .ok (commandName, transactionId, q ++ x) := by
  obtain ⟨hshort, hp⟩ := readCommand_iff.mp h
  refine readCommand_iff.mpr ⟨hshort, ?_⟩
  rw [hp, List.append_assoc]

/-- The parser fails, or stores the name that it has read in front of the object. -/
theorem parseConnect_command {p : Bytes} {message message' : IoMessage} {rc : Int}
    (h : parseConnect p message = some (rc, message')) :
    rc = -1 ∨ rc = 0 ∧ ∃ transactionId more,
      readCommand 0x03 p = .ok (message'.commandName, transactionId, more) := by
  unfold parseConnect at h
  cases hcommand : readCommand 0x03 p with
  | error f =>
    rw [hcommand] at h
    cases f with
    | minusOne =>
      cases h
      exact Or.inl rfl
    | undefined => cases h
  | ok r =>
    rw [hcommand] at h
    dsimp only at h
    cases hread : readObject r.2.2 message.object with
    | none =>
      rw [hread] at h
      cases h
    | some o =>
      rw [hread] at h
      dsimp only at h
      by_cases hrc : o.1 = -1
      · rw [if_pos hrc] at h
        cases h
        exact Or.inl rfl
      · rw [if_neg hrc] at h
        cases h
        exact Or.inr ⟨rfl, r.2.1, r.2.2, rfl⟩

section

variable {ε : Type} {env : Env st ε} {s t : State} {e : ε} {fmt bhSize delta : Nat} {csid : Int}
  {commandName : Bytes}

/-- What is behind a header in the buffer may become more: the header is found there as
before. -/
theorem HeaderLeft.append (h : HeaderLeft fmt csid bhSize delta s) (x : Bytes) :
    HeaderLeft fmt csid bhSize delta (s.append .ioBuffer x) where
  whole := by
    have hwhole := h.whole
    rw [State.buffer_append, List.length_append]
    omega
  delta := by
    rw [State.buffer_append]
    exact deltaIn_append h.delta x
  stored hfmt := by
    obtain ⟨bytes, m, hbytes, hm, hlength⟩ := h.stored hfmt
    rw [State.buffer_append, State.append_csidHeader]
    exact ⟨bytes, m, bytesAt_of_append hbytes x, hm, hlength⟩

/-- `ConnectMessage::read_payload`, behind a header that is in the buffer: if it
does not fail, the command that it stores is in the buffer as well. -/
theorem wlp_readPayload_held (hbasic : basicHeader (s.buffer .ioBuffer) = some (fmt, csid))
    (hheader : HeaderLeft fmt csid (basicSize (s.buffer .ioBuffer)) delta s) {messageLength : Int}
    {chunkSize : Nat} :
    wlp env (ConnectMessage.readPayload (basicSize (s.buffer .ioBuffer)) (deltaSize fmt delta)
        messageLength chunkSize)
      (fun rc t _ => rc ≠ -1 → Held fmt csid delta t.client.message.commandName t ∧
        ∃ x, t.buffer .ioBuffer = s.buffer .ioBuffer ++ x) s e := by
  unfold ConnectMessage.readPayload
  rw [bind_eq, wlp_bind]
  refine wlp_mono (wlp_dechunk account_came (fun _ => wlp_ret) fun _ => wlp_ret) ?_
  intro rc s1 e1 ⟨_, x, _, hs1, _⟩
  by_cases hrc : rc = -1
  · rw [if_pos hrc, pure_eq, wlp_ret]
    exact fun h => absurd rfl h
  rw [if_neg hrc, parseBuffer, wlp_act]
  intro rc' s2 hstored hrc'
  obtain ⟨⟨rc2, message⟩, hparse, heq⟩ := Option.map_eq_some_iff.mp hstored
  cases heq
  rcases parseConnect_command hparse with hfail | ⟨-, transactionId, more, hcommand⟩
  · exact absurd hfail hrc'
  have hbuf : (s1.setMessage message).buffer .ioBuffer = s.buffer .ioBuffer ++ x := by
    rw [hs1]
    exact State.buffer_append s .ioBuffer x
  have hsize : basicSize ((s1.setMessage message).buffer .ioBuffer) =
      basicSize (s.buffer .ioBuffer) := by
    rw [hbuf, basicSize_append (basicHeader_ne_nil hbasic)]
  have hleft := hheader.append x
  rw [← hs1] at hleft
  refine ⟨⟨?_, ?_, transactionId, more, ?_⟩, x, hbuf⟩
  · rw [hbuf]
    exact basicHeader_append hbasic x
  · rw [hsize]
    exact ⟨hleft.whole, hleft.delta, hleft.stored⟩
  · rw [hsize]
    exact hcommand

/-! ## Rounds -/

/-- What follows the header in `recv_message`. -/
theorem wlp_payload_held (hbasic : basicHeader (s.buffer .ioBuffer) = some (fmt, csid))
    (hheader : HeaderLeft fmt csid (basicSize (s.buffer .ioBuffer)) delta s) :
    wlp env (do
        let messageLength ← lookup csid MessageHeader.messageLength
        let chunkSize ← gets fun s => s.client.chunkSize
        let rc ← ConnectMessage.readPayload (basicSize (s.buffer .ioBuffer)) (deltaSize fmt delta)
          messageLength chunkSize
        if rc = -1 then
          return -1
        return 0)
      (fun rc t _ => rc = -1 ∨ rc = 0 ∧ Held fmt csid delta t.client.message.commandName t ∧
        ∃ x, t.buffer .ioBuffer = s.buffer .ioBuffer ++ x) s e := by
  simp only [lookup, bind_eq, pure_eq, wlp_bind, wlp_modify, wlp_gets]
  refine wlp_mono (wlp_readPayload_held (s := s.touch csid) hbasic hheader.touch)
    fun rc t e' hheld => ?_
  by_cases hrc : rc = -1
  · rw [if_pos hrc, wlp_ret]
    exact Or.inl rfl
  · rw [if_neg hrc, wlp_ret]
    exact Or.inr ⟨rfl, hheld hrc⟩

/-- The first round reads a message, unless it fails, and leaves it in front in the buffer. -/
theorem wlp_recv_first (hempty : s.buffer .ioBuffer = []) :
    wlp env (recvMessage ConnectMessage.readPayload) (fun rc t _ => rc = -1 ∨ rc = 0 ∧
      ∃ fmt csid delta, Held fmt csid delta t.client.message.commandName t) s e := by
  unfold recvMessage
  rw [bind_eq, wlp_bind]
  refine wlp_mono (wlp_readBasicHeader_left hempty) fun r1 s1 e1 hleft1 => ?_
  dsimp only
  by_cases hrc1 : r1.1 = -1
  · rw [if_pos hrc1, pure_eq, wlp_ret]
    exact Or.inl rfl
  obtain ⟨p, hs1, hp, hr1⟩ := hleft1 hrc1
  rw [if_neg hrc1, bind_eq, wlp_bind]
  refine wlp_mono wlp_readMessageHeader_left fun r2 s2 e2 hleft2 => ?_
  by_cases hrc2 : r2.1 = -1
  · rw [if_pos hrc2, pure_eq, wlp_ret]
    exact Or.inl rfl
  obtain ⟨delta, x, hclient, hheader, hr2⟩ := hleft2 hrc2
  rw [if_neg hrc2]
  have hbuf : s2.buffer .ioBuffer = p ++ x := by
    have hio : s2.buffer .ioBuffer = (s1.append .ioBuffer x).buffer .ioBuffer :=
      congrArg Client.ioBuffer hclient
    rw [hio, hs1, State.append_append, State.buffer_append, hempty, List.nil_append]
  have hsize : r1.2.2.2 = basicSize (s2.buffer .ioBuffer) := by
    rw [hbuf, basicSize_append (basicHeader_ne_nil hp), hr1]
  rw [hsize] at hheader ⊢
  rw [hr2]
  have hbasic : basicHeader (s2.buffer .ioBuffer) = some (r1.2.1, r1.2.2.1) := by
    rw [hbuf]
    exact basicHeader_append hp x
  refine wlp_mono (wlp_payload_held hbasic hheader) fun rc t e' hrc => ?_
  rcases hrc with hrc | ⟨hrc, hheld, -⟩
  · exact Or.inl hrc
  · exact Or.inr ⟨hrc, _, _, _, hheld⟩

/-- Any later round finds that message again, since nothing has cleared the buffer in
between. -/
theorem Held.wlp_recv (h : Held fmt csid delta commandName s) :
    wlp env (recvMessage ConnectMessage.readPayload) (fun rc t _ => rc = -1 ∨ rc = 0 ∧
      t.client.message.commandName = commandName ∧ Held fmt csid delta commandName t) s e := by
  unfold recvMessage
  rw [bind_eq, wlp_bind, (readBasicHeader_idles h.basic).wlp_iff]
  dsimp only
  rw [if_neg (by decide), bind_eq, wlp_bind, h.header.readMessageHeader_idles.wlp_iff]
  dsimp only
  rw [if_neg (by decide)]
  refine wlp_mono (wlp_payload_held h.basic h.header) fun rc t e' hrc => ?_
  rcases hrc with hrc | ⟨hrc, hheld, x, hbuf⟩
  · exact Or.inl hrc
  -- what the buffer starts with has one name
  have hname : t.client.message.commandName = commandName := by
    obtain ⟨transactionId, more, hcommand⟩ := h.command
    obtain ⟨transactionId', more', hcommand'⟩ := hheld.command
    have hlen : basicSize (s.buffer .ioBuffer) + deltaSize fmt delta
        ≤ (s.buffer .ioBuffer).length := h.header.whole
    rw [hbuf, basicSize_append (basicHeader_ne_nil h.basic), List.drop_append_of_le_length hlen,
      readCommand_longer hcommand x] at hcommand'
    cases hcommand'
    rfl
  exact Or.inr ⟨hrc, hname, hname ▸ hheld⟩

/-- If the first message is not a connect message, nothing makes the loop `break`. -/
theorem Held.wlp_waitConnect (h : Held fmt csid delta commandName s)
    (hname : commandName ≠ chars "connect") : wlp env waitConnect (fun rc _ _ => rc = -1) s e := by
  refine wlp_iter_of_inv (fun _ s _ => Held fmt csid delta commandName s) ?_ h
  intro _ s1 e1 hheld
  rw [bind_eq, wlp_bind]
  refine wlp_mono hheld.wlp_recv fun rc t e2 hrc => ?_
  rcases hrc with hrc | ⟨hrc, hsame, hheld'⟩
  · rw [if_pos hrc, pure_eq, wlp_ret]
  · rw [if_neg (by rw [hrc]; decide), bind_eq, wlp_bind, wlp_gets, hsame, if_neg hname, pure_eq,
      wlp_ret]
    exact hheld'

/-- If the loop returns 0, it has received one message, which is a connect message. -/
theorem recvConnectMessage_once (hempty : s.buffer .ioBuffer = []) {s' : State} {e' : ε}
    (hrun : Runs env recvConnectMessage s e 0 s' e') :
    ∃ t, Runs env (recvMessage ConnectMessage.readPayload) s e 0 t e' ∧
      t.client.message.commandName = chars "connect" ∧ s' = t.setBuffer .ioBuffer [] := by
  obtain ⟨rc, s1, e1, hwait, hrest⟩ := runs_bind.mp hrun
  by_cases hrc : rc = -1
  · rw [if_pos hrc, pure_eq, runs_ret] at hrest
    exact absurd hrest.1 (by decide)
  rw [if_neg hrc] at hrest
  have hclear : wlp env (do
      modify fun s => s.setBuffer .ioBuffer []
      return (0 : Int)) (fun _ t f => t = s1.setBuffer .ioBuffer [] ∧ f = e1) s1 e1 := by
    rw [bind_eq, wlp_bind, wlp_modify, pure_eq, wlp_ret]
    exact ⟨rfl, rfl⟩
  obtain ⟨hs', he'⟩ := hclear _ _ _ hrest
  subst hs' he'
  -- the first round
  obtain ⟨x, s2, e2, hround, hagain⟩ := runs_iter.mp hwait
  obtain ⟨rc1, t, e3, hrecv, hround⟩ := runs_bind.mp hround
  rcases wlp_recv_first hempty _ _ _ hrecv with hrc1 | ⟨hrc1, fmt, csid, delta, hheld⟩
  · rw [if_pos hrc1, pure_eq, runs_ret] at hround
    obtain ⟨rfl, rfl, rfl⟩ := hround
    exact absurd (runs_ret.mp hagain).1.symm hrc
  subst hrc1
  rw [if_neg (by decide), bind_eq, ((idles_gets t _).runs env e3).bind_iff] at hround
  by_cases hconnect : t.client.message.commandName = chars "connect"
  · rw [if_pos hconnect, pure_eq, runs_ret] at hround
    obtain ⟨rfl, rfl, rfl⟩ := hround
    obtain ⟨-, rfl, rfl⟩ := runs_ret.mp hagain
    exact ⟨t, hrecv, hconnect, rfl⟩
  · rw [if_neg hconnect, pure_eq, runs_ret] at hround
    obtain ⟨rfl, rfl, rfl⟩ := hround
    exact absurd (hheld.wlp_waitConnect hconnect _ _ _ hagain) hrc

end

/-! ## Streams of command messages -/

/-- A command message in any form of header and on any chunk stream, with any
argument: `marker` says what kind it is (3 for an object, 5 for null) and
`argument` is all that follows. `continuation` is what stands in front of its
chunks but the first. -/
structure CommandMessage where
  chunkStream : ChunkStream
  header : ChunkHeader
  continuation : Bytes
  commandName : Bytes
  transactionId : UInt64
  marker : UInt8
  argument : Bytes
  continuation_ne : continuation ≠ []
  commandName_short : Short commandName

namespace CommandMessage

def payload (m : CommandMessage) : Bytes :=
  commandFront m.commandName m.transactionId m.marker ++ m.argument

/-- All its bytes on the wire: the basic header, the message header, and the payload in
chunks. -/
def wire (chunkSize : Nat) (m : CommandMessage) : Bytes :=
  m.chunkStream.bytes m.header.fmt ++
    (m.header.encode ++ frame m.continuation chunkSize [] m.payload)

/-- Its argument is an object with these pairs, each of a kind that `read_object`
has a case for. -/
def Holds (m : CommandMessage) (pairs : List Property) : Prop :=
  m.marker = 0x03 ∧ ObjectBytes m.argument pairs

/-- `read_object` takes its argument: it is an object, with some pairs that the code has
cases for. -/
def ArgumentRead (m : CommandMessage) : Prop := ∃ pairs, m.Holds pairs

/-- What parsing messages one after the other makes of the message object: the name
and the transaction id of the last one, and the pairs of all of them. -/
inductive Parsed : List CommandMessage → IoMessage → IoMessage → Prop
  | nil (message : IoMessage) : Parsed [] message message
  | cons {m : CommandMessage} {ms : List CommandMessage} {message message' : IoMessage}
    {pairs : List Property} : m.Holds pairs →
    Parsed ms ⟨m.commandName, m.transactionId, pairs.foldl insertProperty message.object⟩ message' →
    Parsed (m :: ms) message message'

/-- The control reader takes its header as it was written: a fmt 0 header has no
extended timestamp. -/
def HeaderRead (m : CommandMessage) : Prop := m.header.fmt = 0 → m.header.extendedBytes = []

/-- And its chunks: there is one, or one byte in front of every other. -/
def ChunksRead (chunkSize : Nat) (m : CommandMessage) : Prop :=
  m.payload.length ≤ chunkSize ∨ m.continuation.length = 1

/-- Every header announces the length of its payload, by itself or through the entry
that is there. -/
def Announced : State → List CommandMessage → Prop
  | _, [] => True
  | s, m :: ms =>
    let s' := m.header.control m.chunkStream.csid s
    (s'.globals.header m.chunkStream.csid).messageLength = m.payload.length ∧ Announced s' ms

end CommandMessage

open CommandMessage

/-- The wait reads these messages to their end and nothing else, has parsed each
of them once, in order, and returns 0. -/
def ReadsEach (messages : List CommandMessage) (s : State) (rest out : Bytes) : Prop :=
  wp streamEnv recvConnectMessage (fun rc s' e' => rc = 0 ∧ e' = ⟨rest, out⟩ ∧
      s'.buffer .ioBuffer = [] ∧ Parsed messages s.client.message s'.client.message) s
    ⟨messages.flatMap (wire s.client.chunkSize) ++ rest, out⟩

namespace CommandMessage

theorem parseConnect_payload {m : CommandMessage} {pairs : List Property} (h : m.Holds pairs)
    (message : IoMessage) : parseConnect m.payload message
      = some (0, ⟨m.commandName, m.transactionId, pairs.foldl insertProperty message.object⟩) := by
  obtain ⟨hmarker, hbytes⟩ := h
  have hcommand : readCommand 0x03 m.payload = .ok (m.commandName, m.transactionId, m.argument) :=
    readCommand_iff.mpr ⟨m.commandName_short, by rw [payload, hmarker]⟩
  have hobject := readObject_objectBytes hbytes message.object
  rw [parseConnect, hcommand]
  simp only [hobject]
  rw [if_neg (by decide)]

/-- The front of a command is read in one way only: two fronts with the same bytes end at
the same place. -/
theorem commandFront_inj {name name' : Bytes} {id id' : UInt64} {marker marker' : UInt8}
    {p p' : Bytes} (hname : Short name) (hname' : Short name')
    (h : commandFront name id marker ++ p = commandFront name' id' marker' ++ p') :
    marker = marker' ∧ p = p' := by
  have hlt : name.length < 256 ^ 2 := Nat.lt_of_le_of_lt hname.2 (by decide)
  have hlt' : name'.length < 256 ^ 2 := Nat.lt_of_le_of_lt hname'.2 (by decide)
  simp only [commandFront, List.cons_append, List.append_assoc, List.nil_append, List.cons.injEq,
    true_and] at h
  -- the two lengths are read, then what they measure, then the rest
  have hread : be2se 2 (beBytes 2 name.length
      ++ (name ++ 0x00 :: (beBytes 8 id.toNat ++ marker :: p))) = _ := be2se_append hlt
  rw [h, be2se_append hlt', Except.ok.injEq, Prod.mk.injEq] at hread
  obtain ⟨hlen, hrest⟩ := hread
  obtain ⟨-, hrest⟩ := List.append_inj hrest hlen
  obtain ⟨-, hrest⟩ := List.append_inj (List.cons.inj hrest).2 (by simp)
  obtain ⟨hmarker, hp⟩ := List.cons.inj hrest
  exact ⟨hmarker.symm, hp.symm⟩

/-- An object with a null, an undefined or an empty string in it is not taken,
wherever in it that value stands. -/
theorem not_argumentRead_of_unread {m : CommandMessage} {kvs : List Property} {key p : Bytes}
    (hkvs : ∀ kv ∈ kvs, WellFormed kv ∧ ¬ Blank kv) (hkey : Short key) (hp : Unread p)
    (hargument : m.argument = kvs.flatMap entryBytes ++ (beBytes 2 key.length ++ (key ++ p))) :
    ¬ m.ArgumentRead := by
  rintro ⟨pairs, -, hbytes⟩
  rw [hargument] at hbytes
  exact not_objectBytes_of_unread hkvs hkey hp pairs hbytes

/-- A message that is parsed has an object that `read_object` takes, since the parser
returns what that returns. -/
theorem argumentRead_of_parseConnect {m : CommandMessage} {message message' : IoMessage}
    (h : parseConnect m.payload message = some (0, message')) : m.ArgumentRead := by
  obtain ⟨pairs, name, id, p, hname, hpayload, hbytes⟩ := connectPayload_of_parseConnect h
  obtain ⟨hmarker, hp⟩ := commandFront_inj m.commandName_short hname hpayload
  exact ⟨pairs, hmarker, hp ▸ hbytes⟩

/-- What the control reader leaves of a header: the extended timestamp of fmt 0, and nothing
of the other ones. -/
theorem encode_eq_controlBytes (h : ChunkHeader) :
    ∃ y, h.encode = h.controlBytes ++ y ∧ (y = [] ↔ (h.fmt = 0 → h.extendedBytes = [])) := by
  cases h with
  | fmt0 t length type streamId =>
    refine ⟨t.extendedBytes, ?_, ?_⟩
    · rw [ChunkHeader.controlBytes, ChunkHeader.controlExtended, List.append_nil]
      rfl
    · exact ⟨fun h _ => h, fun h => h rfl⟩
  | fmt1 t length type => exact ⟨[], (List.append_nil _).symm, by simp [ChunkHeader.fmt]⟩
  | fmt2 t => exact ⟨[], (List.append_nil _).symm, by simp [ChunkHeader.fmt]⟩
  | fmt3 => exact ⟨[], (List.append_nil _).symm, by simp [ChunkHeader.fmt]⟩

theorem wire_ne_nil (size : Nat) (m : CommandMessage) : m.wire size ≠ [] := by
  intro h
  have hfront : m.chunkStream.bytes m.header.fmt = [] := (List.append_eq_nil_iff.mp h).1
  cases hc : m.chunkStream with
  | one csid h2 h63 => simp [hc, ChunkStream.bytes] at hfront
  | two b1 => simp [hc, ChunkStream.bytes] at hfront
  | three b1 b2 => simp [hc, ChunkStream.bytes] at hfront

/-- The length of the first message is in the table when its payload is read. -/
theorem entry_of_announced {s : State} {m : CommandMessage} {ms : List CommandMessage}
    (h : Announced s (m :: ms)) : ∃ entry,
      (m.header.control m.chunkStream.csid s).globals.csidHeader m.chunkStream.csid = some entry ∧
        entry.messageLength = m.payload.length := by
  have hlength := h.1
  unfold Globals.header at hlength
  cases hentry : (m.header.control m.chunkStream.csid s).globals.csidHeader m.chunkStream.csid with
  | none =>
    rw [hentry] at hlength
    have hminus : (-1 : Int) = m.payload.length := hlength
    omega
  | some entry =>
    rw [hentry] at hlength
    exact ⟨entry, rfl, hlength⟩

end CommandMessage

section

variable {s : State} {m : CommandMessage} {ms : List CommandMessage} {rest out : Bytes}

/-- A payload that is parsed has taken its own length from the stream, and one byte
for every chunk but the first. -/
theorem wlp_readPayload_taken {bhSize mhSize n size : Nat} {e : Stream} (hcs : 0 < size) :
    wlp streamEnv (ConnectMessage.readPayload bhSize mhSize n size) (fun rc _ e' => rc ≠ -1 →
      e.inp.length = n + (n - size + (size - 1)) / size + e'.inp.length) s e := by
  unfold ConnectMessage.readPayload
  rw [bind_eq, wlp_bind]
  refine wlp_mono (wlp_dechunk account_tookFrom (fun _ => wlp_ret) fun _ => wlp_ret) ?_
  intro rc s1 e1 ⟨p, payload, htook, _, hdone⟩
  rcases hdone with ⟨hrc, -⟩ | ⟨hrc, hread⟩
  · rw [if_pos hrc, pure_eq, wlp_ret]
    exact fun h => absurd rfl h
  rw [if_neg (by rw [hrc]; decide), parseBuffer, wlp_act]
  intro rc' s2 _ _
  obtain ⟨-, hlen⟩ := unframe_length hcs (hread e1.inp)
  rw [htook, hlen, Int.toNat_natCast]

theorem control_client (h : ChunkHeader) (csid : Int) (s : State) :
    (h.control csid s).client = s.client := by
  cases h <;> rfl

/-- The chunks of a message that are read as they were written, as the chunk loop of
`ConnectMessage` sees them. -/
theorem CommandMessage.ChunksRead.frame_eq {size : Nat} (h : m.ChunksRead size) : ∃ c,
    frame m.continuation size [] m.payload = frame [c] size [] m.payload := by
  rcases h with hshort | hone
  · exact ⟨0, by rw [frame_short hshort, frame_short hshort]⟩
  · obtain ⟨c, hc⟩ := List.length_eq_one_iff.mp hone
    exact ⟨c, by rw [hc]⟩

/-- If `ConnectMessage::read_payload` returns 0 on such chunks, `read_object` has
taken the argument. -/
theorem argumentRead_of_readPayload {bhSize mhSize size : Nat} {rc : Int} {s' : State} {e' : Stream}
    (hhdr : (s.buffer .ioBuffer).length = bhSize + mhSize) (hcs : 0 < size)
    (hchunks : m.ChunksRead size)
    (hrun : Runs streamEnv (ConnectMessage.readPayload bhSize mhSize m.payload.length size) s
      ⟨frame m.continuation size [] m.payload ++ rest, out⟩ rc s' e') (hrc : rc ≠ -1) :
    m.ArgumentRead := by
  obtain ⟨c, hframe⟩ := hchunks.frame_eq
  rw [hframe] at hrun
  obtain ⟨rc1, s1, e1, hdechunk, hparse⟩ := runs_bind.mp hrun
  -- the chunk loop has one run
  have hread : wp streamEnv (dechunk .ioBuffer (.ret (m.payload.length : Int)) (.ret size))
      (fun rc t _ => rc = 0 ∧ t = s.append .ioBuffer m.payload) s
      ⟨frame [c] size [] m.payload ++ rest, out⟩ :=
    wp_dechunk (fun _ => wp_ret) (fun _ => wp_ret) hcs ⟨rfl, rfl⟩
  obtain ⟨hrc1, hs1⟩ := wlp_of_wp hread _ _ _ hdechunk
  rw [if_neg (by rw [hrc1]; decide), parseBuffer, runs_act, hs1, State.buffer_append,
    List.drop_left' hhdr] at hparse
  obtain ⟨⟨rc2, message⟩, hparsed, heq⟩ := Option.map_eq_some_iff.mp hparse.1
  cases heq
  rcases parseConnect_command hparsed with hfail | ⟨hzero, -⟩
  · exact absurd hfail hrc
  · rw [hzero] at hparsed
    exact argumentRead_of_parseConnect hparsed

/-- A wait that reads a stream to its end has read one message, and has taken it
as it was written: there is no other way to account for all the bytes. -/
theorem ReadsEach.one (hempty : s.buffer .ioBuffer = []) (hcs : 0 < s.client.chunkSize)
    (hann : Announced s (m :: ms)) (h : ReadsEach (m :: ms) s rest out) :
    ms = [] ∧ m.HeaderRead ∧ m.ChunksRead s.client.chunkSize ∧ m.ArgumentRead := by
  obtain ⟨rc, s', e', hrun, hrc, he', -, -⟩ := h
  subst hrc he'
  obtain ⟨t, hrecv, -, -⟩ := recvConnectMessage_once hempty hrun
  obtain ⟨entry, hentry, hlength⟩ := entry_of_announced hann
  obtain ⟨y, hencode, hy⟩ := encode_eq_controlBytes m.header
  -- what stands behind the header that the control reader has taken
  generalize hinp : y ++ (frame m.continuation s.client.chunkSize [] m.payload ++
    (ms.flatMap (wire s.client.chunkSize) ++ rest)) = inp
  have hstream : (m :: ms).flatMap (wire s.client.chunkSize) ++ rest
      = m.chunkStream.bytes m.header.fmt ++ (m.header.controlBytes ++ inp) := by
    rw [List.flatMap_cons, wire, hencode, ← hinp]
    simp only [List.append_assoc]
  rw [hstream] at hrecv
  have hpayload : wp streamEnv (recvMessage ConnectMessage.readPayload)
      (fun rc _ e => rc = 0 ∧ e = ⟨rest, out⟩) s _ := ⟨0, t, _, hrecv, rfl, rfl⟩
  rw [m.chunkStream.wp_recvMessage hempty hentry] at hpayload
  obtain ⟨rc2, s2, e2, hpayload, hrc2, he2⟩ := hpayload
  have hparsed : rc2 ≠ -1 := by
    intro hfail
    rw [if_pos hfail] at hrc2
    exact absurd hrc2 (by decide)
  rw [hlength, control_client] at hpayload
  have htaken := wlp_readPayload_taken hcs _ _ _ hpayload hparsed
  -- and as they were written
  have hwritten : (frame m.continuation s.client.chunkSize [] m.payload).length = _ :=
    frame_length hcs [] m.payload
  generalize hlater : (m.payload.length - s.client.chunkSize + (s.client.chunkSize - 1))
    / s.client.chunkSize = later at htaken hwritten
  have hone : 1 ≤ m.continuation.length := List.length_pos_iff.mpr m.continuation_ne
  have hle : later ≤ m.continuation.length * later := Nat.le_mul_of_pos_left _ hone
  rw [he2, ← hinp] at htaken
  simp only [List.length_append, List.length_nil] at htaken hwritten
  have hms : (ms.flatMap (wire s.client.chunkSize)).length = 0 := by omega
  have hnil : ms = [] := by
    cases ms with
    | nil => rfl
    | cons m2 ms =>
      rw [List.flatMap_cons, List.length_append] at hms
      exact absurd (List.eq_nil_of_length_eq_zero (by omega)) (m2.wire_ne_nil s.client.chunkSize)
  have hheader : y = [] := List.eq_nil_of_length_eq_zero (by omega)
  have hchunks : m.ChunksRead s.client.chunkSize := by
    rcases Nat.eq_zero_or_pos later with hzero | hpos
    · rw [hzero, Nat.div_eq_zero_iff] at hlater
      exact Or.inl (by omega)
    · have heq : m.continuation.length * later = 1 * later := by omega
      exact Or.inr (Nat.eq_of_mul_eq_mul_right hpos heq)
  refine ⟨hnil, hy.mp hheader, hchunks, ?_⟩
  rw [← hinp, hheader, hnil, List.nil_append, List.flatMap_nil, List.nil_append] at hpayload
  exact argumentRead_of_readPayload (by simp [hempty, control_buffer]) hcs hchunks hpayload hparsed

/-- A connect message that is taken as it was written ends the wait. -/
theorem readsEach_connect (hempty : s.buffer .ioBuffer = []) (hcs : 0 < s.client.chunkSize)
    (hann : Announced s [m]) (hconnect : m.commandName = chars "connect") (hheader : m.HeaderRead)
    (hchunks : m.ChunksRead s.client.chunkSize) (hargument : m.ArgumentRead) :
    ReadsEach [m] s rest out := by
  obtain ⟨pairs, hholds⟩ := hargument
  obtain ⟨entry, hentry, hlength⟩ := entry_of_announced hann
  obtain ⟨y, hencode, hy⟩ := encode_eq_controlBytes m.header
  rw [hy.mpr hheader, List.append_nil] at hencode
  obtain ⟨c, hframe⟩ := hchunks.frame_eq
  have hstream : [m].flatMap (wire s.client.chunkSize) ++ rest
      = m.chunkStream.bytes m.header.fmt ++ (m.header.controlBytes ++
        (frame [c] s.client.chunkSize [] m.payload ++ rest)) := by
    rw [List.flatMap_singleton, wire, hencode, hframe]
    simp only [List.append_assoc]
  have hhdr : ((m.header.control m.chunkStream.csid s).append .ioBuffer
      (m.chunkStream.bytes m.header.fmt ++ m.header.controlBytes)).buffer .ioBuffer
        = m.chunkStream.bytes m.header.fmt ++ m.header.controlBytes := by
    rw [State.buffer_append, control_buffer, hempty, List.nil_append]
  unfold ReadsEach recvConnectMessage waitConnect
  rw [hstream, bind_eq, wp_bind, wp_iter, bind_eq, wp_bind,
    m.chunkStream.wp_recvMessage hempty hentry, hlength, control_client, ConnectMessage.readPayload,
    bind_eq, wp_bind]
  refine wp_dechunk (fun _ => wp_ret) (fun _ => wp_ret) hcs ?_
  rw [if_neg (by decide), parseBuffer, wp_act, State.buffer_append, hhdr,
    List.drop_left' List.length_append, parseConnect_payload hholds, State.append_message,
    State.append_message, control_client]
  refine ⟨0, _, rfl, ?_⟩
  rw [if_neg (by decide), bind_eq, wp_bind, wp_gets]
  rw [if_pos (by exact hconnect), pure_eq, wp_ret, wp_again_inr, if_neg (by decide), bind_eq,
    wp_bind, wp_modify, pure_eq, wp_ret]
  exact ⟨rfl, rfl, State.buffer_setBuffer .., .cons hholds (.nil _)⟩

/-- In a stream of command messages that ends with a connect message, the wait
reads and parses each message once and returns 0 after the last one if and only if
there is no other, it is in a form that the readers take as it was written, and its
argument is an object that `read_object` takes. -/
theorem recvConnectMessage_progress_iff (hempty : s.buffer .ioBuffer = [])
    (hcs : 0 < s.client.chunkSize) {before : List CommandMessage} {connect : CommandMessage}
    (hann : Announced s (before ++ [connect]))
    (hconnect : connect.commandName = chars "connect") (rest out : Bytes) :
    ReadsEach (before ++ [connect]) s rest out ↔
      before = [] ∧ connect.HeaderRead ∧ connect.ChunksRead s.client.chunkSize ∧
        connect.ArgumentRead := by
  constructor
  · intro h
    cases before with
    | nil =>
      obtain ⟨-, hread⟩ := ReadsEach.one hempty hcs hann h
      exact ⟨rfl, hread⟩
    | cons m before =>
      obtain ⟨hnil, -⟩ := ReadsEach.one hempty hcs hann h
      exact absurd hnil (List.append_ne_nil_of_right_ne_nil _ (List.cons_ne_nil _ _))
  · rintro ⟨rfl, hheader, hchunks, hargument⟩
    exact readsEach_connect hempty hcs hann hconnect hheader hchunks hargument

end

theorem commandCsid_ge : 2 ≤ 3 := by decide

theorem commandCsid_le : 3 ≤ 63 := by decide

/-- A command on chunk stream 3, with a header of fmt 0 and an empty object. -/
def bareCommand (commandName : Bytes) (h : Short commandName) : CommandMessage where
  chunkStream := .one 3 commandCsid_ge commandCsid_le
  header := .fmt0 ⟨0, 0⟩ (BitVec.ofNat 24 (16 + commandName.length)) 20 0
  continuation := [0xC3]
  commandName
  transactionId := 1
  marker := 0x03
  argument := [0x00, 0x00, 0x09]
  continuation_ne := by decide
  commandName_short := h

theorem recvConnectMessage_alone :
    ReadsEach [bareCommand (chars "connect") (by decide)] {} [] [] := by
  have hann : Announced {} ([] ++ [bareCommand (chars "connect") (by decide)]) :=
    ⟨by decide, trivial⟩
  exact (recvConnectMessage_progress_iff rfl (by decide) hann rfl [] []).mpr
    ⟨rfl, fun _ => by decide, Or.inl (by decide), [], rfl, .last⟩

/-- A `createStream` in front of it is read again and again, and the `connect` behind it
never. -/
theorem recvConnectMessage_stuck :
    Announced {} [bareCommand (chars "createStream") (by decide),
      bareCommand (chars "connect") (by decide)] ∧
    ¬ ReadsEach [bareCommand (chars "createStream") (by decide),
      bareCommand (chars "connect") (by decide)] {} [] [] := by
  have hann : Announced {} [bareCommand (chars "createStream") (by decide),
      bareCommand (chars "connect") (by decide)] := ⟨by decide, by decide, trivial⟩
  refine ⟨hann, fun h => ?_⟩
  obtain ⟨hnil, -⟩ := ReadsEach.one rfl (by decide) hann h
  cases hnil

end RtmpServer
