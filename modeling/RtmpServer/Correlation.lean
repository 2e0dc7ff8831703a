import RtmpServer.Clients

/-!
# Transaction ids

A client knows the answer to a command by the transaction id it put in it. The
server keeps the id in the message object that received the command, and takes
the ids of its answers from the constants of `process_thread`.
`correlated_iff` says for which clients these are the same.
-/

namespace RtmpServer

open Coroutine Coroutine.Prog Endian Framing
open Push

/-! ## Requests and answers -/

/-- The command that a `_result` message answers, if it is one of these. -/
def Response.request : Response → Option Received
  | sendObjectMessage _ _ .connectAppResponse => some .connectMessage
  | releaseStreamResponse _ => some .releaseStream
  | fcPublishResponse _ => some .fcPublish
  | createStreamResponse _ _ => some .createStream
  | _ => none

/-- The transaction id of a `_result`, as a client reads it from the payload. -/
def readResult (p : Bytes) : Parse UInt64 := do
  let p ← expect 0x02 p
  let (commandName, p) ← readString p
  if commandName ≠ chars "_result" then
    throw .minusOne
  let p ← expect 0x00 p
  let (transactionId, _) ← be2se 8 p
  return UInt64.ofNat transactionId

/-- The same of a message with its header of 12 bytes in front, as it is on the wire. -/
def resultId (message : Bytes) : Option UInt64 :=
  match readResult (message.drop 12) with
  | .ok transactionId => some transactionId
  | .error _ => none

/-- The ids of a client that numbers its commands as the server expects. -/
def numbering (publishes : Bool) : Received → UInt64
  | .connectMessage => Send.one
  | .releaseStream => Send.two
  | .fcPublish => Send.three
  | .createStream => if publishes then Send.four else Send.two
  | _ => 0

/-- A `_result` of `process_thread` is as long as announced and carries the
number that its command has in that order. -/
def Line.numbers (publishes : Bool) (line : Line) : Bool :=
  match line.step with
  | .send m =>
    match m.message.request with
    | none => true
    | some type =>
      match m.message.writePayload with
      | some (payload, rc) => rc = 0 ∧
          resultId (m.header ++ payload) = some (numbering publishes type)
      | none => false
  | _ => true

theorem numbers_negotiation (publishes : Bool) :
    ∀ line ∈ Line.negotiation, line.numbers publishes = true := by
  cases publishes <;> decide +kernel

theorem numbers_pullFlow : ∀ line ∈ Line.pullFlow, line.numbers false = true := by
  decide +kernel

theorem numbers_pushFlow : ∀ line ∈ Line.pushFlow, line.numbers true = true := by
  decide +kernel

/-! ## What is sent -/

section

variable {ε : Type} {env : Env (st.amid Others) ε} {s : State} {e : ε}

/-- Whatever the socket does with it: what `write_message` cuts into chunks is
the header and the payload. -/
theorem wlp_write_amid {m : Send} {payload : Bytes}
    (hpush : m.message.writePayload = push payload) :
    wlp env (m.write.amid Others.apply) (fun _ s' _ =>
      s'.buffer .ioBuffer = s.buffer .ioBuffer ++ (m.header ++ payload)) s e := by
  have hchunks : ∀ {headerSize messageSize : Nat} {s e},
      wlp env ((writeChunks m.csid headerSize messageSize).amid Others.apply)
        (fun _ s' _ => s'.client = s.client) s e :=
    wlp_sameClient (writeChunks_keeps sameClient_refl _ _ _)
  unfold Send.write writeMessage writeHeader
  simp only [bind_eq, pure_eq, amid_bind, amid_ite, amid_ret, amid_modify, amid_gets, wlp_bind,
    wlp_modify, wlp_ret]
  rw [if_neg (by decide), hpush, wlp_bind, wlp_gets, wlp_bind, wlp_amid_run_push,
    if_neg (by decide), wlp_bind, wlp_gets]
  refine wlp_mono hchunks fun rc s' e' hclient => ?_
  show s'.client.ioBuffer = _
  rw [hclient]
  show (((s.append .ioBuffer m.header).append .ioBuffer payload).buffer .ioBuffer) = _
  rw [State.append_append, State.buffer_append]

/-! ## Whole sessions -/

/-- The event is the receive of a command, and the command came in whole. -/
structure Event.Requests (q : Event ε) (type : Received) : Prop where
  step : q.line.step = .recv type
  rc : q.rc = 0

/-- The event is the sending of the `_result` for a command of that class. -/
def Event.Answers (a : Event ε) (type : Received) : Prop :=
  ∃ m, a.line.step = .send m ∧ m.message.request = some type

/-- The id that a command came with, in the message that the session has stored. -/
def Event.requestId (q : Event ε) : UInt64 := q.after.client.message.transactionId

/-- The id in the message that was sent, if there is one to be read. -/
def Event.resultId (a : Event ε) : Option UInt64 :=
  RtmpServer.resultId (a.after.buffer .ioBuffer)

/-- Every command that is answered has its id in the answer, whichever commands they are. -/
def Correlated (events : List (Event ε)) : Prop :=
  ∀ type, ∀ q ∈ events, ∀ a ∈ events, q.Requests type → a.Answers type →
    a.resultId = some q.requestId

/-- The session is a publisher's, as far as the server can tell, that is by the length of
one message. -/
def Publishes (events : List (Event ε)) : Prop :=
  ∃ ev ∈ events, ev.line.step = .identify ∧ ev.rc ≠ 4

/-- The client has numbered the commands that are answered as the server
expects: 1 for `connect`, then 2, 3 and 4 for what a publisher sends, and 2 for
the `createStream` of a player. -/
def Numbered (events : List (Event ε)) : Prop :=
  ∀ type, ∀ q ∈ events, (∃ a ∈ events, a.Answers type) → q.Requests type →
    (Publishes events → q.requestId = numbering true type) ∧
      (¬ Publishes events → q.requestId = numbering false type)

end

namespace Session

variable {order : Order} {ε : Type} {env : Env (st.amid Others) ε} {events : List (Event ε)}
  {lines : List Line} {s : State} {e : ε}

/-- The flow of a session fits what it has to be numbered by. -/
theorem numbers (h : Session order env events lines s e) {a : Event ε} (ha : a ∈ events) :
    (Publishes events → a.line.numbers true = true) ∧
      (¬ Publishes events → a.line.numbers false = true) := by
  have hline : a.line ∈ events.map Event.line := List.mem_map_of_mem ha
  cases h.course with
  | negotiating hsplit _ _ =>
    have hmem : a.line ∈ Line.negotiation := hsplit ▸ List.mem_append_left _ hline
    exact ⟨fun _ => numbers_negotiation true _ hmem, fun _ => numbers_negotiation false _ hmem⟩
  | flowing rc past hbehind hsplit hknown =>
    rw [hbehind] at hline
    -- the last line of the negotiation is one of the events
    have hidentify : ∃ ev ∈ events, ev.line.step = .identify := by
      have hmem : Line.checkedCall .identify ∈ events.map Event.line := by
        rw [hbehind]
        exact List.mem_append_left _ (by decide +kernel)
      obtain ⟨ev, hev, heq⟩ := List.mem_map.mp hmem
      exact ⟨ev, hev, by rw [heq]; rfl⟩
    obtain ⟨ev, hev, hid⟩ := hidentify
    have hpublishes : Publishes events ↔ rc ≠ 4 := by
      constructor
      · intro ⟨ev', hev', hid', hrc'⟩
        rwa [hknown ev' hev' hid'] at hrc'
      · exact fun hrc => ⟨ev, hev, hid, by rwa [hknown ev hev hid]⟩
    rcases List.mem_append.mp hline with hold | hpast
    · exact ⟨fun _ => numbers_negotiation true _ hold, fun _ => numbers_negotiation false _ hold⟩
    · have hflow : a.line ∈ Line.flow rc := hsplit ▸ List.mem_append_left _ hpast
      unfold Line.flow at hflow
      constructor
      · intro hpub
        rw [if_neg (hpublishes.mp hpub)] at hflow
        exact numbers_pushFlow _ hflow
      · intro hpub
        rw [if_pos (Decidable.of_not_not fun hrc => hpub (hpublishes.mpr hrc))] at hflow
        exact numbers_pullFlow _ hflow

/-- A line of that kind carries the number that is written out in the code. -/
theorem resultId_of_numbers {publishes : Bool} {a : Event ε} {type : Received}
    (ha : a.Called order env) (hans : a.Answers type) (hnum : a.line.numbers publishes = true) :
    a.resultId = some (numbering publishes type) := by
  obtain ⟨m, hstep, htype⟩ := hans
  simp only [Line.numbers, hstep, htype] at hnum
  cases hpush : m.message.writePayload with
  | none =>
    rw [hpush] at hnum
    cases hnum
  | some r =>
    obtain ⟨payload, rc⟩ := r
    rw [hpush] at hnum
    obtain ⟨hrc, hid⟩ := of_decide_eq_true hnum
    have hrun := ha.runs
    unfold Line.call at hrun
    rw [hstep] at hrun
    have hpushed : m.message.writePayload = push payload := by
      rw [hpush, hrc]
      rfl
    have hbuf := wlp_write_amid hpushed _ _ _ hrun
    rw [ha.empty (by rw [hstep]; rfl), List.nil_append] at hbuf
    rw [Event.resultId, hbuf, hid]

/-- In a session of any client: the answers carry the ids of their commands if
and only if the client has numbered these as the server expects. -/
theorem correlated_iff (h : Session order env events lines s e) :
    Correlated events ↔ Numbered events := by
  have hresult : ∀ {publishes : Bool} {a : Event ε} {type : Received}, a ∈ events →
      a.Answers type → a.line.numbers publishes = true →
      a.resultId = some (numbering publishes type) :=
    fun ha hans hnum => resultId_of_numbers (h.called _ ha) hans hnum
  constructor
  · intro hcorr type q hq ⟨a, ha, hans⟩ hreq
    have hid := hcorr type q hq a ha hreq hans
    constructor
    · intro hpub
      rw [hresult ha hans ((h.numbers ha).1 hpub), Option.some.injEq] at hid
      exact hid.symm
    · intro hpub
      rw [hresult ha hans ((h.numbers ha).2 hpub), Option.some.injEq] at hid
      exact hid.symm
  · intro hnum type q hq a ha hreq hans
    have hid := hnum type q hq ⟨a, ha, hans⟩ hreq
    by_cases hpub : Publishes events
    · rw [hresult ha hans ((h.numbers ha).1 hpub), hid.1 hpub]
    · rw [hresult ha hans ((h.numbers ha).2 hpub), hid.2 hpub]

/-- A client that gives its `connect` the number 1 is answered with it. -/
theorem correlated_one :
    ∃ (events : List (Event Stream)) (q a : Event Stream), q ∈ events ∧ a ∈ events ∧
      q.Requests .connectMessage ∧ a.Answers .connectMessage ∧ Correlated events := by
  obtain ⟨events, s, out, h, -, hconnect⟩ := connected Order.front
    (m := ObjectMessage.connectLive) (by decide) []
  obtain ⟨q, hq, hqline⟩ := h.exists_event (.checkedCall (.recv .connectMessage))
    (by decide +kernel) (by decide +kernel)
  obtain ⟨a, ha, haline⟩ := h.exists_event (.checkedCall (.send .connectAppResponse))
    (by decide +kernel) (by decide +kernel)
  have hqstep : q.line.step = .recv .connectMessage := by rw [hqline]; rfl
  refine ⟨events, q, a, hq, ha, ⟨hqstep, (hconnect q hq hqstep).1⟩,
    ⟨_, by rw [haline]; rfl, rfl⟩, (correlated_iff h).mpr ?_⟩
  -- no other command is received in the negotiation
  intro type q' hq' _ hreq
  have hline : q'.line ∈ Line.negotiation := h.line_mem_negotiation (.head _) hq'
  have honly : ∀ line ∈ Line.negotiation, ∀ type, line.step = .recv type →
      type = .connectMessage := by
    intro line hmem type hstep
    have hall : ∀ line ∈ Line.negotiation,
        line.step = .recv .connectMessage ∨ receives line.step = false := by decide +kernel
    rcases hall line hmem with h | h
    · rw [hstep] at h
      cases h
      rfl
    · rw [hstep] at h
      cases h
  have htype := honly _ hline type hreq.step
  subst htype
  have hid : q'.requestId = Send.one := by
    rw [Event.requestId, (hconnect q' hq' hreq.step).2.1]
    rfl
  exact ⟨fun _ => hid, fun _ => hid⟩

/-- The number 5 as a `double`, by its bits. -/
def five : UInt64 := 0x4014000000000000

/-- A client that gives its `connect` the number 5 is answered with 1, as every client is. -/
theorem not_correlated_five :
    ¬ ∀ (events : List (Event Stream)) (lines : List Line) (s : State) (e : Stream),
      Session Order.front byItself events lines s e → Correlated events := by
  intro hall
  obtain ⟨events, s, out, h, -, hconnect⟩ := connected Order.front
    (m := { ObjectMessage.connectLive with transactionId := five }) (by decide) []
  obtain ⟨q, hq, hqline⟩ := h.exists_event (.checkedCall (.recv .connectMessage))
    (by decide +kernel) (by decide +kernel)
  obtain ⟨a, ha, haline⟩ := h.exists_event (.checkedCall (.send .connectAppResponse))
    (by decide +kernel) (by decide +kernel)
  have hqstep : q.line.step = .recv .connectMessage := by rw [hqline]; rfl
  have hans : a.Answers .connectMessage := ⟨_, by rw [haline]; rfl, rfl⟩
  have hcorr := hall _ _ _ _ h .connectMessage q hq a ha ⟨hqstep, (hconnect q hq hqstep).1⟩ hans
  rw [resultId_of_numbers (h.called a ha) hans
      (numbers_negotiation true _ (haline ▸ by decide +kernel)),
    Event.requestId, (hconnect q hq hqstep).2.1] at hcorr
  revert hcorr
  decide

end Session

end RtmpServer
