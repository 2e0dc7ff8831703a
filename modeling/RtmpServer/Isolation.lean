import Mathlib.Logic.Function.Basic
import RtmpServer.View

/-!
# Connections that receive next to each other

Any number of connections, each of which receives one message after the other,
scheduled against each other at the blocking reads of the chunk parser. What a
session does between two receives is a script: it decides, from what it has
decoded, what to receive next and with which chunk size.

The parser keeps header records, `curr_csid` and `audio_video_buffer` in
globals. A connection that shares none of them with another decodes what it
decodes alone: `decoded_alone`. Who may use what is an `Assignment` of chunk
streams to connections. A control message whose header is of fmt 0 needs no
chunk stream of its own, for the length is looked up before the next read.
-/

namespace RtmpServer

open Coroutine Coroutine.Prog

/-! ## One connection -/

/-- What a session receives next: a control message of some class, or an audio or video
message. -/
inductive Receive where
  | message (type : Received)
  | audioVideo

/-- Its chunk size at that time, and what it receives. The script decides on both. -/
structure Job where
  chunkSize : Nat
  receive : Receive

/-- A message as it was decoded: the return value, and what was read. `csid` is
there when the basic header was read, the length and the record when the
message header was. -/
inductive Decoded where
  | message (rc : Int) (csid messageLength : Option Int) (ioBuffer : Bytes) (stored : IoMessage)
  | audioVideo (rc : Int) (bhSize mhSize : Nat) (csid : Int) (header : Option MessageHeader)
    (audioVideoBuffer : Bytes)

/-- Where a connection waits, which is in a blocking read of one of the parser's parts, or
between two messages. -/
inductive Phase where
  | idle
  | basicHeader (type : Received) (w : Parked st State (Int × Nat × Int × Nat))
  | messageHeader (type : Received) (csid : Int) (bhSize : Nat) (w : Parked st State (Int × Nat))
  | payload (csid messageLength : Int) (w : Parked st State Int)
  | audioVideoBasicHeader (w : Parked st State (Int × Nat × Int × Nat))
  | audioVideo (csid : Int) (w : Parked st State (Int × Nat × Nat))

/-- One connection with its script; `received` is what has come of the message under way,
and `log` what it has decoded so far. -/
structure Connection where
  script : List Decoded → Job
  client : Client := {}
  phase : Phase := .idle
  received : Bytes := []
  log : List Decoded := []

namespace Connection

/-- The connection is parked, and the globals are what the code has made of them. -/
def waits (c : Connection) (s : State) (phase : Phase) : Globals × Connection :=
  (s.globals, { c with client := s.client, phase })

/-- The connection has decoded a message, and is idle until it is scheduled once more. -/
def decoded (c : Connection) (s : State) (message : Decoded) : Globals × Connection :=
  (s.globals, { c with client := s.client, phase := .idle, log := c.log ++ [message] })

/-- The payload has stopped: it waits, or the message is decoded with whatever it returned. -/
def payloadStopped (c : Connection) (csid messageLength : Int) :
    Stop st State Int × State → Globals × Connection
  | (.parked w, s) => c.waits s (.payload csid messageLength w)
  | (.done rc, s) =>
    c.decoded s (.message rc (some csid) (some messageLength) s.client.ioBuffer s.client.message)

/-- The message header has stopped: it waits, has failed, or the payload follows at once. -/
def messageHeaderStopped (fuel : Nat) (c : Connection) (type : Received) (csid : Int)
    (bhSize : Nat) : Stop st State (Int × Nat) × State → Option (Globals × Connection)
  | (.parked w, s) => some (c.waits s (.messageHeader type csid bhSize w))
  | (.done (rc, mhSize), s) =>
    if rc = -1 then
      some (c.decoded s (.message (-1) (some csid) none s.client.ioBuffer s.client.message))
    else
      (advance fuel (recvPayload type csid bhSize mhSize) s).map
        (c.payloadStopped csid (s.globals.header csid).messageLength)

/-- The basic header has stopped: it waits, has failed, or the message header follows at
once. -/
def basicHeaderStopped (fuel : Nat) (c : Connection) (type : Received) :
    Stop st State (Int × Nat × Int × Nat) × State → Option (Globals × Connection)
  | (.parked w, s) => some (c.waits s (.basicHeader type w))
  | (.done (rc, fmt, csid, bhSize), s) =>
    if rc = -1 then
      some (c.decoded s (.message (-1) none none s.client.ioBuffer s.client.message))
    else
      (advance fuel (readMessageHeader fmt csid bhSize) s).bind
        (c.messageHeaderStopped fuel type csid bhSize)

/-- The rest of an audio or video message has stopped: it waits, or the message is decoded. -/
def audioVideoStopped (c : Connection) (csid : Int) :
    Stop st State (Int × Nat × Nat) × State → Globals × Connection
  | (.parked w, s) => c.waits s (.audioVideo csid w)
  | (.done (rc, bhSize, mhSize), s) =>
    c.decoded s (.audioVideo rc bhSize mhSize csid (s.globals.csidHeader csid)
      (s.buffer .audioVideoBuffer))

/-- The basic header of an audio or video message has stopped: it waits, has failed, or the
rest follows at once. -/
def audioVideoBasicHeaderStopped (fuel : Nat) (c : Connection) :
    Stop st State (Int × Nat × Int × Nat) × State → Option (Globals × Connection)
  | (.parked w, s) => some (c.waits s (.audioVideoBasicHeader w))
  | (.done (rc, fmt, csid, bhSize), s) =>
    if rc = -1 then
      some (c.decoded s (.audioVideo (-1) bhSize 0 csid none (s.buffer .audioVideoBuffer)))
    else (advance fuel (recvAudioVideoRest fmt csid bhSize) s).map (c.audioVideoStopped csid)

/-- The next receive begins, with an empty buffer and a new message object, as the session
has them. -/
def start (fuel : Nat) (g : Globals) (c : Connection) : Option (Globals × Connection) :=
  let job := c.script c.log
  let client := { c.client with chunkSize := job.chunkSize, ioBuffer := [], message := {} }
  match job.receive with
  | .message type =>
    (advance fuel readBasicHeader ⟨g, client⟩).bind
      ({ c with received := [] }.basicHeaderStopped fuel type)
  | .audioVideo =>
    (advance fuel readAudioVideoBasicHeader (State.setBuffer ⟨g, client⟩ .audioVideoBuffer [])).bind
      ({ c with received := [] }.audioVideoBasicHeaderStopped fuel)

/-- `call` has been answered, and what came in is counted to the message under way. -/
def got (c : Connection) (call : Call) (x : Answer) : Connection :=
  { c with received := c.received ++ readBytes (call, x) }

/-- The connection runs from its blocking call to the next, or begins its next receive if it
is idle. -/
def step (fuel : Nat) (g : Globals) (c : Connection) (x : Answer) : Option (Globals × Connection) :=
  match c.phase with
  | .idle => if x = .wake then c.start fuel g else none
  | .basicHeader type w =>
    (resume answer fuel w x ⟨g, c.client⟩).bind ((c.got w.call x).basicHeaderStopped fuel type)
  | .messageHeader type csid bhSize w =>
    (resume answer fuel w x ⟨g, c.client⟩).bind
      ((c.got w.call x).messageHeaderStopped fuel type csid bhSize)
  | .payload csid messageLength w =>
    (resume answer fuel w x ⟨g, c.client⟩).map ((c.got w.call x).payloadStopped csid messageLength)
  | .audioVideoBasicHeader w =>
    (resume answer fuel w x ⟨g, c.client⟩).bind
      ((c.got w.call x).audioVideoBasicHeaderStopped fuel)
  | .audioVideo csid w =>
    (resume answer fuel w x ⟨g, c.client⟩).map ((c.got w.call x).audioVideoStopped csid)

end Connection

/-! ## All of them -/

/-- The globals, and the connections that share them. -/
structure Connections (ι : Type) where
  globals : Globals := {}
  conn : ι → Connection

/-- Which connection a chunk stream belongs to, if to one, and which may
receive audio and video. -/
structure Assignment (ι : Type) where
  owner : Int → Option ι
  publisher : ι

namespace Connections

variable {ι : Type} [DecidableEq ι]

/-- Connection `i` has run, and has left these globals. -/
def set (b : Connections ι) (i : ι) (r : Globals × Connection) : Connections ι where
  globals := r.1
  conn := Function.update b.conn i r.2

/-- Connection `i` runs to its next blocking call, with the others where they are. -/
def step (fuel : Nat) (b : Connections ι) (i : ι) (x : Answer) : Option (Connections ι) :=
  ((b.conn i).step fuel b.globals x).map (b.set i)

/-- A schedule: who is answered next, and with what. -/
def run (fuel : Nat) (b : Connections ι) : List (ι × Answer) → Option (Connections ι)
  | [] => some b
  | (i, x) :: ts =>
    match b.step fuel i x with
    | none => none
    | some b' => run fuel b' ts

end Connections

namespace Assignment

section

variable {ι : Type} [DecidableEq ι] (a : Assignment ι) (i : ι)

/-- What connection `i` is about to do is within its assignment: audio and
video only if it is the publisher, and, when the bytes of the basic header are
there, a chunk stream of its own, or a control header of fmt 0 on one that is
nobody's. -/
def allows (c : Connection) (x : Answer) : Bool :=
  match c.phase with
  | .idle =>
    match (c.script c.log).receive with
    | .message _ => true
    | .audioVideo => i = a.publisher
  | .basicHeader _ w =>
    match basicHeader (c.received ++ readBytes (w.call, x)) with
    | none => true
    | some (fmt, csid) => a.owner csid = some i ∨ (fmt = 0 ∧ a.owner csid = none)
  | .audioVideoBasicHeader w =>
    match basicHeader (c.received ++ readBytes (w.call, x)) with
    | none => true
    | some (_, csid) => a.owner csid = some i
  | _ => true

/-- Every step of the schedule is within the assignment, in the state in which it is taken. -/
def separates (fuel : Nat) (b : Connections ι) : List (ι × Answer) → Bool
  | [] => true
  | (i, x) :: ts =>
    a.allows i (b.conn i) x &&
      match b.step fuel i x with
      | none => true
      | some b' => separates fuel b' ts

end

/-! ## What a connection's step keeps -/

variable {ι : Type} {a : Assignment ι} {i : ι}

/-- The chunk streams of `i`, by the assignment. -/
def own (a : Assignment ι) (i : ι) (csid : Int) : Prop := a.owner csid = some i

/-- The chunk streams of other connections; there may be some that are nobody's. -/
def others (a : Assignment ι) (i : ι) (csid : Int) : Prop :=
  a.owner csid ≠ none ∧ a.owner csid ≠ some i

/-- Two states that connection `i` cannot tell apart. -/
abbrev SameView (a : Assignment ι) (i : ι) : State → State → Prop :=
  View (a.own i) (i = a.publisher)

/-- What connection `i` may do to the state. -/
abbrev Within (a : Assignment ι) (i : ι) : State → State → Prop :=
  Frame (a.others i) (i = a.publisher)

/-- Two such states, while `i` receives a message of its chunk stream `csid`. -/
abbrev SameStream (a : Assignment ι) (i : ι) (csid : Int) : State → State → Prop :=
  InStream (a.own i) (i = a.publisher) csid

/-- What is left of a program runs alike from any two states that the connection cannot tell
apart. -/
def Resumes {α : Type} (a : Assignment ι) (i : ι) (w : Parked st State α)
    (post : α → State → State → Prop) : Prop :=
  ∀ r, Simulates (a.SameView i) (a.Within i) (a.SameView i) (w.resume r) post

/-- A basic header is being read, and `received` is what has come of it. -/
def Reading (b : Buffer) (p : Routine (Int × Nat × Int × Nat)) (received : Bytes)
    (stop : Stop st State (Int × Nat × Int × Nat)) (t : State) : Prop :=
  ∃ s tr, s.buffer b = [] ∧ received = tr.flatMap readBytes ∧ Stopped answer p s tr t stop

/-- Connection `c`, among the others on globals `g` and alone on globals `h`,
will go on alike. -/
def Linked (a : Assignment ι) (i : ι) (g h : Globals) (c : Connection) : Prop :=
  match c.phase with
  | .idle => True
  | .basicHeader _ w => a.Resumes i w (fun _ => a.SameView i) ∧
    Reading .ioBuffer readBasicHeader c.received (.parked w) ⟨h, c.client⟩
  | .messageHeader _ csid _ w => ¬ a.others i csid ∧ a.Resumes i w fun r s t =>
    a.SameView i s t ∧ (r.1 ≠ -1 → SameLength (a.own i) (i = a.publisher) csid s t)
  | .payload _ _ w => a.Resumes i w fun _ => a.SameView i
  | .audioVideoBasicHeader w => i = a.publisher ∧
    a.Resumes i w (fun r s t => a.SameView i s t ∧ (r.1 ≠ -1 → a.SameStream i r.2.2.1 s t)) ∧
    Reading .audioVideoBuffer readAudioVideoBasicHeader c.received (.parked w) ⟨h, c.client⟩
  | .audioVideo csid w => i = a.publisher ∧ a.own i csid ∧ g.currCsid = csid ∧
    ∀ r, Simulates (a.SameStream i csid) (a.Within i) (a.SameStream i csid) (w.resume r)
      fun _ => a.SameStream i csid

/-- A connection among others, and the same one alone: the same data, states that it cannot
tell apart, and the same to come. -/
structure Alike (a : Assignment ι) (i : ι) (p q : Globals × Connection) : Prop where
  conn : q.2 = p.2
  view : a.SameView i ⟨p.1, p.2.client⟩ ⟨q.1, p.2.client⟩
  linked : a.Linked i p.1 q.1 p.2

/-- Both have run up to where they stop next, and the one among others has stayed within its
frame. -/
def Steps (a : Assignment ι) (i : ι) (s : State) (q : Option (Globals × Connection))
    (p : Globals × Connection) : Prop :=
  ∃ q', q = some q' ∧ a.Alike i p q' ∧ a.Within i s ⟨p.1, p.2.client⟩

variable {c : Connection} {s s₀ t : State}

/-- Where both are parked in the same place, they are alike. -/
theorem alike_waits {phase : Phase} (hview : a.SameView i s t)
    (hlinked : a.Linked i s.globals t.globals { c with client := s.client, phase }) :
    a.Alike i (c.waits s phase) (c.waits t phase) where
  conn := by rw [Connection.waits, Connection.waits, hview.client]
  view := by
    have ht : (⟨t.globals, s.client⟩ : State) = t := by rw [hview.client]
    show a.SameView i s ⟨t.globals, s.client⟩
    rwa [ht]
  linked := hlinked

/-- Where both have decoded the same message, they are alike and idle. -/
theorem alike_decoded {m : Decoded} (hview : a.SameView i s t) :
    a.Alike i (c.decoded s m) (c.decoded t m) where
  conn := by rw [Connection.decoded, Connection.decoded, hview.client]
  view := by
    have ht : (⟨t.globals, s.client⟩ : State) = t := by rw [hview.client]
    show a.SameView i s ⟨t.globals, s.client⟩
    rwa [ht]
  linked := trivial

/-- A stop of the payload leaves the state it stopped in. -/
@[simp] theorem payloadStopped_state {csid messageLength : Int} {stop : Stop st State Int} :
    (⟨(c.payloadStopped csid messageLength (stop, s)).1,
      (c.payloadStopped csid messageLength (stop, s)).2.client⟩ : State) = s := by
  cases stop <;> rfl

/-- So does a stop of an audio or video message. -/
@[simp] theorem audioVideoStopped_state {csid : Int} {stop : Stop st State (Int × Nat × Nat)} :
    (⟨(c.audioVideoStopped csid (stop, s)).1,
       (c.audioVideoStopped csid (stop, s)).2.client⟩ : State)
      = s := by
  cases stop <;> rfl

/-- Two payloads that have stopped alike leave connections that are alike. -/
theorem alike_payloadStopped {csid messageLength : Int} {stop : Stop st State Int}
    (h : SimulatesStop (a.SameView i) (a.Within i) (fun _ => a.SameView i) s t stop) :
    a.Alike i (c.payloadStopped csid messageLength (stop, s))
      (c.payloadStopped csid messageLength (stop, t)) := by
  cases stop with
  | done rc =>
    simp only [Connection.payloadStopped]
    rw [← h.client]
    exact alike_decoded h
  | parked w => exact alike_waits h.1 h.2

/-- So do two audio or video messages, of a chunk stream of the connection's own. -/
theorem alike_audioVideoStopped {csid : Int} {stop : Stop st State (Int × Nat × Nat)}
    (hpub : i = a.publisher) (hown : a.own i csid)
    (h : SimulatesStop (a.SameStream i csid) (a.Within i) (fun _ => a.SameStream i csid) s t stop) :
    a.Alike i (c.audioVideoStopped csid (stop, s)) (c.audioVideoStopped csid (stop, t)) := by
  cases stop with
  | done r =>
    simp only [Connection.audioVideoStopped]
    rw [← h.1.buffer_eq (.inr hpub), ← h.1.header csid hown]
    exact alike_decoded h.1
  | parked w => exact alike_waits h.1.1 ⟨hpub, hown, h.1.2, h.2⟩

/-- Two message headers that have stopped alike go on alike, with the payload where they
have ended. -/
theorem steps_messageHeaderStopped {fuel bhSize : Nat} {type : Received} {csid : Int}
    {stop : Stop st State (Int × Nat)} {p : Globals × Connection} (hc : ¬ a.others i csid)
    (h : SimulatesStop (a.SameView i) (a.Within i) (fun r s t => a.SameView i s t ∧
      (r.1 ≠ -1 → SameLength (a.own i) (i = a.publisher) csid s t)) s t stop)
    (hframe : a.Within i s₀ s)
    (hp : c.messageHeaderStopped fuel type csid bhSize (stop, s) = some p) :
    a.Steps i s₀ (c.messageHeaderStopped fuel type csid bhSize (stop, t)) p := by
  cases stop with
  | parked w =>
    cases hp
    exact ⟨_, rfl, alike_waits h.1 ⟨hc, h.2⟩, hframe⟩
  | done r =>
    simp only [Connection.messageHeaderStopped] at hp ⊢
    by_cases hrc : r.1 = -1
    · rw [if_pos hrc] at hp ⊢
      cases hp
      rw [← h.1.client]
      exact ⟨_, rfl, alike_decoded h.1, hframe⟩
    · rw [if_neg hrc] at hp ⊢
      obtain ⟨⟨stop', s'⟩, hadv, rfl⟩ := Option.map_eq_some_iff.mp hp
      obtain ⟨hF, t', hadv', hstop⟩ := Simulates.advance Frame.refl (fun _ _ _ => Frame.trans) _
        (simulates_recvPayload hc type bhSize r.2) (h.2 hrc) hadv
      rw [hadv', ← (h.2 hrc).2]
      exact ⟨_, rfl, alike_payloadStopped hstop,
        by rw [payloadStopped_state]; exact hframe.trans hF⟩

/-- The bytes that have come when a basic header is read are its bytes. -/
theorem Reading.names {b : Buffer} {reader : Routine (Int × Nat × Int × Nat)} {received : Bytes}
    {r : Int × Nat × Int × Nat} {f : Int → State → State}
    (h : Reading b reader received (.done r) t)
    (hspec : ∀ {s e}, s.buffer b = [] → wlp (replay answer) reader (fun r s' e' => ∃ p,
      Came (replay answer) e p e' ∧ BasicHeaderRead b f s p r s') s e) (hrc : r.1 ≠ -1) :
    basicHeader received = some (r.2.1, r.2.2.1) := by
  obtain ⟨s, tr, hempty, hreceived, hrun⟩ := h
  obtain ⟨p, hcame, hread⟩ := hspec hempty _ _ _ hrun
  have hbytes := hcame _ reads_replay
  rw [List.flatMap_nil, List.nil_append] at hbytes
  rw [hreceived, hbytes]
  cases hread with
  | nothing => exact absurd rfl hrc
  | cut _ => exact absurd rfl hrc
  | whole hbasic _ => exact hbasic

/-- Two basic headers that have stopped alike go on alike, if the chunk stream they name is
allowed. -/
theorem steps_basicHeaderStopped {fuel : Nat} {type : Received}
    {stop : Stop st State (Int × Nat × Int × Nat)} {p : Globals × Connection}
    (h : SimulatesStop (a.SameView i) (a.Within i) (fun _ => a.SameView i) s t stop)
    (hreading : Reading .ioBuffer readBasicHeader c.received stop t)
    (hallowed : ∀ fmt csid, basicHeader c.received = some (fmt, csid) →
      a.owner csid = some i ∨ (fmt = 0 ∧ a.owner csid = none))
    (hframe : a.Within i s₀ s) (hp : c.basicHeaderStopped fuel type (stop, s) = some p) :
    a.Steps i s₀ (c.basicHeaderStopped fuel type (stop, t)) p := by
  cases stop with
  | parked w =>
    cases hp
    have ht : (⟨t.globals, s.client⟩ : State) = t := by rw [h.1.client]
    exact ⟨_, rfl, alike_waits h.1 ⟨h.2, ht.symm ▸ hreading⟩, hframe⟩
  | done r =>
    simp only [Connection.basicHeaderStopped] at hp ⊢
    by_cases hrc : r.1 = -1
    · rw [if_pos hrc] at hp ⊢
      cases hp
      rw [← h.client]
      exact ⟨_, rfl, alike_decoded h, hframe⟩
    · rw [if_neg hrc] at hp ⊢
      have hname := hallowed _ _ (hreading.names (wlp_readBasicHeader account_came) hrc)
      -- the header names a chunk stream that is this connection's or nobody's, so no other's
      have hc : ¬ a.others i r.2.2.1 := by
        intro ho
        rcases hname with hown | ⟨_, hnone⟩
        · exact ho.2 hown
        · exact ho.1 hnone
      obtain ⟨⟨stop', s'⟩, hadv, hp⟩ := Option.bind_eq_some_iff.mp hp
      obtain ⟨hF, t', hadv', hstop⟩ := Simulates.advance Frame.refl (fun _ _ _ => Frame.trans) _
        (simulates_readMessageHeader hc (hname.imp_right And.left)) h hadv
      rw [hadv']
      exact steps_messageHeaderStopped hc hstop (hframe.trans hF) hp

/-- So do those of an audio or video message, if the chunk stream is the connection's own. -/
theorem steps_audioVideoBasicHeaderStopped {fuel : Nat}
    {stop : Stop st State (Int × Nat × Int × Nat)} {p : Globals × Connection}
    (hpub : i = a.publisher)
    (h : SimulatesStop (a.SameView i) (a.Within i) (fun r s t => a.SameView i s t ∧
      (r.1 ≠ -1 → a.SameStream i r.2.2.1 s t)) s t stop)
    (hreading : Reading .audioVideoBuffer readAudioVideoBasicHeader c.received stop t)
    (hallowed : ∀ fmt csid, basicHeader c.received = some (fmt, csid) → a.owner csid = some i)
    (hframe : a.Within i s₀ s) (hp : c.audioVideoBasicHeaderStopped fuel (stop, s) = some p) :
    a.Steps i s₀ (c.audioVideoBasicHeaderStopped fuel (stop, t)) p := by
  cases stop with
  | parked w =>
    cases hp
    have ht : (⟨t.globals, s.client⟩ : State) = t := by rw [h.1.client]
    exact ⟨_, rfl, alike_waits h.1 ⟨hpub, h.2, ht.symm ▸ hreading⟩, hframe⟩
  | done r =>
    simp only [Connection.audioVideoBasicHeaderStopped] at hp ⊢
    by_cases hrc : r.1 = -1
    · rw [if_pos hrc] at hp ⊢
      cases hp
      rw [← h.1.buffer_eq (.inr hpub)]
      exact ⟨_, rfl, alike_decoded h.1, hframe⟩
    · rw [if_neg hrc] at hp ⊢
      have hown : a.own i r.2.2.1 :=
        hallowed _ _ (hreading.names (wlp_readAudioVideoBasicHeader account_came) hrc)
      obtain ⟨⟨stop', s'⟩, hadv, rfl⟩ := Option.map_eq_some_iff.mp hp
      obtain ⟨hF, t', hadv', hstop⟩ := Simulates.advance Frame.refl (fun _ _ _ => Frame.trans) _
        (simulates_recvAudioVideoRest hpub hown (fun ho : a.others i _ => ho.2 hown) r.2.1 r.2.2.2)
        (h.2 hrc) hadv
      rw [hadv']
      refine ⟨_, rfl, alike_audioVideoStopped hpub hown hstop, ?_⟩
      rw [audioVideoStopped_state]
      exact hframe.trans hF

section

variable [DecidableEq ι] {g h : Globals} {fuel : Nat} {x : Answer} {p : Globals × Connection}

/-- A receive begins alike from two states that the connection cannot tell apart. -/
theorem steps_start (hview : a.SameView i ⟨g, c.client⟩ ⟨h, c.client⟩)
    (hidle : c.phase = .idle) (hallows : a.allows i c x = true) (hp : c.start fuel g = some p) :
    a.Steps i ⟨g, c.client⟩ (c.start fuel h) p := by
  unfold Connection.start at hp ⊢
  have hview' : a.SameView i ⟨g, { c.client with
        chunkSize := (c.script c.log).chunkSize, ioBuffer := [], message := {} }⟩
      ⟨h, { c.client with
        chunkSize := (c.script c.log).chunkSize, ioBuffer := [], message := {} }⟩ :=
    ⟨rfl, hview.header, hview.buffer, hview.currCsid⟩
  have hnone : ∀ fmt csid, basicHeader [] ≠ some (fmt, csid) := fun _ _ heq => by cases heq
  cases hjob : (c.script c.log).receive with
  | message type =>
    simp only [hjob] at hp ⊢
    obtain ⟨⟨stop, s⟩, hadv, hp⟩ := Option.bind_eq_some_iff.mp hp
    obtain ⟨hF, t, hadv', hstop⟩ := Simulates.advance Frame.refl (fun _ _ _ => Frame.trans) _
      simulates_readBasicHeader hview' hadv
    rw [hadv']
    exact steps_basicHeaderStopped hstop ⟨_, [], rfl, rfl, stopped_of_advance hadv'⟩
      (fun _ _ heq => absurd heq (hnone _ _)) ⟨hF.header, hF.buffer, hF.currCsid⟩ hp
  | audioVideo =>
    have hpub : i = a.publisher := by
      simp only [allows, hidle, hjob] at hallows
      exact of_decide_eq_true hallows
    simp only [hjob] at hp ⊢
    obtain ⟨⟨stop, s⟩, hadv, hp⟩ := Option.bind_eq_some_iff.mp hp
    obtain ⟨hF, t, hadv', hstop⟩ := Simulates.advance Frame.refl (fun _ _ _ => Frame.trans) _
      (simulates_readAudioVideoBasicHeader hpub) (hview'.setBuffer .audioVideoBuffer []) hadv
    rw [hadv']
    refine steps_audioVideoBasicHeaderStopped hpub hstop ⟨_, [], ?_, rfl, stopped_of_advance hadv'⟩
      (fun _ _ heq => absurd heq (hnone _ _)) ?_ hp
    · rw [State.buffer_setBuffer]
    · exact ⟨hF.header, fun hne => absurd hpub hne, fun hne => absurd hpub hne⟩

/-- A step of a connection among others is a step of it alone, and leaves the
others' part of the globals as it is. -/
theorem steps_step (hview : a.SameView i ⟨g, c.client⟩ ⟨h, c.client⟩) (hlinked : a.Linked i g h c)
    (hallows : a.allows i c x = true) (hp : c.step fuel g x = some p) :
    a.Steps i ⟨g, c.client⟩ (c.step fuel h x) p := by
  unfold Connection.step at hp ⊢
  unfold Linked at hlinked
  cases hphase : c.phase with
  | idle =>
    simp only [hphase] at hp ⊢
    obtain ⟨hx, hp⟩ := Option.ite_none_right_eq_some.mp hp
    rw [if_pos hx]
    exact steps_start hview hphase hallows hp
  | basicHeader type w =>
    simp only [hphase] at hp hlinked ⊢
    obtain ⟨hw, s₀, tr, hempty, hreceived, hreached⟩ := hlinked
    obtain ⟨⟨stop, s⟩, hres, hp⟩ := Option.bind_eq_some_iff.mp hp
    obtain ⟨hF, t, hres', hstop⟩ :=
      Simulates.resume Frame.refl (fun _ _ _ => Frame.trans) hw hview hres
    rw [hres']
    refine steps_basicHeaderStopped hstop
      ⟨s₀, _, hempty, ?_, Reached.stopped_resume hreached hres'⟩ ?_ hF hp
    · simp [Connection.got, hreceived]
    · intro fmt csid hname
      have hname' : basicHeader (c.received ++ readBytes (w.call, x)) = some (fmt, csid) := hname
      simp only [allows, hphase, hname'] at hallows
      exact of_decide_eq_true hallows
  | messageHeader type csid bhSize w =>
    simp only [hphase] at hp hlinked ⊢
    obtain ⟨⟨stop, s⟩, hres, hp⟩ := Option.bind_eq_some_iff.mp hp
    obtain ⟨hF, t, hres', hstop⟩ :=
      Simulates.resume Frame.refl (fun _ _ _ => Frame.trans) hlinked.2 hview hres
    rw [hres']
    exact steps_messageHeaderStopped hlinked.1 hstop hF hp
  | payload csid messageLength w =>
    simp only [hphase] at hp hlinked ⊢
    obtain ⟨⟨stop, s⟩, hres, rfl⟩ := Option.map_eq_some_iff.mp hp
    obtain ⟨hF, t, hres', hstop⟩ :=
      Simulates.resume Frame.refl (fun _ _ _ => Frame.trans) hlinked hview hres
    rw [hres']
    refine ⟨_, rfl, alike_payloadStopped hstop, ?_⟩
    rw [payloadStopped_state]
    exact hF
  | audioVideoBasicHeader w =>
    simp only [hphase] at hp hlinked ⊢
    obtain ⟨hpub, hw, s₀, tr, hempty, hreceived, hreached⟩ := hlinked
    obtain ⟨⟨stop, s⟩, hres, hp⟩ := Option.bind_eq_some_iff.mp hp
    obtain ⟨hF, t, hres', hstop⟩ :=
      Simulates.resume Frame.refl (fun _ _ _ => Frame.trans) hw hview hres
    rw [hres']
    refine steps_audioVideoBasicHeaderStopped hpub hstop
      ⟨s₀, _, hempty, ?_, Reached.stopped_resume hreached hres'⟩ ?_ hF hp
    · simp [Connection.got, hreceived]
    · intro fmt csid hname
      have hname' : basicHeader (c.received ++ readBytes (w.call, x)) = some (fmt, csid) := hname
      simp only [allows, hphase, hname'] at hallows
      exact of_decide_eq_true hallows
  | audioVideo csid w =>
    simp only [hphase] at hp hlinked ⊢
    obtain ⟨hpub, hown, hcsid, hw⟩ := hlinked
    obtain ⟨⟨stop, s⟩, hres, rfl⟩ := Option.map_eq_some_iff.mp hp
    obtain ⟨hF, t, hres', hstop⟩ :=
      Simulates.resume Frame.refl (fun _ _ _ => Frame.trans) hw ⟨hview, hcsid⟩ hres
    rw [hres']
    refine ⟨_, rfl, alike_audioVideoStopped hpub hown hstop, ?_⟩
    rw [audioVideoStopped_state]
    exact hF

end

/-- What another connection does within its assignment is not noticed by this one. -/
theorem Alike.frame {j : ι} {g g' : Globals} {c c' : Client} {p : Connection}
    {q : Globals × Connection} (halike : a.Alike j (g, p) q) (hne : j ≠ i)
    (hframe : a.Within i ⟨g, c⟩ ⟨g', c'⟩) : a.Alike j (g', p) q := by
  have hothers : ∀ {csid}, a.own j csid → a.others i csid := by
    intro csid hown
    have hown' : a.owner csid = some j := hown
    refine ⟨fun h => ?_, fun h => hne ?_⟩
    · rw [hown'] at h
      cases h
    · rw [hown'] at h
      exact Option.some.inj h
  have hpub : j = a.publisher → ¬ i = a.publisher := fun hj hi => hne (hj.trans hi.symm)
  refine ⟨halike.conn, ⟨rfl, ?_, ?_, ?_⟩, ?_⟩
  · intro csid hown
    exact (hframe.header csid (hothers hown)).trans (halike.view.header csid hown)
  · intro hj
    exact (hframe.buffer (hpub hj)).trans (halike.view.buffer hj)
  · intro hj
    exact (hframe.currCsid (hpub hj)).trans (halike.view.currCsid hj)
  · have hlinked := halike.linked
    -- of what is linked only `curr_csid` can be another's doing, and the publisher owns it
    unfold Linked at hlinked ⊢
    cases hphase : p.phase with
    | audioVideo csid w =>
      simp only [hphase] at hlinked ⊢
      obtain ⟨hj, hown, hcsid, hw⟩ := hlinked
      exact ⟨hj, hown, (hframe.currCsid (hpub hj)).trans hcsid, hw⟩
    | idle => exact trivial
    | basicHeader type w => simpa only [hphase] using hlinked
    | messageHeader type csid bhSize w => simpa only [hphase] using hlinked
    | payload csid messageLength w => simpa only [hphase] using hlinked
    | audioVideoBasicHeader w => simpa only [hphase] using hlinked

end Assignment

namespace Connections

variable {ι : Type} [DecidableEq ι]

/-- Among the others and alone, a connection is alike in every state of the run: by
induction over the schedule. -/
theorem run_alike (a : Assignment ι) (fuel : Nat) (ts : List (ι × Answer)) :
    ∀ {b b' : Connections ι} {alone : ι → Connections ι},
      (∀ i, a.Alike i (b.globals, b.conn i) ((alone i).globals, (alone i).conn i)) →
      b.run fuel ts = some b' → a.separates fuel b ts = true →
      ∀ i, ∃ alone', (alone i).run fuel (ts.filter fun t => t.1 = i) = some alone' ∧
        a.Alike i (b'.globals, b'.conn i) (alone'.globals, alone'.conn i) := by
  induction ts with
  | nil =>
    intro b b' alone halike hrun _ i
    cases hrun
    exact ⟨alone i, rfl, halike i⟩
  | cons t ts ih =>
    intro b b' alone halike hrun hsep
    obtain ⟨i, x⟩ := t
    rw [run] at hrun
    cases hstep : b.step fuel i x with
    | none => rw [hstep] at hrun; cases hrun
    | some b1 =>
      rw [hstep] at hrun
      rw [Assignment.separates, hstep, Bool.and_eq_true] at hsep
      obtain ⟨p, hp, rfl⟩ := Option.map_eq_some_iff.mp hstep
      -- the step of `i` alone
      obtain ⟨q, hq, halike1, hframe⟩ := Assignment.steps_step (halike i).view (halike i).linked
        hsep.1 hp
      have hconn : (alone i).conn i = b.conn i := (halike i).conn
      have hstep1 : (alone i).step fuel i x = some ((alone i).set i q) := by
        rw [step, hconn, hq]
        rfl
      have halike' : ∀ j, a.Alike j ((b.set i p).globals, (b.set i p).conn j)
          ((Function.update alone i ((alone i).set i q) j).globals,
            (Function.update alone i ((alone i).set i q) j).conn j) := by
        intro j
        by_cases hj : j = i
        · subst hj
          simp only [set, Function.update_self]
          exact halike1
        · simp only [set, Function.update_of_ne hj]
          exact (halike j).frame hj hframe
      intro j
      obtain ⟨alone', hrun', hj'⟩ := ih halike' hrun hsep.2 j
      refine ⟨alone', ?_, hj'⟩
      by_cases hj : j = i
      · subst hj
        rw [Function.update_self] at hrun'
        rw [List.filter_cons_of_pos (by simp), run, hstep1]
        exact hrun'
      · rw [Function.update_of_ne hj] at hrun'
        rw [List.filter_cons_of_neg (by simpa using fun h => hj h.symm)]
        exact hrun'

/-- Every connection whose chunk streams and whose audio and video are its own
decodes, in any schedule, what it decodes when it runs alone: the run without
the turns of the others leaves the same connection. -/
theorem decoded_alone (a : Assignment ι) (fuel : Nat) (b b' : Connections ι)
    (ts : List (ι × Answer)) (hidle : ∀ i, (b.conn i).phase = .idle)
    (hrun : b.run fuel ts = some b') (hsep : a.separates fuel b ts = true) :
    ∀ i, ∃ alone, b.run fuel (ts.filter fun t => t.1 = i) = some alone ∧
      alone.conn i = b'.conn i := by
  have hstart : ∀ i, a.Alike i (b.globals, b.conn i) (b.globals, b.conn i) := by
    intro i
    refine ⟨rfl, ⟨rfl, fun _ _ => rfl, fun _ => rfl, fun _ => rfl⟩, ?_⟩
    unfold Assignment.Linked
    rw [hidle i]
    exact trivial
  intro i
  obtain ⟨alone, hrun', halike⟩ := @run_alike _ _ a fuel ts _ _ (fun _ => b) hstart hrun hsep i
  exact ⟨alone, hrun', halike.conn⟩

/-- A publisher that sends audio and video, and a client that sends commands. -/
def publisherAndClient : Connections Bool where
  conn
    | false => { script := fun _ => ⟨4096, .audioVideo⟩ }
    | true => { script := fun _ => ⟨128, .message .createStream⟩ }

/-- A fmt 0 header on chunk stream `csid`, as it arrives in the reads of the parser. -/
def headerArrives (i : Bool) (csid length type : UInt8) : List (Bool × Answer) :=
  [(i, .wake), (i, .bytes [csid]), (i, .bytes [0, 0, 0, 0, 0, length, type, 1, 0, 0, 0])]

/-- A command on chunk stream `csid`, while a video message of two bytes is
received on chunk stream 6. -/
def commandDuringVideo (csid : UInt8) : List (Bool × Answer) :=
  headerArrives false 6 2 9 ++ headerArrives true csid 5 20 ++ [(false, .bytes [1, 2])]

/-- The command comes on a chunk stream that is nobody's, so both connections decode as they
do alone. -/
theorem decoded_alone_publisher :
    ∃ b', publisherAndClient.run 20 (commandDuringVideo 3) = some b' ∧
      (b'.conn false).log.length = 1 ∧
      ∀ i, ∃ alone, publisherAndClient.run 20 ((commandDuringVideo 3).filter fun t => t.1 = i)
        = some alone ∧ alone.conn i = b'.conn i := by
  have hrun : (publisherAndClient.run 20 (commandDuringVideo 3)).map
      (fun b => (b.conn false).log.length) = some 1 := by decide
  obtain ⟨b', hb, hlog⟩ := Option.map_eq_some_iff.mp hrun
  refine ⟨b', hb, hlog, decoded_alone ⟨fun csid => if csid = 6 then some false else none, false⟩ 20
    _ b' _ (fun i => ?_) hb (by decide)⟩
  cases i <;> rfl

/-- The command comes on the chunk stream of the video message: its length is
taken for that of the video message, which then is not decoded. -/
theorem decoded_among_others :
    ¬ ∀ (b b' : Connections Bool) (ts : List (Bool × Answer)), (∀ i, (b.conn i).phase = .idle) →
      b.run 20 ts = some b' → ∀ i, ∃ alone, b.run 20 (ts.filter fun t => t.1 = i) = some alone ∧
        alone.conn i = b'.conn i := by
  intro h
  have hrun : (publisherAndClient.run 20 (commandDuringVideo 6)).map
      (fun b => (b.conn false).log.length) = some 0 := by decide
  have halone : (publisherAndClient.run 20 ((commandDuringVideo 6).filter fun t => t.1 = false)).map
      (fun b => (b.conn false).log.length) = some 1 := by decide
  obtain ⟨b', hb, hlog⟩ := Option.map_eq_some_iff.mp hrun
  obtain ⟨alone, hb', hconn⟩ := h _ b' _ (fun i => by cases i <;> rfl) hb false
  rw [hb', Option.map_some, hconn, hlog] at halone
  cases halone

end Connections

end RtmpServer
