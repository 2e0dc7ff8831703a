import Mathlib.Logic.Relation
import RtmpServer.Lib.Stretch
import RtmpServer.Session

/-!
# The server

Any number of sessions on one set of globals. Each client has a thread that runs
`process_thread`; a thread is switched only in a blocking call, and `step` lets
one of them run from its call to the next, through as many lines as it gets.
`Steps` is a step of anybody: a new connection, or an answer to a call, which
may be an error, so that a disconnect is one as well.

Mirroring notes:
- `st_netfd_t` is the number of the client: nothing in the code closes a
  descriptor, so none is given out twice.
- the thread of a new client runs to its first blocking call when the client is
  accepted, which is the first read of the handshake and changes nothing.
- `found` and `outstanding` are history: what the slots held when a thread
  entered its relay loop, and whether a message has been put into a slot and no
  relay loop has got to the end of a round since.
-/

namespace RtmpServer

open Coroutine Coroutine.Prog

/-- Where a thread is: in the call of `line`, with `rest` behind it, or at its
end. -/
inductive Thread where
  | waiting (line : Line) (rest : List Line) (w : Parked st State Int)
  | returned

/-- A client with its thread, and the slots that its relay loop has found when it began. -/
structure Seat where
  client : Client
  thread : Thread
  found : List Slot

/-- `Server` with the globals that all sessions share, and the threads as the clients'
seats. -/
structure Server where
  globals : Globals := {}
  clients : List Seat := []
  outstanding : Bool := false

namespace Server

/-- A thread that has stopped, and the state it leaves: it waits in a call, or has returned. -/
structure Halt where
  thread : Thread
  found : List Slot
  state : State

/-- The call of `line` has stopped: the thread waits in it, or returns, or goes
on with `next`. -/
def settle (order : Order) (next : List Line → List Slot → State → Option Halt) (line : Line)
    (rest : List Line) (found : List Slot) : Stop st State Int × State → Option Halt
  | (.parked w, s) => some ⟨.waiting line rest w, found, s⟩
  | (.done rc, s) =>
    match line.follow rc rest with
    | none => some ⟨.returned, found, s⟩
    | some lines => next lines found (line.step.finish order rc s)

/-- What a thread has found when it comes to `line`: a relay loop looks at the slots of all
that are entered. -/
def finds (line : Line) (found : List Slot) (s : State) : List Slot :=
  if line.step = .relayLoop then found ++ s.globals.consumers.map Prod.snd else found

/-- A thread goes through at most `n` lines, from call to call, until one of them blocks or
the session ends. -/
def proceed (order : Order) (fuel : Nat) : Nat → List Line → List Slot → State → Option Halt
  | 0, _, _, _ => none
  | _ + 1, [], found, s => some ⟨.returned, found, s⟩
  | n + 1, line :: rest, found, s =>
    (advance fuel (line.step.call order) s).bind
      (settle order (proceed order fuel n) line rest (finds line found s))

/-- A thread has been given the answer to its call, and goes on to its next call or to its
end. -/
def answered (order : Order) (fuel : Nat) (g : Globals) (c : Seat) (x : Answer) : Option Halt :=
  match c.thread with
  | .returned => none
  | .waiting line rest w =>
    (resume answer fuel w x ⟨g, c.client⟩).bind
      (settle order (proceed order fuel fuel) line rest c.found)

/-- Whether a message is outstanding when the thread has stopped, if `before`
says so of the time before: the publisher sleeps when it has set the slot, and
a relay loop when it has reset it or found it empty. -/
def outstandingAt (before : Bool) (g : Globals) : Thread → Bool
  | .waiting line _ w =>
    match line.step, (w.call : Call) with
    | .relayLoop, .stUsleep => false
    | .publishLoop, .stUsleep => before || !g.consumers.isEmpty
    | _, _ => before
  | .returned => before

/-- The server behind a thread that has stopped; `clients` is what becomes of
the clients. -/
def stopped (b : Server) (h : Halt) (clients : Seat → List Seat) : Server where
  globals := h.state.globals
  clients := clients ⟨h.state.client, h.thread, h.found⟩
  outstanding := outstandingAt b.outstanding h.state.globals h.thread

/-- Who is scheduled: the listening thread, or client `i` with the answer to its
blocking call. -/
inductive Turn where
  | accept
  | answer (i : Nat) (x : Answer)
  deriving DecidableEq

def step (order : Order) (fuel : Nat) (b : Server) : Turn → Option Server
  | .accept =>
    (proceed order fuel fuel Line.negotiation []
      ⟨b.globals, { stfdClient := b.clients.length }⟩).map fun h =>
        b.stopped h fun c => b.clients ++ [c]
  | .answer i x =>
    match b.clients[i]? with
    | none => none
    | some c => (answered order fuel b.globals c x).map fun h => b.stopped h (b.clients.set i)

/-- A step of anybody: the listening thread or a client's, with fuel enough for its stretch. -/
def Steps (order : Order) (b b' : Server) : Prop := ∃ fuel t, b.step order fuel t = some b'

/-- The steps of a schedule, one after the other, if each of them can be taken. -/
def run (order : Order) (fuel : Nat) (b : Server) : List Turn → Option Server
  | [] => some b
  | t :: ts => (b.step order fuel t).bind fun b' => run order fuel b' ts

theorem run_steps {order : Order} {fuel : Nat} (ts : List Turn) :
    ∀ {b b' : Server}, b.run order fuel ts = some b' →
      Relation.ReflTransGen (Steps order) b b' := by
  induction ts with
  | nil =>
    intro b b' h
    cases h
    exact .refl
  | cons t ts ih =>
    intro b b' h
    obtain ⟨b1, hstep, hrun⟩ := Option.bind_eq_some_iff.mp h
    exact .head ⟨fuel, t, hstep⟩ (ih hrun)

end Server

end RtmpServer
