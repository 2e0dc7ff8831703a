import Mathlib.Algebra.Group.Nat.Defs
import Mathlib.Data.List.Nodup
import RtmpServer.TimeoutHeap

/-!
# `sched.c`: the threads and their processor

The threads of the server share one processor: the one that runs keeps it until
it waits, and then goes the head of the run queue, or the idle thread, which asks
what I/O is ready and who has waited long enough. A step is what a thread does up
to its next wait, with what the thread that comes next does of its own wait.

`Sound` is what holds between two steps: everyone is in the queues where his
state says, and the timeout heap holds those who wait with a timeout. Every step
that the callers may take keeps it and gets through (`Sound.step`): no pointer is
null that is followed, no assertion fails, no loop goes on.

Mirroring notes:
- A step is undefined where an assertion fails or a null pointer is followed.
- Threads are not joinable; condition variables and mutexes are in `sync.c`.
- What the event system reports is any function from the polling threads to
  their number of ready descriptors.
-/

namespace RtmpServer.Sched

variable {Tid : Type} [DecidableEq Tid]

/-! ## The code -/

/-- `_ST_ST_RUNNING` to `_ST_ST_SUSPENDED`, the states that the macros give names to. -/
inductive ThreadState where
  | running
  | runnable
  | ioWait
  | lockWait
  | condWait
  | sleeping
  | zombie
  | suspended
  deriving DecidableEq

/-- Where a thread goes on: at its start, in the loop of the idle thread, or
behind the switch of `st_usleep` or `st_poll`. -/
inductive Context where
  | main
  | idle
  | usleep
  | poll
  deriving DecidableEq

/-- `_st_this_vp`, `_st_this_thread`, and of every thread its state, its flags,
what its last wait returned, and of its `_st_pollq_t` how many descriptors came
ready. `ioq` and `threadq` are the threads in these queues. -/
structure Vp (Tid : Type) where
  idleThread : Tid
  thisThread : Tid
  lastClock : Nat
  activeCount : Nat
  threadq : List Tid
  runq : List Tid
  ioq : List Tid
  sleepq : Sleepq Tid
  state : Tid → ThreadState
  context : Tid → Context
  onSleepq : Tid → Bool
  interrupt : Tid → Bool
  timedout : Tid → Bool
  ready : Tid → Nat
  rv : Tid → Int

/-- `ST_UTIME_NO_TIMEOUT`, the largest `st_utime_t`, which stands for no timeout. -/
def noTimeout : Nat := 2 ^ 64 - 1

/-- `(int)` of an `st_utime_t`: the low 32 bits, with a sign. What is lost is what `select`
is not told. -/
def castInt (n : Nat) : Int := Int.bmod n (2 ^ 32)

/-- A number below 2^31 stays what it is. -/
theorem castInt_of_lt {n : Nat} (h : n < 2 ^ 31) : castInt n = n :=
  Int.bmod_eq_of_le (by omega) (by omega)

/-- No `int` is above that. -/
theorem castInt_lt (n : Nat) : castInt n < (2 ^ 31 : Nat) := by
  have h : Int.bmod n (2 ^ 32) < ((2 ^ 32 : Nat) + 1 : Int) / 2 :=
    Int.bmod_lt (Nat.two_pow_pos 32)
  unfold castInt
  omega

namespace Vp

/-- `thread->state = state;` -/
def setState (vp : Vp Tid) (thread : Tid) (state : ThreadState) : Vp Tid :=
  { vp with state := Function.update vp.state thread state }

/-- `thread->flags |= _ST_FL_INTERRUPT;`, which the thread's next wait finds. -/
def setInterrupt (vp : Vp Tid) (thread : Tid) : Vp Tid :=
  { vp with interrupt := Function.update vp.interrupt thread true }

/-- `thread->state = _ST_ST_RUNNABLE; _ST_ADD_RUNQ(thread);`, at the end of the run queue. -/
def makeRunnable (vp : Vp Tid) (thread : Tid) : Vp Tid :=
  { vp.setState thread .runnable with runq := vp.runq ++ [thread] }

/-- `_ST_ADD_IOQ`, for the thread whose descriptors these are. -/
def addIoQ (vp : Vp Tid) (thread : Tid) : Vp Tid := { vp with ioq := vp.ioq ++ [thread] }

/-- `_st_add_sleep_q`: the due time is counted from `_ST_LAST_CLOCK`, modulo 2^64, and not
from the time of the call. -/
def addSleepQ (vp : Vp Tid) (thread : Tid) (timeout : Nat) : Option (Vp Tid) := do
  let (_, q) ← heapInsert (vp.sleepq.enter thread ((vp.lastClock + timeout) % 2 ^ 64)) thread
  some { vp with sleepq := q, onSleepq := Function.update vp.onSleepq thread true }

/-- `_st_del_sleep_q`, which takes the thread off the heap and clears its flag. -/
def delSleepQ (vp : Vp Tid) (thread : Tid) : Option (Vp Tid) := do
  let q ← heapDelete vp.sleepq thread
  some { vp with sleepq := q, onSleepq := Function.update vp.onSleepq thread false }

/-- How a wait ends before its timeout: in `st_thread_interrupt` and in the
dispatch of the event system. -/
def wakeUp (vp : Vp Tid) (thread : Tid) : Option (Vp Tid) := do
  let vp ← if vp.onSleepq thread then vp.delSleepQ thread else some vp
  some (vp.makeRunnable thread)

/-- The loop of `_st_vp_check_clock`: it wakes whoever is due, the earliest first, as long
as there is one. The size of the heap is fuel enough, as every round takes one off. -/
def checkClockLoop (now : Nat) : Nat → Vp Tid → Option (Vp Tid)
  | 0, _ => none
  | fuel + 1, vp =>
    match vp.sleepq.cell .sleepq with
    | none => some vp
    | some thread =>
      if vp.onSleepq thread = false then none
      else if vp.sleepq.due thread > now then some vp
      else do
        let vp ← vp.delSleepQ thread
        let vp :=
          if vp.state thread = .condWait then
            { vp with timedout := Function.update vp.timedout thread true }
          else vp
        if thread = vp.idleThread then none else checkClockLoop now fuel (vp.makeRunnable thread)

/-- `_st_vp_check_clock` at the time `now`, which becomes the last clock. -/
def checkClock (vp : Vp Tid) (now : Nat) : Option (Vp Tid) :=
  checkClockLoop now (vp.sleepq.size + 1) { vp with lastClock := now }

/-- `min_timeout`: how long it is until the first timeout is over, if there is one. -/
def minTimeout (vp : Vp Tid) : Option Nat :=
  (vp.sleepq.cell .sleepq).map fun thread =>
    if vp.sleepq.due thread ≤ vp.lastClock then 0 else vp.sleepq.due thread - vp.lastClock

/-- `tvp`: what `select` is given, for ever without a sleeper; the seconds and the
microseconds are both cast to `int`. -/
def timeval (vp : Vp Tid) : Option (Int × Int) :=
  vp.minTimeout.map fun minTimeout =>
    (castInt (minTimeout / 1000000), castInt (minTimeout % 1000000))

/-- `n` of its descriptors are ready, and its `_st_pollq_t` comes off the queue. -/
def takeOff (vp : Vp Tid) (thread : Tid) (n : Nat) : Vp Tid :=
  { vp with
    ready := Function.update vp.ready thread n
    ioq := vp.ioq.erase thread }

/-- The loop of the event system's dispatch over the I/O queue; `fires` says how many of a
thread's descriptors are ready. -/
def dispatch (fires : Tid → Nat) : List Tid → Vp Tid → Option (Vp Tid)
  | [], vp => some vp
  | thread :: rest, vp =>
    if fires thread = 0 then dispatch fires rest vp
    else do
      let vp ← (vp.takeOff thread (fires thread)).wakeUp thread
      dispatch fires rest vp

/-- How a wait returns: with an error if the thread has been interrupted. -/
def waited (vp : Vp Tid) (me : Tid) (n : Int) : Vp Tid :=
  if vp.interrupt me then
    { vp with
      interrupt := Function.update vp.interrupt me false
      rv := Function.update vp.rv me (-1) }
  else { vp with rv := Function.update vp.rv me n }

/-- `_ST_RESTORE_CONTEXT`, and the rest of the wait that the thread was in, up to what its
call returns. -/
def restore (vp : Vp Tid) (me : Tid) : Vp Tid :=
  match vp.context me with
  | .main => vp
  | .idle => vp
  | .usleep => vp.waited me 0
  | .poll =>
    if me ∈ vp.ioq then { vp with ioq := vp.ioq.erase me }.waited me 0
    else vp.waited me (vp.ready me)

/-- `_st_vp_schedule` once it has its thread, which has to be runnable. -/
def resume (vp : Vp Tid) (thread : Tid) : Option (Vp Tid) :=
  if vp.state thread = .runnable then
    some ({ vp.setState thread .running with thisThread := thread }.restore thread)
  else none

/-- `_st_vp_schedule`: the first of the run queue, or the idle thread if nobody stands
there. -/
def schedule (vp : Vp Tid) : Option (Vp Tid) :=
  match vp.runq with
  | thread :: rest => { vp with runq := rest }.resume thread
  | [] => vp.resume vp.idleThread

/-- `_ST_SWITCH_CONTEXT`, from the thread that runs to whoever comes next. -/
def switchContext (vp : Vp Tid) (context : Context) : Option (Vp Tid) :=
  { vp with context := Function.update vp.context vp.thisThread context }.schedule

/-- `st_usleep`. An interrupted thread does not sleep at all; without a timeout it is
suspended. -/
def usleep (vp : Vp Tid) (usecs : Nat) : Option (Vp Tid) := do
  let me := vp.thisThread
  if vp.interrupt me then some (vp.waited me 0)
  else
    let vp ← (if usecs ≠ noTimeout then (vp.setState me .sleeping).addSleepQ me usecs
      else some (vp.setState me .suspended))
    vp.switchContext .usleep

/-- `st_poll`; `added` says whether the event system takes the descriptors, without which
the call fails at once. -/
def poll (vp : Vp Tid) (added : Bool) (timeout : Nat) : Option (Vp Tid) := do
  let me := vp.thisThread
  if vp.interrupt me then some (vp.waited me 0)
  else if added = false then some { vp with rv := Function.update vp.rv me (-1) }
  else
    let vp ← (if timeout ≠ noTimeout then (vp.addIoQ me).addSleepQ me timeout
      else some (vp.addIoQ me))
    (vp.setState me .ioWait).switchContext .poll

/-- `st_thread_create`, for a thread that is not joinable: it is runnable, behind all who
are. -/
def create (vp : Vp Tid) (thread : Tid) : Vp Tid :=
  { vp with
    state := Function.update vp.state thread .runnable
    context := Function.update vp.context thread .main
    onSleepq := Function.update vp.onSleepq thread false
    interrupt := Function.update vp.interrupt thread false
    timedout := Function.update vp.timedout thread false
    activeCount := vp.activeCount + 1
    runq := vp.runq ++ [thread]
    threadq := vp.threadq ++ [thread] }

/-- `st_thread_exit`, for a thread that is not joinable: its stack is gone, and
with it the context that it would be restored to. -/
def exit (vp : Vp Tid) : Option (Vp Tid) :=
  { vp with
    activeCount := vp.activeCount - 1
    threadq := vp.threadq.erase vp.thisThread }.schedule

/-- `st_thread_interrupt`: a thread that waits is woken up, one that runs or is runnable is
only marked. -/
def interruptThread (vp : Vp Tid) (thread : Tid) : Option (Vp Tid) :=
  if vp.state thread = .zombie then some vp
  else if vp.state thread = .running ∨ vp.state thread = .runnable then
    some (vp.setInterrupt thread)
  else (vp.setInterrupt thread).wakeUp thread

/-- What a turn of the idle thread does behind the event system's dispatch. -/
def clockTurn (vp : Vp Tid) (now : Nat) : Option (Vp Tid) := do
  let me := vp.thisThread
  let vp ← vp.checkClock now
  (vp.setState me .runnable).switchContext .idle

/-- A turn of the loop of `_st_idle_thread_start`: the descriptors first, and then the
clock. -/
def idleTurn (vp : Vp Tid) (fires : Tid → Nat) (now : Nat) : Option (Vp Tid) := do
  let vp ← dispatch fires vp.ioq vp
  vp.clockTurn now

/-- `st_init`, at the time `now`: its caller runs, and the idle thread waits for its first
turn. -/
def init (idleThread primordial : Tid) (now : Nat) : Vp Tid where
  idleThread
  thisThread := primordial
  lastClock := now
  activeCount := 1
  threadq := [idleThread, primordial]
  runq := []
  ioq := []
  sleepq := ⟨fun _ => none, fun _ => 0, fun _ => 0, 0⟩
  state := Function.update (fun _ => .runnable) primordial .running
  context := Function.update (fun _ => .main) idleThread .idle
  onSleepq := fun _ => false
  interrupt := fun _ => false
  timedout := fun _ => false
  ready := fun _ => 0
  rv := fun _ => 0

end Vp

/-- What the thread that runs can do: the calls of the library, or a turn if it is the idle
thread. -/
inductive Act (Tid : Type) where
  | create (thread : Tid)
  | usleep (usecs : Nat)
  | poll (added : Bool) (timeout : Nat)
  | interrupt (thread : Tid)
  | exit
  | turn (fires : Tid → Nat) (now : Nat)

/-- One such step, with whatever thread runs behind it. There is none where the code would
stop at one of its assertions or follow a null pointer. -/
def Vp.step (vp : Vp Tid) : Act Tid → Option (Vp Tid)
  | .create thread => some (vp.create thread)
  | .usleep usecs => vp.usleep usecs
  | .poll added timeout => vp.poll added timeout
  | .interrupt thread => vp.interruptThread thread
  | .exit => vp.exit
  | .turn fires now => vp.idleTurn fires now

/-- The idle thread does its turns, and ends the process when nobody else is
left; a new thread is in new memory, and only threads that live are interrupted. -/
def Vp.Allows (vp : Vp Tid) : Act Tid → Prop
  | .create thread => vp.thisThread ≠ vp.idleThread ∧ thread ∉ vp.threadq
  | .usleep _ => vp.thisThread ≠ vp.idleThread
  | .poll _ _ => vp.thisThread ≠ vp.idleThread
  | .interrupt thread => vp.thisThread ≠ vp.idleThread ∧ thread ∈ vp.threadq
  | .exit => vp.thisThread ≠ vp.idleThread
  | .turn _ _ => vp.thisThread = vp.idleThread ∧ 0 < vp.activeCount

/-- Whether a step may be taken can be looked up. -/
instance (vp : Vp Tid) (act : Act Tid) : Decidable (vp.Allows act) :=
  match act with
  | .create _ => inferInstanceAs (Decidable (_ ∧ _))
  | .usleep _ => inferInstanceAs (Decidable (_ ≠ _))
  | .poll _ _ => inferInstanceAs (Decidable (_ ≠ _))
  | .interrupt _ => inferInstanceAs (Decidable (_ ∧ _))
  | .exit => inferInstanceAs (Decidable (_ ≠ _))
  | .turn _ _ => inferInstanceAs (Decidable (_ ∧ _))

/-- Some steps, one after the other, each of which its thread may take. -/
def Vp.steps : List (Act Tid) → Vp Tid → Option (Vp Tid)
  | [], vp => some vp
  | act :: acts, vp => if vp.Allows act then (vp.step act).bind (Vp.steps acts) else none

/-- The I/O queue when the thread that runs hands over: with the thread itself if it polls,
and without those whose descriptors have come ready. -/
def Vp.ioqAt (vp : Vp Tid) : Act Tid → List Tid
  | .poll added _ =>
    if vp.interrupt vp.thisThread = true ∨ added = false then vp.ioq
    else vp.ioq ++ [vp.thisThread]
  | .turn fires _ => vp.ioq.filter fun t => fires t = 0
  | _ => vp.ioq

/-- How many descriptors have come ready for each thread by then. -/
def Vp.readyAt (vp : Vp Tid) : Act Tid → Tid → Nat
  | .turn fires _ => fun t => if t ∈ vp.ioq ∧ fires t ≠ 0 then fires t else vp.ready t
  | _ => vp.ready

/-- Which threads have been marked as interrupted by then. -/
def Vp.interruptAt (vp : Vp Tid) : Act Tid → Tid → Bool
  | .interrupt thread => Function.update vp.interrupt thread true
  | _ => vp.interrupt

/-! ## The queues -/

/-- What holds at a switch, when the thread that ran has said what it waits for. -/
structure Queued (vp : Vp Tid) : Prop where
  heap : vp.sleepq.Holds {t | vp.onSleepq t = true}
  asleep : ∀ t, vp.onSleepq t = true →
    t ∈ vp.threadq ∧ (vp.state t = .ioWait ∨ vp.state t = .sleeping)
  waits : ∀ t ∈ vp.threadq, vp.state t ≠ .running → vp.state t ≠ .runnable →
    vp.state t = .ioWait ∧ vp.context t = .poll ∧ t ∈ vp.ioq ∨
      vp.state t = .sleeping ∧ vp.context t = .usleep ∧ vp.onSleepq t = true ∨
      vp.state t = .suspended ∧ vp.context t = .usleep
  runnable : ∀ t, t ∈ vp.runq ↔ t ∈ vp.threadq ∧ t ≠ vp.idleThread ∧ vp.state t = .runnable
  runq : vp.runq.Nodup
  polling : ∀ t ∈ vp.ioq, t ∈ vp.threadq ∧ vp.context t = .poll ∧
    (vp.state t = .ioWait ∨ vp.state t = .runnable)
  ioq : vp.ioq.Nodup
  threadq : vp.threadq.Nodup
  active : vp.activeCount + 1 = vp.threadq.length
  idle : vp.idleThread ∈ vp.threadq ∧ vp.context vp.idleThread = .idle
  idleState : vp.state vp.idleThread = .running ∨ vp.state vp.idleThread = .runnable
  onTime : ∀ t ∈ vp.runq, vp.interrupt t = false →
    vp.context t = .usleep ∨ vp.context t = .poll ∧ t ∈ vp.ioq → vp.sleepq.due t ≤ vp.lastClock
  found : ∀ t ∈ vp.runq, vp.context t = .poll → t ∉ vp.ioq → vp.ready t ≠ 0

/-- What holds between two steps: the queues, and that one thread runs, the idle thread only
when nobody stands in line. -/
structure Sound (vp : Vp Tid) : Prop where
  queued : Queued vp
  this : vp.thisThread ∈ vp.threadq
  running : ∀ t ∈ vp.threadq, vp.state t = .running ↔ t = vp.thisThread
  idleRuns : vp.thisThread = vp.idleThread → vp.runq = []

/-! ## What the parts of a step do -/

/-- `ts` have been woken up, in this order, and taken off the heap. -/
def Vp.wake (vp : Vp Tid) (ts : List Tid) (q : Sleepq Tid) : Vp Tid :=
  { vp with
    sleepq := q
    onSleepq := fun t => vp.onSleepq t && decide (t ∉ ts)
    state := fun t => if t ∈ ts then .runnable else vp.state t
    runq := vp.runq ++ ts }

/-- `ts` have been found ready: they are woken up and off the I/O queue, and their counts
are kept. -/
def Vp.fire (vp : Vp Tid) (fires : Tid → Nat) (ts : List Tid) (q : Sleepq Tid) : Vp Tid :=
  { vp.wake ts q with
    ioq := vp.ioq.filter fun t => t ∉ ts
    ready := fun t => if t ∈ ts then fires t else vp.ready t }

/-- `fired` have been found ready, and then, at the time `now`, `late` have been
woken up. -/
def Vp.turned (vp : Vp Tid) (fires : Tid → Nat) (now : Nat) (fired late : List Tid)
    (q : Sleepq Tid) : Vp Tid :=
  { vp.wake (fired ++ late) q with
    lastClock := now
    ioq := vp.ioq.filter fun t => t ∉ fired
    ready := fun t => if t ∈ fired then fires t else vp.ready t }

/-- The thread that runs has said what it waits for, `on` the heap or not. -/
def Vp.parked (vp : Vp Tid) (state : ThreadState) (context : Context) (on : Bool)
    (q : Sleepq Tid) : Vp Tid :=
  { vp with
    sleepq := q
    onSleepq := Function.update vp.onSleepq vp.thisThread on
    state := Function.update vp.state vp.thisThread state
    context := Function.update vp.context vp.thisThread context
    ioq := if context = .poll then vp.ioq ++ [vp.thisThread] else vp.ioq }

section

variable {vp : Vp Tid} {me t : Tid} {q : Sleepq Tid} {ts us : List Tid} {now : Nat}
  {fires : Tid → Nat}

/-- To wake nobody is to do nothing. -/
theorem wake_nil : vp.wake [] vp.sleepq = vp := by
  simp [Vp.wake]

/-- To wake some and then others is to wake them all, in this order. -/
theorem wake_wake (q' : Sleepq Tid) : (vp.wake ts q).wake us q' = vp.wake (ts ++ us) q' := by
  unfold Vp.wake
  congr 1
  · exact List.append_assoc _ _ _
  · funext t
    by_cases hus : t ∈ us
    · simp [hus]
    · simp [hus]
  · funext t
    simp [Bool.and_assoc]

/-- To find nobody ready is to do nothing. -/
theorem fire_nil : vp.fire fires [] vp.sleepq = vp := by
  have hioq : (vp.ioq.filter fun t => t ∉ ([] : List Tid)) = vp.ioq :=
    List.filter_eq_self.mpr fun t _ => by simp
  unfold Vp.fire
  rw [hioq, wake_nil]
  simp

/-- A thread that is not on the heap is put on it, due at the end of its timeout. -/
theorem Vp.addSleepQ_eq (vp : Vp Tid) (heap : vp.sleepq.Holds {t | vp.onSleepq t = true})
    (hme : vp.onSleepq me = false) (timeout : Nat) :
    ∃ q, vp.addSleepQ me timeout = some { vp with
        sleepq := q
        onSleepq := Function.update vp.onSleepq me true } ∧
      q.Holds {t | Function.update vp.onSleepq me true t = true} ∧
      q.due = Function.update vp.sleepq.due me ((vp.lastClock + timeout) % 2 ^ 64) := by
  have hout : me ∉ {t | vp.onSleepq t = true} := fun hin => Bool.false_ne_true (hme.symm.trans hin)
  obtain ⟨p, q, hrun, hq, hdue, -⟩ := heap.insert hout ((vp.lastClock + timeout) % 2 ^ 64)
  refine ⟨q, ?_, ?_, hdue⟩
  · rw [Vp.addSleepQ, hrun]
    rfl
  · convert hq using 1
    ext t
    by_cases ht : t = me
    · simp [ht]
    · simp [ht]

/-- A thread that is on the heap is taken off it. -/
theorem Vp.delSleepQ_eq (vp : Vp Tid) (heap : vp.sleepq.Holds {t | vp.onSleepq t = true})
    (hme : vp.onSleepq me = true) :
    ∃ q, vp.delSleepQ me = some { vp with
        sleepq := q
        onSleepq := Function.update vp.onSleepq me false } ∧
      q.Holds {t | Function.update vp.onSleepq me false t = true} ∧ q.due = vp.sleepq.due ∧
      q.size + 1 = vp.sleepq.size := by
  obtain ⟨q, hrun, hq, hdue, hsize⟩ := heap.delete (x := me) hme
  refine ⟨q, ?_, ?_, hdue, hsize⟩
  · rw [Vp.delSleepQ, hrun]
    rfl
  · convert hq using 1
    ext t
    by_cases ht : t = me
    · simp [ht]
    · simp [ht]

/-- To wake one thread, field by field. -/
theorem wake_one : vp.wake [me] q = { vp with
    sleepq := q
    onSleepq := Function.update vp.onSleepq me false
    state := Function.update vp.state me .runnable
    runq := vp.runq ++ [me] } := by
  unfold Vp.wake
  congr 1
  · funext t
    by_cases ht : t = me
    · simp [ht]
    · simp [ht]
  · funext t
    by_cases ht : t = me
    · simp [ht]
    · simp [ht]

/-- A thread that is woken up is taken off the heap if it is there, and goes to the end of
the line. -/
theorem Vp.wakeUp_eq (vp : Vp Tid) (me : Tid) (heap : vp.sleepq.Holds {t | vp.onSleepq t = true}) :
    ∃ q, vp.wakeUp me = some (vp.wake [me] q) ∧
      q.Holds {t | (vp.wake [me] q).onSleepq t = true} ∧ q.due = vp.sleepq.due := by
  unfold Vp.wakeUp
  simp only [wake_one]
  by_cases hme : vp.onSleepq me = true
  · obtain ⟨q, hrun, hq, hdue, -⟩ := vp.delSleepQ_eq heap hme
    rw [if_pos hme, hrun]
    exact ⟨q, rfl, hq, hdue⟩
  · have hoff : Function.update vp.onSleepq me false = vp.onSleepq :=
      Function.update_eq_self_iff.mpr (Bool.eq_false_iff.mpr hme).symm
    rw [if_neg hme, hoff]
    exact ⟨vp.sleepq, rfl, heap, rfl⟩

/-- The loop of `_st_vp_check_clock` wakes up those who are due, and in this order. -/
theorem checkClockLoop_eq (now fuel : Nat) : ∀ (vp : Vp Tid), vp.sleepq.size < fuel →
    vp.sleepq.Holds {t | vp.onSleepq t = true} →
    (∀ t, vp.onSleepq t = true → t ≠ vp.idleThread ∧ vp.state t ≠ .condWait) →
    ∃ ts q, Vp.checkClockLoop now fuel vp = some (vp.wake ts q) ∧
      q.Holds {t | (vp.wake ts q).onSleepq t = true} ∧ q.due = vp.sleepq.due ∧ ts.Nodup ∧
      ts.Pairwise (fun t u => vp.sleepq.due t ≤ vp.sleepq.due u) ∧
      ∀ t, t ∈ ts ↔ vp.onSleepq t = true ∧ vp.sleepq.due t ≤ now := by
  -- the induction is on the rounds left, which are more than the sleepers in the heap
  induction fuel with
  | zero =>
    intro vp hsize
    omega
  | succ fuel ih =>
    intro vp hsize heap hassert
    rw [Vp.checkClockLoop]
    rcases heap.root with ⟨hroot, hnobody⟩ | ⟨me, hme, hroot, hfirst⟩
    · have hnone : ∀ t, ¬ vp.onSleepq t = true := fun t ht =>
        Set.notMem_empty t (hnobody ▸ (show t ∈ {t | vp.onSleepq t = true} from ht))
      rw [hroot]
      refine ⟨[], vp.sleepq, by rw [wake_nil], by rw [wake_nil]; exact heap, rfl, List.nodup_nil,
        .nil, fun t => ⟨fun ht => absurd ht List.not_mem_nil, fun ht => absurd ht.1 (hnone t)⟩⟩
    · have hon : vp.onSleepq me = true := hme
      rw [hroot]
      simp only [hon, Bool.true_eq_false, if_false]
      by_cases hlate : vp.sleepq.due me > now
      · -- nobody is due before the root
        rw [if_pos hlate]
        refine ⟨[], vp.sleepq, by rw [wake_nil], by rw [wake_nil]; exact heap, rfl, List.nodup_nil,
          .nil, fun t => ⟨fun ht => absurd ht List.not_mem_nil, fun ht => ?_⟩⟩
        exact absurd (Nat.le_trans (hfirst t ht.1) ht.2) (Nat.not_le.mpr hlate)
      · -- the root is due: it comes off the heap and into the line before all that follow
        obtain ⟨q, hrun, hq, hdue, hless⟩ := vp.delSleepQ_eq heap hon
        obtain ⟨hidle, hcond⟩ := hassert me hon
        rw [if_neg hlate, hrun]
        simp only [Option.bind_eq_bind, Option.bind_some, if_neg hcond, if_neg hidle]
        have hwoken : Vp.makeRunnable { vp with
            sleepq := q
            onSleepq := Function.update vp.onSleepq me false } me = vp.wake [me] q := by
          rw [wake_one]
          rfl
        rw [hwoken]
        have hq' : q.Holds {t | (vp.wake [me] q).onSleepq t = true} := by
          rw [wake_one]
          exact hq
        have hon' : ∀ t, (vp.wake [me] q).onSleepq t = true ↔ vp.onSleepq t = true ∧ t ≠ me := by
          intro t
          simp [Vp.wake]
        obtain ⟨ts, q', hloop, hheap, hdue', hnodup, hsorted, hmem⟩ :=
          ih (vp.wake [me] q) (by show q.size < fuel; omega) hq' (fun t ht => by
            obtain ⟨ht, hne⟩ := (hon' t).mp ht
            refine ⟨(hassert t ht).1, ?_⟩
            show (if t ∈ [me] then ThreadState.runnable else vp.state t) ≠ .condWait
            rw [if_neg (by simpa using hne)]
            exact (hassert t ht).2)
        have hmem' : ∀ t, t ∈ ts ↔ (vp.onSleepq t = true ∧ t ≠ me) ∧ vp.sleepq.due t ≤ now := by
          intro t
          rw [hmem t, hon' t]
          show _ ∧ q.due t ≤ now ↔ _
          rw [hdue]
        refine ⟨me :: ts, q', ?_, ?_, hdue'.trans hdue, ?_, ?_, fun t => ?_⟩
        · rw [hloop, wake_wake, List.singleton_append]
        · rw [wake_wake, List.singleton_append] at hheap
          exact hheap
        · exact List.nodup_cons.mpr ⟨fun hin => ((hmem' me).mp hin).1.2 rfl, hnodup⟩
        · -- the root was due first, and the rest of the heap keeps its due times
          refine List.pairwise_cons.mpr ⟨fun t ht => hfirst t ((hmem' t).mp ht).1.1, ?_⟩
          rw [← hdue]
          exact hsorted
        · rw [List.mem_cons, hmem' t]
          by_cases htme : t = me
          · subst htme
            simp [hon, Nat.not_lt.mp hlate]
          · simp [htme]

/-- The first of those found ready, and then the others. -/
theorem fire_cons (hnodup : vp.ioq.Nodup) (q' : Sleepq Tid) :
    ((vp.takeOff me (fires me)).wake [me] q').fire fires ts q = vp.fire fires (me :: ts) q := by
  have hioq : ((vp.ioq.erase me).filter fun t => t ∉ ts) = vp.ioq.filter fun t => t ∉ me :: ts := by
    rw [hnodup.erase_eq_filter, List.filter_filter]
    congr 1
    funext t
    by_cases ht : t = me
    · simp [ht]
    · simp [ht]
  have hready : (fun t => if t ∈ ts then fires t else Function.update vp.ready me (fires me) t)
      = fun t => if t ∈ me :: ts then fires t else vp.ready t := by
    funext t
    by_cases hts : t ∈ ts
    · simp [hts]
    · by_cases ht : t = me
      · simp [ht]
      · simp [ht, hts]
  unfold Vp.fire
  rw [wake_wake, List.singleton_append]
  simp only [Vp.wake, Vp.takeOff, hioq, hready]

/-- The dispatch wakes up those who are ready, as they stand in the queue. -/
theorem dispatch_eq (fires : Tid → Nat) (l : List Tid) : ∀ (vp : Vp Tid), vp.ioq.Nodup →
    vp.sleepq.Holds {t | vp.onSleepq t = true} →
    ∃ q, Vp.dispatch fires l vp = some (vp.fire fires (l.filter fun t => fires t ≠ 0) q) ∧
      q.Holds {t | (vp.wake (l.filter fun t => fires t ≠ 0) q).onSleepq t = true} ∧
      q.due = vp.sleepq.due := by
  induction l with
  | nil =>
    intro vp _ heap
    exact ⟨vp.sleepq, by rw [List.filter_nil, fire_nil]; rfl,
      by rw [List.filter_nil, wake_nil]; exact heap, rfl⟩
  | cons me l ih =>
    intro vp hnodup heap
    rw [Vp.dispatch]
    by_cases hfires : fires me = 0
    · rw [if_pos hfires, List.filter_cons_of_neg (by simpa using hfires)]
      exact ih vp hnodup heap
    · -- the first comes off its queue and out of the heap before the rest is gone through
      rw [if_neg hfires, List.filter_cons_of_pos (by simpa using hfires)]
      obtain ⟨q₁, hwoken, hq₁, hdue₁⟩ := (vp.takeOff me (fires me)).wakeUp_eq me heap
      obtain ⟨q, hrest, hq, hdue⟩ := ih ((vp.takeOff me (fires me)).wake [me] q₁)
        (hnodup.erase me) hq₁
      refine ⟨q, ?_, ?_, hdue.trans hdue₁⟩
      · rw [hwoken]
        simp only [Option.bind_eq_bind, Option.bind_some]
        rw [hrest, fire_cons hnodup]
      · rw [wake_wake] at hq
        exact hq

/-- What the dispatch and the clock have done together, the one after the other. -/
theorem turned_eq {fired late : List Tid} (q₁ : Sleepq Tid) :
    { vp.fire fires fired q₁ with lastClock := now }.wake late q
      = vp.turned fires now fired late q := by
  have hstate : (fun t => if t ∈ late then ThreadState.runnable else if t ∈ fired then .runnable
      else vp.state t) = fun t => if t ∈ fired ++ late then .runnable else vp.state t := by
    funext t
    by_cases hl : t ∈ late
    · simp [hl]
    · simp [hl]
  have hon : (fun t => (vp.onSleepq t && decide (t ∉ fired)) && decide (t ∉ late))
      = fun t => vp.onSleepq t && decide (t ∉ fired ++ late) := by
    funext t
    simp [Bool.and_assoc]
  unfold Vp.turned Vp.fire
  simp only [Vp.wake, hstate, hon, List.append_assoc]

/-- Without a descriptor ready, a turn only wakes those that are due. -/
theorem turned_nil : vp.turned fires vp.lastClock [] ts q = vp.wake ts q := by
  have hioq : (vp.ioq.filter fun t => t ∉ ([] : List Tid)) = vp.ioq :=
    List.filter_eq_self.mpr fun t _ => by simp
  have hready : (fun t => if t ∈ ([] : List Tid) then fires t else vp.ready t) = vp.ready := by
    funext t
    simp
  unfold Vp.turned
  rw [hioq, hready]
  rfl

/-! ## Every step keeps the queues -/

/-- `fired` have been found ready and `late` have waited long enough: the queues are in
order afterwards, with all of these in line. -/
theorem Queued.turned (h : Queued vp) (fires : Tid → Nat) {fired late : List Tid}
    (hnodup : (fired ++ late).Nodup) (hwait : ∀ t ∈ fired ++ late,
      t ∈ vp.threadq ∧ vp.state t ≠ .running ∧ vp.state t ≠ .runnable)
    (hfired : ∀ t ∈ fired, vp.context t = .poll ∧ fires t ≠ 0)
    (hq : q.Holds {t | (vp.wake (fired ++ late) q).onSleepq t = true})
    (hdue : q.due = vp.sleepq.due) (hclock : vp.runq = [] ∨ now = vp.lastClock)
    (hlate : ∀ t ∈ late, vp.interrupt t = false →
      vp.context t = .usleep ∨ vp.context t = .poll ∧ t ∈ vp.ioq → vp.sleepq.due t ≤ now) :
    Queued (vp.turned fires now fired late q) := by
  -- the idle thread runs or is runnable, so it is not among those that waited
  have hidle : ∀ t ∈ fired ++ late, t ≠ vp.idleThread := by
    intro t ht heq
    rcases h.idleState with hrun | hrun
    · exact (hwait t ht).2.1 (heq ▸ hrun)
    · exact (hwait t ht).2.2 (heq ▸ hrun)
  have hstate : ∀ t, (vp.turned fires now fired late q).state t
      = if t ∈ fired ++ late then .runnable else vp.state t := fun _ => rfl
  have hon : ∀ t, (vp.turned fires now fired late q).onSleepq t = true ↔
      vp.onSleepq t = true ∧ t ∉ fired ++ late := by
    intro t
    show (vp.onSleepq t && decide (t ∉ fired ++ late)) = true ↔ _
    rw [Bool.and_eq_true, decide_eq_true_iff]
  have hioq : ∀ t, t ∈ (vp.turned fires now fired late q).ioq ↔ t ∈ vp.ioq ∧ t ∉ fired := by
    intro t
    show t ∈ vp.ioq.filter _ ↔ _
    rw [List.mem_filter, decide_eq_true_iff]
  have hout : ∀ t ∈ fired ++ late, t ∉ vp.runq :=
    fun t ht hin => (hwait t ht).2.2 ((h.runnable t).mp hin).2.2
  exact {
    heap := hq
    asleep := fun t ht => by
      obtain ⟨ht, hnot⟩ := (hon t).mp ht
      rw [hstate t, if_neg hnot]
      exact h.asleep t ht
    waits := fun t hth hrun hrunnable => by
      rw [hstate t] at hrun hrunnable ⊢
      split at hrun
      · rename_i hts
        exact absurd (if_pos hts) hrunnable
      · rename_i hnot
        rw [if_neg hnot] at hrunnable ⊢
        -- who is not woken waits where it waited
        rw [hioq t, hon t]
        refine (h.waits t hth hrun hrunnable).imp (fun hw => ?_) fun hw => hw.imp_left fun hw => ?_
        · exact ⟨hw.1, hw.2.1, hw.2.2, fun hin => hnot (List.mem_append_left _ hin)⟩
        · exact ⟨hw.1, hw.2.1, hw.2.2, hnot⟩
    runnable := fun t => by
      show t ∈ vp.runq ++ (fired ++ late) ↔ t ∈ vp.threadq ∧ t ≠ vp.idleThread ∧ _
      rw [hstate t, List.mem_append]
      by_cases hts : t ∈ fired ++ late
      · simp [hts, (hwait t hts).1, hidle t hts]
      · simp only [hts, or_false]
        exact h.runnable t
    runq := List.nodup_append.mpr
      ⟨h.runq, hnodup, fun t hin u hts heq => hout u hts (heq ▸ hin)⟩
    polling := fun t ht => by
      obtain ⟨hth, hctx, hst⟩ := h.polling t ((hioq t).mp ht).1
      refine ⟨hth, hctx, ?_⟩
      rw [hstate t]
      split
      · exact Or.inr rfl
      · exact hst
    ioq := h.ioq.filter _
    threadq := h.threadq
    active := h.active
    idle := h.idle
    idleState := by
      rw [hstate]
      split
      · exact Or.inr rfl
      · exact h.idleState
    onTime := fun t ht hint hctx => by
      have hctx : vp.context t = .usleep ∨ vp.context t = .poll ∧ t ∈ vp.ioq ∧ t ∉ fired := by
        rw [hioq t] at hctx
        exact hctx
      have hctx' := hctx.imp_right fun hpoll => And.intro hpoll.1 hpoll.2.1
      show q.due t ≤ now
      rw [hdue]
      rcases List.mem_append.mp ht with hold | hts
      · rcases hclock with hnil | hnow
        · rw [hnil] at hold
          cases hold
        · rw [hnow]
          exact h.onTime t hold hint hctx'
      · rcases List.mem_append.mp hts with hin | hin
        · -- who was found ready is not on the queue any more
          rcases hctx with hctx | hctx
          · exact absurd (hctx.symm.trans (hfired t hin).1) (by decide)
          · exact absurd hin hctx.2.2
        · exact hlate t hin hint hctx'
    found := fun t ht hctx hnot => by
      have hnot : ¬ (t ∈ vp.ioq ∧ t ∉ fired) := by
        rw [← hioq t]
        exact hnot
      show (if t ∈ fired then fires t else vp.ready t) ≠ 0
      by_cases hin : t ∈ fired
      · rw [if_pos hin]
        exact (hfired t hin).2
      · rw [if_neg hin]
        have hnot : t ∉ vp.ioq := fun hq => hnot ⟨hq, hin⟩
        rcases List.mem_append.mp ht with hold | hts
        · exact h.found t hold hctx hnot
        · -- who polls and waits is on the queue
          obtain ⟨hth, hrun, hrunnable⟩ := hwait t hts
          have hctx : vp.context t = .poll := hctx
          rcases h.waits t hth hrun hrunnable with hw | hw | hw
          · exact absurd hw.2.2 hnot
          · exact absurd (hctx.symm.trans hw.2.1) (by decide)
          · exact absurd (hctx.symm.trans hw.2) (by decide) }

omit [DecidableEq Tid] in
/-- The thread that runs is in no queue, neither the heap nor the line nor the I/O queue. -/
theorem Queued.elsewhere (h : Queued vp) (hrun : vp.state me = .running) :
    vp.onSleepq me = false ∧ me ∉ vp.runq ∧ me ∉ vp.ioq := by
  refine ⟨Bool.eq_false_iff.mpr fun hon => ?_, fun hin => ?_, fun hin => ?_⟩
  · rcases (h.asleep me hon).2 with hst | hst
    · rw [hrun] at hst
      cases hst
    · rw [hrun] at hst
      cases hst
  · have hst := ((h.runnable me).mp hin).2.2
    rw [hrun] at hst
    cases hst
  · rcases (h.polling me hin).2.2 with hst | hst
    · rw [hrun] at hst
      cases hst
    · rw [hrun] at hst
      cases hst

/-- A thread that has said what it waits for leaves the queues in order: it stands where it
waits. -/
theorem Queued.parked (h : Queued vp) (hrun : vp.state vp.thisThread = .running)
    (hthis : vp.thisThread ∈ vp.threadq) (hidle : vp.thisThread ≠ vp.idleThread)
    {state : ThreadState} {context : Context} {on : Bool}
    (hhow : state = .ioWait ∧ context = .poll ∨ state = .sleeping ∧ context = .usleep ∧ on = true ∨
      state = .suspended ∧ context = .usleep ∧ on = false)
    (hq : q.Holds {t | Function.update vp.onSleepq vp.thisThread on t = true})
    (hdue : ∀ t, t ≠ vp.thisThread → q.due t = vp.sleepq.due t) :
    Queued (vp.parked state context on q) := by
  obtain ⟨hoff, hnotrun, hnotio⟩ := h.elsewhere hrun
  have hself : (vp.parked state context on q).state vp.thisThread = state ∧
      (vp.parked state context on q).context vp.thisThread = context ∧
      (vp.parked state context on q).onSleepq vp.thisThread = on :=
    ⟨Function.update_self .., Function.update_self .., Function.update_self ..⟩
  have hother : ∀ t, t ≠ vp.thisThread → (vp.parked state context on q).state t = vp.state t ∧
      (vp.parked state context on q).context t = vp.context t ∧
      (vp.parked state context on q).onSleepq t = vp.onSleepq t :=
    fun t ht => ⟨Function.update_of_ne ht .., Function.update_of_ne ht ..,
      Function.update_of_ne ht ..⟩
  have hioq : ∀ t, t ≠ vp.thisThread → (t ∈ (vp.parked state context on q).ioq ↔ t ∈ vp.ioq) := by
    intro t ht
    show t ∈ (if context = .poll then vp.ioq ++ [vp.thisThread] else vp.ioq) ↔ _
    split
    · simp [ht]
    · rfl
  have hne : ∀ t ∈ vp.runq, t ≠ vp.thisThread := fun t ht heq => hnotrun (heq ▸ ht)
  -- a thread that parks waits, whichever of the three ways it took
  have hwaits : state ≠ .runnable := by
    intro heq
    rcases hhow with how | how | how
    · exact absurd (heq.symm.trans how.1) (by decide)
    · exact absurd (heq.symm.trans how.1) (by decide)
    · exact absurd (heq.symm.trans how.1) (by decide)
  exact {
    heap := hq
    asleep := fun t ht => by
      by_cases heq : t = vp.thisThread
      · subst heq
        rw [hself.2.2] at ht
        refine ⟨hthis, ?_⟩
        rw [hself.1]
        rcases hhow with how | how | how
        · exact Or.inl how.1
        · exact Or.inr how.1
        · exact absurd (ht.symm.trans how.2.2) (by decide)
      · obtain ⟨hst, -, hon⟩ := hother t heq
        rw [hon] at ht
        rw [hst]
        exact h.asleep t ht
    waits := fun t hth hrun' hrunnable => by
      by_cases heq : t = vp.thisThread
      · subst heq
        rw [hself.1, hself.2.1, hself.2.2]
        -- this is where each way of waiting shows which queue the thread is on
        rcases hhow with how | how | how
        · refine Or.inl ⟨how.1, how.2, ?_⟩
          show _ ∈ (if context = .poll then vp.ioq ++ [vp.thisThread] else vp.ioq)
          rw [if_pos how.2]
          exact List.mem_append_right _ (.head _)
        · exact Or.inr (Or.inl how)
        · exact Or.inr (Or.inr ⟨how.1, how.2.1⟩)
      · obtain ⟨hst, hctx, hon⟩ := hother t heq
        rw [hst] at hrun' hrunnable
        rw [hst, hctx, hon, hioq t heq]
        exact h.waits t hth hrun' hrunnable
    runnable := fun t => by
      show t ∈ vp.runq ↔ t ∈ vp.threadq ∧ t ≠ vp.idleThread ∧ _
      by_cases heq : t = vp.thisThread
      · subst heq
        rw [hself.1]
        exact ⟨fun hin => absurd hin hnotrun, fun hst => absurd hst.2.2 hwaits⟩
      · rw [(hother t heq).1]
        exact h.runnable t
    runq := h.runq
    polling := fun t ht => by
      by_cases heq : t = vp.thisThread
      · subst heq
        rw [hself.1, hself.2.1]
        refine ⟨hthis, ?_⟩
        rcases hhow with how | how | how
        · exact ⟨how.2, Or.inl how.1⟩
        · exact absurd (by simpa [Vp.parked, how.2.1] using ht) hnotio
        · exact absurd (by simpa [Vp.parked, how.2.1] using ht) hnotio
      · obtain ⟨hst, hctx, -⟩ := hother t heq
        rw [hst, hctx]
        exact h.polling t ((hioq t heq).mp ht)
    ioq := by
      show (if context = .poll then vp.ioq ++ [vp.thisThread] else vp.ioq).Nodup
      split
      · refine List.nodup_append.mpr ⟨h.ioq, List.nodup_singleton _, fun t ht u hu heq => ?_⟩
        rw [List.mem_singleton] at hu
        exact hnotio (hu ▸ heq ▸ ht)
      · exact h.ioq
    threadq := h.threadq
    active := h.active
    idle := ⟨h.idle.1, (hother _ hidle.symm).2.1.trans h.idle.2⟩
    idleState := by
      have hst : (vp.parked state context on q).state vp.idleThread = vp.state vp.idleThread :=
        (hother _ hidle.symm).1
      exact h.idleState.imp hst.trans hst.trans
    -- a thread that stands in the run queue is not the one that parks, so nothing changes for
    -- it
    onTime := fun t ht hint hctx => by
      rw [(hother t (hne t ht)).2.1, hioq t (hne t ht)] at hctx
      show q.due t ≤ vp.lastClock
      rw [hdue t (hne t ht)]
      exact h.onTime t ht hint hctx
    found := fun t ht hctx hnot => by
      rw [(hother t (hne t ht)).2.1] at hctx
      rw [hioq t (hne t ht)] at hnot
      exact h.found t ht hctx hnot }

/-- A new thread leaves the queues in order: it stands at the end of the line. -/
theorem Queued.create (h : Queued vp) (hfresh : t ∉ vp.threadq) : Queued (vp.create t) := by
  -- a new name is on none of the queues
  have hoff : vp.onSleepq t = false :=
    Bool.eq_false_iff.mpr fun hon => hfresh (h.asleep t hon).1
  have hon : (vp.create t).onSleepq = vp.onSleepq := Function.update_eq_self_iff.mpr hoff.symm
  have hne : ∀ u ∈ vp.threadq, u ≠ t := fun u hu heq => hfresh (heq ▸ hu)
  have hother : ∀ u, u ≠ t → (vp.create t).state u = vp.state u ∧
      (vp.create t).context u = vp.context u ∧ (vp.create t).interrupt u = vp.interrupt u :=
    fun u hu => ⟨Function.update_of_ne hu .., Function.update_of_ne hu ..,
      Function.update_of_ne hu ..⟩
  have hself : (vp.create t).state t = .runnable ∧ (vp.create t).context t = .main :=
    ⟨Function.update_self .., Function.update_self ..⟩
  have hthreads : ∀ u, u ∈ (vp.create t).threadq ↔ u ∈ vp.threadq ∨ u = t := by
    intro u
    show u ∈ vp.threadq ++ [t] ↔ _
    rw [List.mem_append, List.mem_singleton]
  have hidle : vp.idleThread ≠ t := hne _ h.idle.1
  exact {
    heap := by
      rw [hon]
      exact h.heap
    asleep := fun u hu => by
      rw [hon] at hu
      obtain ⟨hth, hst⟩ := h.asleep u hu
      rw [hthreads, (hother u (hne u hth)).1]
      exact ⟨Or.inl hth, hst⟩
    waits := fun u hu hrun hrunnable => by
      rcases (hthreads u).mp hu with hu | rfl
      · obtain ⟨hst, hctx, -⟩ := hother u (hne u hu)
        rw [hst] at hrun hrunnable
        rw [hst, hctx, hon]
        exact h.waits u hu hrun hrunnable
      · exact absurd hself.1 hrunnable
    runnable := fun u => by
      show u ∈ vp.runq ++ [t] ↔ _ ∧ u ≠ vp.idleThread ∧ _
      rw [List.mem_append, List.mem_singleton, hthreads, h.runnable u]
      by_cases hu : u = t
      · subst hu
        simp [hself.1, hidle.symm]
      · rw [(hother u hu).1]
        simp [hu]
    runq := List.nodup_append.mpr ⟨h.runq, List.nodup_singleton _, fun u hu x hx heq => by
      rw [List.mem_singleton] at hx
      exact hne u ((h.runnable u).mp hu).1 (heq.trans hx)⟩
    polling := fun u hu => by
      obtain ⟨hth, hctx, hst⟩ := h.polling u hu
      obtain ⟨hst', hctx', -⟩ := hother u (hne u hth)
      rw [hthreads, hst', hctx']
      exact ⟨Or.inl hth, hctx, hst⟩
    ioq := h.ioq
    threadq := List.nodup_append.mpr ⟨h.threadq, List.nodup_singleton _, fun u hu x hx heq => by
      rw [List.mem_singleton] at hx
      exact hne u hu (heq.trans hx)⟩
    active := by
      show vp.activeCount + 1 + 1 = (vp.threadq ++ [t]).length
      rw [List.length_append, ← h.active]
      rfl
    idle := ⟨(hthreads _).mpr (Or.inl h.idle.1), (hother _ hidle).2.1.trans h.idle.2⟩
    idleState := h.idleState.imp (hother _ hidle).1.trans (hother _ hidle).1.trans
    onTime := fun u hu hint hctx => by
      rcases List.mem_append.mp hu with hu | hu
      · obtain ⟨-, hctx', hint'⟩ := hother u (hne u ((h.runnable u).mp hu).1)
        rw [hctx'] at hctx
        exact h.onTime u hu (hint'.symm.trans hint) hctx
      · -- it has not called anything yet, so it is owed no time and no descriptors
        rw [List.mem_singleton.mp hu, hself.2] at hctx
        rcases hctx with hctx | hctx
        · cases hctx
        · cases hctx.1
    found := fun u hu hctx hnot => by
      rcases List.mem_append.mp hu with hu | hu
      · rw [(hother u (hne u ((h.runnable u).mp hu).1)).2.1] at hctx
        exact h.found u hu hctx hnot
      · rw [List.mem_singleton.mp hu, hself.2] at hctx
        cases hctx }

/-- A thread that exits leaves them in order: it is in none of them, nor among the threads
any more. -/
theorem Queued.exited (h : Queued vp) (hrun : vp.state vp.thisThread = .running)
    (hthis : vp.thisThread ∈ vp.threadq) (hidle : vp.thisThread ≠ vp.idleThread) :
    Queued { vp with
      activeCount := vp.activeCount - 1
      threadq := vp.threadq.erase vp.thisThread } := by
  obtain ⟨hoff, hnotrun, hnotio⟩ := h.elsewhere hrun
  have hleft : ∀ t, t ∈ vp.threadq.erase vp.thisThread ↔ t ≠ vp.thisThread ∧ t ∈ vp.threadq :=
    fun t => h.threadq.mem_erase_iff
  exact { h with
    asleep := fun t ht => by
      obtain ⟨hth, hst⟩ := h.asleep t ht
      refine ⟨(hleft t).mpr ⟨fun heq => ?_, hth⟩, hst⟩
      exact Bool.false_ne_true (hoff.symm.trans (heq ▸ ht))
    waits := fun t ht => h.waits t ((hleft t).mp ht).2
    runnable := fun t => by
      show t ∈ vp.runq ↔ t ∈ vp.threadq.erase vp.thisThread ∧ _
      rw [hleft t, h.runnable t]
      refine ⟨fun hin => ⟨⟨fun heq => ?_, hin.1⟩, hin.2⟩, fun hin => ⟨hin.1.2, hin.2⟩⟩
      exact absurd (hrun.symm.trans (heq ▸ hin.2.2)) (by decide)
    polling := fun t ht => by
      obtain ⟨hth, hctx⟩ := h.polling t ht
      exact ⟨(hleft t).mpr ⟨fun heq => hnotio (heq ▸ ht), hth⟩, hctx⟩
    threadq := h.threadq.erase _
    -- the idle thread is never the one that exits, so the count stays positive
    active := by
      have hlen := List.length_erase_of_mem hthis
      have hpos := List.length_pos_of_mem (List.mem_of_mem_erase
        ((hleft _).mpr ⟨hidle.symm, h.idle.1⟩))
      have hin := List.length_pos_of_mem ((hleft _).mpr ⟨hidle.symm, h.idle.1⟩)
      have hactive := h.active
      show vp.activeCount - 1 + 1 = (vp.threadq.erase vp.thisThread).length
      omega
    idle := ⟨(hleft _).mpr ⟨hidle.symm, h.idle.1⟩, h.idle.2⟩ }

/-- The end of a wait changes what it returns and clears the interrupt, and nothing else. -/
theorem waited_eq (vp : Vp Tid) (me : Tid) (n : Int) : ∃ interrupt rv, vp.waited me n = { vp with
      interrupt := interrupt
      rv := rv } ∧ ∀ t, t ≠ me → interrupt t = vp.interrupt t := by
  unfold Vp.waited
  split
  · exact ⟨_, _, rfl, fun t ht => Function.update_of_ne ht ..⟩
  · exact ⟨_, _, rfl, fun t _ => rfl⟩

/-- The thread that comes next has its wait behind it: it is off the I/O queue, and the rest
is as it was. -/
theorem restore_eq (vp : Vp Tid) (me : Tid)
    (h : ∀ t ∈ vp.ioq, vp.context t = .poll) (hioq : vp.ioq.Nodup) :
    ∃ ioq interrupt rv, vp.restore me = { vp with
        ioq := ioq
        interrupt := interrupt
        rv := rv } ∧
      ioq.Nodup ∧ (∀ t, t ∈ ioq ↔ t ∈ vp.ioq ∧ t ≠ me) ∧
      ∀ t, t ≠ me → interrupt t = vp.interrupt t := by
  have hout : me ∉ vp.ioq → ∀ t, t ∈ vp.ioq ↔ t ∈ vp.ioq ∧ t ≠ me :=
    fun hme t => ⟨fun ht => ⟨ht, fun heq => hme (heq ▸ ht)⟩, And.left⟩
  have hnot : vp.context me ≠ .poll → me ∉ vp.ioq := fun hctx hme => hctx (h me hme)
  unfold Vp.restore
  cases hctx : vp.context me with
  -- a thread that starts, like the idle thread, comes back from no wait
  | main => exact ⟨_, _, _, rfl, hioq, hout (hnot (by rw [hctx]; decide)), fun _ _ => rfl⟩
  | idle => exact ⟨_, _, _, rfl, hioq, hout (hnot (by rw [hctx]; decide)), fun _ _ => rfl⟩
  | usleep =>
    obtain ⟨interrupt, rv, heq, hint⟩ := waited_eq vp me 0
    exact ⟨_, interrupt, rv, heq, hioq, hout (hnot (by rw [hctx]; decide)), hint⟩
  | poll =>
    by_cases hme : me ∈ vp.ioq
    · -- still on the queue: the wait ended by the timeout or by an interrupt, with 0
      obtain ⟨interrupt, rv, heq, hint⟩ := waited_eq { vp with ioq := vp.ioq.erase me } me 0
      simp only [if_pos hme]
      exact ⟨_, interrupt, rv, heq, hioq.erase me, fun t => hioq.mem_erase_iff.trans And.comm, hint⟩
    · -- taken off by the dispatch, with the count of ready descriptors
      obtain ⟨interrupt, rv, heq, hint⟩ := waited_eq vp me (vp.ready me)
      simp only [if_neg hme]
      exact ⟨_, interrupt, rv, heq, hioq, hout hme, hint⟩

/-- A wait that returns 0 was not interrupted, and if it was for I/O none came. -/
theorem restore_rv (hrv : (vp.restore me).rv me = 0)
    (hctx : vp.context me = .usleep ∨ vp.context me = .poll) : vp.interrupt me = false ∧
      (vp.context me = .usleep ∨ vp.context me = .poll ∧ (me ∈ vp.ioq ∨ vp.ready me = 0)) := by
  have hwaited : ∀ (vp : Vp Tid) (n : Int), (vp.waited me n).rv me = 0 →
      vp.interrupt me = false ∧ n = 0 := by
    intro vp n h
    unfold Vp.waited at h
    split at h
    · have herror : (-1 : Int) = 0 := (Function.update_self me (-1) vp.rv).symm.trans h
      cases herror
    · exact ⟨Bool.eq_false_iff.mpr (by assumption), (Function.update_self me n vp.rv).symm.trans h⟩
  rcases hctx with hctx | hctx
  · rw [Vp.restore, hctx] at hrv
    exact ⟨(hwaited _ _ hrv).1, Or.inl hctx⟩
  · rw [Vp.restore, hctx] at hrv
    by_cases hme : me ∈ vp.ioq
    · simp only [if_pos hme] at hrv
      exact ⟨(hwaited _ _ hrv).1, Or.inr ⟨hctx, Or.inl hme⟩⟩
    · simp only [if_neg hme] at hrv
      obtain ⟨hint, hready⟩ := hwaited _ _ hrv
      exact ⟨hint, Or.inr ⟨hctx, Or.inr (Int.ofNat_eq_zero.mp hready)⟩⟩

/-- `st_poll` returns -1 exactly if the thread was interrupted, and otherwise how many
descriptors came ready: 0 for a thread that is still on the I/O queue. -/
theorem restore_counted (vp : Vp Tid) (me : Tid) (hctx : vp.context me = .poll) :
    (vp.restore me).rv me
      = if vp.interrupt me = true then -1 else if me ∈ vp.ioq then 0 else (vp.ready me : Int) := by
  have hwaited : ∀ (vp : Vp Tid) (n : Int),
      (vp.waited me n).rv me = if vp.interrupt me = true then -1 else n := by
    intro vp n
    unfold Vp.waited
    split
    · exact Function.update_self ..
    · exact Function.update_self ..
  rw [Vp.restore, hctx]
  by_cases hme : me ∈ vp.ioq
  · simp only [if_pos hme]
    exact hwaited _ _
  · simp only [if_neg hme]
    exact hwaited _ _

/-- Between two threads that run: the queues are in order, and nobody runs. -/
structure Switching (vp : Vp Tid) : Prop where
  queued : Queued vp
  nobody : ∀ t ∈ vp.threadq, vp.state t ≠ .running

/-- Who comes next: the head of the run queue, or else the idle thread. A wait of
his that returns 0 has had its time. -/
structure Vp.HandsOver (vp vp' : Vp Tid) : Prop where
  next : vp'.thisThread :: vp'.runq = vp.runq ∨
    vp.runq = [] ∧ vp'.runq = [] ∧ vp'.thisThread = vp'.idleThread
  idleThread : vp'.idleThread = vp.idleThread
  threadq : vp'.threadq = vp.threadq
  context : vp'.context = vp.context
  onSleepq : vp'.onSleepq = vp.onSleepq
  sleepq : vp'.sleepq = vp.sleepq
  lastClock : vp'.lastClock = vp.lastClock
  notEarly : vp'.context vp'.thisThread = .usleep ∨ vp'.context vp'.thisThread = .poll →
    vp'.rv vp'.thisThread = 0 → vp'.sleepq.due vp'.thisThread ≤ vp'.lastClock
  ioq : ∀ t, t ∈ vp'.ioq ↔ t ∈ vp.ioq ∧ t ≠ vp'.thisThread
  ready : vp'.ready = vp.ready
  interrupt : ∀ t, t ≠ vp'.thisThread → vp'.interrupt t = vp.interrupt t
  counted : vp'.context vp'.thisThread = .poll → vp'.rv vp'.thisThread
    = if vp.interrupt vp'.thisThread = true then -1
      else if vp'.thisThread ∈ vp.ioq then 0 else (vp.ready vp'.thisThread : Int)

/-- The thread that is chosen runs, and with it the system is sound: it was runnable, and
the line is the rest of it. -/
theorem Switching.resume (h : Switching vp) (rest : List Tid) (hst : vp.state me = .runnable)
    (hme : me ∈ vp.threadq) (hrest : ∀ t, t ∈ rest ↔ t ∈ vp.runq ∧ t ≠ me) (hnodup : rest.Nodup)
    (hidle : me = vp.idleThread → rest = []) :
    ∃ vp', { vp with runq := rest }.resume me = some vp' ∧ Sound vp' ∧
      (vp'.thisThread :: vp'.runq = vp.runq ∨ vp.runq = [] ∧ vp'.runq = [] ∧
        vp'.thisThread = vp'.idleThread →
        vp.HandsOver vp') ∧ vp'.thisThread = me ∧
      vp'.runq = rest ∧ vp'.idleThread = vp.idleThread := by
  have hq := h.queued
  obtain ⟨ioq, interrupt, rv, hrestore, hioq, hmem, hint⟩ := restore_eq
    { { vp with runq := rest }.setState me .running with thisThread := me } me
    (fun t ht => (hq.polling t ht).2.1) hq.ioq
  have hrun : Function.update vp.state me .running me = .running := Function.update_self ..
  have hother : ∀ t, t ≠ me → Function.update vp.state me .running t = vp.state t :=
    fun t ht => Function.update_of_ne ht ..
  refine ⟨{ vp with
      thisThread := me
      runq := rest
      state := Function.update vp.state me .running
      ioq := ioq
      interrupt := interrupt
      rv := rv }, ?_, ⟨?_, hme, fun t ht => ?_, hidle⟩,
      fun hnext => ⟨hnext, rfl, rfl, rfl, rfl, rfl, rfl, fun hctx hrv => ?_, hmem, rfl, hint,
        fun hctx => ?_⟩, rfl, rfl, rfl⟩
  · exact (if_pos hst).trans (congrArg some hrestore)
  · -- only `me` changes its state, from runnable to running
    exact { hq with
      asleep := fun t ht => by
        obtain ⟨hth, hwait⟩ := hq.asleep t ht
        refine ⟨hth, ?_⟩
        show Function.update vp.state me .running t = _ ∨ Function.update vp.state me .running t = _
        rw [hother t fun heq => ?_]
        · exact hwait
        · rw [heq, hst] at hwait
          exact hwait.elim (by decide) (by decide)
      waits := fun t hth hrun' hrunnable => by
        have hne : t ≠ me := fun heq => hrun' (heq ▸ hrun)
        show Function.update vp.state me .running t = _ ∧ _ ∧ t ∈ ioq ∨
          Function.update vp.state me .running t = _ ∧ _ ∨
            Function.update vp.state me .running t = _ ∧ _
        rw [hmem t, hother t hne]
        refine (hq.waits t hth ?_ ?_).imp_left fun hw => ⟨hw.1, hw.2.1, hw.2.2, hne⟩
        · exact (hother t hne) ▸ hrun'
        · exact (hother t hne) ▸ hrunnable
      runnable := fun t => by
        show t ∈ rest ↔ t ∈ vp.threadq ∧ t ≠ vp.idleThread ∧
          Function.update vp.state me .running t = .runnable
        rw [hrest t, hq.runnable t]
        by_cases heq : t = me
        · subst heq
          simp
        · rw [hother t heq]
          simp [heq]
      runq := hnodup
      polling := fun t ht => by
        obtain ⟨ht, hne⟩ := (hmem t).mp ht
        obtain ⟨hth, hctx, hwait⟩ := hq.polling t ht
        refine ⟨hth, hctx, ?_⟩
        show Function.update vp.state me .running t = _ ∨ Function.update vp.state me .running t = _
        rw [hother t hne]
        exact hwait
      ioq := hioq
      idleState := by
        show Function.update vp.state me .running vp.idleThread = _ ∨
          Function.update vp.state me .running vp.idleThread = _
        by_cases heq : vp.idleThread = me
        · exact Or.inl (heq ▸ hrun)
        · rw [hother _ heq]
          exact hq.idleState
      onTime := fun t ht hnot hctx => by
        obtain ⟨hin, hne⟩ := (hrest t).mp ht
        rw [hmem t] at hctx
        exact hq.onTime t hin ((hint t hne).symm.trans hnot) (hctx.imp_right fun hp =>
          ⟨hp.1, hp.2.1⟩)
      found := fun t ht hctx hnot => by
        obtain ⟨hin, hne⟩ := (hrest t).mp ht
        exact hq.found t hin hctx fun hq' => hnot ((hmem t).mpr ⟨hq', hne⟩) }
  · show Function.update vp.state me .running t = .running ↔ t = me
    by_cases heq : t = me
    · exact ⟨fun _ => heq, fun _ => heq ▸ hrun⟩
    · rw [hother t heq]
      exact ⟨fun hr => absurd hr (h.nobody t ht), fun ht' => absurd ht' heq⟩
  · -- what was on the run queue has had its time, unless it was interrupted or found ready
    have hrv' := (congrFun (congrArg Vp.rv hrestore) me).trans hrv
    have hwaited := restore_rv hrv' hctx
    obtain ⟨hint', hwait⟩ : vp.interrupt me = false ∧ (vp.context me = .usleep ∨
      vp.context me = .poll ∧ (me ∈ vp.ioq ∨ vp.ready me = 0)) := hwaited
    have hin : me ∈ vp.runq := (hq.runnable me).mpr ⟨hme, fun heq => ?_, hst⟩
    · refine hq.onTime me hin hint' (hwait.imp_right fun hw => ⟨hw.1, ?_⟩)
      by_contra hnot
      exact hw.2.elim hnot (hq.found me hin hw.1 hnot)
    · have hidlectx : vp.context me = .idle := heq ▸ hq.idle.2
      have hctx : vp.context me = .usleep ∨ vp.context me = .poll := hctx
      rw [hidlectx] at hctx
      exact hctx.elim (fun hc => by cases hc) (fun hc => by cases hc)
  · have hcounted := restore_counted
      { { vp with runq := rest }.setState me .running with thisThread := me } me hctx
    rw [hrestore] at hcounted
    exact hcounted

/-- Between two threads somebody comes next, and the system is sound: the head of the line
or, when it is empty, the idle thread. -/
theorem Switching.schedule (h : Switching vp) :
    ∃ vp', vp.schedule = some vp' ∧ Sound vp' ∧ vp.HandsOver vp' := by
  have hq := h.queued
  unfold Vp.schedule
  cases hrunq : vp.runq with
  | cons me rest =>
    -- somebody is runnable: the first of the run queue goes on
    have hnodup := hrunq ▸ hq.runq
    obtain ⟨hth, hne, hst⟩ := (hq.runnable me).mp (hrunq ▸ .head _)
    have hrest : ∀ t, t ∈ rest ↔ t ∈ vp.runq ∧ t ≠ me := by
      intro t
      rw [hrunq, List.mem_cons]
      refine ⟨fun ht => ⟨Or.inr ht, fun heq => (List.nodup_cons.mp hnodup).1 (heq ▸ ht)⟩,
        fun ht => ?_⟩
      exact ht.1.resolve_left ht.2
    obtain ⟨vp', hrun, hsound, hover, hthis, hleft, -⟩ :=
      h.resume rest hst hth hrest (List.nodup_cons.mp hnodup).2 (fun heq => absurd heq hne)
    exact ⟨vp', hrun, hsound, hover (Or.inl (by rw [hthis, hleft, hrunq]))⟩
  | nil =>
    -- nobody is, so that the idle thread does
    have hst : vp.state vp.idleThread = .runnable :=
      hq.idleState.resolve_left (h.nobody _ hq.idle.1)
    obtain ⟨vp', hrun, hsound, hover, hthis, hleft, hidle⟩ := h.resume [] hst hq.idle.1
      (fun t => by rw [hrunq]; simp) List.nodup_nil (fun _ => rfl)
    rw [← hrunq] at hrun
    exact ⟨vp', hrun, hsound, hover (Or.inr ⟨hrunq, hleft, hthis.trans hidle.symm⟩)⟩

/-! ## What a step does -/

omit [DecidableEq Tid] in
/-- The thread that runs is in the state of one that runs. -/
theorem Sound.runs (h : Sound vp) : vp.state vp.thisThread = .running :=
  (h.running _ h.this).mpr rfl

/-- A thread that has said what it waits for hands over, with the queues in order and nobody
running. -/
theorem Sound.parked (h : Sound vp) (hidle : vp.thisThread ≠ vp.idleThread) {state : ThreadState}
    {context : Context} {on : Bool}
    (hhow : state = .ioWait ∧ context = .poll ∨ state = .sleeping ∧ context = .usleep ∧ on = true ∨
      state = .suspended ∧ context = .usleep ∧ on = false)
    (hq : q.Holds {t | Function.update vp.onSleepq vp.thisThread on t = true})
    (hdue : ∀ t, t ≠ vp.thisThread → q.due t = vp.sleepq.due t) :
    Switching (vp.parked state context on q) where
  queued := h.queued.parked h.runs h.this hidle hhow hq hdue
  nobody t ht := by
    by_cases heq : t = vp.thisThread
    · rw [heq, show (vp.parked state context on q).state vp.thisThread = state from
        Function.update_self ..]
      rcases hhow with how | how | how
      · rw [how.1]
        decide
      · rw [how.1]
        decide
      · rw [how.1]
        decide
    · rw [show (vp.parked state context on q).state t = vp.state t
          from Function.update_of_ne heq ..]
      exact fun hr => heq ((h.running t ht).mp hr)

/-- From one step to the next: who is woken up goes to the end of the line, and
the thread that runs goes on or the first of the line comes. -/
structure Vp.Goes (vp vp' : Vp Tid) (woken : List Tid) : Prop where
  line : vp'.thisThread = vp.thisThread ∧ vp'.runq = vp.runq ++ woken ∨
    vp'.thisThread :: vp'.runq = vp.runq ++ woken ∨
    vp.runq ++ woken = [] ∧ vp'.runq = [] ∧ vp'.thisThread = vp'.idleThread
  idleThread : vp'.idleThread = vp.idleThread
  others : ∀ t ∈ vp.threadq, t ≠ vp.thisThread → t ∈ vp'.threadq ∧
    vp'.context t = vp.context t ∧ vp'.sleepq.due t = vp.sleepq.due t
  notEarly : vp'.thisThread ≠ vp.thisThread →
    vp'.context vp'.thisThread = .usleep ∨ vp'.context vp'.thisThread = .poll →
    vp'.rv vp'.thisThread = 0 → vp'.sleepq.due vp'.thisThread ≤ vp'.lastClock

/-- Who polls and what came of it, from one step to the next; `queue` is the I/O
queue at the switch, `counts` what has come ready by then, and `marks` says who
has been interrupted. -/
structure Vp.Polls (vp vp' : Vp Tid) (queue : List Tid) (counts : Tid → Nat)
    (marks : Tid → Bool) : Prop where
  ioq : ∀ t, t ∈ vp'.ioq ↔ t ∈ queue ∧ t ≠ vp'.thisThread
  ready : vp'.ready = counts
  interrupt : ∀ t ∈ vp.threadq, t ≠ vp'.thisThread → vp'.interrupt t = marks t
  parked : vp'.thisThread ≠ vp.thisThread → vp.thisThread ∈ vp'.threadq →
    vp'.context vp.thisThread = .poll → vp.thisThread ∈ queue
  created : ∀ t ∈ vp'.threadq, t ∉ vp.threadq → vp'.context t = .main
  counted : vp'.thisThread ≠ vp.thisThread → vp'.context vp'.thisThread = .poll →
    vp'.rv vp'.thisThread = if marks vp'.thisThread = true then -1
      else if vp'.thisThread ∈ queue then 0 else (counts vp'.thisThread : Int)

/-- What has come of the polls at a switch, seen from the step that the switch is in. -/
theorem Vp.HandsOver.polls {vp₁ vp' : Vp Tid} (h : vp₁.HandsOver vp')
    (hthreads : ∀ t ∈ vp₁.threadq, t ∈ vp.threadq) (hparked : vp.thisThread ∈ vp₁.threadq →
      vp₁.context vp.thisThread = .poll → vp.thisThread ∈ vp₁.ioq) :
    vp.Polls vp' vp₁.ioq vp₁.ready vp₁.interrupt where
  ioq := h.ioq
  ready := h.ready
  interrupt t _ := h.interrupt t
  parked _ hth hctx := by
    rw [h.threadq] at hth
    rw [h.context] at hctx
    exact hparked hth hctx
  created t ht hnot := by
    rw [h.threadq] at ht
    exact absurd (hthreads t ht) hnot
  counted _ := h.counted

/-- A thread that goes on leaves the I/O queue and the counts alone. -/
theorem Sound.polls {vp' : Vp Tid} {marks : Tid → Bool} (h : Sound vp)
    (hthis : vp'.thisThread = vp.thisThread) (hioq : vp'.ioq = vp.ioq)
    (hready : vp'.ready = vp.ready)
    (hmarks : ∀ t ∈ vp.threadq, t ≠ vp.thisThread → vp'.interrupt t = marks t)
    (hcreated : ∀ t ∈ vp'.threadq, t ∉ vp.threadq → vp'.context t = .main) :
    vp.Polls vp' vp.ioq vp.ready marks where
  ioq t := by
    have hnot := (h.queued.elsewhere ((h.running _ h.this).mpr rfl)).2.2
    rw [hioq, hthis]
    exact ⟨fun ht => ⟨ht, fun heq => hnot (heq ▸ ht)⟩, And.left⟩
  ready := hready
  interrupt t ht hne := hmarks t ht (hthis ▸ hne)
  parked hne := absurd hthis hne
  created := hcreated
  counted hne := absurd hthis hne

/-- To hand over is to go on with the line, behind whoever has been woken up before. -/
theorem Vp.HandsOver.goes {vp₁ vp' : Vp Tid} {woken : List Tid} (h : vp₁.HandsOver vp')
    (hrunq : vp₁.runq = vp.runq ++ woken) (hidle : vp₁.idleThread = vp.idleThread)
    (hothers : ∀ t ∈ vp.threadq, t ≠ vp.thisThread →
      t ∈ vp₁.threadq ∧ vp₁.context t = vp.context t ∧ vp₁.sleepq.due t = vp.sleepq.due t) :
    vp.Goes vp' woken where
  line := Or.inr (hrunq ▸ h.next)
  idleThread := h.idleThread.trans hidle
  others := by
    rw [h.threadq, h.context, h.sleepq]
    exact hothers
  notEarly := fun _ => h.notEarly

/-- An interrupted thread does not wait: its call returns at once, and it goes on running. -/
theorem Sound.waited (h : Sound vp) (n : Int) :
    Sound (vp.waited vp.thisThread n) ∧ vp.Goes (vp.waited vp.thisThread n) [] ∧
      vp.Polls (vp.waited vp.thisThread n) vp.ioq vp.ready vp.interrupt := by
  have hq := h.queued
  obtain ⟨interrupt, rv, heq, hint⟩ := waited_eq vp vp.thisThread n
  have hnotrun := (hq.elsewhere h.runs).2.1
  rw [heq]
  refine ⟨⟨{ hq with
    onTime := fun t ht hnot => ?_ }, h.this, h.running, h.idleRuns⟩,
    ⟨Or.inl ⟨rfl, (List.append_nil _).symm⟩, rfl, fun _ ht _ => ⟨ht, rfl, rfl⟩,
    fun hne => absurd rfl hne⟩,
    h.polls rfl rfl rfl (fun t _ => hint t) fun t ht hnot => absurd ht hnot⟩
  have hne : t ≠ vp.thisThread := fun heq => hnotrun (heq ▸ ht)
  exact hq.onTime t ht ((hint t hne).symm.trans hnot)

/-- A wait without a timeout leaves the heap alone, because the thread that runs is not on
it. -/
theorem Sound.update_onSleepq (h : Sound vp) :
    Function.update vp.onSleepq vp.thisThread false = vp.onSleepq :=
  Function.update_eq_self_iff.mpr (h.queued.elsewhere h.runs).1.symm

/-- `me` is in a wait that has time until `due`, and does not run. -/
structure Vp.Awaits (vp : Vp Tid) (me : Tid) (due : Nat) : Prop where
  this : vp.thisThread ≠ me
  threadq : me ∈ vp.threadq
  context : vp.context me = .usleep ∨ vp.context me = .poll
  due : vp.sleepq.due me = due

/-- A thread that waits hands over: somebody runs, the system is sound, and the wait has the
time that it was given. -/
theorem Sound.parks (h : Sound vp) (hidle : vp.thisThread ≠ vp.idleThread) (on : Bool)
    {state : ThreadState} {context : Context}
    (hhow : state = .ioWait ∧ context = .poll ∨ state = .sleeping ∧ context = .usleep ∧ on = true ∨
      state = .suspended ∧ context = .usleep ∧ on = false)
    (hq : q.Holds {t | Function.update vp.onSleepq vp.thisThread on t = true})
    (hdue : ∀ t, t ≠ vp.thisThread → q.due t = vp.sleepq.due t) :
    ∃ vp', (vp.parked state context on q).schedule = some vp' ∧ Sound vp' ∧ vp.Goes vp' [] ∧
      vp.Polls vp' (if context = .poll then vp.ioq ++ [vp.thisThread] else vp.ioq) vp.ready
        vp.interrupt ∧
      vp'.Awaits vp.thisThread (q.due vp.thisThread) := by
  obtain ⟨vp', hrun, hsound, hover⟩ := (h.parked hidle hhow hq hdue).schedule
  refine ⟨vp', hrun, hsound, hover.goes (List.append_nil _).symm rfl fun t ht hne =>
    ⟨ht, Function.update_of_ne hne .., hdue t hne⟩,
    hover.polls (fun _ ht => ht) fun _ hctx => ?_, ?_, ?_, ?_, ?_⟩
  · -- a thread that polls put its entry on the I/O queue before it parked
    have hself : Function.update vp.context vp.thisThread context vp.thisThread = .poll := hctx
    rw [Function.update_self] at hself
    show vp.thisThread ∈ (if context = .poll then vp.ioq ++ [vp.thisThread] else vp.ioq)
    rw [if_pos hself]
    exact List.mem_append_right _ (.head _)
  · -- whoever goes on is not this thread, which is neither runnable nor the idle thread
    have hnotin := (h.queued.elsewhere h.runs).2.1
    rcases hover.next with hnext | ⟨-, -, hnext⟩
    · have hin : vp'.thisThread ∈ vp.runq :=
        (show vp'.thisThread :: vp'.runq = vp.runq from hnext) ▸ List.mem_cons_self
      exact fun heq => hnotin (heq ▸ hin)
    · rw [hnext, hover.idleThread]
      exact hidle.symm
  · rw [hover.threadq]
    exact h.this
  · rw [hover.context, show (vp.parked state context on q).context vp.thisThread = context from
      Function.update_self ..]
    rcases hhow with how | how | how
    · exact Or.inr how.2
    · exact Or.inl how.2.1
    · exact Or.inl how.2.1
  · rw [hover.sleepq]
    rfl

/-- `st_usleep` from a sound state: it is defined, it leads to a sound state, and the thread
sleeps until its time. -/
theorem Sound.usleep (h : Sound vp) (hidle : vp.thisThread ≠ vp.idleThread) (usecs : Nat) :
    ∃ vp', vp.usleep usecs = some vp' ∧ Sound vp' ∧ vp.Goes vp' [] ∧
      vp.Polls vp' vp.ioq vp.ready vp.interrupt ∧
      (vp.interrupt vp.thisThread = false → usecs ≠ noTimeout →
        vp'.Awaits vp.thisThread ((vp.lastClock + usecs) % 2 ^ 64)) := by
  unfold Vp.usleep
  -- an interrupt that came before is taken at once, and nobody else runs
  by_cases hint : vp.interrupt vp.thisThread = true
  · rw [if_pos hint]
    obtain ⟨hsound, hgoes, hpolls⟩ := h.waited 0
    exact ⟨_, rfl, hsound, hgoes, hpolls, fun hnot => absurd (hint.symm.trans hnot) (by decide)⟩
  · rw [if_neg hint]
    by_cases htime : usecs ≠ noTimeout
    · obtain ⟨q, hrun, hq, hdue⟩ := (vp.setState vp.thisThread .sleeping).addSleepQ_eq
        h.queued.heap (h.queued.elsewhere h.runs).1 usecs
      obtain ⟨vp', hnext, hsound, hgoes, hpolls, hawaits⟩ :=
        h.parks hidle true (Or.inr (Or.inl ⟨rfl, rfl, rfl⟩)) hq
          (fun t ht => by rw [hdue, Function.update_of_ne ht]; rfl)
      rw [hdue, Function.update_self] at hawaits
      rw [if_pos htime, hrun]
      exact ⟨vp', hnext, hsound, hgoes, hpolls, fun _ _ => hawaits⟩
    · -- for ever: the thread is on no queue, and only an interrupt ends its wait
      obtain ⟨vp', hnext, hsound, hgoes, hpolls, -⟩ := h.parks hidle false (q := vp.sleepq)
        (Or.inr (Or.inr ⟨rfl, rfl, rfl⟩)) (by rw [h.update_onSleepq]; exact h.queued.heap)
        fun _ _ => rfl
      unfold Vp.parked at hnext
      rw [h.update_onSleepq] at hnext
      rw [if_neg htime]
      exact ⟨vp', hnext, hsound, hgoes, hpolls, fun _ hne => absurd hne htime⟩

/-- `st_poll` from a sound state, likewise; without descriptors to wait for it returns at
once. -/
theorem Sound.poll (h : Sound vp) (hidle : vp.thisThread ≠ vp.idleThread) (added : Bool)
    (timeout : Nat) : ∃ vp', vp.poll added timeout = some vp' ∧ Sound vp' ∧ vp.Goes vp' [] ∧
      vp.Polls vp' (vp.ioqAt (.poll added timeout)) vp.ready vp.interrupt ∧
      (vp.interrupt vp.thisThread = false → added = true → vp'.thisThread ≠ vp.thisThread ∧
        (timeout ≠ noTimeout → vp'.Awaits vp.thisThread ((vp.lastClock + timeout) % 2 ^ 64))) := by
  unfold Vp.poll
  by_cases hint : vp.interrupt vp.thisThread = true
  · rw [if_pos hint]
    have hioq : vp.ioqAt (.poll added timeout) = vp.ioq := if_pos (Or.inl hint)
    obtain ⟨hsound, hgoes, hpolls⟩ := h.waited 0
    exact ⟨_, rfl, hsound, hgoes, hioq ▸ hpolls,
      fun hnot => absurd (hint.symm.trans hnot) (by decide)⟩
  · rw [if_neg hint]
    by_cases hadded : added = false
    · -- the event system did not take the descriptors: `-1` at once
      have hioq : vp.ioqAt (.poll added timeout) = vp.ioq := if_pos (Or.inr hadded)
      rw [if_pos hadded, hioq]
      exact ⟨_, rfl, ⟨{ h.queued with }, h.this, h.running, h.idleRuns⟩,
        ⟨Or.inl ⟨rfl, (List.append_nil _).symm⟩, rfl, fun _ ht _ => ⟨ht, rfl, rfl⟩,
          fun hne => absurd rfl hne⟩,
        h.polls rfl rfl rfl (fun _ _ _ => rfl) fun t ht hnot => absurd ht hnot,
        fun _ hadd => absurd (hadded.symm.trans hadd) (by decide)⟩
    · have hioq : vp.ioqAt (.poll added timeout) = vp.ioq ++ [vp.thisThread] :=
        if_neg (not_or.mpr ⟨hint, hadded⟩)
      rw [if_neg hadded, hioq]
      by_cases htime : timeout ≠ noTimeout
      · obtain ⟨q, hrun, hq, hdue⟩ := (vp.addIoQ vp.thisThread).addSleepQ_eq h.queued.heap
          (h.queued.elsewhere h.runs).1 timeout
        obtain ⟨vp', hnext, hsound, hgoes, hpolls, hawaits⟩ :=
          h.parks hidle true (Or.inl ⟨rfl, rfl⟩) hq
            (fun t ht => by rw [hdue, Function.update_of_ne ht]; rfl)
        rw [hdue, Function.update_self] at hawaits
        rw [if_pos htime, hrun]
        exact ⟨vp', hnext, hsound, hgoes, hpolls, fun _ _ => ⟨hawaits.this, fun _ => hawaits⟩⟩
      · obtain ⟨vp', hnext, hsound, hgoes, hpolls, hawaits⟩ := h.parks hidle false (q := vp.sleepq)
          (Or.inl ⟨rfl, rfl⟩) (by rw [h.update_onSleepq]; exact h.queued.heap) fun _ _ => rfl
        unfold Vp.parked at hnext
        rw [h.update_onSleepq] at hnext
        rw [if_neg htime]
        exact ⟨vp', hnext, hsound, hgoes, hpolls,
          fun _ _ => ⟨hawaits.this, fun hne => absurd hne htime⟩⟩

/-- `st_thread_exit` from a sound state: somebody else runs. -/
theorem Sound.exit (h : Sound vp) (hidle : vp.thisThread ≠ vp.idleThread) :
    ∃ vp', vp.exit = some vp' ∧ Sound vp' ∧ vp.Goes vp' [] ∧
      vp.Polls vp' vp.ioq vp.ready vp.interrupt := by
  have hswitching : Switching { vp with
      activeCount := vp.activeCount - 1
      threadq := vp.threadq.erase vp.thisThread } := by
    refine ⟨h.queued.exited h.runs h.this hidle, fun t ht hr => ?_⟩
    obtain ⟨hne, hth⟩ := h.queued.threadq.mem_erase_iff.mp ht
    exact hne ((h.running t hth).mp hr)
  obtain ⟨vp', hrun, hsound, hover⟩ := hswitching.schedule
  refine ⟨vp', hrun, hsound, hover.goes (List.append_nil _).symm rfl fun t ht hne =>
    ⟨h.queued.threadq.mem_erase_iff.mpr ⟨hne, ht⟩, rfl, rfl⟩,
    hover.polls (fun t ht => List.mem_of_mem_erase ht) fun hth _ => ?_⟩
  exact absurd rfl (h.queued.threadq.mem_erase_iff.mp hth).1

/-- `st_thread_create` from a sound state: the new thread stands in line and its creator
goes on. -/
theorem Sound.create (h : Sound vp) (hidle : vp.thisThread ≠ vp.idleThread)
    (hfresh : t ∉ vp.threadq) : Sound (vp.create t) ∧ vp.Goes (vp.create t) [t] ∧
      vp.Polls (vp.create t) vp.ioq vp.ready vp.interrupt := by
  have hne : vp.thisThread ≠ t := fun heq => hfresh (heq ▸ h.this)
  refine ⟨⟨h.queued.create hfresh, List.mem_append_left _ h.this, fun u hu => ?_,
    fun heq => absurd heq hidle⟩, ⟨Or.inl ⟨rfl, rfl⟩, rfl, fun u hu _ => ⟨List.mem_append_left _ hu,
      Function.update_of_ne (show u ≠ t from fun heq => hfresh (heq ▸ hu)) .., rfl⟩,
      fun hne => absurd rfl hne⟩, h.polls rfl rfl rfl (fun u hu _ => Function.update_of_ne
      (show u ≠ t from fun heq => hfresh (heq ▸ hu)) ..) fun u hu hnot => ?_⟩
  · show Function.update vp.state t .runnable u = .running ↔ u = vp.thisThread
    by_cases hut : u = t
    · subst hut
      rw [Function.update_self]
      exact iff_of_false (by decide) hne.symm
    · rw [Function.update_of_ne hut]
      refine h.running u ?_
      exact (List.mem_append.mp hu).resolve_right fun hin => hut (List.mem_singleton.mp hin)
  · rw [List.mem_singleton.mp ((List.mem_append.mp hu).resolve_left hnot)]
    exact Function.update_self ..

/-- To mark a thread as interrupted leaves the queues in order: what is on time is so for
the others only. -/
theorem Queued.setInterrupt (h : Queued vp) (t : Tid) : Queued (vp.setInterrupt t) :=
  { h with
    onTime := fun u hu hnot => by
      have hnot : Function.update vp.interrupt t true u = false := hnot
      have hne : u ≠ t := by
        intro heq
        rw [heq, Function.update_self] at hnot
        cases hnot
      rw [Function.update_of_ne hne] at hnot
      exact h.onTime u hu hnot }

omit [DecidableEq Tid] in
/-- Nobody is a zombie while it lives: a thread that exits is taken off the list. -/
theorem Queued.not_zombie (h : Queued vp) (ht : t ∈ vp.threadq) : vp.state t ≠ .zombie := by
  intro hst
  rcases h.waits t ht (by rw [hst]; decide) (by rw [hst]; decide) with hw | hw | hw
  · exact absurd (hst.symm.trans hw.1) (by decide)
  · exact absurd (hst.symm.trans hw.1) (by decide)
  · exact absurd (hst.symm.trans hw.1) (by decide)

/-- `st_thread_interrupt` from a sound state: whoever waits is in line afterwards. -/
theorem Sound.interruptThread (h : Sound vp) (hidle : vp.thisThread ≠ vp.idleThread)
    (ht : t ∈ vp.threadq) : ∃ vp' woken, vp.interruptThread t = some vp' ∧ Sound vp' ∧
      vp.Goes vp' woken ∧ vp.Polls vp' vp.ioq vp.ready (vp.interruptAt (.interrupt t)) := by
  have hq := h.queued.setInterrupt t
  unfold Vp.interruptThread
  rw [if_neg (h.queued.not_zombie ht)]
  -- who is running or runnable finds the flag at its next wait
  by_cases hrun : vp.state t = .running ∨ vp.state t = .runnable
  · rw [if_pos hrun]
    exact ⟨_, [], rfl, ⟨hq, h.this, h.running, h.idleRuns⟩,
      ⟨Or.inl ⟨rfl, (List.append_nil _).symm⟩, rfl, fun _ ht _ => ⟨ht, rfl, rfl⟩,
        fun hne => absurd rfl hne⟩,
      h.polls rfl rfl rfl (fun _ _ _ => rfl) fun t ht hnot => absurd ht hnot⟩
  · rw [if_neg hrun]
    obtain ⟨q, hwoken, hheap, hdue⟩ :=
      (vp.setInterrupt t).wakeUp_eq t hq.heap
    obtain ⟨hnotrun, hnotrunnable⟩ := not_or.mp hrun
    -- this is the turn in which nobody is found ready and this one thread is late
    have hqueued := hq.turned (fun _ => 0)
      (show ([] ++ [t]).Nodup from List.nodup_singleton t) (fun u hu => by
        rw [List.nil_append, List.mem_singleton] at hu
        rw [hu]
        exact ⟨ht, hnotrun, hnotrunnable⟩) (fun u hu => by cases hu) hheap hdue (Or.inr rfl)
      -- its flag is set, so it need not be late in fact
      (fun u hu hint => by
        have hint : Function.update vp.interrupt t true u = false := hint
        rw [List.mem_singleton.mp hu, Function.update_self] at hint
        cases hint)
    rw [turned_nil] at hqueued
    refine ⟨_, [t], hwoken, ⟨hqueued, h.this, fun u hu => ?_, fun heq => absurd heq hidle⟩,
      ⟨Or.inl ⟨rfl, rfl⟩, rfl, fun u hu _ => ⟨hu, rfl, congrFun hdue u⟩,
        fun hne => absurd rfl hne⟩,
      h.polls rfl rfl rfl (fun _ _ _ => rfl) fun t ht hnot => absurd ht hnot⟩
    show (if u ∈ [t] then ThreadState.runnable else vp.state u) = .running ↔ u = vp.thisThread
    by_cases hut : u ∈ [t]
    · rw [if_pos hut]
      refine iff_of_false (by decide) fun heq => hnotrun ?_
      rw [← List.mem_singleton.mp hut, heq]
      exact h.runs
    · rw [if_neg hut]
      exact h.running u hu

/-- The idle thread is done with its turn, and is runnable like any other, though it never
stands in line. -/
theorem Queued.idled (h : Queued vp) : Queued (vp.setState vp.idleThread .runnable) := by
  have hself : Function.update vp.state vp.idleThread .runnable vp.idleThread = .runnable :=
    Function.update_self ..
  have hother : ∀ t, t ≠ vp.idleThread →
      Function.update vp.state vp.idleThread .runnable t = vp.state t :=
    fun t ht => Function.update_of_ne ht ..
  -- a sleeper waits, and the idle thread does not
  have hne : ∀ t, vp.onSleepq t = true → t ≠ vp.idleThread := by
    intro t ht heq
    have hwait := (h.asleep t ht).2
    rw [heq] at hwait
    rcases h.idleState with hst | hst
    · rw [hst] at hwait
      exact hwait.elim (by decide) (by decide)
    · rw [hst] at hwait
      exact hwait.elim (by decide) (by decide)
  exact { h with
    asleep := fun t ht => by
      show _ ∧ (Function.update vp.state vp.idleThread .runnable t = _ ∨
        Function.update vp.state vp.idleThread .runnable t = _)
      rw [hother t (hne t ht)]
      exact h.asleep t ht
    waits := fun t hth hrun hrunnable => by
      have hidle : t ≠ vp.idleThread := fun heq => hrunnable (heq ▸ hself)
      have hst : Function.update vp.state vp.idleThread .runnable t = vp.state t := hother t hidle
      show Function.update vp.state vp.idleThread .runnable t = _ ∧ _ ∨
        Function.update vp.state vp.idleThread .runnable t = _ ∧ _ ∨
          Function.update vp.state vp.idleThread .runnable t = _ ∧ _
      rw [hst]
      exact h.waits t hth (fun hr => hrun (hst.trans hr)) fun hr => hrunnable (hst.trans hr)
    runnable := fun t => by
      show t ∈ vp.runq ↔ _ ∧ t ≠ vp.idleThread ∧
        Function.update vp.state vp.idleThread .runnable t = .runnable
      rw [h.runnable t]
      refine and_congr_right fun _ => and_congr_right fun hidle => ?_
      rw [hother t hidle]
    polling := fun t ht => by
      obtain ⟨hth, hctx, hst⟩ := h.polling t ht
      refine ⟨hth, hctx, ?_⟩
      show Function.update vp.state vp.idleThread .runnable t = _ ∨
        Function.update vp.state vp.idleThread .runnable t = _
      by_cases hidle : t = vp.idleThread
      · exact Or.inr (hidle ▸ hself)
      · rw [hother t hidle]
        exact hst
    idleState := Or.inr hself }

/-- A turn of the idle thread: those who are ready, as they stand in the I/O queue,
and behind them those who have waited long enough, the first due first. -/
theorem Sound.idleTurn (h : Sound vp) (hidle : vp.thisThread = vp.idleThread) (fires : Tid → Nat)
    (now : Nat) : ∃ vp' late, vp.idleTurn fires now = some vp' ∧ Sound vp' ∧
      vp.Goes vp' ((vp.ioq.filter fun t => fires t ≠ 0) ++ late) ∧
      vp.Polls vp' (vp.ioqAt (.turn fires now)) (vp.readyAt (.turn fires now)) vp.interrupt ∧
      late.Pairwise (fun t u => vp.sleepq.due t ≤ vp.sleepq.due u) ∧
      (∀ t, t ∈ late ↔ vp.onSleepq t = true ∧ ¬ (t ∈ vp.ioq ∧ fires t ≠ 0) ∧
        vp.sleepq.due t ≤ now) ∧
      (∀ t, vp'.onSleepq t = true ↔ vp.onSleepq t = true ∧ ¬ (t ∈ vp.ioq ∧ fires t ≠ 0) ∧
        now < vp.sleepq.due t) ∧
      vp'.sleepq.due = vp.sleepq.due ∧ vp'.lastClock = now := by
  have hq := h.queued
  have hnil := h.idleRuns hidle
  have hmem : ∀ t, t ∈ (vp.ioq.filter fun t => fires t ≠ 0) ↔ t ∈ vp.ioq ∧ fires t ≠ 0 := by
    intro t
    rw [List.mem_filter, decide_eq_true_iff]
  have hnodup := hq.ioq.filter fun t => decide (fires t ≠ 0)
  obtain ⟨q₁, hdispatch, hheap₁, hdue₁⟩ := dispatch_eq fires vp.ioq vp hq.ioq hq.heap
  generalize (vp.ioq.filter fun t => fires t ≠ 0) = fired at hmem hnodup hdispatch hheap₁ ⊢
  have hon : ∀ t, (vp.wake fired q₁).onSleepq t = true ↔ vp.onSleepq t = true ∧ t ∉ fired := by
    intro t
    show (vp.onSleepq t && decide (t ∉ fired)) = true ↔ _
    rw [Bool.and_eq_true, decide_eq_true_iff]
  -- nobody is on the run queue, so who polls waits for I/O
  have hwaits : ∀ t ∈ fired, vp.state t = .ioWait ∧ t ∈ vp.threadq ∧ vp.context t = .poll := by
    intro t ht
    obtain ⟨hth, hctx, hst⟩ := hq.polling t ((hmem t).mp ht).1
    refine ⟨hst.resolve_right fun hrunnable => ?_, hth, hctx⟩
    have hin : t ∈ vp.runq := (hq.runnable t).mpr ⟨hth, fun heq => ?_, hrunnable⟩
    · rw [hnil] at hin
      cases hin
    · rw [heq, hq.idle.2] at hctx
      cases hctx
  have hassert : ∀ t, vp.onSleepq t = true ∧ t ∉ fired →
      t ≠ vp.idleThread ∧ (vp.fire fires fired q₁).state t ≠ .condWait := by
    intro t ht
    have hst := (hq.asleep t ht.1).2
    refine ⟨fun heq => ?_, ?_⟩
    · rw [heq, ← hidle, h.runs] at hst
      exact hst.elim (by decide) (by decide)
    · show (if t ∈ fired then ThreadState.runnable else vp.state t) ≠ .condWait
      rw [if_neg ht.2]
      rcases hst with hst | hst
      · rw [hst]
        decide
      · rw [hst]
        decide
  obtain ⟨late, q, hloop, hheap, hdue, hnodup', hsorted, hlate⟩ :=
    checkClockLoop_eq now (q₁.size + 1) { vp.fire fires fired q₁ with lastClock := now }
      (Nat.lt_succ_self _) hheap₁ fun t ht => hassert t ((hon t).mp ht)
  have hlate' : ∀ t, t ∈ late ↔ vp.onSleepq t = true ∧ t ∉ fired ∧ vp.sleepq.due t ≤ now := by
    intro t
    rw [hlate t, ← and_assoc, ← hon t]
    show _ ∧ q₁.due t ≤ now ↔ _
    rw [hdue₁]
    rfl
  have hdue : q.due = vp.sleepq.due := hdue.trans hdue₁
  rw [turned_eq] at hloop hheap
  have hqueued : Queued (vp.turned fires now fired late q) := by
    refine hq.turned fires ?_ (fun t ht => ?_) (fun t ht => ⟨(hwaits t ht).2.2, ((hmem t).mp ht).2⟩)
      hheap
      hdue (Or.inl hnil) (fun t ht _ _ => ((hlate' t).mp ht).2.2)
    · exact List.nodup_append.mpr ⟨hnodup, hnodup', fun t ht u hu heq =>
        ((hlate' u).mp hu).2.1 (heq ▸ ht)⟩
    · rcases List.mem_append.mp ht with ht | ht
      · obtain ⟨hst, hth, -⟩ := hwaits t ht
        rw [hst]
        exact ⟨hth, by decide, by decide⟩
      · obtain ⟨hth, hst⟩ := hq.asleep t ((hlate' t).mp ht).1
        rcases hst with hst | hst
        · rw [hst]
          exact ⟨hth, by decide, by decide⟩
        · rw [hst]
          exact ⟨hth, by decide, by decide⟩
  have hswitching : Switching ((vp.turned fires now fired late q).setState
      vp.idleThread .runnable) := by
    refine ⟨hqueued.idled, fun t ht => ?_⟩
    show Function.update (vp.turned fires now fired late q).state vp.idleThread .runnable t
      ≠ .running
    by_cases heq : t = vp.idleThread
    · rw [heq, Function.update_self]
      decide
    · rw [Function.update_of_ne heq]
      show (if t ∈ fired ++ late then ThreadState.runnable else vp.state t) ≠ .running
      split
      · decide
      · exact fun hr => heq (((h.running t ht).mp hr).trans hidle)
  obtain ⟨vp', hrun, hsound, hover⟩ := hswitching.schedule
  have hclock : (vp.fire fires fired q₁).checkClock now = some (vp.turned fires now fired late q) :=
    hloop
  have hioq : (vp.turned fires now fired late q).ioq = vp.ioqAt (.turn fires now) := by
    refine List.filter_congr fun t ht => ?_
    rw [decide_eq_decide, hmem t]
    exact ⟨fun hnot => by_contra fun hne => hnot ⟨ht, hne⟩, fun hz hin => hin.2 hz⟩
  have hready : (vp.turned fires now fired late q).ready = vp.readyAt (.turn fires now) := by
    funext t
    exact if_congr (hmem t) rfl rfl
  have hsame : Function.update vp.context vp.thisThread .idle = vp.context :=
    Function.update_eq_self_iff.mpr (hidle ▸ hq.idle.2.symm)
  refine ⟨vp', late, ?_, hsound, hover.goes rfl rfl (fun t ht _ => ⟨ht, rfl, congrFun hdue t⟩),
    ?_, ?_, fun t => ?_, fun t => ?_,
    ?_, ?_⟩
  · rw [Vp.idleTurn, hdispatch]
    simp only [Option.bind_eq_bind, Option.bind_some, Vp.clockTurn, hclock]
    show Vp.schedule { (vp.turned fires now fired late q).setState vp.thisThread .runnable with
      context := Function.update vp.context vp.thisThread .idle } = some vp'
    rw [hsame, hidle]
    exact hrun
  · rw [← hioq, ← hready]
    refine hover.polls (fun _ ht => ht) fun _ hctx => ?_
    have hctx : vp.context vp.thisThread = .poll := hctx
    rw [hidle, hq.idle.2] at hctx
    cases hctx
  · rw [← hdue₁]
    exact hsorted
  · rw [hlate' t, hmem t]
  · rw [hover.onSleepq]
    show (vp.onSleepq t && decide (t ∉ fired ++ late)) = true ↔ _
    rw [Bool.and_eq_true, decide_eq_true_iff, List.mem_append, hlate' t, ← hmem t]
    by_cases hon : vp.onSleepq t = true
    · by_cases hin : t ∈ fired
      · simp [hin]
      · simp [hin, hon]
    · simp [hon]
  · rw [hover.sleepq]
    exact hdue
  · exact hover.lastClock

/-- What the caller may do the scheduler does, and its queues stay sound. -/
theorem Sound.step (h : Sound vp) {act : Act Tid} (hallows : vp.Allows act) :
    ∃ vp' woken, vp.step act = some vp' ∧ Sound vp' ∧ vp.Goes vp' woken ∧
      vp.Polls vp' (vp.ioqAt act) (vp.readyAt act) (vp.interruptAt act) := by
  cases act with
  | create t =>
    obtain ⟨hsound, hgoes, hpolls⟩ := h.create hallows.1 hallows.2
    exact ⟨_, _, rfl, hsound, hgoes, hpolls⟩
  | usleep usecs =>
    obtain ⟨vp', hrun, hsound, hgoes, hpolls, -⟩ := h.usleep hallows usecs
    exact ⟨vp', _, hrun, hsound, hgoes, hpolls⟩
  | poll added timeout =>
    obtain ⟨vp', hrun, hsound, hgoes, hpolls, -⟩ := h.poll hallows added timeout
    exact ⟨vp', _, hrun, hsound, hgoes, hpolls⟩
  | interrupt t => exact h.interruptThread hallows.1 hallows.2
  | exit =>
    obtain ⟨vp', hrun, hsound, hgoes, hpolls⟩ := h.exit hallows
    exact ⟨vp', _, hrun, hsound, hgoes, hpolls⟩
  | turn fires now =>
    obtain ⟨vp', late, hrun, hsound, hgoes, hpolls, -⟩ := h.idleTurn hallows.1 fires now
    exact ⟨vp', _, hrun, hsound, hgoes, hpolls⟩

end

end RtmpServer.Sched
