import RtmpServer.Lib.Rounds
import RtmpServer.Transcript

/-!
# The loops as the server runs them

`Broadcast` cuts the publisher loop and the relay loops at their `st_usleep(0)`
and keeps a history of what was published and sent; `Server` runs the threads
as they are. Here the first is shown to be what the second does: a thread in a
loop is parked in one of few ways (`PublishParked`, `RelayParked`), and its next
stretch is a step of `Broadcast` (`publisher_answered`, `consumer_answered`).

Mirroring notes:
- `relaying` and `receiving` are how `advance` leaves a loop that is parked
  inside a pass or a receive; `relayAsleep` and `publishAsleep` how it leaves
  one that is parked in its `st_usleep(0)`.
-/

namespace RtmpServer

open Coroutine Coroutine.Prog Framing

/-! ## The relay loop -/

/-- What follows a pass in a round of the relay loop: a failed one ends the loop, any other
resets the slot and sleeps. -/
def relayTail (rc : Int) : Routine (Unit ⊕ Int) := do
  if rc = -1 then
    return .inr (-1)
  modify fun s => { s with globals := s.globals.setSlot .null }
  stUsleep
  return .inl ()

/-- A round of the relay loop: without a message it only sleeps, and with one it makes its
pass first. -/
def relayRound (_ : Unit) : Routine (Unit ⊕ Int) := do
  let slot ← read fun s => s.globals.slot
  if slot = .null then
    stUsleep
    return .inl ()
  let rc ← relayPass
  relayTail rc

theorem relayLoop_eq : relayLoop = .iter relayRound () := rfl

/-- The relay loop in its `st_usleep(0)`: awake, it goes on with the next round. -/
def relayAsleep : Parked st State Int :=
  ⟨.stUsleep, fun r => .bind (.bind (.ret r) fun _ => .ret (.inl ())) (again relayRound)⟩

/-- The relay loop in the middle of a pass, which goes on from its own call and is followed
by the rest of the round. -/
def relaying (w : Parked st State Int) : Parked st State Int :=
  ⟨w.call, fun r => .bind (.bind (w.resume r) relayTail) (again relayRound)⟩

/-- Where the relay loop stops, when its pass stops: at the same call, at its end, or asleep
with the slot reset. -/
def relayStopped : Stop st State Int × State → Stop st State Int × State
  | (.parked w, s) => (.parked (relaying w), s)
  | (.done rc, s) =>
    if rc = -1 then (.done (-1), s)
    else (.parked relayAsleep, { s with globals := s.globals.setSlot .null })

/-- Where the relay loop stops that begins a round: asleep if the slot is null, and
otherwise where its pass does. -/
def relayEntered (n : Nat) (s : State) : Option (Stop st State Int × State) :=
  match s.globals.slot with
  | none => none
  | some .null => some (.parked relayAsleep, s)
  | some .audioVideoData => (advance n relayPass s).map relayStopped

section

variable {n : Nat} {s : State}

theorem advance_relayTail (rc : Int) : advance n (relayTail rc) s =
    if rc = -1 then some (.done (.inr (-1)), s)
    else some (.parked ⟨.stUsleep, fun r => .bind (.ret r) fun _ => .ret (.inl ())⟩,
      { s with globals := s.globals.setSlot .null }) := by
  unfold relayTail
  split
  · rfl
  · rfl

theorem advance_relayRound_none (h : s.globals.slot = none) :
    advance n (relayRound ()) s = none :=
  advance_read_none h

theorem advance_relayRound_null (h : s.globals.slot = some .null) :
    advance n (relayRound ()) s
      = some (.parked ⟨.stUsleep, fun r => .bind (.ret r) fun _ => .ret (.inl ())⟩, s) :=
  advance_read_some (f := fun s : State => s.globals.slot) h

theorem advance_relayRound_set (h : s.globals.slot = some .audioVideoData) :
    advance n (relayRound ()) s = advance n (.bind relayPass relayTail) s :=
  advance_read_some (f := fun s : State => s.globals.slot) h

/-- A loop that is resumed in a pass, or enters one, stops where the pass has it stop. -/
theorem advance_relaying {p : Routine Int} :
    advance n (.bind (.bind p relayTail) (again relayRound)) s
      = (advance n p s).map relayStopped := by
  cases hp : advance n p s with
  | none => exact advance_bind_none (advance_bind_none hp)
  | some r =>
    obtain ⟨stop, s1⟩ := r
    cases stop with
    | parked w => exact advance_bind_parked (advance_bind_parked hp)
    | done rc =>
      have htail := (advance_bind_done hp).trans (advance_relayTail rc)
      rw [Option.map_some, relayStopped]
      by_cases hrc : rc = -1
      · rw [if_pos hrc] at htail ⊢
        exact advance_bind_done htail
      · rw [if_neg hrc] at htail ⊢
        exact advance_bind_parked htail

/-- A round of the relay loop blocks or ends it: none goes over into the next without a
call. -/
theorem relayRound_ne_inl {s' : State} {b : Unit} :
    advance n (relayRound ()) s ≠ some (.done (.inl b), s') := by
  intro hround
  cases hslot : s.globals.slot with
  | none =>
    rw [advance_relayRound_none hslot] at hround
    cases hround
  | some slot =>
    -- the round sleeps at once or behind its pass, or returns: none goes on by itself
    cases slot with
    | null =>
      rw [advance_relayRound_null hslot] at hround
      cases hround
    | audioVideoData =>
      rw [advance_relayRound_set hslot] at hround
      cases hp : advance n relayPass s with
      | none =>
        rw [advance_bind_none hp] at hround
        cases hround
      | some r =>
        obtain ⟨stop, s1⟩ := r
        cases stop with
        | parked w =>
          rw [advance_bind_parked hp] at hround
          cases hround
        | done rc =>
          rw [advance_bind_done hp, advance_relayTail] at hround
          split at hround
          · cases hround
          · cases hround

/-- The relay loop, entered or woken up, begins a round, so what the slot holds decides how
far it comes. -/
theorem advance_relayLoop : advance (n + 1) relayLoop s = relayEntered (n + 1) s := by
  rw [relayLoop_eq, advance_iter_round fun _ _ => relayRound_ne_inl, relayEntered]
  cases hslot : s.globals.slot with
  | none => exact advance_bind_none (advance_relayRound_none hslot)
  | some slot =>
    cases slot with
    | null => exact advance_bind_parked (advance_relayRound_null hslot)
    | audioVideoData =>
      have hset := advance_relayRound_set (n := n + 1) hslot
      rw [← advance_relaying]
      simp only [advance] at hset ⊢
      rw [hset]

theorem relayEntered_of_advance {r : Stop st State Int × State}
    (h : advance n relayLoop s = some r) : relayEntered n s = some r := by
  cases n with
  | zero => cases h
  | succ n => exact advance_relayLoop.symm.trans h

theorem resume_relayAsleep {x : Answer} {r : Stop st State Int × State}
    (h : resume answer n relayAsleep x s = some r) : x = .wake ∧ relayEntered n s = some r := by
  obtain ⟨reply, hx, hadv⟩ := resume_eq_some.mp h
  cases x with
  | wake => exact ⟨rfl, relayEntered_of_advance hadv⟩
  | _ => cases hx

theorem resume_relaying {w : Parked st State Int} {x : Answer} {r : Stop st State Int × State}
    (h : resume answer n (relaying w) x s = some r) :
    ∃ stop, resume answer n w x s = some stop ∧ relayStopped stop = r := by
  obtain ⟨reply, hx, hadv⟩ := resume_eq_some.mp h
  obtain ⟨stop, hstop, heq⟩ := Option.map_eq_some_iff.mp (advance_relaying.symm.trans hadv)
  exact ⟨stop, resume_eq_some.mpr ⟨reply, hx, hstop⟩, heq⟩

end

/-! ## The publisher loop -/

/-- What follows a receive in a round of the publisher loop: the header size and the slot,
whatever the receive returned. -/
def receiveTail (r : Int × Nat × Nat) : Routine Int := do
  modify fun s => { s with globals := Broadcast.publish s (r.2.1 + r.2.2) }
  return r.1

/-- The end of a round of the publisher loop: the buffer is cleared behind the
`st_usleep(0)`, when the consumers have had their turn. -/
def publishTail (_ : Int) : Routine (Unit ⊕ Int) := do
  stUsleep
  modify fun s => s.setBuffer .audioVideoBuffer []
  return .inl ()

/-- A round of the publisher loop: a receive, what it stores, the sleep, and the clearing. -/
def publishRound (_ : Unit) : Routine (Unit ⊕ Int) :=
  .bind (.bind recvAudioVideo receiveTail) publishTail

theorem publishLoop_eq : publishLoop = .iter publishRound () := rfl

/-- The publisher loop in its `st_usleep(0)`: awake, it clears the buffer and receives
again. -/
def publishAsleep : Parked st State Int :=
  ⟨.stUsleep, fun r => .bind (.bind (.ret r) fun _ => (do
    modify fun s => s.setBuffer .audioVideoBuffer []
    return .inl ())) (again publishRound)⟩

/-- The publisher loop in the middle of a receive, which goes on from its own call and is
followed by the rest of the round. -/
def receiving (w : Parked st State (Int × Nat × Nat)) : Parked st State Int :=
  ⟨w.call, fun r => .bind (.bind (.bind (w.resume r) receiveTail) publishTail) (again publishRound)⟩

/-- Where the publisher loop stops, when its receive stops: at the same call, or asleep with
the message published. -/
def publishStopped : Stop st State (Int × Nat × Nat) × State → Stop st State Int × State
  | (.parked w, s) => (.parked (receiving w), s)
  | (.done r, s) =>
    (.parked publishAsleep, { s with globals := Broadcast.publish s (r.2.1 + r.2.2) })

section

variable {n : Nat} {s : State}

theorem advance_receiving {p : Routine (Int × Nat × Nat)} :
    advance n (.bind (.bind (.bind p receiveTail) publishTail) (again publishRound)) s
      = (advance n p s).map publishStopped := by
  cases hp : advance n p s with
  | none => exact advance_bind_none (advance_bind_none (advance_bind_none hp))
  | some r =>
    obtain ⟨stop, s1⟩ := r
    cases stop with
    | parked w => exact advance_bind_parked (advance_bind_parked (advance_bind_parked hp))
    | done r =>
      have hreceive : advance n (.bind p receiveTail) s = some (.done r.1,
          { s1 with globals := Broadcast.publish s1 (r.2.1 + r.2.2) }) := advance_bind_done hp
      have htail : advance n (.bind (.bind p receiveTail) publishTail) s = some (.parked
          ⟨.stUsleep, fun r => .bind (.ret r) fun _ => (do
            modify fun s => s.setBuffer .audioVideoBuffer []
            return .inl ())⟩, { s1 with globals := Broadcast.publish s1 (r.2.1 + r.2.2) }) :=
        advance_bind_done hreceive
      exact advance_bind_parked htail

/-- A round of the publisher loop blocks: it has at least its sleep to make. -/
theorem publishRound_ne_inl {s' : State} {b : Unit} :
    advance n (publishRound ()) s ≠ some (.done (.inl b), s') := by
  intro hround
  unfold publishRound at hround
  cases hp : advance n recvAudioVideo s with
  | none =>
    rw [advance_bind_none (advance_bind_none hp)] at hround
    cases hround
  | some r =>
    obtain ⟨stop, s1⟩ := r
    cases stop with
    | parked w =>
      rw [advance_bind_parked (advance_bind_parked hp)] at hround
      cases hround
    | done r =>
      have hreceive : advance n (.bind recvAudioVideo receiveTail) s = some (.done r.1,
          { s1 with globals := Broadcast.publish s1 (r.2.1 + r.2.2) }) := advance_bind_done hp
      rw [advance_bind_done hreceive] at hround
      cases hround

/-- The publisher loop, entered, stops where its first receive has it stop. -/
theorem advance_publishLoop {r : Stop st State Int × State}
    (h : advance n publishLoop s = some r) :
    ∃ stop, advance n recvAudioVideo s = some stop ∧ publishStopped stop = r := by
  cases n with
  | zero => cases h
  | succ n =>
    rw [publishLoop_eq, advance_iter_round fun _ _ => publishRound_ne_inl] at h
    exact Option.map_eq_some_iff.mp (advance_receiving.symm.trans h)

/-- The publisher loop, woken up, stops where its next receive does, for which the buffer is
cleared first. -/
theorem resume_publishAsleep {x : Answer} {r : Stop st State Int × State}
    (h : resume answer n publishAsleep x s = some r) : x = .wake ∧
      ∃ stop, advance n recvAudioVideo (s.setBuffer .audioVideoBuffer []) = some stop ∧
        publishStopped stop = r := by
  obtain ⟨reply, hx, hadv⟩ := resume_eq_some.mp h
  cases x with
  | wake => exact ⟨rfl, advance_publishLoop hadv⟩
  | _ => cases hx

theorem resume_receiving {w : Parked st State (Int × Nat × Nat)} {x : Answer}
    {r : Stop st State Int × State} (h : resume answer n (receiving w) x s = some r) :
    ∃ stop, resume answer n w x s = some stop ∧ publishStopped stop = r := by
  obtain ⟨reply, hx, hadv⟩ := resume_eq_some.mp h
  obtain ⟨stop, hstop, heq⟩ := Option.map_eq_some_iff.mp (advance_receiving.symm.trans hadv)
  exact ⟨stop, resume_eq_some.mpr ⟨reply, hx, hstop⟩, heq⟩

end

/-! ## What the loops call -/

theorem recvAudioVideo_reads : recvAudioVideo.CallsOnly Call.Reads := by
  -- each reader makes one kind of call, in its own branches
  have hbasic : readAudioVideoBasicHeader.CallsOnly Call.Reads := by
    refine ⟨readNbytesCycleOn_reads _ _, fun r => callsOnly_ite trivial ⟨trivial, fun bh =>
      ⟨trivial, fun _ => callsOnly_ite ?_ (callsOnly_ite ?_ trivial)⟩⟩⟩
    · exact ⟨readNbytesOn_reads _ _, fun rc => callsOnly_ite trivial ⟨trivial, fun b1 =>
        ⟨trivial, fun _ => trivial⟩⟩⟩
    · exact ⟨readNbytesOn_reads _ _, fun rc => callsOnly_ite trivial ⟨trivial, fun b1 =>
        ⟨trivial, fun b2 => ⟨trivial, fun _ => trivial⟩⟩⟩⟩
  have hmessage : ∀ fmt csid bhSize,
      (readAudioVideoMessageHeader fmt csid bhSize).CallsOnly Call.Reads := by
    intro fmt csid bhSize
    refine ⟨readNbytesCycleOn_reads _ _, fun r => callsOnly_ite trivial (callsOnly_ite ?_ ?_)⟩
    · exact ⟨trivial, fun m => callsOnly_ite trivial ⟨trivial, fun _ => trivial⟩⟩
    · refine ⟨trivial, fun m => ⟨trivial, fun _ => callsOnly_ite ?_ ?_⟩⟩
      · exact ⟨readNbytesCycleOn_reads _ _, fun r => callsOnly_ite trivial ⟨trivial, fun ext =>
          ⟨trivial, fun _ => ⟨trivial, fun _ => trivial⟩⟩⟩⟩
      · exact ⟨trivial, fun _ => trivial⟩
  have hpayload : ∀ csid, (recvAudioVideoPayload csid).CallsOnly Call.Reads := by
    intro csid nread
    refine ⟨lookup_reads _ _, fun ml => callsOnly_ite ⟨trivial, fun cs => ⟨trivial, fun size =>
      ⟨readNbytesCycleOn_reads _ _, fun r => callsOnly_ite trivial (callsOnly_ite ?_ trivial)⟩⟩⟩
        trivial⟩
    exact ⟨trivial, fun _ => trivial⟩
  exact ⟨hbasic, fun _ => callsOnly_ite trivial ⟨hmessage _ _ _, fun _ => callsOnly_ite trivial
    ⟨trivial, fun csid => ⟨lookup_reads _ _, fun _ => ⟨hpayload csid, fun _ =>
      callsOnly_ite trivial trivial⟩⟩⟩⟩⟩

/-- The call is a write, the only kind that a pass makes. -/
def Call.Writes : Call → Prop
  | .writev _ => True
  | _ => False

theorem relayPass_writes : relayPass.CallsOnly Call.Writes := by
  have hcurr : currHeader.CallsOnly Call.Writes := ⟨trivial, fun _ => trivial⟩
  have hwritev : ∀ iov n, (writev iov n).CallsOnly Call.Writes := by
    intro iov n
    refine ⟨fun written => callsOnly_ite ⟨trivial, fun memory => ⟨⟨trivial, fun _ => trivial⟩,
      fun r => ?_⟩⟩ trivial, fun r => ?_⟩
    · cases r with
      | error => exact trivial
      | wrote n h => exact trivial
    · cases r with
      | none => exact trivial
      | some n => exact trivial
  exact ⟨hcurr, fun m => ⟨trivial, fun _ _ => ⟨trivial, fun _ =>
    callsOnly_ite ⟨hcurr, fun _ => ⟨hwritev _ _, fun _ => callsOnly_ite trivial
      ⟨hcurr, fun _ => trivial⟩⟩⟩ trivial⟩⟩⟩

/-- How the publisher loop can be parked: asleep, or in a receive that waits for
bytes. -/
inductive PublishParked : Parked st State Int → PublisherThread → Prop where
  | sleeping : PublishParked publishAsleep .sleeping
  | receiving {w : Parked st State (Int × Nat × Nat)} : StopsIn Call.Reads (.parked w) →
      PublishParked (RtmpServer.receiving w) (.receiving w)

/-- How the relay loop can be parked: asleep, or in a pass that waits for its
bytes to be taken. -/
inductive RelayParked : Parked st State Int → ConsumerThread → Prop where
  | sleeping : RelayParked relayAsleep .sleeping
  | relaying {w : Parked st State Int} : StopsIn Call.Writes (.parked w) →
      RelayParked (RtmpServer.relaying w) (.relaying w)

section

variable {n : Nat} {s s' : State} {w w' : Parked st State Int} {x : Answer}

theorem PublishParked.of_stopped {stop : Stop st State (Int × Nat × Nat) × State}
    (h : publishStopped stop = (.parked w, s')) (hstop : StopsIn Call.Reads stop.1) :
    ∃ t, PublishParked w t := by
  obtain ⟨stop, s⟩ := stop
  cases stop with
  | parked w' =>
    cases h
    exact ⟨_, .receiving hstop⟩
  | done r =>
    cases h
    exact ⟨_, .sleeping⟩

theorem RelayParked.of_stopped {stop : Stop st State Int × State}
    (h : relayStopped stop = (.parked w, s')) (hstop : StopsIn Call.Writes stop.1) :
    ∃ t, RelayParked w t := by
  obtain ⟨stop, s⟩ := stop
  cases stop with
  | parked w' =>
    cases h
    exact ⟨_, .relaying hstop⟩
  | done rc =>
    rw [relayStopped] at h
    split at h
    · cases h
    · cases h
      exact ⟨_, .sleeping⟩

theorem RelayParked.of_entered (h : relayEntered n s = some (.parked w, s')) :
    ∃ t, RelayParked w t := by
  unfold relayEntered at h
  cases hslot : s.globals.slot with
  | none =>
    simp only [hslot] at h
    cases h
  | some slot =>
    cases slot with
    | null =>
      simp only [hslot] at h
      cases h
      exact ⟨_, .sleeping⟩
    | audioVideoData =>
      simp only [hslot] at h
      obtain ⟨stop, hadv, hr⟩ := Option.map_eq_some_iff.mp h
      exact RelayParked.of_stopped hr (CallsOnly.advance _ relayPass_writes hadv)

end

/-- Wherever the publisher loop is parked in any run, it is parked asleep or in a receive. -/
theorem followed_publishLoop {s s' : State} {now : Recording} {w : Parked st State Int}
    (h : Followed answer Others.apply publishLoop s now w s') : ∃ t, PublishParked w t := by
  refine Followed.parked (P := fun w => ∃ t, PublishParked w t) (fun hadv => ?_)
    (fun ih hresume => ?_) h
  · obtain ⟨stop, hstop, hr⟩ := advance_publishLoop hadv
    exact PublishParked.of_stopped hr (CallsOnly.advance _ recvAudioVideo_reads hstop)
  · obtain ⟨t, hparked⟩ := ih
    cases hparked with
    | sleeping =>
      obtain ⟨-, stop, hstop, hr⟩ := resume_publishAsleep hresume
      exact PublishParked.of_stopped hr (CallsOnly.advance _ recvAudioVideo_reads hstop)
    | receiving hw =>
      obtain ⟨stop, hstop, hr⟩ := resume_receiving hresume
      obtain ⟨reply, -, hadv⟩ := resume_eq_some.mp hstop
      exact PublishParked.of_stopped hr (CallsOnly.advance _ (hw.2 reply) hadv)

/-- Wherever the relay loop is parked in any run, it is parked asleep or in a pass. -/
theorem followed_relayLoop {s s' : State} {now : Recording} {w : Parked st State Int}
    (h : Followed answer Others.apply relayLoop s now w s') : ∃ t, RelayParked w t := by
  refine Followed.parked (P := fun w => ∃ t, RelayParked w t) (fun hadv => ?_)
    (fun ih hresume => ?_) h
  · exact RelayParked.of_entered (relayEntered_of_advance hadv)
  · obtain ⟨t, hparked⟩ := ih
    cases hparked with
    | sleeping => exact RelayParked.of_entered (resume_relayAsleep hresume).2
    | relaying hw =>
      obtain ⟨stop, hstop, hr⟩ := resume_relaying hresume
      obtain ⟨reply, -, hadv⟩ := resume_eq_some.mp hstop
      exact RelayParked.of_stopped hr (CallsOnly.advance _ (hw.2 reply) hadv)

/-! ## Threads in the loops -/

/-- The thread of a publisher, and where `Broadcast` says it is: parked in its loop in the
same way. -/
inductive PublisherAt : Thread → PublisherThread → Prop where
  | parked {w : Parked st State Int} {t : PublisherThread} : PublishParked w t →
      PublisherAt (.waiting (.uncheckedCall .publishLoop) [] w) t

/-- The thread of a player in its relay loop, or behind it, and where `Broadcast` says it
is. -/
inductive PlayerAt : Thread → ConsumerThread → Prop where
  | parked {w : Parked st State Int} {t : ConsumerThread} : RelayParked w t →
      PlayerAt (.waiting (.checkedCall .relayLoop) [] w) t
  | returned : PlayerAt .returned .returned

/-- All that a consumer has written since its history began: its finished passes and what is
out of this one. -/
def Consumer.wrote (c : Consumer) : Bytes := c.sent.flatten ++ c.out

namespace Broadcast

open Server

variable {order : Order} {fuel : Nat} {x : Broadcast} {h : Halt}

/-- What a step of the publisher leaves in `Broadcast`: the globals of the thread, its
place, and the same consumers. -/
structure PublisherStopped (x x' : Broadcast) (h : Halt) : Prop where
  globals : x'.globals = h.state.globals
  client : x'.client = h.state.client
  thread : PublisherAt h.thread x'.thread
  consumers : x'.consumers = x.consumers

theorem publisher_stopped {next : List Line → List Slot → State → Option Halt} {found : List Slot}
    {stop : Stop st State (Int × Nat × Nat) × State} (hstop : StopsIn Call.Reads stop.1)
    (hsettle : settle order next (.uncheckedCall .publishLoop) [] found (publishStopped stop)
      = some h) : PublisherStopped x (x.publisherStopped stop) h := by
  obtain ⟨stop, s⟩ := stop
  cases stop with
  | parked w =>
    cases hsettle
    exact ⟨rfl, rfl, .parked (.receiving hstop), rfl⟩
  | done r =>
    obtain ⟨rc, bhSize, mhSize⟩ := r
    cases hsettle
    exact ⟨rfl, rfl, .parked .sleeping, rfl⟩

/-- The next stretch of a publisher's thread is a step of `Broadcast`, with the same answer. -/
theorem publisher_answered {c : Seat} {a : Answer} (hat : PublisherAt c.thread x.thread)
    (hclient : x.client = c.client) (hanswered : answered order fuel x.globals c a = some h) :
    ∃ x', x.step fuel (.publisher a) = some x' ∧ PublisherStopped x x' h := by
  obtain ⟨globals, client, thread, consumers, published⟩ := x
  obtain ⟨client', thread', found⟩ := c
  cases hclient
  cases hat with
  | parked hparked =>
    obtain ⟨r, hresume, hsettle⟩ := Option.bind_eq_some_iff.mp hanswered
    -- asleep, the publisher wakes up to its next message; else it is in the middle of one
    cases hparked with
    | sleeping =>
      obtain ⟨hwake, stop, hadv, hr⟩ := resume_publishAsleep hresume
      rw [← hr] at hsettle
      refine ⟨_, ?_, publisher_stopped (CallsOnly.advance _ recvAudioVideo_reads hadv) hsettle⟩
      show (if a = .wake then (advance fuel recvAudioVideo _).map _ else none) = _
      rw [if_pos hwake, hadv]
      rfl
    | @receiving w hw =>
      obtain ⟨stop, hstop, hr⟩ := resume_receiving hresume
      obtain ⟨reply, hx, hadv⟩ := resume_eq_some.mp hstop
      rw [← hr] at hsettle
      refine ⟨_, ?_, publisher_stopped (CallsOnly.advance _ (hw.2 reply) hadv) hsettle⟩
      simp only [step, publisherStep, hx]
      show (advance fuel (w.resume reply) _).map _ = _
      rw [hadv]
      rfl

/-- What a step of consumer `j` leaves, who has been answered `a` in `call`. -/
structure ConsumerStopped (x x' : Broadcast) (j : Nat) (k k' : Consumer) (call : Call) (a : Answer)
    (h : Halt) : Prop where
  globals : x'.globals = h.state.globals
  publisher : x'.client = x.client ∧ x'.thread = x.thread
  consumers : x'.consumers = x.consumers.set j k'
  client : k'.client = h.state.client
  thread : PlayerAt h.thread k'.thread
  wrote : k'.wrote = k.wrote ++ taken (call, a)

theorem consumer_stopped {next : List Line → List Slot → State → Option Halt} {found : List Slot}
    {stop : Stop st State Int × State} (j : Nat) (k : Consumer) (call : Call) (a : Answer)
    (hstop : StopsIn Call.Writes stop.1)
    (hsettle : settle order next (.checkedCall .relayLoop) [] found (relayStopped stop) = some h) :
    ∃ k', ConsumerStopped x
      (x.consumerStopped j { k with out := k.out ++ taken (call, a) } stop) j k k' call a h := by
  obtain ⟨stop, s⟩ := stop
  cases stop with
  | parked w =>
    cases hsettle
    exact ⟨_, rfl, ⟨rfl, rfl⟩, rfl, rfl, .parked (.relaying hstop), (List.append_assoc ..).symm⟩
  | done rc =>
    -- the pass is over: a failed one ends the thread, any other goes on asleep
    rw [relayStopped] at hsettle
    rw [consumerStopped]
    by_cases hrc : rc = -1
    · rw [if_pos hrc] at hsettle
      cases hsettle
      rw [if_pos hrc]
      exact ⟨_, rfl, ⟨rfl, rfl⟩, rfl, rfl, .returned, (List.append_assoc ..).symm⟩
    · rw [if_neg hrc] at hsettle
      cases hsettle
      rw [if_neg hrc]
      refine ⟨_, rfl, ⟨rfl, rfl⟩, rfl, rfl, .parked .sleeping, ?_⟩
      simp [Consumer.wrote]

/-- The next stretch of a player's thread is a step of `Broadcast`, with the same answer and
the same bytes written. -/
theorem consumer_answered {c : Seat} {a : Answer} {j : Nat} {k : Consumer} {line : Line}
    {rest : List Line} {w : Parked st State Int} (hk : x.consumers[j]? = some k)
    (hthread : c.thread = .waiting line rest w) (hat : PlayerAt c.thread k.thread)
    (hclient : k.client = c.client) (hanswered : answered order fuel x.globals c a = some h) :
    ∃ x' k', x.step fuel (.consumer j a) = some x' ∧ ConsumerStopped x x' j k k' w.call a h := by
  have hstep : x.step fuel (.consumer j a) = consumerStep fuel x j k a := by
    simp only [step, hk]
  rw [hstep]
  obtain ⟨client, thread, out, sent⟩ := k
  obtain ⟨client', thread', found⟩ := c
  cases hclient
  cases hat with
  | returned => cases hthread
  | parked hparked =>
    cases hthread
    obtain ⟨r, hresume, hsettle⟩ := Option.bind_eq_some_iff.mp hanswered
    -- asleep, the player looks at the slot and begins a pass; else it is in the middle of one
    cases hparked with
    | sleeping =>
      obtain ⟨hwake, hentered⟩ := resume_relayAsleep hresume
      rw [hwake]
      have hstep : consumerStep fuel x j ⟨client, .sleeping, out, sent⟩ .wake =
          match x.globals.slot with
          | none => none
          | some .null => some x
          | some .audioVideoData => (advance fuel relayPass ⟨x.globals, client⟩).map
            (x.consumerStopped j ⟨client, .sleeping, out, sent⟩) := rfl
      rw [hstep]
      unfold relayEntered at hentered
      cases hslot : x.globals.slot with
      | none =>
        simp only [hslot] at hentered
        cases hentered
      | some slot =>
        cases slot with
        | null =>
          -- the slot is empty, so that nothing happens at all
          simp only [hslot] at hentered
          cases hentered
          cases hsettle
          refine ⟨x, _, rfl, rfl, ⟨rfl, rfl⟩, ?_, rfl, .parked .sleeping, (List.append_nil _).symm⟩
          obtain ⟨hlt, hget⟩ := List.getElem?_eq_some_iff.mp hk
          rw [← hget, List.set_getElem_self]
        | audioVideoData =>
          simp only [hslot] at hentered
          obtain ⟨stop, hadv, hr⟩ := Option.map_eq_some_iff.mp hentered
          rw [← hr] at hsettle
          obtain ⟨k', hstopped⟩ := consumer_stopped (x := x) j ⟨client, .sleeping, out, sent⟩
            .stUsleep .wake (CallsOnly.advance _ relayPass_writes hadv) hsettle
          refine ⟨_, k', ?_, hstopped⟩
          simp only [hadv, Option.map_some]
          show _ = some (x.consumerStopped j ⟨client, .sleeping, out ++ [], sent⟩ stop)
          rw [List.append_nil]
    | @relaying w' hw =>
      obtain ⟨stop, hstop, hr⟩ := resume_relaying hresume
      obtain ⟨reply, hx, hadv⟩ := resume_eq_some.mp hstop
      rw [← hr] at hsettle
      obtain ⟨k', hstopped⟩ := consumer_stopped (x := x) j ⟨client, .relaying w', out, sent⟩
        w'.call a (CallsOnly.advance _ (hw.2 reply) hadv) hsettle
      refine ⟨_, k', ?_, hstopped⟩
      simp only [consumerStep, hx]
      show (advance fuel (w'.resume reply) _).map _ = _
      rw [hadv]
      rfl

end Broadcast

end RtmpServer
