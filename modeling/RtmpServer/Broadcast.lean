import Mathlib.Logic.Relation
import RtmpServer.Relay

/-!
# The publisher loop and the relay loops

One publisher and any number of consumers, scheduled against each other: each
is a coroutine that is switched only in a blocking call, and all of them share
the globals. `step` lets one of them run to its next blocking call.

Nothing in the code keeps the publisher from clearing the buffer while a
consumer is in the middle of a pass, or one consumer from taking a message
that another has not sent yet. In the runs where neither happens (`Orderly`),
`Phase` is an invariant: either the slot is empty and the publisher may be
receiving, or the slot is set, the buffer holds one whole message, and one
consumer may be sending it. From it follow `pass_sends_one_message` and
`sent_prefix_published`.

Mirroring notes:
- both loops are cut at their `st_usleep(0)`: `sleeping` is the wait in it, and
  a loop is entered as if it had just woken up.
- `published`, `out` and `sent` are history: the messages in the order they
  were put into the slot, what a pass under way has written so far, and what
  each completed pass wrote.
-/

namespace RtmpServer

open Coroutine Coroutine.Prog Framing

/-! ## The coroutines -/

/-- A message when `recv_audio_video` has returned: its return value, the entry
of `curr_csid`, and what stands in the buffer behind the header. -/
structure Published where
  rc : Int
  header : MessageHeader
  payload : Bytes
  deriving DecidableEq

namespace Published

/-- What a consumer has to be sent for it: one message, with the header that the record
makes and the payload in chunks of 4096 bytes. -/
def encode (m : Published) : Bytes := relayed 4096 m.header m.payload

/-- It was received to its end, and it is one of the messages that a pass gets right. -/
def Complete (m : Published) : Prop := m.rc = 0 ∧ Relayable 4096 m.header m.payload

instance (m : Published) : Decidable m.Complete := inferInstanceAs (Decidable (_ ∧ _))

end Published

/-- Where the publisher waits: in its pause, or inside the receive of a message. -/
inductive PublisherThread where
  | sleeping
  | receiving (w : Parked st State (Int × Nat × Nat))

/-- Where a consumer waits, if its thread has not returned: in its pause, or inside a pass. -/
inductive ConsumerThread where
  | sleeping
  | relaying (w : Parked st State Int)
  | returned

structure Consumer where
  client : Client
  thread : ConsumerThread := .sleeping
  out : Bytes := []
  sent : List Bytes := []

structure Broadcast where
  globals : Globals
  client : Client := {}
  thread : PublisherThread := .sleeping
  consumers : List Consumer
  published : List Published := []

namespace Broadcast

/-! ## Steps -/

/-- What follows a receive in the publisher loop: the header length is stored
and the slot set. -/
def publish (s : State) (headerLength : Nat) : Globals :=
  (s.globals.setHeader s.globals.currCsid
    { s.globals.header s.globals.currCsid with headerLength }).setSlot .audioVideoData

/-- One round of the publisher loop up to its `st_usleep(0)`; the result is what
`recv_audio_video` returned. -/
def publisherRound : Routine Int := do
  let (rc, bhSize, mhSize) ← recvAudioVideo
  modify fun s => { s with globals := publish s (bhSize + mhSize) }
  return rc

/-- The publisher has run up to `stop`, and the broadcast is what it has left. -/
def publisherStopped (b : Broadcast) : Stop st State (Int × Nat × Nat) × State → Broadcast
  | (.parked w, s) => { b with globals := s.globals, client := s.client, thread := .receiving w }
  | (.done (rc, bhSize, mhSize), s) =>
    { b with
      globals := publish s (bhSize + mhSize)
      client := s.client
      thread := .sleeping
      published := b.published ++ [
        { rc
          header := (publish s (bhSize + mhSize)).header s.globals.currCsid
          payload := (s.buffer .audioVideoBuffer).drop (bhSize + mhSize) }] }

/-- Consumer `i` has run up to `stop`: at the end of a pass it resets the slot. -/
def consumerStopped (b : Broadcast) (i : Nat) (c : Consumer) : Stop st State Int × State → Broadcast
  | (.parked w, s) =>
    { b with
      globals := s.globals
      consumers := b.consumers.set i { c with client := s.client, thread := .relaying w } }
  | (.done rc, s) =>
    if rc = -1 then
      { b with
        globals := s.globals
        consumers := b.consumers.set i { c with client := s.client, thread := .returned } }
    else
      { b with
        globals := s.globals.setSlot .null
        consumers := b.consumers.set i
          { client := s.client, thread := .sleeping, out := [], sent := c.sent ++ [c.out] } }

/-- The bytes of a `writev` that its answer says were taken, which are those at the front. -/
def taken : Call × Answer → Bytes
  | (.writev bytes, .wrote n) => bytes.take n
  | _ => []

/-- Who is scheduled, and what his blocking call answers. A turn of somebody whose call does
not fit the answer is none. -/
inductive Turn where
  | publisher (x : Answer)
  | consumer (i : Nat) (x : Answer)
  deriving DecidableEq

def publisherStep (fuel : Nat) (b : Broadcast) (x : Answer) : Option Broadcast :=
  match b.thread with
  | .sleeping =>
    if x = .wake then
      (advance fuel recvAudioVideo
        (State.setBuffer ⟨b.globals, b.client⟩ .audioVideoBuffer [])).map b.publisherStopped
    else none
  | .receiving w =>
    match answer w.call x with
    | none => none
    | some r => (advance fuel (w.resume r) ⟨b.globals, b.client⟩).map b.publisherStopped

def consumerStep (fuel : Nat) (b : Broadcast) (i : Nat) (c : Consumer) (x : Answer) :
    Option Broadcast :=
  match c.thread with
  | .sleeping =>
    if x = .wake then
      match b.globals.slot with
      | none => none
      | some .null => some b
      | some .audioVideoData =>
        (advance fuel relayPass ⟨b.globals, c.client⟩).map (b.consumerStopped i c)
    else none
  | .relaying w =>
    match answer w.call x with
    | none => none
    | some r =>
      (advance fuel (w.resume r) ⟨b.globals, c.client⟩).map
        (b.consumerStopped i { c with out := c.out ++ taken (w.call, x) })
  | .returned => none

/-- One coroutine runs from its blocking call to the next, and all the others stay where
they are. -/
def step (fuel : Nat) (b : Broadcast) : Turn → Option Broadcast
  | .publisher x => publisherStep fuel b x
  | .consumer i x =>
    match b.consumers[i]? with
    | none => none
    | some c => consumerStep fuel b i c x

/-- The steps of a schedule, one after the other, as long as each of them is possible. -/
def run (fuel : Nat) (b : Broadcast) : List Turn → Option Broadcast
  | [] => some b
  | t :: ts => do run fuel (← step fuel b t) ts

/-- A step of anybody, with whatever answer and whatever fuel. -/
def Step (b b' : Broadcast) : Prop := ∃ fuel t, b.step fuel t = some b'

theorem run_steps {fuel : Nat} (ts : List Turn) :
    ∀ {b b' : Broadcast}, b.run fuel ts = some b' → Relation.ReflTransGen Step b b' := by
  induction ts with
  | nil =>
    intro b b' h
    cases h
    exact .refl
  | cons t ts ih =>
    intro b b' h
    obtain ⟨b1, hstep, hrun⟩ := Option.bind_eq_some_iff.mp h
    exact .head ⟨fuel, t, hstep⟩ (ih hrun)

/-! ## Runs in which nobody is disturbed -/

/-- The publisher is in its loop: asleep, or on the way through a receive that
began with an empty buffer and that nobody has interfered with. -/
def Publishing (b : Broadcast) : Prop :=
  ∀ w, b.thread = .receiving w → ∃ s tr, s.buffer .audioVideoBuffer = [] ∧
    Reached answer recvAudioVideo s tr w ⟨b.globals, b.client⟩

/-- The consumers enter their loops while the slot is empty, and nothing has been published
or sent yet. -/
structure Start (b : Broadcast) : Prop where
  slot : b.globals.slot = some .null
  publishing : b.Publishing
  published : b.published = []
  consumers : ∀ c ∈ b.consumers, c.client.chunkSize = 4096 ∧ c.thread = .sleeping ∧
    c.out = [] ∧ c.sent = []

/-- A step that disturbs nobody: the publisher leaves its `st_usleep(0)` only
when the slot has been reset, and what it publishes is a whole message that a
pass can send. -/
structure Orderly (b : Broadcast) (t : Turn) (b' : Broadcast) : Prop where
  waits : ∀ x, t = .publisher x → b.thread = .sleeping → b.globals.slot = some .null
  complete : ∀ m ∈ b'.published, m.Complete

/-- A consumer that finds the slot set is consumer `k`, so that no other one begins a pass. -/
def TakenBy (k : Nat) (b : Broadcast) (t : Turn) : Prop :=
  ∀ i x c, t = .consumer i x → b.consumers[i]? = some c → c.thread = .sleeping →
    b.globals.slot = some .audioVideoData → i = k

/-- A step of that kind, in which the first consumer to see a message may be any. -/
def OrderlyStep (b b' : Broadcast) : Prop :=
  ∃ fuel t, b.step fuel t = some b' ∧ b.Orderly t b'

/-- A step of that kind in which nobody but consumer `k` takes a message. -/
def OrderlyStepBy (k : Nat) (b b' : Broadcast) : Prop :=
  ∃ fuel t, b.step fuel t = some b' ∧ b.Orderly t b' ∧ b.TakenBy k t

/-- `waits`, to be evaluated on a schedule. -/
def mayRun (b : Broadcast) : Turn → Bool
  | .publisher _ =>
    match b.thread with
    | .sleeping => b.globals.slot = some .null
    | .receiving _ => true
  | .consumer _ _ => true

/-- `TakenBy`, to be evaluated on a schedule. -/
def mayTake (k : Nat) (b : Broadcast) : Turn → Bool
  | .publisher _ => true
  | .consumer i _ => b.globals.slot ≠ some .audioVideoData ∨ i = k ∨
    (b.consumers[i]?.any fun c =>
      match c.thread with
      | .sleeping => false
      | _ => true)

/-- A schedule, as long as each of its steps is of that kind. -/
def runBy (k fuel : Nat) (b : Broadcast) : List Turn → Option Broadcast
  | [] => some b
  | t :: ts =>
    match b.step fuel t with
    | none => none
    | some b' =>
      if b.mayRun t ∧ b.mayTake k t ∧ ∀ m ∈ b'.published, m.Complete then runBy k fuel b' ts
      else none

theorem runBy_steps {k fuel : Nat} (ts : List Turn) :
    ∀ {b b' : Broadcast}, b.runBy k fuel ts = some b' →
      Relation.ReflTransGen (OrderlyStepBy k) b b' := by
  induction ts with
  | nil =>
    intro b b' h
    cases h
    exact .refl
  | cons t ts ih =>
    intro b b' h
    rw [runBy] at h
    cases hstep : b.step fuel t with
    | none =>
      rw [hstep] at h
      cases h
    | some b1 =>
      rw [hstep] at h
      obtain ⟨⟨hrun, htake, hcomplete⟩, h⟩ := Option.ite_none_right_eq_some.mp h
      refine .head ⟨fuel, t, hstep, ⟨?_, hcomplete⟩, ?_⟩ (ih h)
      · intro x ht hthread
        subst ht
        simpa [mayRun, hthread] using hrun
      · intro i x c ht hc hthread hslot
        subst ht
        simpa [mayTake, hslot, hc, hthread] using htake

/-- Either the slot is empty, no pass is under way and everything published has
been sent by `k`; or it is set, the publisher sleeps, the last message stands
in the buffer, and `k` has sent everything else or is about to send it. -/
inductive Phase (k : Nat) (b : Broadcast) : Prop where
  | empty (slot : b.globals.slot = some .null) (publishing : b.Publishing)
      (idle : ∀ c, b.consumers[k]? = some c → ∀ w, c.thread ≠ .relaying w)
      (sent : ∀ c, b.consumers[k]? = some c → c.sent = b.published.map Published.encode)
  | full (old : List Published) (m : Published) (thread : b.thread = .sleeping)
      (published : b.published = old ++ [m]) (ready : Ready b.globals m.header m.payload)
      (relaying : ∀ c, b.consumers[k]? = some c → ∀ w, c.thread = .relaying w → ∃ tr,
        c.out = tr.flatMap taken ∧
        Reached answer relayPass ⟨b.globals, c.client⟩ tr w ⟨b.globals, c.client⟩)
      (sent : ∀ c, b.consumers[k]? = some c → c.sent = old.map Published.encode)

/-- The invariant of the runs in which only `k` takes messages: where the broadcast is
between two messages, and what has been sent by then. -/
structure Inv (k : Nat) (b : Broadcast) : Prop where
  phase : b.Phase k
  complete : ∀ m ∈ b.published, m.Complete
  chunkSize : ∀ c ∈ b.consumers, c.client.chunkSize = 4096
  out : ∀ c ∈ b.consumers, c.thread = .sleeping → c.out = []
  others : ∀ i c, b.consumers[i]? = some c → i ≠ k → c.sent = [] ∧ ∀ w, c.thread ≠ .relaying w

theorem Start.inv {b : Broadcast} (h : b.Start) (k : Nat) : b.Inv k where
  phase := .empty h.slot h.publishing
    (fun c hc w hw => by
      have hthread := (h.consumers c (List.mem_of_getElem? hc)).2.1
      rw [hthread] at hw
      cases hw)
    (fun c hc => by
      rw [h.published, (h.consumers c (List.mem_of_getElem? hc)).2.2.2]
      rfl)
  complete := fun m hm => by
    rw [h.published] at hm
    cases hm
  chunkSize := fun c hc => (h.consumers c hc).1
  out := fun c hc _ => (h.consumers c hc).2.2.1
  others := fun i c hc _ => by
    obtain ⟨_, hthread, _, hsent⟩ := h.consumers c (List.mem_of_getElem? hc)
    refine ⟨hsent, fun w hw => ?_⟩
    rw [hthread] at hw
    cases hw

/-! ### Steps of the publisher -/

theorem header_publish (s : State) (n : Nat) (csid : Int) : (publish s n).header csid =
    (s.globals.setHeader s.globals.currCsid
      { s.globals.header s.globals.currCsid with headerLength := n }).header csid := rfl

/-- The message as `publish` leaves it: complete, with its record and its bytes where a pass
finds them. -/
theorem ready_publish {s : State} {headerLength : Nat} {m : MessageHeader}
    (hslot : s.globals.slot ≠ none) (hm : s.globals.csidHeader s.globals.currCsid = some m)
    (hlen : (s.buffer .audioVideoBuffer).length = headerLength + m.messageLength.toNat)
    (hne : (s.buffer .audioVideoBuffer).drop headerLength ≠ []) :
    Ready (publish s headerLength) ((publish s headerLength).header s.globals.currCsid)
      ((s.buffer .audioVideoBuffer).drop headerLength) := by
  have hget : s.globals.header s.globals.currCsid = m := by
    rw [Globals.header, hm]
    rfl
  have hentry : (publish s headerLength).csidHeader s.globals.currCsid
      = some { m with headerLength } := by
    rw [publish, hget, Globals.setSlot_csidHeader, Globals.csidHeader_setHeader]
  have hheader : (publish s headerLength).header s.globals.currCsid = { m with headerLength } := by
    rw [Globals.header, hentry]
    rfl
  have hpos := List.length_pos_iff.mpr hne
  rw [List.length_drop] at hpos
  rw [hheader]
  refine ⟨Globals.slot_setSlot hslot, hentry,
    ⟨(s.buffer .audioVideoBuffer).take headerLength, ?_, ?_⟩, ?_⟩
  · exact (List.take_append_drop headerLength _).symm
  · rw [List.length_take, Nat.min_eq_left (by omega)]
  · rw [List.length_drop]
    show m.messageLength = _
    omega

/-- A receive does not touch the consumers, neither their descriptors nor their slots. -/
def SameConsumers (s s' : State) : Prop := s'.globals.consumers = s.globals.consumers

theorem sameConsumers_refl (s : State) : SameConsumers s s := rfl

theorem sameConsumers_trans (s t u : State) (h : SameConsumers s t) (h' : SameConsumers t u) :
    SameConsumers s u :=
  h'.trans h

theorem recvAudioVideo_sameConsumers : recvAudioVideo.Keeps SameConsumers :=
  recvAudioVideo_keeps sameConsumers_refl (fun _ _ => rfl) (fun _ _ => rfl) fun _ _ _ => rfl

/-- Where the publisher stops, the invariant holds again, if it held while it
was receiving alone. -/
theorem inv_publisherStopped {k : Nat} {b : Broadcast} {s s' : State} {tr : List (Call × Answer)}
    {stop : Stop st State (Int × Nat × Nat)} (hinv : b.Inv k) (hslot : b.globals.slot = some .null)
    (hempty : s.buffer .audioVideoBuffer = []) (hs : s.globals.consumers = b.globals.consumers)
    (hstop : Stopped answer recvAudioVideo s tr s' stop)
    (hcomplete : ∀ m ∈ (b.publisherStopped (stop, s')).published, m.Complete) :
    (b.publisherStopped (stop, s')).Inv k := by
  have hconsumers : s'.globals.consumers = b.globals.consumers :=
    (Stopped.keeps sameConsumers_refl sameConsumers_trans hstop
      recvAudioVideo_sameConsumers).trans hs
  have hslot' : s'.globals.slot = some .null := (Globals.slot_congr hconsumers).trans hslot
  cases hinv.phase with
  | full old m _ _ hready _ _ =>
    have hset := hready.slot
    rw [hslot] at hset
    cases hset
  | empty _ _ hidle hsent =>
    cases stop with
    | parked w =>
      refine ⟨.empty hslot' ?_ hidle hsent, hinv.complete, hinv.chunkSize, hinv.out, hinv.others⟩
      intro w' hw
      cases hw
      exact ⟨s, tr, hempty, hstop⟩
    | done r =>
      obtain ⟨rc, bhSize, mhSize⟩ := r
      let m : Published :=
        { rc
          header := (publish s' (bhSize + mhSize)).header s'.globals.currCsid
          payload := (s'.buffer .audioVideoBuffer).drop (bhSize + mhSize) }
      have hm : m.Complete := hcomplete m (List.mem_append_right _ (List.mem_singleton_self m))
      have hrc : rc ≠ -1 := by
        rw [show rc = 0 from hm.1]
        decide
      obtain ⟨_, h, hentry, hlen⟩ := wlp_recvAudioVideo hempty _ _ _ hstop hrc
      have hready : Ready (publish s' (bhSize + mhSize)) m.header m.payload :=
        ready_publish (by rw [hslot']; simp) hentry hlen hm.2.2.1
      exact ⟨.full b.published m rfl rfl hready (fun c hc w hw => absurd hw (hidle c hc w)) hsent,
        hcomplete, hinv.chunkSize, hinv.out, hinv.others⟩

/-! ### Steps of a consumer -/

/-- What a recording says was written, the front parts of failed writes left out. -/
theorem writes_replay : Writes (replay answer) fun e => e.2.flatMap taken := by
  intro bytes n h e e' he
  obtain ⟨x, hx, htr⟩ := replay_eq_some he
  cases x with
  | wrote n' =>
    simp only [answer] at hx
    split at hx
    · cases hx
      simp [htr, taken]
    · cases hx
  | error => cases hx
  | bytes bs => cases hx
  | wake => cases hx

/-- Only consumer `k` has changed, and the invariant is one of the others. -/
theorem Inv.set {k : Nat} {b b' : Broadcast} {c : Consumer} (hinv : b.Inv k) (hphase : b'.Phase k)
    (hset : b'.consumers = b.consumers.set k c) (hpub : b'.published = b.published)
    (hcs : c.client.chunkSize = 4096) (hout : c.thread = .sleeping → c.out = []) : b'.Inv k where
  phase := hphase
  complete := fun m hm => hinv.complete m (hpub ▸ hm)
  chunkSize := fun c' hc' => by
    rw [hset] at hc'
    rcases List.mem_or_eq_of_mem_set hc' with hold | hnew
    · exact hinv.chunkSize c' hold
    · rw [hnew]
      exact hcs
  out := fun c' hc' => by
    rw [hset] at hc'
    rcases List.mem_or_eq_of_mem_set hc' with hold | hnew
    · exact hinv.out c' hold
    · rw [hnew]
      exact hout
  others := fun i c' hc' hne => by
    rw [hset, List.getElem?_set_ne (Ne.symm hne)] at hc'
    exact hinv.others i c' hc' hne

/-- Where the taker stops in its pass, or behind it, the invariant holds again. -/
theorem inv_consumerStopped {k : Nat} {b : Broadcast} {c : Consumer} {out : Bytes} {s' : State}
    {tr : List (Call × Answer)} {stop : Stop st State Int} {old : List Published} {m : Published}
    (hinv : b.Inv k) (hc : b.consumers[k]? = some c) (hthread : b.thread = .sleeping)
    (hpub : b.published = old ++ [m]) (hready : Ready b.globals m.header m.payload)
    (hsent : c.sent = old.map Published.encode) (hout : out = tr.flatMap taken)
    (hstop : Stopped answer relayPass ⟨b.globals, c.client⟩ tr s' stop) :
    (b.consumerStopped k { c with out } (stop, s')).Inv k := by
  -- the pass has changed nothing
  let R (s s' : State) : Prop := s.globals.csidHeader s.globals.currCsid ≠ none → s' = s
  have hrefl : ∀ s, R s s := fun _ _ => rfl
  have htrans : ∀ s t u, R s t → R t u → R s u := by
    intro s t u h h' hs
    have ht := h hs
    rw [← ht] at hs ⊢
    exact h' hs
  have hentry : b.globals.csidHeader b.globals.currCsid ≠ none := by
    rw [hready.entry]
    simp
  have hsame : s' = ⟨b.globals, c.client⟩ :=
    Stopped.keeps hrefl htrans hstop relayPass_keeps hentry
  subst hsame
  have hcs : c.client.chunkSize = 4096 := hinv.chunkSize c (List.mem_of_getElem? hc)
  have hlt : k < b.consumers.length := (List.getElem?_eq_some_iff.mp hc).1
  have hget : ∀ {c' c''}, (b.consumers.set k c')[k]? = some c'' → c'' = c' := by
    intro c' c'' h
    rw [List.getElem?_set_self hlt, Option.some.injEq] at h
    exact h.symm
  cases stop with
  | parked w =>
    refine hinv.set (.full old m hthread hpub hready ?_ ?_) rfl rfl hcs (fun h => nomatch h)
    · intro c' hc' w' hw
      cases hget hc'
      cases hw
      exact ⟨tr, hout, hstop⟩
    · intro c' hc'
      cases hget hc'
      exact hsent
  | done rc =>
    rw [consumerStopped]
    by_cases hrc : rc = -1
    · rw [if_pos hrc]
      refine hinv.set (.full old m hthread hpub hready ?_ ?_) rfl rfl hcs (fun h => nomatch h)
      · intro c' hc' w hw
        cases hget hc'
        cases hw
      · intro c' hc'
        cases hget hc'
        exact hsent
    · rw [if_neg hrc]
      -- the pass is over, and has written the message
      have hm : m.Complete := hinv.complete m (by rw [hpub]; simp)
      have hwrote : out = m.encode := by
        have hrelay : Relayable c.client.chunkSize m.header m.payload := by
          rw [hcs]
          exact hm.2
        have h := (wlp_relayPass writes_replay (s := ⟨b.globals, c.client⟩) hready hrelay
          (by rw [hcs]; decide) _ _ _ hstop).2 hrc
        rw [hout, Published.encode, ← hcs]
        simpa using h
      refine hinv.set (.empty (Globals.slot_setSlot (by rw [hready.slot]; simp)) ?_ ?_ ?_) rfl rfl
        hcs (fun _ => rfl)
      · intro w hw
        rw [show b.thread = .receiving w from hw] at hthread
        cases hthread
      · intro c' hc' w hw
        cases hget hc'
        cases hw
      · intro c' hc'
        cases hget hc'
        show c.sent ++ [out] = _
        rw [hsent, hwrote, hpub]
        simp

/-! ### Runs -/

theorem inv_publisherStep {k fuel : Nat} {b b' : Broadcast} {x : Answer} (hinv : b.Inv k)
    (hstep : publisherStep fuel b x = some b') (horderly : b.Orderly (.publisher x) b') :
    b'.Inv k := by
  unfold publisherStep at hstep
  cases hthread : b.thread with
  | sleeping =>
    rw [hthread] at hstep
    by_cases hx : x = .wake
    · simp only [if_pos hx] at hstep
      obtain ⟨⟨stop, s'⟩, hadv, rfl⟩ := Option.map_eq_some_iff.mp hstep
      exact inv_publisherStopped hinv (horderly.waits x rfl hthread) rfl rfl
        (stopped_of_advance hadv) horderly.complete
    · simp only [if_neg hx] at hstep
      cases hstep
  | receiving w =>
    rw [hthread] at hstep
    cases hinv.phase with
    | full old m hsleep _ _ _ _ =>
      rw [hthread] at hsleep
      cases hsleep
    | empty hslot hpublishing _ _ =>
      obtain ⟨s, tr, hempty, hreached⟩ := hpublishing w hthread
      have hs : SameConsumers s ⟨b.globals, b.client⟩ :=
        (Reached.keeps sameConsumers_refl sameConsumers_trans hreached
          recvAudioVideo_sameConsumers).1
      cases hr : answer w.call x with
      | none =>
        simp only [hr] at hstep
        cases hstep
      | some r =>
        simp only [hr] at hstep
        obtain ⟨⟨stop, s'⟩, hadv, rfl⟩ := Option.map_eq_some_iff.mp hstep
        exact inv_publisherStopped hinv hslot hempty hs.symm (hreached.stopped hr hadv)
          horderly.complete

theorem inv_consumerStep {k fuel i : Nat} {b b' : Broadcast} {c : Consumer} {x : Answer}
    (hinv : b.Inv k) (hc : b.consumers[i]? = some c)
    (hstep : consumerStep fuel b i c x = some b') (htaken : b.TakenBy k (.consumer i x)) :
    b'.Inv k := by
  unfold consumerStep at hstep
  cases hthread : c.thread with
  | returned =>
    rw [hthread] at hstep
    cases hstep
  | sleeping =>
    rw [hthread] at hstep
    by_cases hx : x = .wake
    · simp only [if_pos hx] at hstep
      cases hphase : hinv.phase with
      | empty hslot _ _ _ =>
        simp only [hslot] at hstep
        cases hstep
        exact hinv
      | full old m hsleep hpub hready _ hsent =>
        simp only [hready.slot] at hstep
        obtain ⟨⟨stop, s'⟩, hadv, rfl⟩ := Option.map_eq_some_iff.mp hstep
        obtain rfl := htaken i x c rfl hc hthread hready.slot
        have hout : c.out = ([] : List (Call × Answer)).flatMap taken :=
          hinv.out c (List.mem_of_getElem? hc) hthread
        exact inv_consumerStopped hinv hc hsleep hpub hready (hsent c hc) hout
          (stopped_of_advance hadv)
    · simp only [if_neg hx] at hstep
      cases hstep
  | relaying w =>
    rw [hthread] at hstep
    -- only `k` can be in a pass, and only while the slot is set
    by_cases hk : i = k
    case neg => exact absurd hthread ((hinv.others i c hc hk).2 w)
    subst hk
    cases hr : answer w.call x with
    | none =>
      simp only [hr] at hstep
      cases hstep
    | some r =>
      simp only [hr] at hstep
      rw [← hthread] at hstep
      obtain ⟨⟨stop, s'⟩, hadv, rfl⟩ := Option.map_eq_some_iff.mp hstep
      cases hinv.phase with
      | empty _ _ hidle _ => exact absurd hthread (hidle c hc w)
      | full old m hsleep hpub hready hrelaying hsent =>
        obtain ⟨tr, hout, hreached⟩ := hrelaying c hc w hthread
        refine inv_consumerStopped hinv hc hsleep hpub hready (hsent c hc) ?_
          (hreached.stopped hr hadv)
        rw [hout]
        simp

theorem inv_step {k : Nat} {b b' : Broadcast} (hinv : b.Inv k) (h : b.OrderlyStepBy k b') :
    b'.Inv k := by
  obtain ⟨fuel, t, hstep, horderly, htaken⟩ := h
  cases t with
  | publisher x => exact inv_publisherStep hinv hstep horderly
  | consumer i x =>
    unfold step at hstep
    cases hc : b.consumers[i]? with
    | none =>
      simp only [hc] at hstep
      cases hstep
    | some c =>
      simp only [hc] at hstep
      exact inv_consumerStep hinv hc hstep htaken

/-- The invariant holds in every state that such steps reach, by induction over the steps. -/
theorem inv_run {k : Nat} {b₀ b : Broadcast} (hstart : b₀.Start)
    (hrun : Relation.ReflTransGen (OrderlyStepBy k) b₀ b) : b.Inv k := by
  induction hrun with
  | refl => exact hstart.inv k
  | tail _ hstep ih => exact inv_step ih hstep

/-! ## Each pass sends one message -/

/-- What every pass and every look at the slot is to find: what a completed
pass wrote is one message that was received to its end, and while the slot is
set such a message stands in the buffer. -/
structure PassesWhole (b : Broadcast) : Prop where
  sent : ∀ c ∈ b.consumers, ∀ bytes ∈ c.sent, ∃ m ∈ b.published, m.rc = 0 ∧ bytes = m.encode
  slot : b.globals.slot = some .audioVideoData → b.thread = .sleeping ∧
    ∃ m ∈ b.published, m.rc = 0 ∧ Ready b.globals m.header m.payload

/-- Among the consumers nobody but `k` has sent anything; `k` has sent what was
published, but perhaps the last message. -/
theorem Inv.sent_of_published {k : Nat} {b : Broadcast} (hinv : b.Inv k) {i : Nat} {c : Consumer}
    (hc : b.consumers[i]? = some c) : c.sent <+: b.published.map Published.encode := by
  by_cases hi : i = k
  · subst hi
    cases hinv.phase with
    | empty _ _ _ hsent => exact hsent c hc ▸ List.prefix_rfl
    | full old m _ hpub _ _ hsent =>
      rw [hsent c hc, hpub, List.map_append]
      exact List.prefix_append _ _
  · rw [(hinv.others i c hc hi).1]
    exact List.nil_prefix

theorem Inv.passesWhole {k : Nat} {b : Broadcast} (hinv : b.Inv k) : b.PassesWhole where
  sent := fun c hc bytes hbytes => by
    obtain ⟨i, hi⟩ := List.getElem?_of_mem hc
    obtain ⟨m, hm, heq⟩ := List.mem_map.mp ((hinv.sent_of_published hi).subset hbytes)
    exact ⟨m, hm, (hinv.complete m hm).1, heq.symm⟩
  slot := fun hslot => by
    cases hinv.phase with
    | empty hempty _ _ _ =>
      rw [hslot] at hempty
      cases hempty
    | full old m hsleep hpub hready _ _ =>
      have hm : m ∈ b.published := by
        rw [hpub]
        exact List.mem_append_right _ (List.mem_singleton_self m)
      exact ⟨hsleep, m, hm, (hinv.complete m hm).1, hready⟩

/-- No step adds a consumer or takes one away. -/
theorem step_consumers_length {fuel : Nat} {b b' : Broadcast} {t : Turn}
    (h : b.step fuel t = some b') : b'.consumers.length = b.consumers.length := by
  have hpub : ∀ r, (b.publisherStopped r).consumers = b.consumers := by
    intro ⟨stop, s⟩
    cases stop <;> rfl
  have hcons : ∀ i c r, (b.consumerStopped i c r).consumers.length = b.consumers.length := by
    intro i c ⟨stop, s⟩
    cases stop with
    | parked w => exact List.length_set
    | done rc =>
      rw [consumerStopped]
      split <;> exact List.length_set
  cases t with
  | publisher x =>
    rw [step, publisherStep] at h
    split at h
    · split at h
      · obtain ⟨r, _, rfl⟩ := Option.map_eq_some_iff.mp h
        rw [hpub]
      · cases h
    · split at h
      · cases h
      · obtain ⟨r, _, rfl⟩ := Option.map_eq_some_iff.mp h
        rw [hpub]
  | consumer i x =>
    rw [step] at h
    split at h
    · cases h
    rw [consumerStep] at h
    split at h
    · split at h
      · split at h
        · cases h
        · cases h
          rfl
        · obtain ⟨r, _, rfl⟩ := Option.map_eq_some_iff.mp h
          exact hcons i _ r
      · cases h
    · split at h
      · cases h
      · obtain ⟨r, _, rfl⟩ := Option.map_eq_some_iff.mp h
        exact hcons i _ r
    · cases h

/-- A lone consumer is the only one to take messages, so every orderly step is one of his. -/
theorem orderlyStepBy_of_one {b₀ b : Broadcast} (hone : b₀.consumers.length = 1)
    (hrun : Relation.ReflTransGen OrderlyStep b₀ b) :
    b.consumers.length = 1 ∧ Relation.ReflTransGen (OrderlyStepBy 0) b₀ b := by
  induction hrun with
  | refl => exact ⟨hone, .refl⟩
  | tail _ hstep ih =>
    obtain ⟨hlen, hrun⟩ := ih
    obtain ⟨fuel, t, hstep, horderly⟩ := hstep
    refine ⟨(step_consumers_length hstep).trans hlen, hrun.tail ⟨fuel, t, hstep, horderly, ?_⟩⟩
    intro i x c _ hc _ _
    have hi := (List.getElem?_eq_some_iff.mp hc).1
    omega

/-- One consumer, in a run whose steps are orderly: every pass of its loop
writes the chunks of exactly one completely received message, and the slot is
only ever set while such a message stands in the buffer. -/
theorem pass_sends_one_message {b₀ b : Broadcast} (hstart : b₀.Start)
    (hone : b₀.consumers.length = 1) (hrun : Relation.ReflTransGen OrderlyStep b₀ b) :
    b.PassesWhole :=
  (inv_run hstart (orderlyStepBy_of_one hone hrun).2).passesWhole

/-- Consumers that have just entered their loops, one for each descriptor, the first of them
in front of the map. -/
def enter (stfds : List Nat) : Broadcast where
  globals := { consumers := stfds.map fun stfd => (stfd, .null) }
  consumers := stfds.map fun stfd => { client := { stfdClient := stfd, chunkSize := 4096 } }

theorem enter_start (stfd : Nat) (stfds : List Nat) : (enter (stfd :: stfds)).Start where
  slot := rfl
  publishing := fun w hw => nomatch hw
  published := rfl
  consumers := fun c hc => by
    obtain ⟨fd, _, rfl⟩ := List.mem_map.mp hc
    exact ⟨rfl, rfl, rfl, rfl⟩

/-- The publisher wakes up and receives a video message, read by read. -/
def receive (payload : Bytes) : List Turn :=
  [.publisher .wake, .publisher (.bytes [6]),
   .publisher (.bytes [0, 0, 0, 0, 0, UInt8.ofNat payload.length, 9, 1, 0, 0, 0]),
   .publisher (.bytes payload)]

/-- Consumer `i` sends a message with `n` payload bytes, which is one write here. -/
def relay (i n : Nat) : List Turn := [.consumer i .wake, .consumer i (.wrote (12 + n))]

theorem orderlyStep_of_by {k : Nat} (b b' : Broadcast) (h : b.OrderlyStepBy k b') :
    b.OrderlyStep b' := by
  obtain ⟨fuel, t, hstep, horderly, _⟩ := h
  exact ⟨fuel, t, hstep, horderly⟩

/-- Two messages, one after the other, each of them sent in its own pass. -/
theorem pass_sends_one_message_two :
    ∃ b, (enter [5]).runBy 0 20 (receive [1, 2] ++ relay 0 2 ++ receive [3] ++ relay 0 1) = some b ∧
      b.consumers.map (fun c => c.sent.length) = [2] ∧ b.PassesWhole := by
  have hrun : ((enter [5]).runBy 0 20
      (receive [1, 2] ++ relay 0 2 ++ receive [3] ++ relay 0 1)).map
        (fun b => b.consumers.map fun c => c.sent.length) = some [2] := by decide
  obtain ⟨b, hb, hsent⟩ := Option.map_eq_some_iff.mp hrun
  exact ⟨b, hb, hsent, pass_sends_one_message (enter_start 5 []) rfl
    (Relation.ReflTransGen.mono orderlyStep_of_by _ _ (runBy_steps _ hb))⟩

theorem encode_ne_nil (m : Published) : m.encode ≠ [] := by
  rw [Published.encode, relayed, frame_hdr]
  exact List.cons_ne_nil _ _

/-- The publisher wakes up first, clears the buffer and has read one byte of
the next message when the consumer finds the slot set: its pass sends nothing. -/
theorem pass_sends_nothing :
    ¬ ∀ b, Relation.ReflTransGen Step (enter [5]) b → b.PassesWhole := by
  intro h
  have hrun : ((enter [5]).run 20 (receive [1, 2] ++
      [.publisher .wake, .publisher (.bytes [6]), .consumer 0 .wake])).map
        (fun b => b.consumers.map Consumer.sent) = some [[[]]] := by decide
  obtain ⟨b, hb, hsent⟩ := Option.map_eq_some_iff.mp hrun
  obtain ⟨c, hc, hcs⟩ := List.mem_map.mp (hsent.symm ▸ List.mem_singleton_self ([[]] : List Bytes))
  obtain ⟨m, _, _, hm⟩ := (h b (run_steps _ hb)).sent c hc [] (hcs.symm ▸ List.mem_singleton_self _)
  exact encode_ne_nil m hm.symm

/-! ## No message is lost or repeated -/

/-- Any number of consumers, in a run whose steps are orderly and in which only
consumer `k` takes messages: what each of them has sent is a prefix of what was
published. -/
theorem sent_prefix_published (k : Nat) {b₀ b : Broadcast} (hstart : b₀.Start)
    (hrun : Relation.ReflTransGen (OrderlyStepBy k) b₀ b) :
    ∀ c ∈ b.consumers, c.sent <+: b.published.map Published.encode := by
  intro c hc
  obtain ⟨i, hi⟩ := List.getElem?_of_mem hc
  exact (inv_run hstart hrun).sent_of_published hi

/-- Two consumers, of which the first takes both messages and is sent both, and the other
nothing. -/
theorem sent_prefix_published_two :
    ∃ b, (enter [5, 6]).runBy 0 20 (receive [1, 2] ++ relay 0 2 ++
        [.consumer 1 .wake] ++ receive [3] ++ relay 0 1) = some b ∧
      b.consumers.map (fun c => c.sent.length) = [2, 0] ∧
      ∀ c ∈ b.consumers, c.sent <+: b.published.map Published.encode := by
  have hrun : ((enter [5, 6]).runBy 0 20 (receive [1, 2] ++ relay 0 2 ++
      [.consumer 1 .wake] ++ receive [3] ++ relay 0 1)).map
        (fun b => b.consumers.map fun c => c.sent.length) = some [2, 0] := by decide
  obtain ⟨b, hb, hsent⟩ := Option.map_eq_some_iff.mp hrun
  exact ⟨b, hb, hsent, sent_prefix_published 0 (enter_start 5 [6]) (runBy_steps _ hb)⟩

theorem encode_suffix {m : Published} (h : m.payload.length ≤ 4096) : m.payload <:+ m.encode := by
  rw [Published.encode, relayed, frame_short h]
  exact List.suffix_append _ _

/-- When the second consumer takes the second message, it has not been sent the
first. -/
theorem second_message_taken :
    ¬ ∀ b, Relation.ReflTransGen Step (enter [5, 6]) b →
      ∀ c ∈ b.consumers, c.sent <+: b.published.map Published.encode := by
  intro h
  -- what the second consumer has sent, and the two messages
  have hrun : ((enter [5, 6]).run 20 (receive [1] ++ relay 0 1 ++ receive [2] ++ relay 1 1)).map
      (fun b => ((b.consumers[1]?.map Consumer.sent), b.published.map fun m => m.payload))
        = some (some [[6, 0, 0, 0, 0, 0, 1, 9, 1, 0, 0, 0, 2]], [[1], [2]]) := by decide
  obtain ⟨b, hb, heq⟩ := Option.map_eq_some_iff.mp hrun
  rw [Prod.mk.injEq] at heq
  obtain ⟨c, hc, hcs⟩ := Option.map_eq_some_iff.mp heq.1
  have hprefix := h b (run_steps _ hb) c (List.mem_of_getElem? hc)
  obtain ⟨m, ms, hms, hm, -⟩ := List.map_eq_cons_iff.mp heq.2
  rw [hcs, hms, List.map_cons, List.cons_prefix_cons] at hprefix
  have hsuffix := encode_suffix (m := m) (by rw [hm]; decide)
  rw [hm, ← hprefix.1] at hsuffix
  revert hsuffix
  decide

end Broadcast

end RtmpServer
