import RtmpServer.History
import RtmpServer.Server

/-!
# What a session does to `consumers`

Every call of `process_thread`, from one blocking call to the next
(`Step.call_stretches`): most leave `consumers` alone, the registration enters
the session, the publisher loop sets the first slot and a relay loop resets it.
`Tidy` is what these changes keep up: nothing is left in a slot behind the
first one, as long as keys come in only while all slots are empty.
-/

namespace RtmpServer

open Coroutine Coroutine.Prog

/-! ## What the calls do to `consumers` -/

/-- Neither `consumers` nor the descriptor has changed, whatever else has. -/
def SameRegistry (s s' : State) : Prop :=
  s'.globals.consumers = s.globals.consumers ∧ s'.client.stfdClient = s.client.stfdClient

theorem sameRegistry_closed : Closed SameRegistry where
  refl _ := ⟨rfl, rfl⟩
  trans _ _ _ h h' := ⟨h'.1.trans h.1, h'.2.trans h.2⟩
  buffer s b bytes := by
    cases b with
    | ioBuffer => exact ⟨rfl, rfl⟩
    | audioVideoBuffer => exact ⟨rfl, rfl⟩
  header _ _ _ := ⟨rfl, rfl⟩
  currCsid _ _ := ⟨rfl, rfl⟩
  message _ _ := ⟨rfl, rfl⟩
  metaData _ _ _ := ⟨rfl, rfl⟩

/-- `consumers.begin()->second = x`, in a session's state: only the first slot is another. -/
def State.setSlot (s : State) (x : Slot) : State := { s with globals := s.globals.setSlot x }

theorem SameRegistry.setSlot {s s' : State} (h : SameRegistry s s') (x : Slot) :
    SameRegistry (s.setSlot x) (s'.setSlot x) := by
  refine ⟨?_, h.2⟩
  show (s'.globals.setSlot x).consumers = (s.globals.setSlot x).consumers
  rw [Globals.setSlot, Globals.setSlot, h.1]

/-- A slot that has just been reset holds nothing, and without consumers there is none. -/
theorem setSlot_null_ne {g : Globals} : (g.setSlot .null).slot ≠ some .audioVideoData := by
  unfold Globals.slot Globals.setSlot
  cases g.consumers with
  | nil => exact fun h => nomatch h
  | cons c cs => exact fun h => nomatch h

namespace Step

/-- The pull branch returns only from these two calls, and only for an error. -/
def mayReturn (step : Step) : Bool := step = .readRest ∨ step = .relayLoop

/-- An answer that does not make a call of the pull branch return `-1`. -/
def Allows (step : Step) (c : Call) (r : c.Reply) : Prop :=
  step.mayReturn = true → answer c .error ≠ some r

/-- What a stretch of the call has done to `consumers` when it ends in `c`. -/
def Stops : Step → Call → State → State → Prop
  | .relayLoop, .stUsleep, s, s' =>
    (SameRegistry s s' ∨ SameRegistry (s.setSlot .null) s') ∧
      s'.globals.slot ≠ some .audioVideoData
  | .publishLoop, .stUsleep, s, s' =>
    SameRegistry s s' ∨ SameRegistry (s.setSlot .audioVideoData) s'
  | _, _, s, s' => SameRegistry s s'

/-- What a stretch of the call has done to `consumers` when the call returns
`rc`. -/
def Returns (order : Order) : Step → Int → State → State → Prop
  | .readRest, rc, s, s' => rc ≠ -1 ∧ SameRegistry s s'
  | .register, _, s, s' => SameRegistry (s.registered order) s'
  | .relayLoop, _, _, _ => False
  | .publishLoop, _, _, _ => False
  | _, _, s, s' => SameRegistry s s'

section

variable {step : Step} {order : Order}

theorem eq_sameRegistry (s s' : State) (h : s = s') : SameRegistry s s' := by
  rw [h]
  exact sameRegistry_closed.refl s'

/-- Most calls leave `consumers` alone in all their stretches, from one blocking call to the
next. -/
theorem keeps_stretches {α : Type} {p : Routine α} (hkeeps : p.Keeps SameRegistry)
    (hstep : step ≠ .relayLoop) :
    Stretches step.Allows step.Stops SameRegistry p fun _ => SameRegistry := by
  refine hkeeps.stretches sameRegistry_closed.refl sameRegistry_closed.trans ?_
  intro c s s' h
  cases step with
  | relayLoop => exact absurd rfl hstep
  | publishLoop =>
    cases c with
    | stUsleep => exact Or.inl h
    | stReadFully n => exact h
    | writev bytes => exact h
  | _ => exact h

/-- The rest of the first message has been read, unless a read fails. -/
theorem readRest_stretches : Stretches (Step.Allows .readRest) (Step.Stops .readRest) Eq
    (Step.readRest.call order) (Returns order .readRest) := by
  have hread : ∀ n, Stretches (Step.Allows .readRest) (Step.Stops .readRest) SameRegistry
      (stReadFully n) fun r s s' => r ≠ .error ∧ SameRegistry s s' := by
    intro n
    refine ⟨fun s s' h => h, fun r hr s s' h => ⟨fun herror => ?_, eq_sameRegistry s s' h⟩⟩
    rw [herror] at hr
    exact hr rfl rfl
  have hcycle : ∀ n, Stretches (Step.Allows .readRest) (Step.Stops .readRest) SameRegistry
      (readCycle n) fun r s s' => r.1 = 0 ∧ SameRegistry s s' := by
    intro n
    refine ⟨fun _ => SameRegistry, fun s s' h => h, fun buffer => stretches_ite (fun _ => ?_) ?_⟩
    · refine ⟨_, hread _, fun r => ?_⟩
      cases r with
      | error => exact fun s s' h => absurd rfl h.1
      | data bytes _ =>
        exact stretches_ite (fun _ s s' h => h.2) fun _ s s' h => ⟨rfl, h.2⟩
    · exact fun _ s s' h => ⟨rfl, h⟩
  refine ⟨fun r s s' => r.1 = 0 ∧ SameRegistry s s', ⟨fun _ => SameRegistry, ?_, fun size => ?_⟩,
    fun r s s' h => ⟨?_, h.2⟩⟩
  · exact stretches_gets eq_sameRegistry
  · refine stretches_ite (fun _ => ⟨_, hcycle _, fun r => ?_⟩) fun _ s s' h => ⟨rfl, h⟩
    refine stretches_ite (fun hrc s s' h => ?_) fun _ => ⟨fun _ => SameRegistry, ?_, fun _ s s' h =>
      ⟨rfl, h⟩⟩
    · rw [h.1] at hrc
      exact absurd hrc (by decide)
    · exact stretches_modify fun s s' h =>
        sameRegistry_closed.trans _ _ _ h.2 (sameRegistry_closed.append _ _ _)
  · rw [h.1]
    decide

/-- A pass leaves `consumers` alone, and is not broken off unless a write
fails. -/
theorem relayPass_stretches : Stretches (Step.Allows .relayLoop) (Step.Stops .relayLoop)
    SameRegistry relayPass fun rc s s' => rc ≠ -1 ∧ SameRegistry s s' := by
  have hcurr : Stretches (Step.Allows .relayLoop) (Step.Stops .relayLoop) SameRegistry currHeader
      fun _ => SameRegistry := by
    refine ⟨fun _ => SameRegistry, stretches_modify fun s s' h => ?_, fun _ => ?_⟩
    · exact sameRegistry_closed.trans _ _ _ h (sameRegistry_closed.header s' _ _)
    · exact stretches_gets fun s s' h => h
  have honce : ∀ bytes, Stretches (Step.Allows .relayLoop) (Step.Stops .relayLoop) SameRegistry
      (writevOnce bytes) fun r s s' => r ≠ .error ∧ SameRegistry s s' := by
    intro bytes
    refine ⟨fun s s' h => h, fun r hr s s' h => ⟨fun herror => ?_, eq_sameRegistry s s' h⟩⟩
    rw [herror] at hr
    exact hr rfl rfl
  have hst : ∀ iov n, Stretches (Step.Allows .relayLoop) (Step.Stops .relayLoop) SameRegistry
      (stWritev iov n) fun r s s' => r ≠ none ∧ SameRegistry s s' := by
    intro iov n
    refine ⟨fun _ => SameRegistry, fun s s' h => h, fun written =>
      stretches_ite (fun _ => ?_) fun _ s s' h => ⟨fun hnone => (nomatch hnone), h⟩⟩
    refine ⟨fun _ => SameRegistry, stretches_read fun s s' _ h _ => h, fun memory =>
      ⟨_, honce _, fun r => ?_⟩⟩
    cases r with
    | error => exact fun s s' h => absurd rfl h.1
    | wrote k _ => exact fun s s' h => h.2
  have hwritev : ∀ iov n, Stretches (Step.Allows .relayLoop) (Step.Stops .relayLoop) SameRegistry
      (writev iov n) fun r s s' => r.1 ≠ -1 ∧ SameRegistry s s' := by
    intro iov n
    refine ⟨_, hst iov n, fun r => ?_⟩
    cases r with
    | none => exact fun s s' h => absurd rfl h.1
    | some k => exact fun s s' h => ⟨show ¬ (0 : Int) = -1 by decide, h.2⟩
  refine ⟨fun _ => SameRegistry, hcurr, fun h => ⟨fun _ => SameRegistry,
    stretches_gets fun s s' h => h, fun chunkSize => ⟨fun _ => SameRegistry, fun s s' h => h, ?_⟩⟩⟩
  intro x
  refine ⟨fun _ => SameRegistry, stretches_read fun s s' _ h _ => h, fun size =>
    stretches_ite (fun _ => ⟨fun _ => SameRegistry, hcurr, fun h' => ⟨_, hwritev _ _, fun r => ?_⟩⟩)
      fun _ s s' h => ⟨show ¬ (0 : Int) = -1 by decide, h⟩⟩
  refine stretches_ite (fun hrc s s' h => absurd hrc h.1) fun _ => ⟨fun _ => SameRegistry, ?_,
    fun _ s s' h => h⟩
  exact Stretches.mono _ hcurr (fun s s' h => h.2) fun _ s s' h => h

/-- When the relay loop sleeps, the slot has been reset or was empty. -/
theorem relayLoop_stretches : Stretches (Step.Allows .relayLoop) (Step.Stops .relayLoop) Eq
    (Step.relayLoop.call order) (Returns order .relayLoop) := by
  have hsleep : ∀ {pre : State → State → Prop}, (∀ s s', pre s s' →
      (SameRegistry s s' ∨ SameRegistry (s.setSlot .null) s') ∧
        s'.globals.slot ≠ some .audioVideoData) →
      Stretches (Step.Allows .relayLoop) (Step.Stops .relayLoop) pre
        (Prog.bind stUsleep fun _ => Prog.ret (Sum.inl () : Unit ⊕ Int)) fun x s s' =>
          x = .inl () ∧ SameRegistry s s' := by
    intro pre h
    exact ⟨fun _ => Eq, ⟨h, fun _ _ s s' heq => heq⟩, fun _ s s' heq =>
      ⟨rfl, eq_sameRegistry s s' heq⟩⟩
  refine ⟨fun _ => SameRegistry, eq_sameRegistry, fun _ => ?_⟩
  refine Stretches.mono _ (show Stretches _ _ SameRegistry _ fun x s s' =>
    x = .inl () ∧ SameRegistry s s' from ?_) (fun _ _ h => h) ?_
  · refine ⟨fun slot s s' => SameRegistry s s' ∧ s'.globals.slot = some slot,
      stretches_read fun s s' _ h hslot => ⟨h, hslot⟩, fun slot =>
        stretches_ite (fun hnull => ?_) fun _ => ?_⟩
    · refine hsleep fun s s' h => ⟨Or.inl h.1, ?_⟩
      rw [h.2, hnull]
      exact fun hav => nomatch hav
    · refine ⟨_, Stretches.mono _ relayPass_stretches (fun s s' h => h.1) fun _ _ _ h => h,
        fun rc => stretches_ite (fun hrc s s' h => absurd hrc h.1) fun _ => ⟨fun _ s s' =>
          SameRegistry (s.setSlot .null) s' ∧ s'.globals.slot ≠ some .audioVideoData,
          stretches_modify fun s s' h => ?_, fun _ => hsleep fun s s' h => ⟨Or.inr h.1, h.2⟩⟩⟩
      exact ⟨h.2.setSlot .null, setSlot_null_ne⟩
  · intro x s s' h
    rw [h.1]
    exact h.2

/-- When the publisher sleeps, the slot has been set, or there was nobody to set it for. -/
theorem publishLoop_stretches : Stretches (Step.Allows .publishLoop) (Step.Stops .publishLoop) Eq
    (Step.publishLoop.call order) (Returns order .publishLoop) := by
  have hrecv : recvAudioVideo.Keeps SameRegistry :=
    recvAudioVideo_keeps sameRegistry_closed.refl
      (fun s bytes => sameRegistry_closed.buffer s _ bytes) sameRegistry_closed.currCsid
      sameRegistry_closed.header
  have hround : Stretches (Step.Allows .publishLoop) (Step.Stops .publishLoop) SameRegistry
      Broadcast.publisherRound fun _ s s' => SameRegistry (s.setSlot .audioVideoData) s' := by
    refine ⟨_, keeps_stretches hrecv (fun h => nomatch h), fun r => ⟨fun _ s s' =>
      SameRegistry (s.setSlot .audioVideoData) s', stretches_modify fun s s' h => ?_,
      fun _ s s' h => h⟩⟩
    exact (sameRegistry_closed.trans _ _ _ h (sameRegistry_closed.header s' _ _)).setSlot _
  refine ⟨fun _ => SameRegistry, eq_sameRegistry, fun _ => ⟨_, hround, fun _ => ⟨fun _ => Eq, ?_,
    fun _ => ⟨fun _ => SameRegistry, stretches_modify fun s s' h => ?_, fun _ s s' h => h⟩⟩⟩⟩
  · exact ⟨fun s s' h => Or.inr h, fun _ _ s s' h => h⟩
  · rw [h]
    exact sameRegistry_closed.buffer _ _ _

/-- Any call of a session, from its beginning on, does to `consumers` only what its line is
there for. -/
theorem call_stretches (order : Order) (step : Step) :
    Stretches step.Allows step.Stops Eq (step.call order) (step.Returns order) := by
  have hsame : ∀ step : Step, step.changesConsumers = false →
      Stretches step.Allows step.Stops Eq (step.call order) fun _ => SameRegistry := by
    intro step hstep
    have hkeeps : (step.call order).Keeps SameRegistry :=
      call_keeps sameRegistry_closed order fun h => absurd (hstep.symm.trans h) (by decide)
    refine Stretches.mono _ (keeps_stretches hkeeps fun h => ?_) eq_sameRegistry fun _ _ _ h => h
    rw [h] at hstep
    exact nomatch hstep
  cases step with
  | readRest => exact readRest_stretches
  | relayLoop => exact relayLoop_stretches
  | publishLoop => exact publishLoop_stretches
  | register =>
    refine ⟨fun _ s s' => SameRegistry (s.registered order) s', stretches_modify fun s s' h => ?_,
      fun _ s s' h => h⟩
    rw [h]
    exact sameRegistry_closed.refl _
  | _ => exact hsame _ rfl

/-- What follows a call leaves `consumers` alone, unless the session has just found out that
it pulls. -/
theorem finish_same {rc : Int} (h : step = .identify → rc ≠ 4) (s : State) :
    SameRegistry s (step.finish order rc s) := by
  have hdeleted : ∀ s : State, SameRegistry s s.deleted := fun _ => ⟨rfl, rfl⟩
  cases step with
  | identify =>
    rw [finish, if_neg (h rfl)]
    exact sameRegistry_closed.trans _ _ _ (hdeleted s) (sameRegistry_closed.append _ _ _)
  | readRest => exact sameRegistry_closed.buffer s _ _
  | recv type => exact hdeleted s
  | send m => exact hdeleted s
  | announceChunkSize => exact ⟨rfl, rfl⟩
  | sendOnMetaData => exact hdeleted s
  | _ => exact sameRegistry_closed.refl s

/-- A session that pulls is entered under its own descriptor, and nobody else is. -/
theorem finish_identify (s : State) :
    SameRegistry (s.registered order) (Step.identify.finish order 4 s) := by
  rw [finish, if_pos rfl]
  exact ⟨rfl, rfl⟩

end

end Step

/-! ## The slots -/

/-- No slot but the first holds anything, and the first one only while a message
is outstanding. -/
structure Tidy (outstanding : Bool) (consumers : List (Nat × Slot)) : Prop where
  rest : ∀ c ∈ consumers.tail, c.2 = .null
  first : outstanding = false → ∀ c ∈ consumers, c.2 = .null

namespace Tidy

variable {outstanding : Bool} {g : Globals}

theorem of_null {consumers : List (Nat × Slot)} (h : ∀ c ∈ consumers, c.2 = .null)
    (outstanding : Bool) : Tidy outstanding consumers where
  rest c hc := h c (List.mem_of_mem_tail hc)
  first _ := h

/-- Whether a message is outstanding need not be known exactly: to be outstanding asks for
less. -/
theorem weaken {consumers : List (Nat × Slot)} (h : Tidy outstanding consumers) {b : Bool}
    (hb : consumers ≠ [] → b = false → outstanding = false) : Tidy b consumers where
  rest := h.rest
  first hfalse c hc := h.first (hb (List.ne_nil_of_mem hc) hfalse) c hc

/-- The first slot may be set to anything while a message is outstanding. -/
theorem setSlot (h : Tidy outstanding g.consumers) (x : Slot) :
    Tidy true (g.setSlot x).consumers := by
  refine ⟨fun c hc => h.rest c ?_, fun hfalse => nomatch hfalse⟩
  unfold Globals.setSlot at hc
  cases hcs : g.consumers with
  | nil =>
    rw [hcs] at hc
    exact nomatch hc
  | cons c' cs =>
    rw [hcs] at hc
    exact hc

/-- Nothing is left in the slots when the first one is empty, since the others always are. -/
theorem of_slot (h : Tidy outstanding g.consumers) (hslot : g.slot ≠ some .audioVideoData)
    (b : Bool) : Tidy b g.consumers := by
  refine of_null (fun c hc => ?_) b
  have hrest := h.rest
  unfold Globals.slot at hslot
  cases hcs : g.consumers with
  | nil =>
    rw [hcs] at hc
    exact nomatch hc
  | cons c' cs =>
    rw [hcs] at hc hslot hrest
    rcases List.mem_cons.mp hc with heq | hmem
    · rw [heq]
      cases hx : c'.2 with
      | null => rfl
      | audioVideoData =>
        rw [List.head?_cons, Option.map_some, hx] at hslot
        exact absurd rfl hslot
    · exact hrest c hmem

/-- A key may come in, wherever it is put, while no message is outstanding. -/
theorem insertConsumer (h : Tidy false g.consumers) (order : Order) (stfd : Nat) :
    Tidy false (g.insertConsumer order stfd).consumers := by
  unfold Globals.insertConsumer
  by_cases hany : g.consumers.any (fun c => c.1 = stfd) = true
  · rw [if_pos hany]
    exact h
  · rw [if_neg hany]
    refine of_null (fun c hc => ?_) false
    rcases List.mem_cons.mp ((order.perm _ _).mem_iff.mp hc) with heq | hmem
    · rw [heq]
    · exact h.first rfl c hmem

end Tidy

/-- The keys of `consumers`: the descriptors of the sessions that have been entered. -/
def Globals.keys (g : Globals) : List Nat := g.consumers.map Prod.fst

theorem keys_setSlot (g : Globals) (x : Slot) : (g.setSlot x).keys = g.keys := by
  unfold Globals.keys Globals.setSlot
  cases g.consumers with
  | nil => rfl
  | cons c cs => rfl

theorem mem_keys_insertConsumer {order : Order} {g : Globals} {stfd k : Nat}
    (h : k ∈ (g.insertConsumer order stfd).keys) : k ∈ g.keys ∨ k = stfd := by
  unfold Globals.insertConsumer at h
  by_cases hany : g.consumers.any (fun c => c.1 = stfd) = true
  · rw [if_pos hany] at h
    exact Or.inl h
  · rw [if_neg hany] at h
    obtain ⟨c, hc, hk⟩ := List.mem_map.mp h
    rcases List.mem_cons.mp ((order.perm _ _).mem_iff.mp hc) with heq | hmem
    · rw [← hk, heq]
      exact Or.inr rfl
    · exact Or.inl (List.mem_map.mpr ⟨c, hmem, hk⟩)

theorem SameRegistry.keys {s s' : State} (h : SameRegistry s s') :
    s'.globals.keys = s.globals.keys := by
  rw [Globals.keys, Globals.keys, h.1]

theorem SameRegistry.tidy {s s' : State} {outstanding : Bool} (h : SameRegistry s s')
    (htidy : Tidy outstanding s.globals.consumers) : Tidy outstanding s'.globals.consumers := by
  rw [h.1]
  exact htidy

end RtmpServer
