import RtmpServer.Registry

/-!
# Only live consumers are registered

A session enters itself into `consumers` when its first header says that it
pulls, and once more in front of its relay loop, and nothing ever removes a
key. Two things go wrong with that: a session that returns from the pull branch
leaves its key behind, and one that comes into its relay loop while a message
waits in a slot finds it there. `OnlyLive` says that neither has happened. It
holds along every run from the empty server whose steps are `Mild`, whatever
the order of `consumers`: `only_live`.

A thread runs through one line after the other until it stops; `settled` and
`proceeded` say what it leaves behind then, and the invariant of the server is
about threads that have stopped.
-/

namespace RtmpServer

open Coroutine Coroutine.Prog

/-! ## Where a thread is -/

namespace Thread

/-- The thread is in the pull branch: the lines that it has still to do are an end of
`Line.pullFlow`. -/
def Pulling : Thread → Prop
  | .waiting line rest _ => line :: rest <:+ Line.pullFlow
  | .returned => False

/-- The thread is in its relay loop: the call that it waits in is one of `relayLoop`. -/
def Relaying : Thread → Prop
  | .waiting line _ _ => line.step = .relayLoop
  | .returned => False

instance (t : Thread) : Decidable t.Pulling :=
  match t with
  | .waiting line rest _ => inferInstanceAs (Decidable (line :: rest <:+ Line.pullFlow))
  | .returned => inferInstanceAs (Decidable False)

instance (t : Thread) : Decidable t.Relaying :=
  match t with
  | .waiting line _ _ => inferInstanceAs (Decidable (line.step = .relayLoop))
  | .returned => inferInstanceAs (Decidable False)

/-- What is known of a thread in the middle of a call: it is in the code of
`process_thread`, and its stretches are those of the call. -/
def Going (order : Order) : Thread → Prop
  | .waiting line rest w => (∃ part ∈ Line.parts, line :: rest <:+ part) ∧
    ∀ r, line.step.Allows w.call r →
      Stretches line.step.Allows line.step.Stops Eq (w.resume r) (line.step.Returns order)
  | .returned => True

end Thread

namespace Line

/-- In the pull branch only two calls are checked, nothing is asked, the relay
loop is the last call, and nothing but it follows the registration. -/
theorem of_pullFlow {line : Line} {rest : List Line} (h : line :: rest <:+ pullFlow) :
    (line.checked = true → line.step.mayReturn = true) ∧ line.step ≠ .identify ∧
      (rest = [] → line.step = .relayLoop) ∧
      (line.step = .register → line.checked = false ∧ rest = [checkedCall .relayLoop]) := by
  obtain ⟨past, hpast⟩ := h
  have hall : every (fun line rest => decide
      ((line.checked = true → line.step.mayReturn = true) ∧ line.step ≠ .identify ∧
        (rest = [] → line.step = .relayLoop) ∧
        (line.step = .register → line.checked = false ∧ rest = [checkedCall .relayLoop]))) pullFlow
      = true := by decide +kernel
  exact of_decide_eq_true (test_of_every hall hpast)

/-- Outside of the pull branch no call registers the session, so that a line that does is a
line of that branch. -/
theorem register_pulls {line : Line} {rest part : List Line} (hpart : part ∈ parts)
    (h : line :: rest <:+ part) (hstep : line.step = .register) : line :: rest <:+ pullFlow := by
  have hall : ∀ part ∈ parts, part ≠ pullFlow → ∀ line ∈ part, line.step ≠ .register := by
    decide +kernel
  by_cases hpull : part = pullFlow
  · rw [← hpull]
    exact h
  · exact absurd hstep (hall part hpart hpull line (h.subset (List.mem_cons_self ..)))

/-- The next lines are those behind the call, or one of the two flows. -/
theorem follow_part {line : Line} {rest lines part : List Line} {rc : Int} (hpart : part ∈ parts)
    (h : line :: rest <:+ part) (hfollow : line.follow rc rest = some lines) :
    ∃ part ∈ parts, lines <:+ part := by
  by_cases hstep : line.step = .identify
  · rw [follow_identify hfollow hstep]
    exact ⟨_, flow_mem_parts rc, List.suffix_rfl⟩
  · rw [follow_eq hfollow hstep]
    exact ⟨part, hpart, (List.suffix_cons line rest).trans h⟩

end Line

/-! ## A thread until it stops -/

namespace Server

section

variable {order : Order} {fuel n : Nat} {line : Line} {rest : List Line} {found : List Slot}
  {s s' : State} {stop : Stop st State Int} {h : Halt} {b : Bool}

/-- Where a stretch ends in a blocking call, the keys are what they were. -/
theorem keys_of_stops {step : Step} {c : Call} (hstops : step.Stops c s s') :
    s'.globals.keys = s.globals.keys ∧ s'.client.stfdClient = s.client.stfdClient := by
  have hsame : SameRegistry s s' → s'.globals.keys = s.globals.keys ∧
      s'.client.stfdClient = s.client.stfdClient := fun h => ⟨h.keys, h.2⟩
  have hslot : ∀ x, SameRegistry (s.setSlot x) s' → s'.globals.keys = s.globals.keys ∧
      s'.client.stfdClient = s.client.stfdClient :=
    fun x h => ⟨h.keys.trans (keys_setSlot s.globals x), h.2⟩
  cases step with
  | relayLoop =>
    cases c with
    | stUsleep => exact hstops.1.elim hsame (hslot _)
    | stReadFully n => exact hsame hstops
    | writev bytes => exact hsame hstops
  | publishLoop =>
    cases c with
    | stUsleep => exact hstops.elim hsame (hslot _)
    | stReadFully n => exact hsame hstops
    | writev bytes => exact hsame hstops
  | _ => exact hsame hstops

/-- And the slots are tidy as before, with what is outstanding now that the thread waits in
this call. -/
theorem tidy_of_stops {w : Parked st State Int} (hstops : line.step.Stops w.call s s')
    (htidy : Tidy b s.globals.consumers) :
    Tidy (outstandingAt b s'.globals (.waiting line rest w)) s'.globals.consumers := by
  have hslot : ∀ x, SameRegistry (s.setSlot x) s' → Tidy true s'.globals.consumers :=
    fun x h => h.tidy (htidy.setSlot x)
  obtain ⟨step, checked⟩ := line
  obtain ⟨c, k⟩ := w
  cases step with
  | relayLoop =>
    -- asleep, the player has left the first slot null, and nothing is outstanding
    cases c with
    | stUsleep =>
      obtain ⟨hsame | hset, hempty⟩ := hstops
      · exact (hsame.tidy htidy).of_slot hempty false
      · exact (hslot _ hset).of_slot hempty false
    | stReadFully n => exact SameRegistry.tidy hstops htidy
    | writev bytes => exact SameRegistry.tidy hstops htidy
  | publishLoop =>
    -- the publisher fills the first slot when there is one, and then it is outstanding
    cases c with
    | stUsleep =>
      show Tidy (b || !s'.globals.consumers.isEmpty) _
      rcases hstops with hsame | hset
      · exact (hsame.tidy htidy).weaken fun _ hfalse => (Bool.or_eq_false_iff.mp hfalse).1
      · refine (hslot _ hset).weaken fun hne hfalse => ?_
        have hempty := (Bool.or_eq_false_iff.mp hfalse).2
        rw [Bool.not_eq_false', List.isEmpty_iff] at hempty
        exact absurd hempty hne
    | stReadFully n => exact SameRegistry.tidy hstops htidy
    | writev bytes => exact SameRegistry.tidy hstops htidy
  | _ => exact SameRegistry.tidy hstops htidy

theorem same_of_returns {step : Step} {rc : Int} (hstep : step ≠ .register)
    (hreturns : step.Returns order rc s s') : SameRegistry s s' := by
  cases step with
  | readRest => exact hreturns.2
  | register => exact absurd rfl hstep
  | relayLoop => exact absurd hreturns id
  | publishLoop => exact absurd hreturns id
  | _ => exact hreturns

/-- A call of the pull branch is followed by another one, whatever it returned: the branch
does not end. -/
theorem follow_pullFlow {rc : Int} (hlines : line :: rest <:+ Line.pullFlow)
    (hreturns : line.step.Returns order rc s s') : line.follow rc rest = some rest ∧ rest ≠ [] := by
  obtain ⟨hchecked, hidentify, hlast, _⟩ := Line.of_pullFlow hlines
  have hloop : line.step ≠ .relayLoop := by
    intro hstep
    rw [hstep] at hreturns
    exact hreturns
  refine ⟨?_, fun hnil => hloop (hlast hnil)⟩
  rw [Line.follow, if_neg, if_neg hidentify]
  intro hboth
  obtain ⟨hc, hrc⟩ := hboth
  rcases of_decide_eq_true (hchecked hc) with hstep | hstep
  · rw [hstep] at hreturns
    exact hreturns.1 hrc
  · exact hloop hstep

/-- A thread in the pull branch stays there, whether its stretch stops in a call or returns
and the next line begins. -/
theorem settled_pulling
    (hnext : ∀ {lines found s h}, lines ≠ [] → lines <:+ Line.pullFlow →
      proceed order fuel n lines found s = some h → h.thread.Pulling)
    (hlines : line :: rest <:+ Line.pullFlow)
    (hstop : StretchesStop line.step.Allows line.step.Stops (line.step.Returns order) s s' stop)
    (hsettle : settle order (proceed order fuel n) line rest found (stop, s') = some h) :
    h.thread.Pulling := by
  cases stop with
  | parked w =>
    cases hsettle
    exact hlines
  | done rc =>
    obtain ⟨hfollow, hne⟩ := follow_pullFlow hlines hstop
    simp only [settle, hfollow] at hsettle
    exact hnext hne ((List.suffix_cons line rest).trans hlines) hsettle

theorem proceeded_pulling : ∀ {n lines found s h}, lines ≠ [] → lines <:+ Line.pullFlow →
    proceed order fuel n lines found s = some h → h.thread.Pulling := by
  intro n
  induction n with
  | zero =>
    intro lines found s h _ _ hproceed
    exact nomatch hproceed
  | succ n ih =>
    intro lines found s h hne hlines hproceed
    cases lines with
    | nil => exact absurd rfl hne
    | cons line rest =>
      obtain ⟨⟨stop, s'⟩, hadv, hsettle⟩ := Option.bind_eq_some_iff.mp hproceed
      have hstop := Stretches.advance _ (Step.call_stretches order line.step) rfl hadv
      exact settled_pulling ih hlines hstop hsettle

/-- A thread that comes to its relay loop stays in it, since the loop blocks before it can
return. -/
theorem proceeded_relaying (hstep : line.step = .relayLoop)
    (hproceed : proceed order fuel n (line :: rest) found s = some h) : h.thread.Relaying := by
  cases n with
  | zero => exact nomatch hproceed
  | succ n =>
    obtain ⟨⟨stop, s'⟩, hadv, hsettle⟩ := Option.bind_eq_some_iff.mp hproceed
    have hstop := Stretches.advance _ (Step.call_stretches order line.step) rfl hadv
    cases stop with
    | parked w =>
      cases hsettle
      exact hstep
    | done rc =>
      rw [hstep] at hstop
      exact absurd hstop id

/-- What a thread leaves that went on in `s` and has stopped as `h`, when a
message was outstanding as `b` says. -/
structure Leaves (order : Order) (b : Bool) (s : State) (found : List Slot) (h : Halt) : Prop where
  stfd : h.state.client.stfdClient = s.client.stfdClient
  keys : ∀ k ∈ h.state.globals.keys, k ∈ s.globals.keys ∨ k = s.client.stfdClient ∧ h.thread.Pulling
  tidy : Tidy (outstandingAt b h.state.globals h.thread) h.state.globals.consumers
  found : ∀ x ∈ h.found, x ∈ found ∨ x = .null
  going : h.thread.Going order

/-- What a thread leaves depends on `consumers` and the descriptor only: nothing else of the
state it began in matters. -/
theorem Leaves.of_same (hleaves : Leaves order b s' found h) (hsame : SameRegistry s s') :
    Leaves order b s found h where
  stfd := hleaves.stfd.trans hsame.2
  keys k hk := by
    rw [← hsame.keys, ← hsame.2]
    exact hleaves.keys k hk
  tidy := hleaves.tidy
  found := hleaves.found
  going := hleaves.going

/-- A thread that has been entered, and pulls now: the key that is new belongs to a session
in the pull branch. -/
theorem Leaves.of_registered (hleaves : Leaves order b s' found h)
    (hsame : SameRegistry (s.registered order) s') (hpull : h.thread.Pulling) :
    Leaves order b s found h where
  stfd := hleaves.stfd.trans hsame.2
  keys k hk := by
    have hstfd : s'.client.stfdClient = s.client.stfdClient := hsame.2
    rcases hleaves.keys k hk with hold | ⟨hnew, _⟩
    · rw [hsame.keys] at hold
      exact (mem_keys_insertConsumer hold).imp_right fun h => ⟨h, hpull⟩
    · exact Or.inr ⟨hnew.trans hstfd, hpull⟩
  tidy := hleaves.tidy
  found := hleaves.found
  going := hleaves.going

/-- What a thread leaves that goes through at most `n` lines, when it does not
come into the pull branch or into its relay loop while a message is
outstanding. -/
def Proceeds (order : Order) (fuel n : Nat) (b : Bool) : Prop :=
  ∀ lines found s h, (∃ part ∈ Line.parts, lines <:+ part) → Tidy b s.globals.consumers →
    (b = true → (h.thread.Pulling → lines <:+ Line.pullFlow) ∧ ¬ h.thread.Relaying) →
    proceed order fuel n lines found s = some h → Leaves order b s found h

/-- A session is entered only while nothing is outstanding, and pulls then: its slot begins
empty, like all the others. -/
theorem registered_leaves {lines : List Line} (hnext : Proceeds order fuel n b)
    (hpart : ∃ part ∈ Line.parts, lines <:+ part) (htidy : Tidy b s.globals.consumers)
    (hfalse : b = false) (hsame : SameRegistry (s.registered order) s')
    (hproceed : proceed order fuel n lines found s' = some h) (hpull : h.thread.Pulling) :
    Leaves order b s found h := by
  subst hfalse
  have hleaves := hnext lines found s' h hpart (hsame.tidy (htidy.insertConsumer order _))
    (fun hb => nomatch hb) hproceed
  exact hleaves.of_registered hsame hpull

/-- A thread that returns is not one that has just been entered, since a call that registers
is followed by another one. -/
theorem returned_leaves {rc : Int} (hpart : ∃ part ∈ Line.parts, line :: rest <:+ part)
    (htidy : Tidy b s.globals.consumers) (hreturns : line.step.Returns order rc s s')
    (hfollow : line.follow rc rest = none) : Leaves order b s found ⟨.returned, found, s'⟩ := by
  have hstep : line.step ≠ .register := by
    intro hstep
    obtain ⟨part, hmem, hsuffix⟩ := hpart
    have hpull := Line.register_pulls hmem hsuffix hstep
    rw [(follow_pullFlow hpull hreturns).1] at hfollow
    exact nomatch hfollow
  have hsame := same_of_returns hstep hreturns
  refine Leaves.of_same ⟨rfl, fun k hk => Or.inl hk, ?_, fun x hx => Or.inl hx, trivial⟩ hsame
  exact hsame.tidy htidy

/-- The call of `line` has stopped, and the thread stops there or later. While a
message is outstanding it has not come into the pull branch or into its relay
loop. -/
theorem settled (hnext : Proceeds order fuel n b)
    (hpart : ∃ part ∈ Line.parts, line :: rest <:+ part)
    (htidy : Tidy b s.globals.consumers)
    (hout : b = true → (h.thread.Pulling → line :: rest <:+ Line.pullFlow) ∧
      (h.thread.Relaying → line.step = .relayLoop))
    (hstop : StretchesStop line.step.Allows line.step.Stops (line.step.Returns order) s s' stop)
    (hsettle : settle order (proceed order fuel n) line rest found (stop, s') = some h) :
    Leaves order b s found h := by
  cases stop with
  | parked w =>
    cases hsettle
    obtain ⟨hkeys, hstfd⟩ := keys_of_stops hstop.1
    refine ⟨hstfd, fun k hk => Or.inl ?_, tidy_of_stops hstop.1 htidy, fun x hx => Or.inl hx,
      hpart, hstop.2⟩
    rw [← hkeys]
    exact hk
  | done rc =>
    cases hfollow : line.follow rc rest with
    | none =>
      simp only [settle, hfollow] at hsettle
      cases hsettle
      exact returned_leaves hpart htidy hstop hfollow
    | some lines =>
      simp only [settle, hfollow] at hsettle
      obtain ⟨part, hmem, hsuffix⟩ := hpart
      have hpart' := Line.follow_part hmem hsuffix hfollow
      by_cases hregister : line.step = .register
      · -- the second registration, in front of the relay loop
        have hpull := Line.register_pulls hmem hsuffix hregister
        obtain ⟨_, hidentify, _, hlast⟩ := Line.of_pullFlow hpull
        have hrest := (hlast hregister).2
        have hlines := Line.follow_eq hfollow hidentify
        rw [hlines] at hsettle hpart'
        have hrelaying : h.thread.Relaying := by
          rw [hrest] at hsettle
          exact proceeded_relaying rfl hsettle
        have hfalse : b = false := by
          refine Bool.eq_false_iff.mpr fun hb => ?_
          have hstep := (hout hb).2 hrelaying
          rw [hregister] at hstep
          exact nomatch hstep
        have hpulls : h.thread.Pulling := by
          refine proceeded_pulling ?_ ((List.suffix_cons line rest).trans hpull) hsettle
          rw [hrest]
          exact List.cons_ne_nil _ _
        rw [hregister] at hstop hsettle
        exact registered_leaves hnext hpart' htidy hfalse hstop hsettle hpulls
      · have hsame := same_of_returns hregister hstop
        by_cases hpulls : line.step = .identify ∧ rc = 4
        · -- the first one: the session pulls
          obtain ⟨hidentify, hrc⟩ := hpulls
          have hlines : lines = Line.pullFlow := by
            rw [Line.follow_identify hfollow hidentify, Line.flow, if_pos hrc]
          rw [hlines] at hsettle hpart'
          have hpull : h.thread.Pulling :=
            proceeded_pulling (List.cons_ne_nil _ _) List.suffix_rfl hsettle
          have hfalse : b = false := Bool.eq_false_iff.mpr fun hb =>
            (Line.of_pullFlow ((hout hb).1 hpull)).2.1 hidentify
          rw [hidentify, hrc] at hsettle
          have hleaves := registered_leaves hnext hpart' (hsame.tidy htidy) hfalse
            (Step.finish_identify s') hsettle hpull
          exact hleaves.of_same hsame
        · have hfinish : SameRegistry s' (line.step.finish order rc s') :=
            Step.finish_same (fun hstep hrc => hpulls ⟨hstep, hrc⟩) s'
          refine ((hnext _ _ _ _ hpart' (hfinish.tidy (hsame.tidy htidy)) (fun hb => ⟨fun hp => ?_,
            fun hr => ?_⟩) hsettle).of_same hfinish).of_same hsame
          · have hpull := (hout hb).1 hp
            rw [Line.follow_eq hfollow (Line.of_pullFlow hpull).2.1]
            exact (List.suffix_cons line rest).trans hpull
          · have hstep := (hout hb).2 hr
            rw [hstep] at hstop
            exact hstop

/-- A thread that goes on with `lines`, by induction on how many of them it may do before it
stops. -/
theorem proceeded : ∀ n, Proceeds order fuel n b := by
  intro n
  induction n with
  | zero =>
    intro lines found s h _ _ _ hproceed
    exact nomatch hproceed
  | succ n ih =>
    intro lines found s h hpart htidy hout hproceed
    cases lines with
    | nil =>
      cases hproceed
      exact ⟨rfl, fun k hk => Or.inl hk, htidy, fun x hx => Or.inl hx, trivial⟩
    | cons line rest =>
      have hrelaying : line.step = .relayLoop → b = false := fun hstep =>
        Bool.eq_false_iff.mpr fun hb => (hout hb).2 (proceeded_relaying hstep hproceed)
      obtain ⟨⟨stop, s'⟩, hadv, hsettle⟩ := Option.bind_eq_some_iff.mp hproceed
      have hstop := Stretches.advance _ (Step.call_stretches order line.step) rfl hadv
      have hleaves := settled ih hpart htidy
        (fun hb => ⟨(hout hb).1, fun hr => absurd hr (hout hb).2⟩) hstop hsettle
      refine ⟨hleaves.stfd, hleaves.keys, hleaves.tidy, fun x hx => ?_, hleaves.going⟩
      rcases hleaves.found x hx with hfound | hnull
      · unfold finds at hfound
        by_cases hstep : line.step = .relayLoop
        · rw [if_pos hstep] at hfound
          rcases List.mem_append.mp hfound with hold | hnew
          · exact Or.inl hold
          · obtain ⟨c, hc, rfl⟩ := List.mem_map.mp hnew
            exact Or.inr (htidy.first (hrelaying hstep) c hc)
        · rw [if_neg hstep] at hfound
          exact Or.inl hfound
      · exact Or.inr hnull

end

/-! ## The server -/

/-- Every key is the descriptor of a client whose thread is in the pull branch,
and no thread found anything in a slot when it entered its relay loop. -/
structure OnlyLive (b : Server) : Prop where
  keys : ∀ k ∈ b.globals.keys, ∃ c ∈ b.clients, c.client.stfdClient = k ∧ c.thread.Pulling
  found : ∀ c ∈ b.clients, ∀ x ∈ c.found, x = .null

/-- Where client `i` is; a client that is not there yet is nowhere. -/
def thread (b : Server) (i : Nat) : Thread :=
  match b.clients[i]? with
  | none => .returned
  | some c => c.thread

/-- A step that does not fail a session in the pull branch where it would
return, and in which no session comes into that branch, or into its relay loop,
while a message is outstanding. -/
structure Mild (b : Server) (t : Turn) (b' : Server) : Prop where
  answers : ∀ i line rest w, t = .answer i .error → b.thread i = .waiting line rest w →
    line.step.mayReturn = false
  entries : b.outstanding = true → ∀ i, ((b'.thread i).Pulling → (b.thread i).Pulling) ∧
    ((b'.thread i).Relaying → (b.thread i).Relaying)

/-- A step of that kind, whatever the turn is and however much fuel it takes. -/
def MildSteps (order : Order) (b b' : Server) : Prop :=
  ∃ fuel t, b.step order fuel t = some b' ∧ b.Mild t b'

/-- The invariant of the runs that have only such steps: every key is the number of a client
in the pull branch, and the slots are tidy. -/
structure Inv (order : Order) (b : Server) : Prop where
  stfd : ∀ i (c : Seat), b.clients[i]? = some c → c.client.stfdClient = i
  going : ∀ c ∈ b.clients, c.thread.Going order
  keys : ∀ k ∈ b.globals.keys, (b.thread k).Pulling
  tidy : Tidy b.outstanding b.globals.consumers
  found : ∀ c ∈ b.clients, ∀ x ∈ c.found, x = .null

theorem inv_empty (order : Order) : Inv order {} where
  stfd i c hc := by
    rw [List.getElem?_nil] at hc
    exact nomatch hc
  going c hc := nomatch hc
  keys k hk := nomatch hk
  tidy := ⟨fun c hc => (nomatch hc), fun _ c hc => (nomatch hc)⟩
  found c hc := nomatch hc

variable {order : Order} {b b' : Server}

/-- Only client `i` is somewhere else than before; every other thread waits where it waited. -/
theorem thread_stopped {i : Nat} {h : Halt} {clients : Seat → List Seat}
    (hget : ∀ c j, (clients c)[j]? = if j = i then some c else b.clients[j]?) (j : Nat) :
    (b.stopped h clients).thread j = if j = i then h.thread else b.thread j := by
  unfold thread stopped
  rw [hget]
  by_cases hj : j = i
  · rw [if_pos hj, if_pos hj]
  · rw [if_neg hj, if_neg hj]

/-- The invariant behind a thread that has stopped: client `i`, on the globals
that the others have left. -/
theorem Inv.stopped (hinv : Inv order b) {i : Nat} {s : State} {found : List Slot} {h : Halt}
    {clients : Seat → List Seat}
    (hget : ∀ c j, (clients c)[j]? = if j = i then some c else b.clients[j]?)
    (hs : s.globals = b.globals) (hstfd : s.client.stfdClient = i)
    (hfound : ∀ x ∈ found, x = .null) (hstays : (b.thread i).Pulling → h.thread.Pulling)
    (hleaves : Leaves order b.outstanding s found h) : Inv order (b.stopped h clients) := by
  have hmem : ∀ c ∈ (b.stopped h clients).clients,
      c = ⟨h.state.client, h.thread, h.found⟩ ∨ c ∈ b.clients := by
    intro c hc
    obtain ⟨j, hj⟩ := List.getElem?_of_mem hc
    unfold Server.stopped at hj
    rw [hget] at hj
    by_cases hji : j = i
    · rw [if_pos hji] at hj
      exact Or.inl (Option.some.inj hj).symm
    · rw [if_neg hji] at hj
      exact Or.inr (List.mem_of_getElem? hj)
  -- the thread of the step has changed, and its key at most; the others are as they were
  refine ⟨fun j c hc => ?_, fun c hc => ?_, fun k hk => ?_, hleaves.tidy, fun c hc x hx => ?_⟩
  · unfold Server.stopped at hc
    rw [hget] at hc
    by_cases hj : j = i
    · rw [if_pos hj] at hc
      rw [hj, ← hstfd, ← Option.some.inj hc]
      exact hleaves.stfd
    · rw [if_neg hj] at hc
      exact hinv.stfd j c hc
  · rcases hmem c hc with rfl | hold
    · exact hleaves.going
    · exact hinv.going c hold
  · rw [thread_stopped hget]
    by_cases hki : k = i
    · rw [if_pos hki]
      rcases hleaves.keys k hk with hold | ⟨_, hpull⟩
      · rw [hs] at hold
        exact hstays (hki ▸ hinv.keys k hold)
      · exact hpull
    · rw [if_neg hki]
      rcases hleaves.keys k hk with hold | ⟨hnew, _⟩
      · rw [hs] at hold
        exact hinv.keys k hold
      · exact absurd (hnew.trans hstfd) hki
  · rcases hmem c hc with rfl | hold
    · rcases hleaves.found x hx with hold | hnull
      · exact hfound x hold
      · exact hnull
    · exact hinv.found c hold x hx

theorem getElem?_accept (b : Server) (c : Seat) (j : Nat) :
    (b.clients ++ [c])[j]? = if j = b.clients.length then some c else b.clients[j]? := by
  by_cases hj : j = b.clients.length
  · rw [if_pos hj, hj]
    exact List.getElem?_concat_length
  · rw [if_neg hj]
    by_cases hlt : j < b.clients.length
    · exact List.getElem?_append_left hlt
    · rw [List.getElem?_eq_none (by rw [List.length_append, List.length_singleton]; omega),
        List.getElem?_eq_none (by omega)]

theorem getElem?_answer {i : Nat} {c : Seat} (hc : b.clients[i]? = some c) (c' : Seat) (j : Nat) :
    (b.clients.set i c')[j]? = if j = i then some c' else b.clients[j]? := by
  by_cases hj : j = i
  · rw [if_pos hj, hj]
    exact List.getElem?_set_self (List.getElem?_eq_some_iff.mp hc).1
  · rw [if_neg hj]
    exact List.getElem?_set_ne (Ne.symm hj)

/-- An answer that is not an error is allowed, and an error where the call does
not return for one. -/
theorem allows_of_answer {step : Step} {c : Call} {x : Answer} {r : c.Reply}
    (hx : x = .error → step.mayReturn = false) (hr : answer c x = some r) : step.Allows c r := by
  intro hmay herror
  have hne : x ≠ .error := fun h => absurd (hx h) (by rw [hmay]; exact fun h => nomatch h)
  -- only an error makes a line return early, and no other answer is one
  cases c with
  | stReadFully n =>
    cases herror
    cases x with
    | bytes bs =>
      simp only [answer] at hr
      split at hr
      · cases hr
      · cases hr
    | error => exact hne rfl
    | wrote k => cases hr
    | wake => cases hr
  | writev bytes =>
    cases herror
    cases x with
    | wrote k =>
      simp only [answer] at hr
      split at hr
      · cases hr
      · cases hr
    | error => exact hne rfl
    | bytes bs => cases hr
    | wake => cases hr
  | stUsleep => cases herror

/-- A step lets the invariant hold if it is of that kind, whether a client comes or one of
them is answered. -/
theorem inv_step (hinv : Inv order b) (hsteps : MildSteps order b b') : Inv order b' := by
  obtain ⟨fuel, t, hstep, hmild⟩ := hsteps
  cases t with
  | accept =>
    -- a new client has no key yet and answers nothing
    obtain ⟨h, hproceed, rfl⟩ := Option.map_eq_some_iff.mp hstep
    have hget := getElem?_accept b
    have hnowhere : b.thread b.clients.length = .returned := by
      rw [thread, List.getElem?_eq_none (Nat.le_refl _)]
    have hhere : (b.stopped h fun c => b.clients ++ [c]).thread b.clients.length = h.thread := by
      rw [thread_stopped hget, if_pos rfl]
    refine hinv.stopped hget rfl rfl (fun x hx => absurd hx List.not_mem_nil) ?_
      (proceeded fuel _ _ _ _ ⟨_, .head _, List.suffix_rfl⟩ hinv.tidy (fun hb => ?_) hproceed)
    · rw [hnowhere]
      exact False.elim
    · have hout := hmild.entries hb b.clients.length
      rw [hnowhere, hhere] at hout
      exact ⟨fun hp => absurd (hout.1 hp) id, hout.2⟩
  | answer i x =>
    -- an answer resumes the thread's line where it waits, up to its next call or its end
    unfold step at hstep
    cases hc : b.clients[i]? with
    | none =>
      simp only [hc] at hstep
      cases hstep
    | some c =>
      simp only [hc] at hstep
      obtain ⟨h, hanswered, rfl⟩ := Option.map_eq_some_iff.mp hstep
      have hget := getElem?_answer hc
      have hhere : (b.stopped h (b.clients.set i)).thread i = h.thread := by
        rw [thread_stopped hget, if_pos rfl]
      unfold answered at hanswered
      cases hthread : c.thread with
      | returned =>
        simp only [hthread] at hanswered
        cases hanswered
      | waiting line rest w =>
        simp only [hthread] at hanswered
        have hwaits : b.thread i = .waiting line rest w := by
          rw [thread, hc]
          exact hthread
        obtain ⟨⟨stop, s'⟩, hresume, hsettle⟩ := Option.bind_eq_some_iff.mp hanswered
        have hmem := List.mem_of_getElem? hc
        have hgoing := hinv.going c hmem
        rw [hthread] at hgoing
        obtain ⟨hpart, hcall⟩ := hgoing
        have hstop := StretchesStop.resume hcall (fun r hr => allows_of_answer (fun hx =>
          hmild.answers i line rest w (by rw [hx]) hwaits) hr) hresume
        refine hinv.stopped hget rfl (hinv.stfd i c hc) (hinv.found c hmem) ?_
          (settled (proceeded fuel) hpart hinv.tidy (fun hb => ?_) hstop hsettle)
        · rw [hwaits]
          exact fun hpull => settled_pulling proceeded_pulling hpull hstop hsettle
        · have hout := hmild.entries hb i
          rw [hwaits, hhere] at hout
          exact hout

/-- Only live consumers are registered, along every run whose steps are mild:
any number of sessions, in any order. -/
theorem only_live (order : Order) {b : Server}
    (hrun : Relation.ReflTransGen (MildSteps order) {} b) : b.OnlyLive := by
  have hinv : Inv order b := by
    induction hrun with
    | refl => exact inv_empty order
    | tail _ hstep ih => exact inv_step ih hstep
  refine ⟨fun k hk => ?_, hinv.found⟩
  have hpull := hinv.keys k hk
  unfold thread at hpull
  cases hc : b.clients[k]? with
  | none =>
    rw [hc] at hpull
    exact absurd hpull id
  | some c =>
    rw [hc] at hpull
    exact ⟨c, List.mem_of_getElem? hc, hinv.stfd k c hc, hpull⟩

/-! ### Schedules -/

/-- `answers`, to be evaluated: an error goes only to a call whose line does not return at
it. -/
def mayAnswer (b : Server) : Turn → Bool
  | .answer i .error =>
    match b.thread i with
    | .waiting line _ _ => !line.step.mayReturn
    | .returned => true
  | _ => true

/-- `entries`, to be evaluated: a client that is not there is nowhere. -/
def mayEnter (b b' : Server) : Bool :=
  !b.outstanding || decide (∀ i < b'.clients.length,
    ((b'.thread i).Pulling → (b.thread i).Pulling) ∧
      ((b'.thread i).Relaying → (b.thread i).Relaying))

theorem mild_of_may {t : Turn} (hanswer : b.mayAnswer t = true) (henter : b.mayEnter b' = true) :
    b.Mild t b' where
  answers i line rest w ht hthread := by
    rw [ht] at hanswer
    simp only [mayAnswer, hthread, Bool.not_eq_true'] at hanswer
    exact hanswer
  entries hb i := by
    by_cases hlt : i < b'.clients.length
    · rw [mayEnter, hb, Bool.not_true, Bool.false_or, decide_eq_true_eq] at henter
      exact henter i hlt
    · have hnowhere : b'.thread i = .returned := by
        rw [thread, List.getElem?_eq_none (by omega)]
      rw [hnowhere]
      exact ⟨False.elim, False.elim⟩

/-- A schedule, as long as each of its steps is mild; there is no result where one of them
is not. -/
def runMildly (order : Order) (fuel : Nat) (b : Server) : List Turn → Option Server
  | [] => some b
  | t :: ts =>
    match b.step order fuel t with
    | none => none
    | some b' => if b.mayAnswer t ∧ b.mayEnter b' then runMildly order fuel b' ts else none

theorem runMildly_steps {fuel : Nat} (ts : List Turn) :
    ∀ {b b' : Server}, b.runMildly order fuel ts = some b' →
      Relation.ReflTransGen (MildSteps order) b b' := by
  induction ts with
  | nil =>
    intro b b' h
    cases h
    exact .refl
  | cons t ts ih =>
    intro b b' h
    rw [runMildly] at h
    cases hstep : b.step order fuel t with
    | none =>
      rw [hstep] at h
      cases h
    | some b1 =>
      rw [hstep] at h
      obtain ⟨⟨hanswer, henter⟩, h⟩ := Option.ite_none_right_eq_some.mp h
      exact .head ⟨fuel, t, hstep, mild_of_may hanswer henter⟩ (ih h)

/-- A client connects, and sends the header of a message of `n` bytes. -/
def negotiates (i : Nat) (n : UInt8) : List Turn :=
  .accept :: [.bytes (0x03 :: List.replicate 1536 0), .wrote 3073, .bytes (List.replicate 1536 0),
    .bytes [0x03], .bytes [0, 0, 0, 0, 0, 17, 20, 0, 0, 0, 0],
    .bytes [0x02, 0, 1, 0x61, 0x00, 0, 0, 0, 0, 0, 0, 0, 0, 0x03, 0, 0, 0x09],
    .wrote 16, .wrote 17, .wrote 140, .wrote 129, .wrote 96, .wrote 33,
    .bytes [0x03], .bytes [0, 0, 0, 0, 0, n, 20, 0, 0, 0, 0]].map (.answer i)

/-- A publisher, after its negotiation: all that it sends is its metadata, with one entry. -/
def announces (i : Nat) : List Turn :=
  List.replicate 11 (.answer i .error) ++ [.bytes [0x04],
    .bytes [0, 0, 0, 0, 0, 18, 18, 0, 0, 0, 0],
    .bytes [0x02, 0, 1, 0x61, 0x02, 0, 1, 0x61, 0x08, 0, 0, 0, 1, 0, 1, 0x6b, 0x01, 1]].map
      (.answer i)

/-- Its next video message. -/
def publishes (i : Nat) : List Turn :=
  [.bytes [0x06], .bytes [0, 0, 0, 0, 0, 2, 9, 1, 0, 0, 0], .bytes [1, 2]].map (.answer i)

/-- A player that sends the rest of its first message and nothing else, up to
its relay loop. -/
def plays (i : Nat) : List Turn :=
  .answer i (.bytes [0, 0, 0, 0]) :: List.replicate 13 (.answer i .error)

/-- A publisher and a player, who is sent a message: the player is entered while nothing is
outstanding. -/
def onePlayer : List Turn :=
  negotiates 0 0 ++ announces 0 ++ negotiates 1 4 ++ plays 1 ++ publishes 0 ++
    [.answer 1 .wake, .answer 1 (.wrote 14)]

theorem only_live_onePlayer : ∃ b, runMildly .front 50 {} onePlayer = some b ∧
    b.globals.keys = [1] ∧ b.clients.map Seat.found = [[], [.null]] ∧ b.OnlyLive := by
  have hrun : (runMildly .front 50 {} onePlayer).map
      (fun b => (b.globals.keys, b.clients.map Seat.found)) = some ([1], [[], [.null]]) := by
    decide +kernel
  obtain ⟨b, hb, heq⟩ := Option.map_eq_some_iff.mp hrun
  rw [Prod.mk.injEq] at heq
  exact ⟨b, hb, heq.1, heq.2, only_live .front (runMildly_steps _ hb)⟩

/-- A player that is entered and then fails leaves its key behind: the run is over for it,
and its key is still in `consumers`. -/
theorem not_onlyLive :
    ¬ ∀ b, Relation.ReflTransGen (Steps .front) {} b → b.OnlyLive := by
  intro h
  have hrun : (run .front 50 {} (negotiates 0 4 ++ [.answer 0 .error])).map (fun b =>
      (b.globals.keys, b.clients.map fun c => decide c.thread.Pulling)) = some ([0], [false]) := by
    decide +kernel
  obtain ⟨b, hb, heq⟩ := Option.map_eq_some_iff.mp hrun
  rw [Prod.mk.injEq] at heq
  obtain ⟨c, hc, _, hpull⟩ := (h b (run_steps _ hb)).keys 0 (by rw [heq.1]; exact .head _)
  have hmem : decide c.thread.Pulling ∈ [false] := heq.2 ▸ List.mem_map.mpr ⟨c, hc, rfl⟩
  rw [List.mem_singleton, decide_eq_false_iff_not] at hmem
  exact hmem hpull

/-- Nor is it enough that nobody fails: the message is older than the relay loop
that finds it. -/
example : (run .front 50 {} (negotiates 0 0 ++ announces 0 ++ negotiates 1 4 ++ publishes 0 ++
    plays 1)).map (fun b => b.clients.map Seat.found) = some [[], [.audioVideoData]] := by
  decide +kernel

end Server

end RtmpServer
