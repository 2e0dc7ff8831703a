import RtmpServer.Loops

/-!
# The loops of the server are `Broadcast`

As long as nobody else touches the globals, a run of the server is, for the
loops of one publisher and its players, a run of `Broadcast` (`airs_of_run`):
`Mirrors` relates the two states, one lemma for each kind of turn keeps it, and
what the consumers of `Broadcast` have written is what the clients of the server
have taken.

From any state a run of the server can have come to in which the loops sleep and
the slots are empty (`Settled`), what is proved of orderly runs of `Broadcast`
is thereby true of the clients: a player that sleeps has been sent the first of
the published messages, each of them once and whole (`played_back`).
-/

namespace RtmpServer

open Coroutine Coroutine.Prog Framing

namespace Server

/-! ## The server and its loops -/

section

variable {order : Order} {fuel p : Nat} {players : List Nat} {b b' : Server} {x : Broadcast}

/-- The loops of publisher `p` and of the players are where `x` says they are. -/
structure Mirrors (p : Nat) (players : List Nat) (b : Server) (x : Broadcast) : Prop where
  globals : x.globals = b.globals
  publisher : ∃ c : Seat, b.clients[p]? = some c ∧ x.client = c.client ∧
    PublisherAt c.thread x.thread
  length : x.consumers.length = players.length
  player : ∀ (j i : Nat) (k : Consumer), players[j]? = some i → x.consumers[j]? = some k →
    ∃ c : Seat, b.clients[i]? = some c ∧ k.client = c.client ∧ PlayerAt c.thread k.thread

/-- A turn of the server that is one of the loops', and which one it is. -/
inductive LoopTurn (p : Nat) (players : List Nat) : Turn → Broadcast.Turn → Prop where
  | publisher (a : Answer) : LoopTurn p players (.answer p a) (.publisher a)
  | player {j i : Nat} (a : Answer) :
      players[j]? = some i → LoopTurn p players (.answer i a) (.consumer j a)

/-- A turn of somebody else: a client that comes, or an answer to one that is neither the
publisher nor a player. -/
def Elsewhere (p : Nat) (players : List Nat) : Turn → Prop
  | .accept => True
  | .answer i _ => i ≠ p ∧ i ∉ players

theorem exchange_ne {i j : Nat} {a : Answer} (h : j ≠ i) : b.exchange i (.answer j a) = [] := by
  rw [exchange, if_neg h]

theorem exchange_waiting {i : Nat} {c : Seat} {a : Answer} {line : Line} {rest : List Line}
    {w : Parked st State Int} (hc : b.clients[i]? = some c)
    (hthread : c.thread = .waiting line rest w) : b.exchange i (.answer i a) = [(w.call, a)] := by
  obtain ⟨client, thread, found⟩ := c
  cases hthread
  rw [exchange, if_pos rfl, hc]

/-- The step of the server in which client `i` is answered: it changes the globals and the
seat of `i`. -/
theorem step_answer {i : Nat} {a : Answer} (hstep : b.step order fuel (.answer i a) = some b') :
    ∃ c h, b.clients[i]? = some c ∧ answered order fuel b.globals c a = some h ∧
      b'.globals = h.state.globals ∧ ∀ j, b'.clients[j]?
        = if j = i then some ⟨h.state.client, h.thread, h.found⟩ else b.clients[j]? := by
  simp only [step] at hstep
  cases hc : b.clients[i]? with
  | none =>
    rw [hc] at hstep
    cases hstep
  | some c =>
    rw [hc] at hstep
    obtain ⟨h, hanswered, heq⟩ := Option.map_eq_some_iff.mp hstep
    cases heq
    exact ⟨c, h, rfl, hanswered, rfl, getElem?_answer hc _⟩

/-- A publisher that is answered: one step of `Broadcast`, in which the consumers stay as
they are. -/
theorem mirrors_publisher {a : Answer} (hmirrors : Mirrors p players b x) (hp : p ∉ players)
    (hstep : b.step order fuel (.answer p a) = some b') :
    ∃ x', x.step fuel (.publisher a) = some x' ∧ Mirrors p players b' x' ∧
      x'.consumers = x.consumers := by
  obtain ⟨c, h, hc, hanswered, hglobals, hget⟩ := step_answer hstep
  obtain ⟨c', hc', hclient, hat⟩ := hmirrors.publisher
  obtain rfl : c' = c := Option.some.inj (hc'.symm.trans hc)
  rw [← hmirrors.globals] at hanswered
  obtain ⟨x', hx', hstopped⟩ := Broadcast.publisher_answered hat hclient hanswered
  refine ⟨x', hx', ⟨hstopped.globals.trans hglobals.symm, ?_, ?_, ?_⟩, hstopped.consumers⟩
  · exact ⟨_, (hget p).trans (if_pos rfl), hstopped.client, hstopped.thread⟩
  · rw [hstopped.consumers]
    exact hmirrors.length
  · intro j i k hi hk
    rw [hstopped.consumers] at hk
    have hne : i ≠ p := fun heq => hp (heq ▸ List.mem_of_getElem? hi)
    rw [hget, if_neg hne]
    exact hmirrors.player j i k hi hk

/-- A player that is answered: one step of `Broadcast`, too, in which that consumer writes
what the player has written. -/
theorem mirrors_player {i j : Nat} {a : Answer} (hmirrors : Mirrors p players b x)
    (hp : p ∉ players) (hnodup : players.Nodup) (hi : players[j]? = some i)
    (hstep : b.step order fuel (.answer i a) = some b') :
    ∃ x' k k', x.step fuel (.consumer j a) = some x' ∧ Mirrors p players b' x' ∧
      x.consumers[j]? = some k ∧ x'.consumers = x.consumers.set j k' ∧
      k'.wrote = k.wrote ++ heardOf (b.exchange i (.answer i a)) := by
  obtain ⟨c, h, hc, hanswered, hglobals, hget⟩ := step_answer hstep
  have hlt : j < x.consumers.length := by
    rw [hmirrors.length]
    exact (List.getElem?_eq_some_iff.mp hi).1
  obtain ⟨k, hk⟩ : ∃ k, x.consumers[j]? = some k := ⟨_, List.getElem?_eq_getElem hlt⟩
  obtain ⟨c', hc', hclient, hat⟩ := hmirrors.player j i k hi hk
  obtain rfl : c' = c := Option.some.inj (hc'.symm.trans hc)
  rw [← hmirrors.globals] at hanswered
  cases hthread : c'.thread with
  | returned =>
    unfold answered at hanswered
    rw [hthread] at hanswered
    cases hanswered
  | waiting line rest w =>
    -- the loops' consumer answers the same call, from the globals both have in common
    obtain ⟨x', k', hx', hstopped⟩ :=
      Broadcast.consumer_answered hk hthread hat hclient hanswered
    have hexchange : heardOf (b.exchange i (.answer i a)) = Broadcast.taken (w.call, a) := by
      rw [exchange_waiting hc hthread]
      exact List.append_nil _
    have hne : i ≠ p := fun heq => hp (heq ▸ List.mem_of_getElem? hi)
    refine ⟨x', k, k', hx', ⟨hstopped.globals.trans hglobals.symm, ?_, ?_, ?_⟩, hk,
      hstopped.consumers, hexchange ▸ hstopped.wrote⟩
    · -- the publisher is another thread, which this one's answer does not touch
      rw [hget, if_neg (Ne.symm hne), hstopped.publisher.1, hstopped.publisher.2]
      exact hmirrors.publisher
    · rw [hstopped.consumers, List.length_set]
      exact hmirrors.length
    · intro j' i' k₁ hi' hk₁
      rw [hstopped.consumers] at hk₁
      by_cases hj : j' = j
      · rw [hj] at hi' hk₁
        rw [List.getElem?_set_self hlt] at hk₁
        cases hk₁
        have heq : i' = i := Option.some.inj (hi'.symm.trans hi)
        rw [heq]
        exact ⟨_, (hget i).trans (if_pos rfl), hstopped.client, hstopped.thread⟩
      · -- the players are different, so another number is another consumer
        have hother : i' ≠ i := by
          intro heq
          rw [heq] at hi'
          exact hj ((List.getElem?_inj (List.getElem?_eq_some_iff.mp hi').1 hnodup).mp
            (hi'.trans hi.symm))
        rw [List.getElem?_set_ne (Ne.symm hj)] at hk₁
        rw [hget, if_neg hother]
        exact hmirrors.player j' i' k₁ hi' hk₁

/-- A turn of somebody else leaves a client alone, and says nothing to it. -/
theorem step_elsewhere {t : Turn} {i : Nat} {c : Seat} (hstep : b.step order fuel t = some b')
    (ht : ∀ a, t ≠ .answer i a) (hc : b.clients[i]? = some c) :
    b'.clients[i]? = some c ∧ b.exchange i t = [] := by
  cases t with
  | accept =>
    obtain ⟨h, -, heq⟩ := Option.map_eq_some_iff.mp hstep
    cases heq
    refine ⟨(getElem?_accept b _ i).trans ?_, rfl⟩
    rw [if_neg (Nat.ne_of_lt (List.getElem?_eq_some_iff.mp hc).1)]
    exact hc
  | answer j a =>
    have hne : j ≠ i := by
      intro heq
      rw [heq] at ht
      exact ht a rfl
    obtain ⟨_, _, -, -, -, hget⟩ := step_answer hstep
    refine ⟨?_, exchange_ne hne⟩
    rw [hget, if_neg (Ne.symm hne)]
    exact hc

theorem Elsewhere.ne_answer {t : Turn} {i : Nat} (ht : Elsewhere p players t)
    (hi : i = p ∨ i ∈ players) (a : Answer) : t ≠ .answer i a := by
  intro heq
  rw [heq] at ht
  exact hi.elim ht.1 ht.2

theorem mirrors_elsewhere {t : Turn} (hmirrors : Mirrors p players b x)
    (hstep : b.step order fuel t = some b') (ht : Elsewhere p players t)
    (hglobals : b'.globals = b.globals) : Mirrors p players b' x where
  globals := hmirrors.globals.trans hglobals.symm
  publisher := by
    obtain ⟨c, hc, h⟩ := hmirrors.publisher
    exact ⟨c, (step_elsewhere hstep (ht.ne_answer (Or.inl rfl)) hc).1, h⟩
  length := hmirrors.length
  player j i k hi hk := by
    obtain ⟨c, hc, h⟩ := hmirrors.player j i k hi hk
    have hmem : i = p ∨ i ∈ players := Or.inr (List.mem_of_getElem? hi)
    exact ⟨c, (step_elsewhere hstep (ht.ne_answer hmem) hc).1, h⟩

theorem loopTurn_or_elsewhere (p : Nat) (players : List Nat) (t : Turn) :
    (∃ t', LoopTurn p players t t') ∨ Elsewhere p players t := by
  cases t with
  | accept => exact Or.inr trivial
  | answer i a =>
    by_cases hi : i = p
    · rw [hi]
      exact Or.inl ⟨_, .publisher a⟩
    · by_cases hmem : i ∈ players
      · obtain ⟨j, hj⟩ := List.getElem?_of_mem hmem
        exact Or.inl ⟨_, .player a hj⟩
      · exact Or.inr ⟨hi, hmem⟩

end

/-! ## Runs -/

/-- A run of the server from `b₀` on that, for the loops, is the run of
`Broadcast` from `x₀` on, by steps of which `R` holds: everybody else leaves the
globals alone. `said` is what the clients have been asked and answered since. -/
inductive Airs (order : Order) (p : Nat) (players : List Nat)
    (R : Broadcast → Broadcast.Turn → Broadcast → Prop) (b₀ : Server) (x₀ : Broadcast) :
    (Nat → List (Call × Answer)) → Server → Broadcast → Prop where
  | start : Airs order p players R b₀ x₀ (fun _ => []) b₀ x₀
  | loops {said : Nat → List (Call × Answer)} {b b' : Server} {x x' : Broadcast} {fuel : Nat}
      {t : Turn} {t' : Broadcast.Turn} : Airs order p players R b₀ x₀ said b x →
      b.step order fuel t = some b' → LoopTurn p players t t' → x.step fuel t' = some x' →
      R x t' x' → Airs order p players R b₀ x₀ (fun i => said i ++ b.exchange i t) b' x'
  | elsewhere {said : Nat → List (Call × Answer)} {b b' : Server} {x : Broadcast} {fuel : Nat}
      {t : Turn} : Airs order p players R b₀ x₀ said b x → b.step order fuel t = some b' →
      Elsewhere p players t → b'.globals = b.globals →
      Airs order p players R b₀ x₀ (fun i => said i ++ b.exchange i t) b' x

section

variable {order : Order} {p : Nat} {players : List Nat}
  {R : Broadcast → Broadcast.Turn → Broadcast → Prop} {b₀ b b' : Server} {x₀ x : Broadcast}
  {said : Nat → List (Call × Answer)}

/-- What a run with the loops keeps: they are where `x` says, and each consumer
has written what its client has taken since. -/
structure OnAir (p : Nat) (players : List Nat) (x₀ : Broadcast) (said : Nat → List (Call × Answer))
    (b : Server) (x : Broadcast) : Prop where
  mirrors : Mirrors p players b x
  wrote : ∀ (j i : Nat) (k₀ k : Consumer), players[j]? = some i → x₀.consumers[j]? = some k₀ →
    x.consumers[j]? = some k → k.wrote = k₀.wrote ++ heardOf (said i)

theorem onAir_start (hmirrors : Mirrors p players b₀ x₀) :
    OnAir p players x₀ (fun _ => []) b₀ x₀ where
  mirrors := hmirrors
  wrote j i k₀ k _ hk₀ hk := by
    rw [hk₀] at hk
    cases hk
    exact (List.append_nil _).symm

/-- One step of the server is one of the loops, or none of theirs; what each client said is
carried along. -/
theorem OnAir.loops {fuel : Nat} {t : Turn} {t' : Broadcast.Turn}
    (honair : OnAir p players x₀ said b x) (hp : p ∉ players) (hnodup : players.Nodup)
    (hstep : b.step order fuel t = some b') (ht : LoopTurn p players t t') :
    ∃ x', x.step fuel t' = some x' ∧
      OnAir p players x₀ (fun i => said i ++ b.exchange i t) b' x' := by
  cases ht with
  | publisher a =>
    -- the publisher writes nothing that a player hears
    obtain ⟨x', hx', hmirrors, hconsumers⟩ := mirrors_publisher honair.mirrors hp hstep
    refine ⟨x', hx', hmirrors, fun j i k₀ k hi hk₀ hk => ?_⟩
    rw [hconsumers] at hk
    have hne : p ≠ i := fun heq => hp (heq ▸ List.mem_of_getElem? hi)
    rw [honair.wrote j i k₀ k hi hk₀ hk, exchange_ne hne, List.append_nil]
  | @player j₁ i₁ a hi₁ =>
    -- what this player wrote in the step is what was heard of it
    obtain ⟨x', k₁, k', hx', hmirrors, hk₁, hconsumers, hwrote⟩ :=
      mirrors_player honair.mirrors hp hnodup hi₁ hstep
    refine ⟨x', hx', hmirrors, fun j i k₀ k hi hk₀ hk => ?_⟩
    rw [hconsumers] at hk
    by_cases hj : j = j₁
    · rw [hj] at hi hk₀ hk
      obtain rfl : i = i₁ := Option.some.inj (hi.symm.trans hi₁)
      rw [List.getElem?_set_self (List.getElem?_eq_some_iff.mp hk₁).1] at hk
      cases hk
      rw [hwrote, honair.wrote j₁ i k₀ k₁ hi hk₀ hk₁, heardOf_append, List.append_assoc]
    · have hne : i₁ ≠ i := by
        intro heq
        rw [heq] at hi₁
        exact hj ((List.getElem?_inj (List.getElem?_eq_some_iff.mp hi).1 hnodup).mp
          (hi.trans hi₁.symm))
      rw [List.getElem?_set_ne (Ne.symm hj)] at hk
      rw [honair.wrote j i k₀ k hi hk₀ hk, exchange_ne hne, List.append_nil]

theorem OnAir.elsewhere {fuel : Nat} {t : Turn} (honair : OnAir p players x₀ said b x)
    (hstep : b.step order fuel t = some b') (ht : Elsewhere p players t)
    (hglobals : b'.globals = b.globals) :
    OnAir p players x₀ (fun i => said i ++ b.exchange i t) b' x where
  mirrors := mirrors_elsewhere honair.mirrors hstep ht hglobals
  wrote j i k₀ k hi hk₀ hk := by
    obtain ⟨c, hc, -⟩ := honair.mirrors.player j i k hi hk
    have hmem : i = p ∨ i ∈ players := Or.inr (List.mem_of_getElem? hi)
    rw [honair.wrote j i k₀ k hi hk₀ hk, (step_elsewhere hstep (ht.ne_answer hmem) hc).2,
      List.append_nil]

theorem Airs.onAir (h : Airs order p players R b₀ x₀ said b x) (hp : p ∉ players)
    (hnodup : players.Nodup) (hmirrors : Mirrors p players b₀ x₀) :
    OnAir p players x₀ said b x := by
  induction h with
  | start => exact onAir_start hmirrors
  | loops _ hstep ht hx _ ih =>
    obtain ⟨x', hx', honair⟩ := ih.loops hp hnodup hstep ht
    obtain rfl := Option.some.inj (hx'.symm.trans hx)
    exact honair
  | elsewhere _ hstep ht hglobals ih => exact ih.elsewhere hstep ht hglobals

/-- A step of the server in which nobody but the loops touches the globals. -/
def AirStep (order : Order) (p : Nat) (players : List Nat) (b b' : Server) : Prop :=
  ∃ fuel t, b.step order fuel t = some b' ∧ (Elsewhere p players t → b'.globals = b.globals)

/-- Every such run of the server is, for its loops, a run of `Broadcast`, and
what the consumers have written is what the clients have taken. -/
theorem airs_of_run (hp : p ∉ players) (hnodup : players.Nodup)
    (hmirrors : Mirrors p players b₀ x₀)
    (hrun : Relation.ReflTransGen (AirStep order p players) b₀ b) :
    ∃ said x, Airs order p players (fun _ _ _ => True) b₀ x₀ said b x ∧
      Relation.ReflTransGen Broadcast.Step x₀ x ∧ OnAir p players x₀ said b x := by
  induction hrun with
  | refl => exact ⟨_, x₀, .start, .refl, onAir_start hmirrors⟩
  | tail _ hstep ih =>
    obtain ⟨said, x, hairs, hsteps, honair⟩ := ih
    obtain ⟨fuel, t, hstep, hglobals⟩ := hstep
    rcases loopTurn_or_elsewhere p players t with ⟨t', ht⟩ | ht
    · obtain ⟨x', hx', honair'⟩ := honair.loops hp hnodup hstep ht
      exact ⟨_, x', .loops hairs hstep ht hx' trivial, hsteps.tail ⟨fuel, t', hx'⟩, honair'⟩
    · exact ⟨_, x, .elsewhere hairs hstep ht (hglobals ht), hsteps,
        honair.elsewhere hstep ht (hglobals ht)⟩

end

end Server

/-! ## Where the loops begin -/

/-- The call is `st_usleep`, in which the loops wait between two of their passes. -/
def Call.sleeps : Call → Bool
  | .stUsleep => true
  | _ => false

/-- The thread is in an `st_usleep` of `step`, and will go on there when it wakes up. -/
def Thread.SleepsIn (step : Step) : Thread → Prop
  | .waiting line _ w => line.step = step ∧ Call.sleeps w.call = true
  | .returned => False

instance (step : Step) (t : Thread) : Decidable (t.SleepsIn step) :=
  match t with
  | .waiting line _ w => inferInstanceAs (Decidable (line.step = step ∧ Call.sleeps w.call = true))
  | .returned => inferInstanceAs (Decidable False)

/-- A read is none, and a write is none: only the third kind of call puts a thread to sleep. -/
theorem Call.not_sleeps {c : Call} (h : c.Reads ∨ c.Writes) : c.sleeps = false := by
  cases c with
  | stUsleep => exact absurd h (fun h => h.elim id id)
  | _ => rfl

/-- The loops are the last lines of their flows, and the chunk size has been
announced before them. -/
theorem Line.of_loops {part past rest : List Line} {line : Line} (hpart : part ∈ parts)
    (h : past ++ line :: rest = part) (hloops : line.step.loops = true) :
    rest = [] ∧ (line.step = .relayLoop → line = checkedCall .relayLoop) ∧
      (line.step = .publishLoop → line = uncheckedCall .publishLoop) ∧ part ≠ negotiation ∧
      .announceChunkSize ∈ part.dropLast.map Line.step := by
  have hall : ∀ part ∈ parts, every (fun line rest => decide (line.step.loops = true → rest = [] ∧
      (line.step = .relayLoop → line = checkedCall .relayLoop) ∧
      (line.step = .publishLoop → line = uncheckedCall .publishLoop) ∧ part ≠ negotiation ∧
      .announceChunkSize ∈ part.dropLast.map Line.step)) part = true := by decide +kernel
  exact of_decide_eq_true (test_of_every (hall part hpart) h) hloops

namespace Session

variable {order : Order} {ε : Type} {env : Env (st.amid Others) ε} {events : List (Event ε)}
  {rest : List Line} {line : Line} {s : State} {e : ε}

/-- In the loops the chunk size is the announced one, which a session sets on its way to
them. -/
theorem chunkSize_loops (h : Session order env events (line :: rest) s e)
    (hloops : line.step.loops = true) : s.client.chunkSize = 4096 := by
  rw [h.chunkSize_eq, sizeAfter, if_pos]
  cases h.course with
  | negotiating hsplit _ _ =>
    exact absurd rfl (Line.of_loops (.head _) hsplit hloops).2.2.2.1
  | flowing rc past hbehind hsplit _ =>
    obtain ⟨hrest, -, -, -, hmem⟩ := Line.of_loops (Line.flow_mem_parts rc) hsplit hloops
    rw [← hsplit, hrest, List.dropLast_concat] at hmem
    rw [hbehind, List.map_append]
    exact List.mem_append_right _ hmem

end Session

section

variable {order : Order} {tr : List (Call × Answer)} {line : Line} {rest : List Line}
  {w : Parked st State Int} {s : State}

/-- A thread that sleeps in the publisher loop is a publisher that sleeps, as `Broadcast`
has it. -/
theorem Follows.publisherAt (h : Follows order tr (.waiting line rest w) s)
    (hsleeps : (Thread.waiting line rest w).SleepsIn .publishLoop) :
    PublisherAt (.waiting line rest w) .sleeping := by
  obtain ⟨hstep, hcall⟩ := hsleeps
  have hloops : line.step.loops = true := by rw [hstep]; rfl
  cases h with
  | waiting hsession _ hfollowed _ =>
    obtain ⟨part, hpart, past, hsplit⟩ := hsession.course.part
    obtain ⟨hrest, -, hline, -, -⟩ := Line.of_loops hpart hsplit hloops
    rw [hstep] at hfollowed
    obtain ⟨t, hparked⟩ := followed_publishLoop hfollowed
    rw [hrest, hline hstep]
    cases hparked with
    | sleeping => exact .parked .sleeping
    | @receiving w hw =>
      have hcall : Call.sleeps w.call = true := hcall
      rw [Call.not_sleeps (Or.inl hw.1)] at hcall
      cases hcall

/-- A thread that sleeps in a relay loop is a consumer that sleeps, as `Broadcast` has it,
with the chunk size announced. -/
theorem Follows.playerAt (h : Follows order tr (.waiting line rest w) s)
    (hsleeps : (Thread.waiting line rest w).SleepsIn .relayLoop) :
    PlayerAt (.waiting line rest w) .sleeping ∧ s.client.chunkSize = 4096 := by
  obtain ⟨hstep, hcall⟩ := hsleeps
  have hloops : line.step.loops = true := by rw [hstep]; rfl
  cases h with
  | @waiting _ _ _ s _ _ _ _ hsession _ hfollowed _ =>
    -- the size of a player's chunks was set before its loop, and no line changes it after that
    obtain ⟨part, hpart, past, hsplit⟩ := hsession.course.part
    obtain ⟨hrest, hline, -, -, -⟩ := Line.of_loops hpart hsplit hloops
    have hkeeps : (line.step.call order).Keeps SameChunkSize :=
      Step.call_keeps sameChunkSize_closed order fun _ => ⟨fun _ => rfl, fun _ _ => rfl⟩
    have hothers : ∀ (o : Others) t, SameChunkSize t (o.apply t) := fun _ _ => rfl
    have hsame := (hfollowed.keeps sameChunkSize_closed.refl sameChunkSize_closed.trans hothers
      hkeeps).1
    refine ⟨?_, hsame.trans (hsession.chunkSize_loops hloops)⟩
    rw [hstep] at hfollowed
    obtain ⟨t, hparked⟩ := followed_relayLoop hfollowed
    rw [hrest, hline hstep]
    -- a player asleep is between two passes; in a pass it could only be writing
    cases hparked with
    | sleeping => exact .parked .sleeping
    | @relaying w hw =>
      have hcall : Call.sleeps w.call = true := hcall
      rw [Call.not_sleeps (Or.inr hw.1)] at hcall
      cases hcall

end

namespace Server

/-- The loops sleep, and there is nothing to be sent: such a state is one that `Broadcast`
can begin in. -/
structure Settled (p : Nat) (players : List Nat) (b : Server) : Prop where
  slot : b.globals.slot = some .null
  publisher : ∃ c : Seat, b.clients[p]? = some c ∧ c.thread.SleepsIn .publishLoop
  players : ∀ i ∈ players, ∃ c : Seat, b.clients[i]? = some c ∧ c.thread.SleepsIn .relayLoop

/-- The client of a number, or a new one where there is no client of that number. -/
def client (b : Server) (i : Nat) : Client := (b.clients[i]?.map Seat.client).getD {}

/-- The loops as they are then: the publisher and the players, on the globals of the server. -/
def loops (p : Nat) (players : List Nat) (b : Server) : Broadcast where
  globals := b.globals
  client := b.client p
  consumers := players.map fun i => { client := b.client i }

theorem client_eq {b : Server} {i : Nat} {c : Seat} (hc : b.clients[i]? = some c) :
    b.client i = c.client := by
  rw [client, hc]
  rfl

section

variable {order : Order} {p : Nat} {players : List Nat} {b : Server}
  {said : Nat → List (Call × Answer)}

/-- Then `Broadcast` can begin: this is so in every state that a run of the
server can come to. -/
theorem Settled.start (hran : Ran order said b) (h : Settled p players b) :
    (b.loops p players).Start ∧ Mirrors p players b (b.loops p players) := by
  -- every player stands at the top of its loop, with chunks of 4096 bytes
  have hplayer : ∀ i ∈ players, ∃ c : Seat, b.clients[i]? = some c ∧
      PlayerAt c.thread .sleeping ∧ c.client.chunkSize = 4096 := by
    intro i hi
    obtain ⟨c, hc, hsleeps⟩ := h.players i hi
    obtain ⟨g, hfollows⟩ := hran.served.follows i c hc
    cases hthread : c.thread with
    | returned =>
      rw [hthread] at hsleeps
      exact hsleeps.elim
    | waiting line rest w =>
      rw [hthread] at hsleeps hfollows
      obtain ⟨hat, hsize⟩ := hfollows.playerAt hsleeps
      exact ⟨c, hc, hthread ▸ hat, hsize⟩
  constructor
  · refine ⟨h.slot, fun w hw => (by cases hw), rfl, fun k hk => ?_⟩
    obtain ⟨i, hi, heq⟩ := List.mem_map.mp hk
    obtain ⟨c, hc, -, hsize⟩ := hplayer i hi
    rw [← heq]
    refine ⟨?_, rfl, rfl, rfl⟩
    show (b.client i).chunkSize = 4096
    rw [client_eq hc, hsize]
  · -- what the loops start from is what the threads stand at
    refine ⟨rfl, ?_, List.length_map _, fun j i k hi hk => ?_⟩
    · obtain ⟨c, hc, hsleeps⟩ := h.publisher
      obtain ⟨g, hfollows⟩ := hran.served.follows p c hc
      refine ⟨c, hc, client_eq hc, ?_⟩
      cases hthread : c.thread with
      | returned =>
        rw [hthread] at hsleeps
        exact hsleeps.elim
      | waiting line rest w =>
        rw [hthread] at hsleeps hfollows
        exact hfollows.publisherAt hsleeps
    · obtain ⟨c, hc, hat, -⟩ := hplayer i (List.mem_of_getElem? hi)
      have hget : (b.loops p players).consumers[j]? = some { client := b.client i } := by
        show (players.map _)[j]? = _
        rw [List.getElem?_map, hi]
        rfl
      rw [hget] at hk
      cases hk
      exact ⟨c, hc, client_eq hc, hat⟩

end

/-! ## What the players are sent -/

/-- A step of the loops that disturbs nobody, and in which nobody but consumer
`k` takes a message. -/
def OrderlyBy (k : Nat) (x : Broadcast) (t : Broadcast.Turn) (x' : Broadcast) : Prop :=
  x.Orderly t x' ∧ x.TakenBy k t

section

variable {order : Order} {p k : Nat} {players : List Nat} {b₀ b : Server} {x₀ x : Broadcast}
  {said said₀ : Nat → List (Call × Answer)}

theorem Airs.orderly (h : Airs order p players (OrderlyBy k) b₀ x₀ said b x) :
    Relation.ReflTransGen (Broadcast.OrderlyStepBy k) x₀ x := by
  induction h with
  | start => exact .refl
  | loops _ _ _ hx horderly ih => exact ih.tail ⟨_, _, hx, horderly⟩
  | elsewhere _ _ _ _ ih => exact ih

end

end Server

/-! ## What they make of it -/

namespace Published

/-- The messages are received one after the other, by a client that reads as the
server does: their types, their streams and their payloads. -/
def PlaysBack : List Published → State → Stream → Prop
  | [], _, e => e.inp = []
  | m :: ms, s, e => wp streamEnv recvAudioVideo (fun r s' e' => r.1 = 0 ∧
      (s'.globals.header s'.globals.currCsid).messageType = m.header.messageType ∧
      (s'.globals.header s'.globals.currCsid).streamId = m.header.streamId ∧
      (s'.buffer .audioVideoBuffer).drop (r.2.1 + r.2.2) = m.payload ∧
      PlaysBack ms (s'.setBuffer .audioVideoBuffer []) e') s e

theorem wp_recvAudioVideo_encode {m : Published} (hm : m.Complete)
    (hle : m.payload.length ≤ 0xFFFFFF) {s : State} {rest out : Bytes}
    {Q : Int × Nat × Nat → State → Stream → Prop} (hempty : s.buffer .audioVideoBuffer = [])
    (hcs : s.client.chunkSize = 4096)
    (hQ : ∀ bhSize mhSize s', s'.client.chunkSize = 4096 →
      (s'.globals.header s'.globals.currCsid).messageType = m.header.messageType →
      (s'.globals.header s'.globals.currCsid).streamId = m.header.streamId →
      (s'.buffer .audioVideoBuffer).drop (bhSize + mhSize) = m.payload →
      Q (0, bhSize, mhSize) s' ⟨rest, out⟩) :
    wp streamEnv recvAudioVideo Q s ⟨m.encode ++ rest, out⟩ := by
  -- either kind has its own chunk stream, and both a basic header of one byte
  obtain ⟨csid, hcsid, h2, h63⟩ : ∃ csid : Nat, sendCsid m.header.messageType = csid ∧ 2 ≤ csid ∧
      csid ≤ 63 := by
    rcases hm.2.1 with ht | ht
    · exact ⟨7, by rw [ht]; rfl, by decide, by decide⟩
    · exact ⟨6, by rw [ht]; rfl, by decide, by decide⟩
  have hpay : (BitVec.ofNat 24 m.payload.length).toNat = m.payload.length := by
    rw [BitVec.toNat_ofNat, Nat.mod_eq_of_lt (by omega)]
  -- on the wire it is one header of format 0 and the chunks of its payload
  rw [encode, relayed, frame_hdr, hcsid, ← hcs]
  simp only [List.cons_append, List.append_assoc]
  refine wp_recvAudioVideo (h := .fmt0 (stampOf m.header.timestamp)
    (BitVec.ofNat 24 m.payload.length) m.header.messageType m.header.streamId) hempty h2 h63
    (fun h3 => absurd h3 (by simp [ChunkHeader.fmt])) ?_ (by omega) ?_
  · simp [ChunkHeader.received, hpay]
  · refine hQ _ _ _ ?_ ?_ ?_ ?_
    · simpa using hcs
    · simp [ChunkHeader.received]
    · simp [ChunkHeader.received]
    · rw [State.buffer_append, State.setHeader_buffer, State.setCurrCsid_buffer, hempty,
        List.nil_append, Nat.add_comm, List.drop_succ_cons, List.drop_left]

theorem playsBack_encode : ∀ (ms : List Published), (∀ m ∈ ms, m.Complete) →
    (∀ m ∈ ms, m.payload.length ≤ 0xFFFFFF) → ∀ {s : State} {out : Bytes},
      s.buffer .audioVideoBuffer = [] → s.client.chunkSize = 4096 →
      PlaysBack ms s ⟨ms.flatMap encode, out⟩ := by
  intro ms
  induction ms with
  | nil =>
    intro _ _ s out _ _
    rfl
  | cons m ms ih =>
    intro hcomplete hle s out hempty hcs
    have hrest : ∀ m ∈ ms, m.Complete := fun m' hm' => hcomplete m' (List.mem_cons_of_mem _ hm')
    have hrest' : ∀ m ∈ ms, m.payload.length ≤ 0xFFFFFF :=
      fun m' hm' => hle m' (List.mem_cons_of_mem _ hm')
    rw [List.flatMap_cons]
    refine wp_recvAudioVideo_encode (hcomplete m (.head _)) (hle m (.head _)) hempty hcs ?_
    intro bhSize mhSize s' hcs' htype hstream hpayload
    refine ⟨rfl, htype, hstream, hpayload, ih hrest hrest' ?_ ?_⟩
    · simp
    · simpa using hcs'

end Published

namespace Server

section

variable {order : Order} {p k : Nat} {players : List Nat} {b₀ b : Server} {x : Broadcast}
  {said said₀ : Nat → List (Call × Answer)}

/-- From any state of the server in which the loops sleep, along any run from
there that is orderly and in which one and the same player `k` takes every message:
a player that sleeps has taken the first of the published messages, each of them
once, and receives them one by one. (Of two players that take turns, the second
may take the second message first, so the condition on `k` is needed.) -/
theorem played_back (hran : Ran order said₀ b₀) (hsettled : Settled p players b₀)
    (hp : p ∉ players) (hnodup : players.Nodup)
    (hairs : Airs order p players (OrderlyBy k) b₀ (b₀.loops p players) said b x) {i : Nat}
    {c : Seat} (hi : i ∈ players) (hc : b.clients[i]? = some c)
    (hsleeps : c.thread.SleepsIn .relayLoop)
    (hle : ∀ m ∈ x.published, m.payload.length ≤ 0xFFFFFF) :
    ∃ sent, sent <+: x.published ∧ heardOf (said i) = sent.flatMap Published.encode ∧
      ∀ decoder : State, decoder.buffer .audioVideoBuffer = [] → decoder.client.chunkSize = 4096 →
        Published.PlaysBack sent decoder ⟨heardOf (said i), []⟩ := by
  obtain ⟨hstart, hmirrors⟩ := hsettled.start hran
  have honair := hairs.onAir hp hnodup hmirrors
  obtain ⟨j, hj⟩ := List.getElem?_of_mem hi
  have hlt : j < x.consumers.length := by
    rw [honair.mirrors.length]
    exact (List.getElem?_eq_some_iff.mp hj).1
  have hc' : x.consumers[j]? = some x.consumers[j] := List.getElem?_eq_getElem hlt
  generalize x.consumers[j] = c' at hc'
  -- nothing of a pass is under way
  have hout : c'.wrote = c'.sent.flatten := by
    obtain ⟨c₁, hc₁, -, hat⟩ := honair.mirrors.player j i c' hj hc'
    obtain rfl := Option.some.inj (hc₁.symm.trans hc)
    have hasleep : c'.thread = .sleeping := by
      generalize c₁.thread = thread at hat hsleeps
      generalize c'.thread = thread' at hat ⊢
      cases hat with
      | returned => exact hsleeps.elim
      | parked hparked =>
        cases hparked with
        | sleeping => rfl
        | @relaying w hw =>
          have hcall : Call.sleeps w.call = true := hsleeps.2
          rw [Call.not_sleeps (Or.inr hw.1)] at hcall
          cases hcall
    have hinv := Broadcast.inv_run hstart hairs.orderly
    rw [Consumer.wrote, hinv.out c' (List.mem_of_getElem? hc') hasleep, List.append_nil]
  -- nothing had been written before
  have hwrote : c'.wrote = heardOf (said i) := by
    have hfirst : (b₀.loops p players).consumers[j]? = some { client := b₀.client i } := by
      show (players.map _)[j]? = _
      rw [List.getElem?_map, hj]
      rfl
    exact honair.wrote j i _ c' hj hfirst hc'
  obtain ⟨n, hsent⟩ : ∃ n, c'.sent = (x.published.take n).map Published.encode := by
    have hprefix := (Broadcast.inv_run hstart hairs.orderly).sent_of_published hc'
    rw [List.prefix_iff_eq_take] at hprefix
    exact ⟨_, hprefix.trans List.map_take.symm⟩
  have hheard : heardOf (said i) = (x.published.take n).flatMap Published.encode := by
    rw [← hwrote, hout, hsent, List.flatMap_def]
  refine ⟨x.published.take n, List.take_prefix n _, hheard, fun decoder hempty hcs => ?_⟩
  have hmem : ∀ m ∈ x.published.take n, m ∈ x.published := fun m hm => List.mem_of_mem_take hm
  have hcomplete := (Broadcast.inv_run hstart hairs.orderly).complete
  rw [hheard]
  exact Published.playsBack_encode _ (fun m hm => hcomplete m (hmem m hm))
    (fun m hm => hle m (hmem m hm)) hempty hcs

/-! ### Schedules -/

/-- A turn of the loops, as one of the server: the publisher is client `p`, and a consumer
the player in its place. -/
def serverTurn (p : Nat) (players : List Nat) : Broadcast.Turn → Option Turn
  | .publisher a => some (.answer p a)
  | .consumer j a => players[j]?.map fun i => .answer i a

theorem loopTurn_serverTurn {t : Turn} {t' : Broadcast.Turn}
    (h : serverTurn p players t' = some t) : LoopTurn p players t t' := by
  cases t' with
  | publisher a =>
    cases h
    exact .publisher a
  | consumer j a =>
    obtain ⟨i, hi, heq⟩ := Option.map_eq_some_iff.mp h
    cases heq
    exact .player a hi

/-- A schedule of the loops, on the server and on `Broadcast`, as long as each of
its steps is orderly. -/
def runAir (order : Order) (p k fuel : Nat) (players : List Nat) (b : Server) (x : Broadcast) :
    List Broadcast.Turn → Option (Server × Broadcast)
  | [] => some (b, x)
  | t :: ts =>
    (serverTurn p players t).bind fun t' => (b.step order fuel t').bind fun b' =>
      (x.step fuel t).bind fun x' =>
        if x.mayRun t ∧ x.mayTake k t ∧ ∀ m ∈ x'.published, m.Complete then
          runAir order p k fuel players b' x' ts
        else none

theorem orderlyBy_of_may {x x' : Broadcast} {t : Broadcast.Turn} (hrun : x.mayRun t = true)
    (htake : x.mayTake k t = true) (hcomplete : ∀ m ∈ x'.published, m.Complete) :
    OrderlyBy k x t x' := by
  refine ⟨⟨fun a ht hthread => ?_, hcomplete⟩, fun i a c ht hc hthread hslot => ?_⟩
  · rw [ht] at hrun
    simpa [Broadcast.mayRun, hthread] using hrun
  · rw [ht] at htake
    simpa [Broadcast.mayTake, hslot, hc, hthread] using htake

theorem airs_of_runAir {fuel : Nat} {x₀ : Broadcast} (ts : List Broadcast.Turn) :
    ∀ {b b' : Server} {x x' : Broadcast} {said : Nat → List (Call × Answer)},
      Airs order p players (OrderlyBy k) b₀ x₀ said b x →
      runAir order p k fuel players b x ts = some (b', x') →
      ∃ said', Airs order p players (OrderlyBy k) b₀ x₀ said' b' x' := by
  induction ts with
  | nil =>
    intro b b' x x' said hairs h
    cases h
    exact ⟨said, hairs⟩
  | cons t ts ih =>
    intro b b' x x' said hairs h
    obtain ⟨t', ht, h⟩ := Option.bind_eq_some_iff.mp h
    obtain ⟨b₁, hb, h⟩ := Option.bind_eq_some_iff.mp h
    obtain ⟨x₁, hx, h⟩ := Option.bind_eq_some_iff.mp h
    obtain ⟨⟨hrun, htake, hcomplete⟩, h⟩ := Option.ite_none_right_eq_some.mp h
    exact ih (.loops hairs hb (loopTurn_serverTurn ht) hx
      (orderlyBy_of_may hrun htake hcomplete)) h

end

/-- The publisher and the player of `onePlayer` sleep, once its message is out. -/
theorem settled_onePlayer {b : Server} (hb : run .front 50 {} onePlayer = some b) :
    Settled 0 [1] b := by
  have hrun : (run .front 50 {} onePlayer).map (fun b => (b.globals.slot,
      b.clients.map fun c => (decide (c.thread.SleepsIn .publishLoop),
        decide (c.thread.SleepsIn .relayLoop)))) =
          some (some .null, [(true, false), (false, true)]) := by
    decide +kernel
  rw [hb, Option.map_some, Option.some.injEq, Prod.mk.injEq] at hrun
  obtain ⟨hslot, hclients⟩ := hrun
  obtain ⟨c₀, cs, hcs, h0, htail⟩ := List.map_eq_cons_iff.mp hclients
  obtain ⟨c₁, hcs', h1⟩ := List.map_eq_singleton_iff.mp htail
  rw [Prod.mk.injEq] at h0 h1
  refine ⟨hslot, ⟨c₀, ?_, of_decide_eq_true h0.1⟩, fun i hi => ⟨c₁, ?_, of_decide_eq_true h1.2⟩⟩
  · rw [hcs]
    rfl
  · rw [List.mem_singleton.mp hi, hcs, hcs']
    rfl

/-- Its publisher wakes up, and so it does in `Broadcast`, from the state that the server
was in. -/
theorem airs_of_run_onePlayer : ∃ (b₀ b : Server) (x : Broadcast)
    (said : Nat → List (Call × Answer)), b₀.step .front 50 (.answer 0 .wake) = some b ∧
      Airs .front 0 [1] (fun _ _ _ => True) b₀ (b₀.loops 0 [1]) said b x ∧
      Relation.ReflTransGen Broadcast.Step (b₀.loops 0 [1]) x ∧
      OnAir 0 [1] (b₀.loops 0 [1]) said b x := by
  have hrun : ((run .front 50 {} onePlayer).bind fun b₀ =>
      b₀.step .front 50 (.answer 0 .wake)).isSome = true := by decide +kernel
  obtain ⟨b, hb⟩ := Option.isSome_iff_exists.mp hrun
  obtain ⟨b₀, hb₀, hstep⟩ := Option.bind_eq_some_iff.mp hb
  obtain ⟨said₀, hran⟩ := ran_of_steps (run_steps _ hb₀)
  have hair : AirStep .front 0 [1] b₀ b := ⟨50, _, hstep, fun h => absurd rfl h.1⟩
  obtain ⟨said, x, h⟩ := airs_of_run (by decide) (by decide)
    ((settled_onePlayer hb₀).start hran).2 (.single hair)
  exact ⟨b₀, b, x, said, hstep, h⟩

/-- Its next message is sent, and the player receives it: all that it has heard is that
message, and plays back. -/
theorem played_back_onePlayer : ∃ (b₀ b : Server) (x : Broadcast)
    (said : Nat → List (Call × Answer)) (sent : List Published),
      Airs .front 0 [1] (OrderlyBy 0) b₀ (b₀.loops 0 [1]) said b x ∧
      x.published.map Published.payload = [[3]] ∧ sent <+: x.published ∧
      heardOf (said 1) = sent.flatMap Published.encode ∧
      ∀ decoder : State, decoder.buffer .audioVideoBuffer = [] → decoder.client.chunkSize = 4096 →
        Published.PlaysBack sent decoder ⟨heardOf (said 1), []⟩ := by
  have hrun : ((run .front 50 {} onePlayer).bind fun b₀ => runAir .front 0 0 50 [1] b₀
      (b₀.loops 0 [1]) (Broadcast.receive [3] ++ Broadcast.relay 0 1)).map (fun r =>
        (r.1.clients[1]?.map fun c => decide (c.thread.SleepsIn .relayLoop),
          r.2.published.map Published.payload)) = some (some true, [[3]]) := by decide +kernel
  obtain ⟨r, hr, heq⟩ := Option.map_eq_some_iff.mp hrun
  obtain ⟨b, x⟩ := r
  rw [Prod.mk.injEq] at heq
  obtain ⟨b₀, hb₀, hair⟩ := Option.bind_eq_some_iff.mp hr
  obtain ⟨c, hc, hsleeps⟩ := Option.map_eq_some_iff.mp heq.1
  obtain ⟨said₀, hran⟩ := ran_of_steps (run_steps _ hb₀)
  obtain ⟨said, hairs⟩ := airs_of_runAir _ .start hair
  have hle : ∀ m ∈ x.published, m.payload.length ≤ 0xFFFFFF := by
    intro m hm
    have hpayload := List.mem_map_of_mem (f := Published.payload) hm
    rw [heq.2] at hpayload
    rw [List.mem_singleton.mp hpayload]
    decide
  obtain ⟨sent, h⟩ := played_back hran (settled_onePlayer hb₀) (by decide) (by decide) hairs
    (.head _) hc (of_decide_eq_true hsleeps) hle
  exact ⟨b₀, b, x, said, sent, hairs, heq.2, h⟩

end Server

end RtmpServer
