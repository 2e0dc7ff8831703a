import RtmpServer.Lib.Projection
import RtmpServer.History
import RtmpServer.LiveConsumers

/-!
# The threads of the server are sessions

`Server` schedules all threads against each other, `Session` is one thread
among others of which nothing is known. Here the two meet: in every run of the
server, the thread of each client is a `Session` whose socket gives exactly the
answers that the thread has been given (`ran_follows`). What is proved of every
session is thereby true of every client of the server.

The invariant is about threads that have stopped. A thread that stops anew has
gone through one line after the other: `follows_settle` is the end of the call
it was in, `follows_proceed` the lines behind it, by induction on their number.

Mirroring notes:
- `Ran` is a run of the server together with what every thread has called and
  been answered on the way; nothing in the server looks at it.
-/

namespace RtmpServer

open Coroutine Coroutine.Prog

/-- The line that a thread is at, if it has not returned. -/
def Thread.line? : Thread → Option Line
  | waiting line _ _ => some line
  | returned => none

/-! ## Sessions and their sockets -/

/-- The event on another socket, whose states are what `f` makes of this one's. -/
def Event.map {ε δ : Type} (f : ε → δ) (ev : Event ε) : Event δ :=
  ⟨ev.line, ev.before, f ev.socket, ev.rc, ev.after, f ev.socket'⟩

/-- On a socket that answers as another one does, the session is the same. -/
theorem Session.map {order : Order} {ε δ : Type} {env : Env (st.amid Others) ε}
    {env' : Env (st.amid Others) δ} {f : ε → δ}
    (henv : ∀ c e r e1, env c e = some (r, e1) → env' c (f e) = some (r, f e1))
    {events : List (Event ε)} {lines : List Line} {s : State} {e : ε}
    (h : Session order env events lines s e) :
    Session order env' (events.map (Event.map f)) lines s (f e) := by
  induction h with
  | start haccepted => exact .start haccepted
  | call _ hrun hfollow ih =>
    rw [List.map_append]
    obtain ⟨n, hrun⟩ := hrun
    exact .call ih ⟨n, exec_map henv _ hrun⟩ hfollow

/-- A recording of what a socket answered, and of what the others did. -/
abbrev Recording := List (Call × Answer × Others)

/-- The socket that plays a recording back: what it has still to answer, and
what it has answered. -/
abbrev played : Env (st.amid Others) (List (Answer × Others) × Recording) :=
  replay (answerAmid (S := st) (O := Others) answer)

/-- The calls and answers of a recording, without what the others have done in them. -/
def exchanged (tr : Recording) : List (Call × Answer) := tr.map fun x => (x.1, x.2.1)

theorem exchanged_append (tr tr' : Recording) :
    exchanged (tr ++ tr') = exchanged tr ++ exchanged tr' :=
  List.map_append

/-- The socket as it was when the session began, before its first line. -/
def origin {ε : Type} (events : List (Event ε)) (e : ε) : ε :=
  (events.head?.map Event.socket).getD e

theorem origin_concat {ε : Type} (events : List (Event ε)) (ev : Event ε) (e : ε) :
    origin (events ++ [ev]) e = origin events ev.socket := by
  cases events with
  | nil => rfl
  | cons _ _ => rfl

theorem origin_map {ε δ : Type} (f : ε → δ) (events : List (Event ε)) (e : ε) :
    origin (events.map (Event.map f)) (f e) = f (origin events e) := by
  cases events with
  | nil => rfl
  | cons _ _ => rfl

/-- One more call of a session whose recording has been played to its end. -/
theorem Session.call_played {order : Order} {events : List (Event _)} {line : Line}
    {rest next : List Line} {s s' : State} {before tr : Recording} {rc : Int}
    (h : Session order played events (line :: rest) s ([], before))
    (hrun : Runs played (line.call order) s (tr.map Prod.snd, []) rc s' ([], tr))
    (hfollow : line.follow rc rest = some next)
    (hbegin : (origin events ([], before)).2 = []) :
    ∃ events', Session order played events' next (line.step.finish order rc s')
      ([], before ++ tr) ∧ (origin events' ([], before ++ tr)).2 = [] := by
  -- the answers of the call are put behind the ones that the session has had
  have hwait := Session.map (f := fun e => (e.1 ++ tr.map Prod.snd, [] ++ e.2))
    (fun _ _ _ _ he => replay_extend (tr.map Prod.snd) [] he) h
  have hcall := runs_replay_extend [] before hrun
  rw [List.append_nil, List.append_nil] at hcall
  refine ⟨_, .call hwait hcall hfollow, ?_⟩
  rw [origin_concat]
  exact (congrArg Prod.snd (origin_map (fun e => (e.1 ++ tr.map Prod.snd, [] ++ e.2)) events
    ([], before))).trans hbegin

/-! ## The two loops do not end -/

section

variable {ε : Type} {env : Env (st.amid Others) ε} {s : State} {e : ε}

/-- The relay loop is left in one place only, behind a pass that failed. -/
theorem wlp_relayLoop_rc : wlp env (relayLoop.amid Others.apply) (fun rc _ _ => rc = -1) s e := by
  refine wlp_iter_of_inv (fun _ _ _ => True) (fun _ s e _ => ?_) trivial
  refine wlp_bind.mpr fun slot s1 e1 _ => ?_
  show wlp env (amid Others.apply (if slot = .null then _ else _)) _ s1 e1
  rw [amid_ite, wlp_ite]
  split
  · exact wlp_bind.mpr fun _ _ _ _ => wlp_ret.mpr trivial
  · refine wlp_bind.mpr fun rc s2 e2 _ => ?_
    show wlp env (amid Others.apply (if rc = -1 then _ else _)) _ s2 e2
    rw [amid_ite, wlp_ite]
    split
    · exact wlp_ret.mpr rfl
    · exact wlp_bind.mpr fun _ _ _ _ => wlp_bind.mpr fun _ _ _ _ => wlp_ret.mpr trivial

/-- The publisher loop is not left at all: it looks at no return value. -/
theorem wlp_publishLoop_rc : wlp env (publishLoop.amid Others.apply) (fun _ _ _ => False) s e := by
  refine wlp_iter_of_inv (fun _ _ _ => True) (fun _ s e _ => ?_) trivial
  exact wlp_bind.mpr fun _ _ _ _ => wlp_bind.mpr fun _ _ _ _ => wlp_bind.mpr fun _ _ _ _ =>
    wlp_ret.mpr trivial

end

namespace Session

variable {order : Order} {ε : Type} {env : Env (st.amid Others) ε} {events : List (Event ε)}
  {lines : List Line} {s : State} {e : ε}

/-- The last line of a part of the session is to identify the client, or one of the two
loops. -/
theorem last_of_part {part past : List Line} {line : Line} (hpart : part ∈ Line.parts)
    (h : past ++ [line] = part) :
    line.step = .identify ∨ line = .checkedCall .relayLoop ∨ line.step = .publishLoop := by
  have hlast : part.getLast? = some line := by rw [← h, List.getLast?_concat]
  have hall : ∀ part ∈ Line.parts, ∀ line, part.getLast? = some line → line.step = .identify ∨
      line = .checkedCall .relayLoop ∨ line.step = .publishLoop := by
    intro part hpart line hlast
    simp only [Line.parts, List.mem_cons, List.not_mem_nil, or_false] at hpart
    rcases hpart with rfl | rfl | rfl
    · cases hlast
      exact Or.inl rfl
    · cases hlast
      exact Or.inr (Or.inl rfl)
    · cases hlast
      exact Or.inr (Or.inr rfl)
  exact hall part hpart line hlast

/-- A session does not come to the end of its lines: there is always a call to
be made. -/
theorem lines_ne_nil (h : Session order env events lines s e) : lines ≠ [] := by
  cases h with
  | start _ => exact List.cons_ne_nil _ _
  | @call events line rest next s s' e e' rc hsession hrun hfollow =>
    intro hnil
    obtain ⟨part, hpart, past, hsplit⟩ := hsession.course.part
    by_cases hident : line.step = .identify
    · rw [Line.follow_identify hfollow hident, Line.flow] at hnil
      split at hnil
      · cases hnil
      · cases hnil
    · rw [Line.follow_eq hfollow hident] at hnil
      rw [hnil] at hsplit
      rcases last_of_part hpart hsplit with hstep | hline | hstep
      · exact hident hstep
      · rw [hline] at hrun hfollow
        exact Line.follow_checked hfollow rfl (wlp_relayLoop_rc _ _ _ hrun)
      · unfold Line.call at hrun
        rw [hstep] at hrun
        exact wlp_publishLoop_rc _ _ _ hrun

end Session

/-! ## A thread and its session -/

/-- The state that another client leaves to a session: all the globals as they are then. -/
def Others.set (g : Globals) (h : ∀ kv ∈ g.setDataFrame, Storable kv) : Others :=
  ⟨fun _ => g, fun _ _ => h⟩

/-- A thread that was in `s` when it stopped is a session whose calls and answers
were `tr`: it waits in the call of its next line, or that call has returned what
made it return. -/
inductive Follows (order : Order) (tr : List (Call × Answer)) : Thread → State → Prop where
  | waiting {events : List (Event _)} {line : Line} {rest : List Line} {s s1 : State}
      {before now : Recording} {w : Parked st State Int} :
      Session order played events (line :: rest) s ([], before) →
      (origin events ([], before)).2 = [] →
      Followed answer Others.apply (line.step.call order) s now w s1 →
      exchanged (before ++ now) = tr → Follows order tr (.waiting line rest w) s1
  | returned {events : List (Event _)} {line : Line} {rest : List Line} {s s1 : State}
      {before now : Recording} {rc : Int} :
      Session order played events (line :: rest) s ([], before) →
      (origin events ([], before)).2 = [] →
      Runs played (line.call order) s (now.map Prod.snd, []) rc s1 ([], now) →
      line.follow rc rest = none → exchanged (before ++ now) = tr → Follows order tr .returned s1

/-- It leaves a list that `SetDataFrame` can have stored, which the next session takes over. -/
theorem Follows.storable {order : Order} {tr : List (Call × Answer)} {t : Thread} {s : State}
    (h : Follows order tr t s) : HoldsStorable s := by
  have hothers : ∀ (o : Others) s, StaysStorable s (o.apply s) := fun o s hs => o.storable _ hs
  cases h with
  | @waiting _ line _ s _ _ _ _ hsession _ hcall _ =>
    exact (hcall.keeps staysStorable_closed.refl staysStorable_closed.trans hothers
      (call_staysStorable order line.step)).1 hsession.storable
  | @returned _ line _ s _ _ _ _ hsession _ hrun _ _ =>
    exact Keeps.wlp staysStorable_closed.refl staysStorable_closed.trans _
      (Keeps.amid Others.apply hothers _ (call_staysStorable order line.step)) _ _ _ hrun
      hsession.storable

namespace Server

section

variable {order : Order} {fuel n : Nat} {line : Line} {rest : List Line} {found : List Slot}
  {s s1 : State} {stop : Stop st State Int} {h : Halt} {before now : Recording}

/-- What a thread is that goes through at most `n` lines: at a point of its session when it
stops. -/
def Continues (order : Order) (fuel n : Nat) : Prop :=
  ∀ {events : List (Event _)} {lines found s before h},
    Session order played events lines s ([], before) → (origin events ([], before)).2 = [] →
    proceed order fuel n lines found s = some h →
    Follows order (exchanged before) h.thread h.state

/-- The call of `line` has stopped, and the thread there or later, at a point of the same
session. -/
theorem follows_settle {events : List (Event _)} (hnext : Continues order fuel n)
    (hsession : Session order played events (line :: rest) s ([], before))
    (hbegin : (origin events ([], before)).2 = [])
    (hstop : Proceeded answer Others.apply (line.step.call order) s now s1 stop)
    (hsettle : settle order (proceed order fuel n) line rest found (stop, s1) = some h) :
    Follows order (exchanged (before ++ now)) h.thread h.state := by
  cases stop with
  | parked w =>
    cases hsettle
    exact .waiting hsession hbegin hstop rfl
  | done rc =>
    rw [settle] at hsettle
    cases hfollow : line.follow rc rest with
    | none =>
      rw [hfollow] at hsettle
      cases hsettle
      exact .returned hsession hbegin hstop hfollow rfl
    | some next =>
      rw [hfollow] at hsettle
      obtain ⟨events', hsession', hbegin'⟩ := hsession.call_played hstop hfollow hbegin
      exact hnext hsession' hbegin' hsettle

/-- A thread that goes on with lines of its session is at a point of it when it stops,
however many lines that takes. -/
theorem follows_proceed : ∀ n, Continues order fuel n := by
  intro n
  induction n with
  | zero =>
    intro events lines found s before h _ _ hproceed
    cases hproceed
  | succ n ih =>
    intro events lines found s before h hsession hbegin hproceed
    cases lines with
    | nil => exact absurd rfl hsession.lines_ne_nil
    | cons line rest =>
      obtain ⟨r, hadv, hsettle⟩ := Option.bind_eq_some_iff.mp hproceed
      have hfollows := follows_settle ih hsession hbegin (proceeded_of_advance hadv) hsettle
      rw [List.append_nil] at hfollows
      exact hfollows

/-- A thread is given the answer to its call: it is at a point of its session again, with
this exchange behind the others. -/
theorem follows_answered {tr : List (Call × Answer)} {g g' : Globals} {c : Seat} {x : Answer}
    {w : Parked st State Int} (hthread : c.thread = .waiting line rest w)
    (hstorable : ∀ kv ∈ g.setDataFrame, Storable kv)
    (hfollows : Follows order tr c.thread ⟨g', c.client⟩)
    (hanswered : answered order fuel g c x = some h) :
    Follows order (tr ++ [(w.call, x)]) h.thread h.state := by
  unfold answered at hanswered
  generalize hs1 : (⟨g', c.client⟩ : State) = s1 at hfollows
  rw [hthread] at hanswered hfollows
  obtain ⟨r, hresume, hsettle⟩ := Option.bind_eq_some_iff.mp hanswered
  cases hfollows with
  | waiting hsession hbegin hcall hgiven =>
    -- what the others have done meanwhile is that the globals are `g` now
    have hothers : (Others.set g hstorable).apply s1 = ⟨g, c.client⟩ := by
      rw [← hs1]
      rfl
    rw [← hothers] at hresume
    have hfollows := follows_settle (follows_proceed fuel) hsession hbegin
      (hcall.proceeded hresume) hsettle
    rw [← List.append_assoc, exchanged_append, hgiven] at hfollows
    exact hfollows

end

/-! ## Every run -/

/-- What the turn adds to the calls and answers of client `i`: its own answer, if it is the
one. -/
def exchange (b : Server) (i : Nat) : Turn → List (Call × Answer)
  | .accept => []
  | .answer j x =>
    if j = i then
      match b.clients[i]? with
      | some ⟨_, .waiting _ _ w, _⟩ => [(w.call, x)]
      | _ => []
    else []

/-- The server has come to `b`, and the calls and answers of client `i` were
`said i`. -/
inductive Ran (order : Order) : (Nat → List (Call × Answer)) → Server → Prop where
  | empty : Ran order (fun _ => []) {}
  | step {said : Nat → List (Call × Answer)} {b b' : Server} {fuel : Nat} {t : Turn} :
      Ran order said b → b.step order fuel t = some b' →
      Ran order (fun i => said i ++ b.exchange i t) b'

/-- Every run of the server is one, with the exchanges that its turns made. -/
theorem ran_of_steps {order : Order} {b : Server}
    (h : Relation.ReflTransGen (Steps order) {} b) : ∃ said, Ran order said b := by
  induction h with
  | refl => exact ⟨_, .empty⟩
  | tail _ hstep ih =>
    obtain ⟨said, hran⟩ := ih
    obtain ⟨fuel, t, hstep⟩ := hstep
    exact ⟨_, .step hran hstep⟩

/-- The invariant of a run: the kept list can have been stored, who is not there has said
nothing, and each client's thread is at a point of its own session. -/
structure Served (order : Order) (said : Nat → List (Call × Answer)) (b : Server) : Prop where
  storable : ∀ kv ∈ b.globals.setDataFrame, Storable kv
  fresh : ∀ i, b.clients.length ≤ i → said i = []
  follows : ∀ i c, b.clients[i]? = some c → ∃ g, Follows order (said i) c.thread ⟨g, c.client⟩

theorem served_empty (order : Order) : Served order (fun _ => []) {} where
  storable _ hkv := by cases hkv
  fresh _ _ := rfl
  follows _ _ hc := by cases hc

/-- Client `i` has stopped anew, and the others are where they were, so the invariant holds
of all. -/
theorem Served.stopped {order : Order} {said said' : Nat → List (Call × Answer)} {b : Server}
    {h : Halt} {i : Nat} {clients : Seat → List Seat} (hserved : Served order said b)
    (hfollows : Follows order (said' i) h.thread h.state)
    (hothers : ∀ j, j ≠ i → said' j = said j)
    (hlength : ∀ c, i < (clients c).length ∧ b.clients.length ≤ (clients c).length)
    (hget : ∀ c j, (clients c)[j]? = if j = i then some c else b.clients[j]?) :
    Served order said' (b.stopped h clients) where
  storable := hfollows.storable
  fresh j hj := by
    have hlen := hlength ⟨h.state.client, h.thread, h.found⟩
    have hle : (clients ⟨h.state.client, h.thread, h.found⟩).length ≤ j := hj
    rw [hothers j (by omega), hserved.fresh j (by omega)]
  follows j c hc := by
    have hc : (clients ⟨h.state.client, h.thread, h.found⟩)[j]? = some c := hc
    rw [hget] at hc
    by_cases hj : j = i
    · rw [if_pos hj] at hc
      cases hc
      rw [hj]
      exact ⟨h.state.globals, hfollows⟩
    · rw [if_neg hj] at hc
      rw [hothers j hj]
      exact hserved.follows j c hc

/-- One step of the server keeps the invariant: the client of the turn has stopped anew. -/
theorem Served.step {order : Order} {fuel : Nat} {said : Nat → List (Call × Answer)}
    {b b' : Server} {t : Turn} (hserved : Served order said b)
    (hstep : b.step order fuel t = some b') :
    Served order (fun i => said i ++ b.exchange i t) b' := by
  cases t with
  | accept =>
    obtain ⟨h, hproceed, heq⟩ := Option.map_eq_some_iff.mp hstep
    cases heq
    have hsession : Session order played [] Line.negotiation
        ⟨b.globals, { stfdClient := b.clients.length }⟩ ([], []) := .start ⟨rfl, hserved.storable⟩
    refine hserved.stopped (i := b.clients.length) ?_ (fun j _ => List.append_nil _)
      (fun c => ?_) (getElem?_accept b)
    · show Follows order (said b.clients.length ++ []) h.thread h.state
      rw [hserved.fresh _ (Nat.le_refl _)]
      exact follows_proceed fuel hsession rfl hproceed
    · rw [List.length_append, List.length_singleton]
      omega
  | answer i x =>
    simp only [Server.step] at hstep
    cases hc : b.clients[i]? with
    | none =>
      rw [hc] at hstep
      cases hstep
    | some c =>
      rw [hc] at hstep
      obtain ⟨h, hanswered, heq⟩ := Option.map_eq_some_iff.mp hstep
      cases heq
      have hi : i < b.clients.length := (List.getElem?_eq_some_iff.mp hc).1
      obtain ⟨g, hfollows⟩ := hserved.follows i c hc
      refine hserved.stopped (i := i) ?_ (fun j hj => ?_) (fun c => ?_) (getElem?_answer hc)
      · obtain ⟨client, thread, found⟩ := c
        cases thread with
        | returned => cases hanswered
        | waiting line rest w =>
          have hone : b.exchange i (.answer i x) = [(w.call, x)] := by
            rw [exchange, if_pos rfl, hc]
          show Follows order (said i ++ b.exchange i (.answer i x)) h.thread h.state
          rw [hone]
          exact follows_answered rfl hserved.storable hfollows hanswered
      · show said j ++ b.exchange j (.answer i x) = said j
        rw [exchange, if_neg (Ne.symm hj), List.append_nil]
      · rw [List.length_set]
        exact ⟨hi, Nat.le_refl _⟩

theorem Ran.served {order : Order} {said : Nat → List (Call × Answer)} {b : Server}
    (h : Ran order said b) : Served order said b := by
  induction h with
  | empty => exact served_empty order
  | step _ hstep ih => exact ih.step hstep

/-- In every run of the server the thread of each client is a session among
others, whose socket was asked and answered what the thread was. -/
theorem ran_follows {order : Order} {said : Nat → List (Call × Answer)} {b : Server}
    (hran : Ran order said b) {i : Nat} {c : Seat} (hc : b.clients[i]? = some c) :
    ∃ g, Follows order (said i) c.thread ⟨g, c.client⟩ :=
  hran.served.follows i c hc

/-- A publisher and a player who has been sent a message: the one thread has come to
the publisher loop, the other to the relay loop. -/
theorem ran_onePlayer : ∃ (said : Nat → List (Call × Answer)) (b : Server) (c₀ c₁ : Seat),
    Ran .front said b ∧ b.clients = [c₀, c₁] ∧
      c₀.thread.line? = some (.uncheckedCall .publishLoop) ∧
      c₁.thread.line? = some (.checkedCall .relayLoop) := by
  have hrun : (run .front 50 {} onePlayer).map (fun b => b.clients.map fun c => c.thread.line?)
      = some [some (.uncheckedCall .publishLoop), some (.checkedCall .relayLoop)] := by
    decide +kernel
  obtain ⟨b, hb, hlines⟩ := Option.map_eq_some_iff.mp hrun
  obtain ⟨said, hran⟩ := ran_of_steps (run_steps _ hb)
  obtain ⟨c₀, cs, hclients, hline₀, hlines⟩ := List.map_eq_cons_iff.mp hlines
  obtain ⟨c₁, rfl, hline₁⟩ := List.map_eq_singleton_iff.mp hlines
  exact ⟨said, b, c₀, c₁, hran, hclients, hline₀, hline₁⟩

/-- Both of them are at that point of a session of their own. -/
theorem ran_follows_onePlayer : ∃ (said : Nat → List (Call × Answer)) (b : Server) (c₀ c₁ : Seat)
    (g₀ g₁ : Globals), Ran .front said b ∧ b.clients = [c₀, c₁] ∧
      c₀.thread.line? = some (.uncheckedCall .publishLoop) ∧
      c₁.thread.line? = some (.checkedCall .relayLoop) ∧
      Follows .front (said 0) c₀.thread ⟨g₀, c₀.client⟩ ∧
      Follows .front (said 1) c₁.thread ⟨g₁, c₁.client⟩ := by
  obtain ⟨said, b, c₀, c₁, hran, hclients, hline₀, hline₁⟩ := ran_onePlayer
  obtain ⟨g₀, hfollows₀⟩ := ran_follows hran (i := 0) (c := c₀) (by rw [hclients]; rfl)
  obtain ⟨g₁, hfollows₁⟩ := ran_follows hran (i := 1) (c := c₁) (by rw [hclients]; rfl)
  exact ⟨said, b, c₀, c₁, g₀, g₁, hran, hclients, hline₀, hline₁, hfollows₀, hfollows₁⟩

end Server

end RtmpServer
