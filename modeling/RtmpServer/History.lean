import RtmpServer.Lib.Interference
import RtmpServer.IncomingChunks

/-!
# The runs of a session

`Session` collects the calls of one session's thread, in the order in which
they returned, whatever its socket answers and whatever the other sessions do
to the globals while it waits. A thread that returns has no further state, so
every `Session` is one that is about to make its next call.

`course` says where in its flows the thread stands, and `empty` that nothing is
left in `io_buffer` when a message is about to be written.
-/

namespace RtmpServer

open Coroutine Coroutine.Prog

/-! ## The others -/

/-- What the other sessions do to the globals in one blocking call: anything
that leaves the announced list one that `SetDataFrame` can have stored. -/
structure Others where
  change : Globals → Globals
  storable : ∀ g, (∀ kv ∈ g.setDataFrame, Storable kv) →
    ∀ kv ∈ (change g).setDataFrame, Storable kv

namespace Others

def apply (o : Others) (s : State) : State := { s with globals := o.change s.globals }

/-- The others do nothing. -/
def idle : Others := ⟨id, fun _ h => h⟩

theorem apply_idle (s : State) : idle.apply s = s := rfl

end Others

/-- A payload is put together at one go, with nobody coming in. -/
theorem wlp_amid_run_push {ε : Type} {env : Env (st.amid Others) ε} {s : State} {e : ε}
    {bytes : Bytes} {Q : Int → State → ε → Prop} :
    wlp env ((Push.push bytes).run.amid Others.apply) Q s e ↔
      Q 0 (s.append .ioBuffer bytes) e := by
  simp [Push.run, Push.push, amid, wlp_act]

/-- The client is as it was, and with it everything that only the session itself can change. -/
def SameClient (s s' : State) : Prop := s'.client = s.client

theorem sameClient_refl (s : State) : SameClient s s := rfl

theorem sameClient_trans (s t u : State) (h : SameClient s t) (h' : SameClient t u) :
    SameClient s u :=
  Eq.trans h' h

/-- A call that leaves the client alone does so among the others, because they cannot reach
it. -/
theorem wlp_sameClient {α ε : Type} {env : Env (st.amid Others) ε} {p : Routine α} {s : State}
    {e : ε} (h : p.Keeps SameClient) :
    wlp env (p.amid Others.apply) (fun _ s' _ => s'.client = s.client) s e :=
  Keeps.wlp sameClient_refl sameClient_trans _ (Keeps.amid Others.apply (fun _ _ => rfl) _ h)

/-- The list of a state is one that `SetDataFrame` can have stored, entry by entry. -/
def HoldsStorable (s : State) : Prop := ∀ kv ∈ s.globals.setDataFrame, Storable kv

/-- If it was so before, it is so after. -/
def StaysStorable (s s' : State) : Prop := HoldsStorable s → HoldsStorable s'

theorem staysStorable_closed : Closed StaysStorable where
  refl _ h := h
  trans _ _ _ h h' := fun hs => h' (h hs)
  buffer s b bytes h := by cases b <;> exact h
  header _ _ _ h := h
  currCsid _ _ h := h
  message _ _ h := h
  metaData _ _ h := h

theorem call_staysStorable (order : Order) (step : Step) :
    (step.call order).Keeps StaysStorable := by
  have hregistered : ∀ s : State, StaysStorable s (s.registered order) := by
    intro s hs
    unfold HoldsStorable
    rw [State.registered_setDataFrame]
    exact hs
  exact Step.call_keeps staysStorable_closed order fun _ => ⟨hregistered, fun _ _ hs => hs⟩

theorem finish_storable {order : Order} {step : Step} {rc : Int} {s : State}
    (h : HoldsStorable s) : HoldsStorable (step.finish order rc s) := by
  cases step with
  | identify =>
    unfold Step.finish
    dsimp only
    split
    · show HoldsStorable (s.registered order)
      unfold HoldsStorable
      rw [State.registered_setDataFrame]
      exact h
    · exact h
  | _ => exact h

/-! ## Calls and their history -/

/-- The call of a line, among the others, who may come in whenever it blocks. -/
def Line.call (line : Line) (order : Order) : Prog (st.amid Others) State Int :=
  (line.step.call order).amid Others.apply

/-- A call that has returned: the state and the socket before it and after it. -/
structure Event (ε : Type) where
  line : Line
  before : State
  socket : ε
  rc : Int
  after : State
  socket' : ε

/-- The state of a session that has just been accepted: nothing in its buffer, a chunk size
of 128, and whatever globals there are. -/
structure State.Accepted (s : State) : Prop where
  client : s.client = { stfdClient := s.client.stfdClient }
  storable : HoldsStorable s

/-- A run of a session: the calls that have returned, the lines that are still
to come, and the state and the socket. -/
inductive Session (order : Order) {ε : Type} (env : Env (st.amid Others) ε) :
    List (Event ε) → List Line → State → ε → Prop where
  | start {s : State} {e : ε} : s.Accepted → Session order env [] Line.negotiation s e
  | call {events : List (Event ε)} {line : Line} {rest next : List Line} {s s' : State} {e e' : ε}
      {rc : Int} : Session order env events (line :: rest) s e →
      Runs env (line.call order) s e rc s' e' → line.follow rc rest = some next →
      Session order env (events ++ [⟨line, s, e, rc, s', e'⟩])
        next (line.step.finish order rc s') e'

namespace Line

/-- The flow that the answer of `read_header_get_payloadLength` leads to: to play, if it is
4. -/
def flow (rc : Int) : List Line := if rc = 4 then pullFlow else pushFlow

theorem follow_identify {line : Line} {rc : Int} {rest next : List Line}
    (h : line.follow rc rest = some next) (hstep : line.step = .identify) : next = flow rc := by
  unfold follow at h
  split at h
  · cases h
  · exact (Option.some.inj h).symm

theorem follow_eq {line : Line} {rc : Int} {rest next : List Line}
    (h : line.follow rc rest = some next) (hstep : line.step ≠ .identify) : next = rest := by
  unfold follow at h
  split at h
  · cases h
  · exact (Option.some.inj h).symm

/-- A checked call that is followed by another did not return `-1`. -/
theorem follow_checked {line : Line} {rc : Int} {rest next : List Line}
    (h : line.follow rc rest = some next) (hchecked : line.checked = true) : rc ≠ -1 := by
  intro hrc
  rw [follow, if_pos ⟨hchecked, hrc⟩] at h
  cases h

/-- The three parts of the code of `process_thread`: the negotiation, and the two flows. -/
def parts : List (List Line) := [negotiation, pullFlow, pushFlow]

theorem flow_mem_parts (rc : Int) : flow rc ∈ parts := by
  unfold flow
  split
  · exact .tail _ (.head _)
  · exact .tail _ (.tail _ (.head _))

/-- A test at every place of a part: the line there, and what follows it. -/
def every (test : Line → List Line → Bool) : List Line → Bool
  | [] => true
  | line :: rest => test line rest && every test rest

theorem test_of_every {test : Line → List Line → Bool} {rest : List Line} {line : Line} :
    ∀ {past part : List Line}, every test part = true → past ++ line :: rest = part →
      test line rest = true := by
  intro past
  induction past with
  | nil =>
    intro part h hpart
    rw [← hpart, List.nil_append, every, Bool.and_eq_true] at h
    exact h.1
  | cons first past ih =>
    intro part h hpart
    rw [← hpart, List.cons_append, every, Bool.and_eq_true] at h
    exact ih h.2 rfl

/-- Only the last line of the negotiation asks which flow it is, and no line of the flows
does. -/
theorem identify_last {past rest : List Line} {line : Line}
    (h : past ++ line :: rest = negotiation) : line.step = .identify ↔ rest = [] := by
  have hall : every (fun line rest => decide (line.step = .identify ↔ rest = [])) negotiation
      = true := by decide +kernel
  exact of_decide_eq_true (test_of_every hall h)

theorem not_identify_of_flow {rc : Int} {line : Line} (h : line ∈ flow rc) :
    line.step ≠ .identify := by
  have hall : ∀ line ∈ pullFlow ++ pushFlow, line.step ≠ .identify := by decide +kernel
  refine hall line ?_
  unfold flow at h
  split at h
  · exact List.mem_append_left _ h
  · exact List.mem_append_right _ h

end Line

/-- A step that gets its bytes from a message it is to receive. -/
def receives : Step → Bool
  | .recv _ => true
  | _ => false

namespace Session

variable {order : Order} {ε : Type} {env : Env (st.amid Others) ε} {events : List (Event ε)}
  {lines : List Line} {s : State} {e : ε}

/-- Where a session stands: in the negotiation, or in the flow that the last
answer of it led to. -/
inductive Course (events : List (Event ε)) (lines : List Line) : Prop where
  | negotiating (split : events.map Event.line ++ lines = Line.negotiation) (more : lines ≠ [])
      (unknown : ∀ ev ∈ events, ev.line.step ≠ .identify)
  | flowing (rc : Int) (past : List Line)
      (behind : events.map Event.line = Line.negotiation ++ past)
      (split : past ++ lines = Line.flow rc)
      (known : ∀ ev ∈ events, ev.line.step = .identify → ev.rc = rc)

theorem course (h : Session order env events lines s e) : Course events lines := by
  induction h with
  | start _ => exact .negotiating rfl (List.cons_ne_nil _ _) fun ev hev => nomatch hev
  | @call events line rest next s s' e e' rc _ _ hfollow ih =>
    have hmap : (events ++ [(⟨line, s, e, rc, s', e'⟩ : Event ε)]).map Event.line
        = events.map Event.line ++ [line] := List.map_append
    cases ih with
    | negotiating hsplit _ hunknown =>
      by_cases hstep : line.step = .identify
      · -- the flow begins
        have hrest := (Line.identify_last hsplit).mp hstep
        have hnext := Line.follow_identify hfollow hstep
        refine .flowing rc [] ?_ hnext ?_
        · rw [hmap, List.append_nil, ← hsplit, hrest]
        · intro ev hev hid
          rcases List.mem_append.mp hev with hold | hnew
          · exact absurd hid (hunknown ev hold)
          · rw [List.mem_singleton.mp hnew]
      · have hnext := Line.follow_eq hfollow hstep
        refine .negotiating ?_ ?_ ?_
        · rw [hmap, hnext, List.append_assoc, List.singleton_append, hsplit]
        · rw [hnext]
          exact fun hrest => hstep ((Line.identify_last hsplit).mpr hrest)
        · intro ev hev
          rcases List.mem_append.mp hev with hold | hnew
          · exact hunknown ev hold
          · rw [List.mem_singleton.mp hnew]
            exact hstep
    | flowing rc₀ past hbehind hsplit hknown =>
      have hstep : line.step ≠ .identify :=
        Line.not_identify_of_flow (hsplit ▸ List.mem_append_right past (.head _))
      have hnext := Line.follow_eq hfollow hstep
      refine .flowing rc₀ (past ++ [line]) ?_ ?_ ?_
      · rw [hmap, hbehind, List.append_assoc]
      · rw [hnext, List.append_assoc, List.singleton_append, hsplit]
      · intro ev hev hid
        rcases List.mem_append.mp hev with hold | hnew
        · exact hknown ev hold hid
        · rw [List.mem_singleton.mp hnew] at hid
          exact absurd hid hstep

/-- While its last line is to come, only lines of the negotiation have been called. -/
theorem line_mem_negotiation (h : Session order env events lines s e)
    (hnext : .checkedCall .identify ∈ lines) {ev : Event ε} (hev : ev ∈ events) :
    ev.line ∈ Line.negotiation := by
  cases h.course with
  | negotiating hsplit _ _ => exact hsplit ▸ List.mem_append_left _ (List.mem_map_of_mem hev)
  | flowing rc past _ hsplit _ =>
    have hflow : Line.checkedCall .identify ∈ Line.flow rc :=
      hsplit ▸ List.mem_append_right past hnext
    exact absurd rfl (Line.not_identify_of_flow hflow)

/-- A line of the negotiation that is not to come has been called. -/
theorem exists_event (h : Session order env events lines s e) (line : Line)
    (hmem : line ∈ Line.negotiation) (hpast : line ∉ lines) : ∃ ev ∈ events, ev.line = line := by
  refine List.mem_map.mp ?_
  cases h.course with
  | negotiating hsplit _ _ =>
    rw [← hsplit] at hmem
    exact (List.mem_append.mp hmem).resolve_right hpast
  | flowing rc past hbehind _ _ =>
    rw [hbehind]
    exact List.mem_append_left _ hmem

/-- The lines still to come are the rest of a part, behind what the events have been
through. -/
theorem Course.part (h : Course events lines) :
    ∃ part ∈ Line.parts, ∃ past, past ++ lines = part := by
  cases h with
  | negotiating hsplit _ _ => exact ⟨_, .head _, _, hsplit⟩
  | flowing rc past _ hsplit _ => exact ⟨_, Line.flow_mem_parts rc, past, hsplit⟩

/-- The list that an `OnMetaData` is made of holds nothing but what
`SetDataFrame` stores. -/
theorem storable (h : Session order env events lines s e) : HoldsStorable s := by
  induction h with
  | start h => exact h.storable
  | @call events line _ _ _ _ _ _ _ _ hrun _ ih =>
    have hkeeps := Keeps.amid Others.apply (fun o s hs => o.storable s.globals hs) _
      (call_staysStorable order line.step)
    exact finish_storable (Keeps.wlp staysStorable_closed.refl staysStorable_closed.trans _ hkeeps
      _ _ _ hrun ih)

/-- The chunk size is the one of the beginning or the larger one announced. -/
theorem chunkSize_ge (h : Session order env events lines s e) : 128 ≤ s.client.chunkSize := by
  have hfinish : ∀ {step : Step} {rc : Int} {s : State}, 128 ≤ s.client.chunkSize →
      128 ≤ (step.finish order rc s).client.chunkSize := by
    intro step rc s hs
    cases step with
    | announceChunkSize =>
      show 128 ≤ 4096
      omega
    | identify =>
      unfold Step.finish
      dsimp only
      split
      · exact hs
      · exact hs
    | _ => exact hs
  induction h with
  | @start s _ h =>
    have hsize : s.client.chunkSize = 128 := by rw [h.client]
    omega
  | @call events line _ _ _ _ _ _ _ _ hrun _ ih =>
    have hcall : (line.step.call order).Keeps SameChunkSize :=
      Step.call_keeps sameChunkSize_closed order fun _ => ⟨fun _ => rfl, fun _ _ => rfl⟩
    have hkeeps := Keeps.amid Others.apply (fun _ _ => rfl) _ hcall
    have hsame := Keeps.wlp sameChunkSize_closed.refl sameChunkSize_closed.trans _ hkeeps _ _ _ hrun
    exact hfinish (hsame ▸ ih)

theorem chunkSize_pos (h : Session order env events lines s e) : 0 < s.client.chunkSize :=
  Nat.lt_of_lt_of_le (by omega) h.chunkSize_ge

/-! ## The buffer between the calls -/

/-- Everything but a receive begins with nothing in `io_buffer`, so a message is put
together from its start. -/
def Empties (lines : List Line) (s : State) : Prop :=
  ∀ line rest, lines = line :: rest → receives line.step = false → s.buffer .ioBuffer = []

/-- The wait and the registration leave the client alone, as they only look at the globals
or change them. -/
theorem client_of_call {line : Line} {s s' : State} {e e' : ε} {rc : Int}
    (hstep : line.step = .waitMetaData ∨ line.step = .register)
    (h : Runs env (line.call order) s e rc s' e') : s'.client = s.client := by
  have hkeeps : (line.step.call order).Keeps SameClient := by
    rcases hstep with hstep | hstep
    · rw [hstep]
      exact fun _ => ⟨keeps_gets sameClient_refl, fun _ =>
        keeps_ite ⟨fun _ => trivial, fun _ => trivial⟩ trivial⟩
    · rw [hstep]
      exact ⟨keeps_modify fun _ => rfl, fun _ => trivial⟩
  exact wlp_sameClient hkeeps _ _ _ h

/-- What the three parts have to do with it: the handshake, and the loops if
they were to end, are followed by a receive. -/
theorem receives_next {part past rest : List Line} {line : Line} (hpart : part ∈ Line.parts)
    (h : past ++ line :: rest = part)
    (hstep : line.step = .handshake ∨ line.step = .relayLoop ∨ line.step = .publishLoop)
    (s : State) :
    Empties rest s := by
  have hall : ∀ part ∈ Line.parts, Line.every (fun line rest =>
      decide (line.step = .handshake ∨ line.step = .relayLoop ∨ line.step = .publishLoop →
        ∀ next ∈ rest.head?, receives next.step = true)) part = true := by decide +kernel
  have htest := of_decide_eq_true (Line.test_of_every (hall part hpart) h) hstep
  intro next rest' hrest hreceives
  rw [htest next (by rw [hrest]; rfl)] at hreceives
  cases hreceives

theorem empties (h : Session order env events lines s e) : Empties lines s := by
  induction h with
  | start h =>
    intro line rest _ _
    show (_ : Client).ioBuffer = []
    rw [h.client]
  | @call events line rest next s s' e e' rc hsession hrun hfollow ih =>
    have hcleared : ∀ t : State, Empties next t.deleted := fun _ _ _ _ _ => rfl
    obtain ⟨part, hpart, past, hsplit⟩ := hsession.course.part
    cases hstep : line.step with
    | identify =>
      rw [Line.follow_identify hfollow hstep]
      unfold Step.finish Line.flow
      dsimp only
      split
      · exact fun _ _ _ _ => rfl
      · intro first rest' hfirst hreceives
        cases hfirst
        cases hreceives
    | recv type => exact hcleared _
    | send m => exact hcleared _
    | announceChunkSize => exact hcleared _
    | sendOnMetaData => exact hcleared _
    | readRest => exact fun _ _ _ _ => rfl
    | waitMetaData =>
      intro _ _ _ _
      show s'.client.ioBuffer = []
      rw [client_of_call (Or.inl hstep) hrun]
      exact ih line rest rfl (by rw [hstep]; rfl)
    | register =>
      intro _ _ _ _
      show s'.client.ioBuffer = []
      rw [client_of_call (Or.inr hstep) hrun]
      exact ih line rest rfl (by rw [hstep]; rfl)
    | handshake =>
      rw [Line.follow_eq hfollow (by rw [hstep]; decide)]
      exact receives_next hpart hsplit (Or.inl hstep) _
    | relayLoop =>
      rw [Line.follow_eq hfollow (by rw [hstep]; decide)]
      exact receives_next hpart hsplit (Or.inr (Or.inl hstep)) _
    | publishLoop =>
      rw [Line.follow_eq hfollow (by rw [hstep]; decide)]
      exact receives_next hpart hsplit (Or.inr (Or.inr hstep)) _

end Session

/-! ## What every call of a session was -/

/-- An event comes from a run of its call, which began where a call of that kind
begins; a checked call did not return `-1`. -/
structure Event.Called (order : Order) {ε : Type} (env : Env (st.amid Others) ε) (ev : Event ε) :
    Prop where
  runs : Runs env (ev.line.call order) ev.before ev.socket ev.rc ev.after ev.socket'
  storable : HoldsStorable ev.before
  empty : receives ev.line.step = false → ev.before.buffer .ioBuffer = []
  chunkSize : 128 ≤ ev.before.client.chunkSize
  checked : ev.line.checked = true → ev.rc ≠ -1

theorem Session.called {order : Order} {ε : Type} {env : Env (st.amid Others) ε}
    {events : List (Event ε)} {lines : List Line} {s : State} {e : ε}
    (h : Session order env events lines s e) : ∀ ev ∈ events, ev.Called order env := by
  induction h with
  | start _ => exact fun ev hev => nomatch hev
  | @call events line rest next s s' e e' rc hsession hrun hfollow ih =>
    intro ev hev
    rcases List.mem_append.mp hev with hold | hnew
    · exact ih ev hold
    · rw [List.mem_singleton.mp hnew]
      exact ⟨hrun, hsession.storable, hsession.empties line rest rfl, hsession.chunkSize_ge,
        Line.follow_checked hfollow⟩

end RtmpServer
