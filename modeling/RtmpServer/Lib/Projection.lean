import RtmpServer.Lib.Interference

/-!
# One coroutine of a schedule, seen by itself

A scheduler parks a coroutine, lets others change the state, and resumes it
somewhere else than it was parked. `Followed` is that course of one coroutine:
the calls, their answers, and what the others did in each of them. By
`Followed.finishes` such a coroutine has run `amid` the others, against the
environment that plays all of this back. What `wlp` says of `p.amid` in every
environment is therefore true of `p` in every schedule.

`advance` and `amid` do not commute on the nose: `advance` pushes the rest of a
program behind the resumed call, `amid` puts the others in front of it. So the
bridge is a statement about runs, `runs_amid_of_advance`.
-/

namespace Coroutine

variable {S : Sig} {σ ε α A O : Type}

/-- An answer among others: the answer itself, if it fits the call, and what the others did. -/
def answerAmid (answer : (c : S.Call) → A → Option (S.Reply c)) (c : S.Call) (x : A × O) :
    Option ((S.amid O).Reply c) :=
  (answer c x.1).map (·, x.2)

/-- More answers to come, and more of them recorded before, make no difference
to a run. -/
theorem replay_extend {answer : (c : S.Call) → A → Option (S.Reply c)} {c : S.Call}
    {e e1 : List A × List (S.Call × A)} {r : S.Reply c} (more : List A)
    (before : List (S.Call × A)) (h : replay answer c e = some (r, e1)) :
    replay answer c (e.1 ++ more, before ++ e.2) = some (r, e1.1 ++ more, before ++ e1.2) := by
  obtain ⟨xs, tr⟩ := e
  cases xs with
  | nil => cases h
  | cons x xs =>
    obtain ⟨r', hr, heq⟩ := Option.map_eq_some_iff.mp h
    cases heq
    simp [replay, hr]

namespace Prog

/-- The same of a whole run: it uses its own answers, and leaves those that are behind them. -/
theorem runs_replay_extend {answer : (c : S.Call) → A → Option (S.Reply c)} {p : Prog S σ α}
    {s s' : σ} {e e' : List A × List (S.Call × A)} {a : α} (more : List A)
    (before : List (S.Call × A)) (h : Runs (replay answer) p s e a s' e') :
    Runs (replay answer) p s (e.1 ++ more, before ++ e.2) a s'
      (e'.1 ++ more, before ++ e'.2) := by
  obtain ⟨n, h⟩ := h
  exact ⟨n, exec_map (f := fun e => (e.1 ++ more, before ++ e.2))
    (fun _ _ _ _ he => replay_extend more before he) p h⟩

variable (others : O → σ → σ)

section

variable {env : Env (S.amid O) ε}

/-- At a call the others come in: the run goes on in the state that they leave. -/
theorem runs_amid_call {c : S.Call} {k : S.Reply c → Prog S σ α} {s s' : σ} {e e' : ε} {a : α} :
    Runs env ((call c k).amid others) s e a s' e' ↔ ∃ r o e1, env c e = some ((r, o), e1) ∧
      Runs env ((k r).amid others) (others o s) e1 a s' e' := by
  have hothers : ∀ {r : S.Reply c} {o : O} {e1 : ε},
      Runs env (.bind (modify (others o)) fun _ => (k r).amid others) s e1 a s' e' ↔
        Runs env ((k r).amid others) (others o s) e1 a s' e' := by
    intro r o e1
    rw [runs_bind]
    simp only [modify, runs_act, Option.some.injEq, Prod.mk.injEq]
    constructor
    · intro h
      obtain ⟨_, _, _, ⟨⟨-, hs⟩, he⟩, h⟩ := h
      rw [← hs, ← he] at h
      exact h
    · exact fun h => ⟨(), _, _, ⟨⟨trivial, rfl⟩, rfl⟩, h⟩
  refine runs_call.trans ?_
  constructor
  · intro h
    obtain ⟨r, e1, hr, h⟩ := h
    exact ⟨r.1, r.2, e1, hr, hothers.mp h⟩
  · intro h
    obtain ⟨r, o, e1, hr, h⟩ := h
    exact ⟨(r, o), e1, hr, hothers.mpr h⟩

/-- Advancing to the next blocking call does not change what a run among others
gives: they only come in at the calls. -/
theorem runs_amid_of_advance {n : Nat} (p : Prog S σ α) :
    ∀ {s s1 : σ} {stop : Stop S σ α}, advance n p s = some (stop, s1) →
      ∀ {e e' : ε} {a : α} {s' : σ}, Runs env (p.amid others) s e a s' e' ↔
        Runs env ((ofStop stop).amid others) s1 e a s' e' := by
  induction p with
  | ret b =>
    intro s s1 stop h e e' a s'
    cases h
    rfl
  | act f =>
    intro s s1 stop h e e' a s'
    obtain ⟨r, hf, heq⟩ := Option.map_eq_some_iff.mp h
    cases heq
    rw [ofStop, amid_ret, runs_ret]
    show Runs env (.act f) s e a s' e' ↔ _
    rw [runs_act, hf, Option.some.injEq, Prod.ext_iff, and_assoc]
  | call c k =>
    intro s s1 stop h e e' a s'
    cases h
    rfl
  | bind p k ihp ihk =>
    intro s s1 stop h e e' a s'
    simp only [advance] at h
    cases hp : advance n p s with
    | none =>
      rw [hp] at h
      cases h
    | some X =>
      obtain ⟨stop', s2⟩ := X
      rw [hp] at h
      rw [amid_bind, runs_bind]
      simp only [ihp hp]
      cases stop' with
      | done b =>
        rw [← ihk b h]
        simp [ofStop, amid_ret, runs_ret, and_assoc]
      | parked w =>
        cases h
        -- the others come in with the answer, and both sides read it in the same order
        simp only [ofStop, runs_amid_call, amid_bind, runs_bind]
        constructor
        · intro h
          obtain ⟨b, t, f, ⟨r, o, e1, hc, hr⟩, hk⟩ := h
          exact ⟨r, o, e1, hc, b, t, f, hr, hk⟩
        · intro h
          obtain ⟨r, o, e1, hc, b, t, f, hr, hk⟩ := h
          exact ⟨b, t, f, ⟨r, o, e1, hc, hr⟩, hk⟩
  | iter body b ih =>
    intro s s1 stop h e e' a s'
    simp only [advance] at h
    have hagain : ∀ x, (again body x).amid others = again (fun b => (body b).amid others) x := by
      intro x
      cases x with
      | inl b' => rfl
      | inr a => rfl
    -- the rounds are counted apart from the fuel of the body
    suffices H : ∀ m b s, advanceN body (fun b s => advance n (body b) s) m b s = some (stop, s1) →
        (Runs env ((iter body b).amid others) s e a s' e' ↔
          Runs env ((ofStop stop).amid others) s1 e a s' e') from H n b s h
    intro m
    induction m with
    | zero =>
      intro b s h
      cases h
    | succ m ihm =>
      intro b s h
      simp only [advanceN] at h
      rw [amid_iter, runs_iter]
      cases hb : advance n (body b) s with
      | none =>
        rw [hb] at h
        cases h
      | some X =>
        obtain ⟨stop', s2⟩ := X
        rw [hb] at h
        simp only [ih b hb]
        cases stop' with
        | done x =>
          cases x with
          | inl b' =>
            rw [← ihm b' s2 h, amid_iter]
            simp [ofStop, amid_ret, runs_ret, again, and_assoc]
          | inr a' =>
            cases h
            simp [ofStop, amid_ret, runs_ret, again, and_assoc]
        | parked w =>
          cases h
          simp only [ofStop, runs_amid_call, amid_bind, runs_bind, hagain]
          constructor
          · intro h
            obtain ⟨x, t, f, ⟨r, o, e1, hc, hr⟩, hk⟩ := h
            exact ⟨r, o, e1, hc, x, t, f, hr, hk⟩
          · intro h
            obtain ⟨r, o, e1, hc, x, t, f, hr, hk⟩ := h
            exact ⟨x, t, f, ⟨r, o, e1, hc, hr⟩, hk⟩

end

/-! ## Following a coroutine -/

/-- `p`, started in `s`, is parked at `w`, and was in `s'` when it was, after the
calls, answers and changes `tr`. -/
inductive Followed (answer : (c : S.Call) → A → Option (S.Reply c)) (others : O → σ → σ)
    (p : Prog S σ α) (s : σ) : List (S.Call × A × O) → Parked S σ α → σ → Prop where
  | start {n : Nat} {w : Parked S σ α} {s' : σ} :
      advance n p s = some (.parked w, s') → Followed answer others p s [] w s'
  | resume {tr : List (S.Call × A × O)} {w w' : Parked S σ α} {s1 s' : σ} {x : A} {o : O}
      {n : Nat} : Followed answer others p s tr w s1 →
      Prog.resume answer n w x (others o s1) = some (.parked w', s') →
      Followed answer others p s (tr ++ [(w.call, x, o)]) w' s'

variable {answer : (c : S.Call) → A → Option (S.Reply c)} {others}

/-- One more answer of a recording, and the others' change with it, takes the run to the
coroutine's next stop. -/
theorem runs_parked_amid {w : Parked S σ α} {s s1 s' : σ} {x : A} {o : O} {n : Nat}
    {stop : Stop S σ α} {rest : List (A × O)} {tr : List (S.Call × A × O)} {a : α}
    {e' : List (A × O) × List (S.Call × A × O)}
    (hres : Prog.resume answer n w x (others o s) = some (stop, s1)) :
    Runs (replay (answerAmid answer)) ((call w.call w.resume).amid others) s
        ((x, o) :: rest, tr) a s' e' ↔
      Runs (replay (answerAmid answer)) ((ofStop stop).amid others) s1
        (rest, tr ++ [(w.call, x, o)]) a s' e' := by
  obtain ⟨r, hx, hadv⟩ := resume_eq_some.mp hres
  have hreply : answerAmid answer w.call (x, o) = some (r, o) := by
    rw [answerAmid, hx]
    rfl
  rw [runs_amid_call, ← runs_amid_of_advance others _ hadv]
  simp [replay, hreply, and_assoc]

/-- The rest of a followed coroutine's run is the rest of the run of the whole. -/
theorem Followed.runs {p : Prog S σ α} {s s1 : σ} {tr : List (S.Call × A × O)}
    {w : Parked S σ α} (h : Followed answer others p s tr w s1) :
    ∀ {rest : List (A × O)} {a : α} {s' : σ} {e' : List (A × O) × List (S.Call × A × O)},
      Runs (replay (answerAmid answer)) ((call w.call w.resume).amid others) s1 (rest, tr) a s' e' ↔
        Runs (replay (answerAmid answer)) (p.amid others) s (tr.map Prod.snd ++ rest, [])
          a s' e' := by
  induction h with
  | start hadv =>
    intro rest a s' e'
    exact (runs_amid_of_advance others p hadv).symm
  | @resume tr w w' s1 s2 x o n _ hres ih =>
    intro rest a s' e'
    rw [List.map_append, List.append_assoc]
    exact (runs_parked_amid hres).symm.trans (@ih ((x, o) :: rest) a s' e')

/-- When the last answer ends a followed coroutine, it has run among the others. -/
theorem Followed.finishes {p : Prog S σ α} {s s1 s' : σ} {tr : List (S.Call × A × O)}
    {w : Parked S σ α} {x : A} {o : O} {n : Nat} {a : α} (h : Followed answer others p s tr w s1)
    (hres : Prog.resume answer n w x (others o s1) = some (.done a, s')) :
    Runs (replay (answerAmid answer)) (p.amid others) s (tr.map Prod.snd ++ [(x, o)], []) a s'
      ([], tr ++ [(w.call, x, o)]) := by
  rw [← h.runs, runs_parked_amid hres]
  exact runs_ret.mpr ⟨rfl, rfl, rfl⟩

/-- So has one that never blocks, and nobody has come in. -/
theorem runs_amid_of_done {env : Env (S.amid O) ε} {p : Prog S σ α} {s s' : σ} {n : Nat} {a : α}
    {e : ε} (hadv : advance n p s = some (.done a, s')) :
    Runs env (p.amid others) s e a s' e := by
  rw [runs_amid_of_advance others _ hadv]
  exact runs_ret.mpr ⟨rfl, rfl, rfl⟩

/-- Where a followed coroutine stands when it has stopped once more: at the end of a run
among others, or parked and followed further. -/
def Proceeded (answer : (c : S.Call) → A → Option (S.Reply c)) (others : O → σ → σ)
    (p : Prog S σ α) (s : σ) (tr : List (S.Call × A × O)) (s' : σ) : Stop S σ α → Prop
  | .done a => Runs (replay (answerAmid answer)) (p.amid others) s (tr.map Prod.snd, []) a s'
      ([], tr)
  | .parked w => Followed answer others p s tr w s'

/-- The first stretch, from the start of the coroutine to its first stop. -/
theorem proceeded_of_advance {p : Prog S σ α} {s s' : σ} {stop : Stop S σ α} {n : Nat}
    (hadv : advance n p s = some (stop, s')) : Proceeded answer others p s [] s' stop := by
  cases stop with
  | done a => exact runs_amid_of_done hadv
  | parked w => exact .start hadv

/-- One more answer, and the stretch that follows it, up to the next stop. -/
theorem Followed.proceeded {p : Prog S σ α} {s s1 s' : σ} {tr : List (S.Call × A × O)}
    {w : Parked S σ α} {x : A} {o : O} {n : Nat} {stop : Stop S σ α}
    (h : Followed answer others p s tr w s1)
    (hres : Prog.resume answer n w x (others o s1) = some (stop, s')) :
    Proceeded answer others p s (tr ++ [(w.call, x, o)]) s' stop := by
  cases stop with
  | done a =>
    show Runs _ (p.amid others) s ((tr ++ [(w.call, x, o)]).map Prod.snd, []) a s' _
    rw [List.map_append]
    exact h.finishes hres
  | parked w' => exact .resume h hres

/-- What every stretch leaves, in whatever state it begins, holds wherever the
coroutine is parked. -/
theorem Followed.parked {p : Prog S σ α} {P : Parked S σ α → Prop}
    (hstart : ∀ {n s w s'}, advance n p s = some (.parked w, s') → P w)
    (hresume : ∀ {n s w x w' s'}, P w → Prog.resume answer n w x s = some (.parked w', s') → P w')
    {s s' : σ} {tr : List (S.Call × A × O)} {w : Parked S σ α}
    (h : Followed answer others p s tr w s') : P w := by
  induction h with
  | start hadv => exact hstart hadv
  | resume _ hres ih => exact hresume ih hres

/-! ### Moving along a preorder -/

section

variable {R : σ → σ → Prop} (hrefl : ∀ s, R s s) (htrans : ∀ s t u, R s t → R t u → R s u)
  (hothers : ∀ o s, R s (others o s))
include hrefl htrans hothers

/-- Among others that move along `R`, a coroutine that does so has moved along
`R` wherever it is parked. -/
theorem Followed.keeps {p : Prog S σ α} {s s1 : σ} {tr : List (S.Call × A × O)} {w : Parked S σ α}
    (h : Followed answer others p s tr w s1) (hk : p.Keeps R) :
    R s s1 ∧ ∀ r, (w.resume r).Keeps R := by
  induction h with
  | start hadv => exact Keeps.advance hrefl htrans _ hk hadv
  | @resume tr w w' s1 s' x o n _ hres ih =>
    obtain ⟨hR, hkeeps⟩ := ih
    obtain ⟨r, _, hadv⟩ := resume_eq_some.mp hres
    obtain ⟨hR', hkeeps'⟩ := Keeps.advance hrefl htrans _ (hkeeps r) hadv
    exact ⟨htrans _ _ _ (htrans _ _ _ hR (hothers o s1)) hR', hkeeps'⟩

end

end Prog

end Coroutine
