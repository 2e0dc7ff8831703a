import RtmpServer.Lib.Coroutine

/-!
# Parked coroutines: from a scheduler's steps back to runs

A scheduler sees a coroutine only when it stops. Two facts about what happens
in between are all that an interleaving argument needs:

* `Reached.finishes`: as long as nobody else touches the state, a coroutine
  that is parked and resumed, call after call, has run against the
  environment that `replay`s the answers. Whatever `wlp` says of the
  sequential program then holds of the scheduled one.
* `Keeps`: a program all of whose actions respect a preorder on the state
  moves only along that preorder, wherever it is stopped.
-/

namespace Coroutine

variable {S : Sig} {σ α β A : Type}

/-- The environment that plays a list of answers back and records what it
answered. An answer that does not fit the call answers nothing. -/
def replay (answer : (c : S.Call) → A → Option (S.Reply c)) :
    Env S (List A × List (S.Call × A)) := fun c e =>
  match e.1 with
  | [] => none
  | x :: rest => (answer c x).map fun r => (r, rest, e.2 ++ [(c, x)])

/-- An answer that a recording gave was the next one in its list, and has been recorded. -/
theorem replay_eq_some {answer : (c : S.Call) → A → Option (S.Reply c)} {c : S.Call}
    {r : S.Reply c} {e e' : List A × List (S.Call × A)}
    (h : replay answer c e = some (r, e')) :
    ∃ x, answer c x = some r ∧ e'.2 = e.2 ++ [(c, x)] := by
  obtain ⟨xs, tr⟩ := e
  cases xs with
  | nil => cases h
  | cons x xs =>
    obtain ⟨r', hr, heq⟩ := Option.map_eq_some_iff.mp h
    rw [Prod.mk.injEq] at heq
    obtain ⟨rfl, rfl⟩ := heq
    exact ⟨x, hr, rfl⟩

namespace Prog

/-- `p`, started in `s`, is parked at `w` in `s'` after the calls and answers
`tr`, its state untouched by others in between. -/
inductive Reached (answer : (c : S.Call) → A → Option (S.Reply c)) (p : Prog S σ α) (s : σ) :
    List (S.Call × A) → Parked S σ α → σ → Prop where
  | start {n : Nat} {w : Parked S σ α} {s' : σ} :
      advance n p s = some (.parked w, s') → Reached answer p s [] w s'
  | resume {tr : List (S.Call × A)} {w w' : Parked S σ α} {s1 s' : σ} {x : A}
      {r : S.Reply w.call} {n : Nat} :
      Reached answer p s tr w s1 → answer w.call x = some r →
      advance n (w.resume r) s1 = some (.parked w', s') →
      Reached answer p s (tr ++ [(w.call, x)]) w' s'

variable {answer : (c : S.Call) → A → Option (S.Reply c)}

/-- A parked call, answered from a recording, takes the run to where the coroutine stops
next. -/
theorem runs_parked_replay {w : Parked S σ α} {s s' : σ} {x : A} {r : S.Reply w.call}
    {rest : List A} {tr : List (S.Call × A)} {e' : List A × List (S.Call × A)} {a : α}
    (hx : answer w.call x = some r) :
    Runs (replay answer) (.call w.call w.resume) s (x :: rest, tr) a s' e' ↔
      Runs (replay answer) (w.resume r) s (rest, tr ++ [(w.call, x)]) a s' e' := by
  simp [runs_call, replay, hx, and_assoc]

/-- The rest of a parked coroutine's run is the rest of the run of the whole. -/
theorem Reached.runs {p : Prog S σ α} {s : σ} {tr : List (S.Call × A)} {w : Parked S σ α}
    {s1 : σ} (h : Reached answer p s tr w s1) :
    ∀ {rest : List A} {a : α} {s' : σ} {e' : List A × List (S.Call × A)},
      Runs (replay answer) (.call w.call w.resume) s1 (rest, tr) a s' e' ↔
        Runs (replay answer) p s (tr.map Prod.snd ++ rest, []) a s' e' := by
  induction h with
  | start hadv =>
    intro rest a s' e'
    exact (runs_of_advance p hadv).symm
  | @resume tr w w' s1 s2 x r n _ hx hadv ih =>
    intro rest a s' e'
    rw [List.map_append, List.append_assoc]
    exact ((runs_of_advance _ hadv).symm.trans (runs_parked_replay hx).symm).trans
      (@ih (x :: rest) a s' e')

/-- When the last answer ends a parked coroutine, the whole has run with these answers. -/
theorem Reached.finishes {p : Prog S σ α} {s s1 s' : σ} {tr : List (S.Call × A)}
    {w : Parked S σ α} {x : A} {r : S.Reply w.call} {n : Nat} {a : α}
    (h : Reached answer p s tr w s1) (hx : answer w.call x = some r)
    (hadv : advance n (w.resume r) s1 = some (.done a, s')) :
    Runs (replay answer) p s (tr.map Prod.snd ++ [x], []) a s' ([], tr ++ [(w.call, x)]) := by
  rw [← h.runs, runs_parked_replay hx, runs_of_advance _ hadv]
  exact runs_ret.mpr ⟨rfl, rfl, rfl⟩

/-- A coroutine that never blocks has run as well, and has used no answer. -/
theorem runs_of_advance_done {ε : Type} {env : Env S ε} {p : Prog S σ α} {s s' : σ} {n : Nat}
    {a : α} {e : ε} (hadv : advance n p s = some (.done a, s')) : Runs env p s e a s' e := by
  rw [runs_of_advance _ hadv]
  exact runs_ret.mpr ⟨rfl, rfl, rfl⟩

/-- Where a coroutine stands when it has stopped once more, in terms of `p`
alone: parked on the way, or at the end of a run. -/
def Stopped (answer : (c : S.Call) → A → Option (S.Reply c)) (p : Prog S σ α) (s : σ)
    (tr : List (S.Call × A)) (s' : σ) : Stop S σ α → Prop
  | .done a => Runs (replay answer) p s (tr.map Prod.snd, []) a s' ([], tr)
  | .parked w => Reached answer p s tr w s'

/-- The first stretch, from the start of the coroutine to its first stop. -/
theorem stopped_of_advance {p : Prog S σ α} {s s' : σ} {st : Stop S σ α} {n : Nat}
    (hadv : advance n p s = some (st, s')) : Stopped answer p s [] s' st := by
  cases st with
  | done a => exact runs_of_advance_done hadv
  | parked w => exact .start hadv

/-- One more answer, and the stretch that follows it, up to the next stop. -/
theorem Reached.stopped {p : Prog S σ α} {s s1 s' : σ} {tr : List (S.Call × A)}
    {w : Parked S σ α} {x : A} {r : S.Reply w.call} {n : Nat} {st : Stop S σ α}
    (h : Reached answer p s tr w s1) (hx : answer w.call x = some r)
    (hadv : advance n (w.resume r) s1 = some (st, s')) :
    Stopped answer p s (tr ++ [(w.call, x)]) s' st := by
  cases st with
  | done a =>
    show Runs (replay answer) p s ((tr ++ [(w.call, x)]).map Prod.snd, []) a s' _
    rw [List.map_append]
    exact h.finishes hx hadv
  | parked w' => exact .resume h hx hadv

/-- A parked coroutine is given its answer and runs up to where it stops next. -/
def resume (answer : (c : S.Call) → A → Option (S.Reply c)) (n : Nat) (w : Parked S σ α) (x : A)
    (s : σ) : Option (Stop S σ α × σ) :=
  match answer w.call x with
  | none => none
  | some r => advance n (w.resume r) s

/-- To resume is to turn the answer into a reply and to run on from there. -/
theorem resume_eq_some {n : Nat} {w : Parked S σ α} {x : A} {s s' : σ} {st : Stop S σ α} :
    resume answer n w x s = some (st, s') ↔
      ∃ r, answer w.call x = some r ∧ advance n (w.resume r) s = some (st, s') := by
  unfold resume
  cases answer w.call x with
  | none => simp
  | some r => simp

/-- The same for a coroutine that is resumed by a scheduler. -/
theorem Reached.stopped_resume {p : Prog S σ α} {s s1 s' : σ} {tr : List (S.Call × A)}
    {w : Parked S σ α} {x : A} {n : Nat} {st : Stop S σ α} (h : Reached answer p s tr w s1)
    (hres : Prog.resume answer n w x s1 = some (st, s')) :
    Stopped answer p s (tr ++ [(w.call, x)]) s' st := by
  obtain ⟨r, hx, hadv⟩ := resume_eq_some.mp hres
  exact h.stopped hx hadv

/-! ## Programs that move along a preorder -/

/-- Every action of the program moves the state along `R`. Its calls do not move it. -/
def Keeps (R : σ → σ → Prop) : {α : Type} → Prog S σ α → Prop
  | _, .ret _ => True
  | _, .act f => ∀ s a s', f s = some (a, s') → R s s'
  | _, .call _ k => ∀ r, Keeps R (k r)
  | _, .bind p k => Keeps R p ∧ ∀ b, Keeps R (k b)
  | _, .iter body _ => ∀ b, Keeps R (body b)

/-- To look at the state moves it along any reflexive `R`. -/
theorem keeps_gets {R : σ → σ → Prop} {f : σ → α} (hrefl : ∀ s, R s s) :
    (gets f : Prog S σ α).Keeps R := by
  intro s a s' h
  cases h
  exact hrefl s

/-- So does a read, where it is defined. -/
theorem keeps_read {R : σ → σ → Prop} {f : σ → Option α} (hrefl : ∀ s, R s s) :
    (read f : Prog S σ α).Keeps R := by
  intro s a s' h
  obtain ⟨b, _, heq⟩ := Option.map_eq_some_iff.mp h
  cases heq
  exact hrefl s

/-- An update moves the state along `R` if it does so from everywhere. -/
theorem keeps_modify {R : σ → σ → Prop} {f : σ → σ} (h : ∀ s, R s (f s)) :
    (modify f : Prog S σ Unit).Keeps R := by
  intro s a s' hf
  cases hf
  exact h s

/-- A choice keeps what both its branches keep. -/
theorem keeps_ite {R : σ → σ → Prop} {c : Prop} [Decidable c] {p q : Prog S σ α}
    (hp : p.Keeps R) (hq : q.Keeps R) : (if c then p else q).Keeps R := by
  split
  · exact hp
  · exact hq

/-- The same of a stop: what is left of the program moves along `R`. -/
def KeepsStop (R : σ → σ → Prop) : Stop S σ α → Prop
  | .done _ => True
  | .parked w => ∀ r, Prog.Keeps R (w.resume r)

section

variable {R : σ → σ → Prop} (hrefl : ∀ s, R s s) (htrans : ∀ s t u, R s t → R t u → R s u)
include hrefl htrans

/-- A run moves along `R`, whatever its calls are answered. -/
theorem Keeps.wlp {ε : Type} {env : Env S ε} (p : Prog S σ α) :
    ∀ {s : σ} {e : ε}, p.Keeps R → wlp env p (fun _ s' _ => R s s') s e := by
  induction p with
  | ret a =>
    intro s e _
    exact wlp_ret.mpr (hrefl s)
  | act f =>
    intro s e hk
    exact wlp_act.mpr fun a s' hf => hk s a s' hf
  | call c k ih =>
    intro s e hk
    exact wlp_call.mpr fun r e1 _ => ih r (hk r)
  | bind p k ihp ihk =>
    intro s e hk
    refine wlp_bind.mpr (wlp_mono (ihp hk.1) fun b s1 e1 h1 => ?_)
    exact wlp_mono (ihk b (hk.2 b)) fun a s' e' h' => htrans _ _ _ h1 h'
  | iter body b ih =>
    intro s e hk
    -- what the loop keeps is the relation between its start and each round
    refine wlp_iter_of_inv (fun _ s1 _ => R s s1) (fun b s1 e1 h1 => ?_) (hrefl s)
    refine wlp_mono (ih b (hk b)) fun x s' e' h' => ?_
    cases x with
    | inl b' => exact htrans _ _ _ h1 h'
    | inr a => exact htrans _ _ _ h1 h'

/-- Up to the next blocking call it moves along `R` as well, and will go on so behind the
call. -/
theorem Keeps.advance {n : Nat} (p : Prog S σ α) :
    ∀ {s s' : σ} {st : Stop S σ α}, p.Keeps R → Prog.advance n p s = some (st, s') →
      R s s' ∧ KeepsStop R st := by
  induction p with
  | ret a =>
    intro s s' st _ h
    simp only [Prog.advance, Option.some.injEq, Prod.mk.injEq] at h
    obtain ⟨rfl, rfl⟩ := h
    exact ⟨hrefl _, trivial⟩
  | act f =>
    intro s s' st hk h
    simp only [Prog.advance, Option.map_eq_some_iff, Prod.mk.injEq] at h
    obtain ⟨⟨b, t⟩, hf, rfl, rfl⟩ := h
    exact ⟨hk _ _ _ hf, trivial⟩
  | call c k =>
    intro s s' st hk h
    simp only [Prog.advance, Option.some.injEq, Prod.mk.injEq] at h
    obtain ⟨rfl, rfl⟩ := h
    exact ⟨hrefl _, hk⟩
  | bind p k ihp ihk =>
    intro s s' st hk h
    simp only [Prog.advance] at h
    cases hp : Prog.advance n p s with
    | none => rw [hp] at h; simp at h
    | some X =>
      obtain ⟨st', s1⟩ := X
      rw [hp] at h
      obtain ⟨hR, hst⟩ := ihp hk.1 hp
      cases st' with
      | done b =>
        obtain ⟨hR', hst'⟩ := ihk b (hk.2 b) h
        exact ⟨htrans _ _ _ hR hR', hst'⟩
      | parked w =>
        simp only [Option.some.injEq, Prod.mk.injEq] at h
        obtain ⟨rfl, rfl⟩ := h
        exact ⟨hR, fun r => ⟨hst r, hk.2⟩⟩
  | iter body b ih =>
    intro s s' st hk h
    -- whatever a round gives, what is left of the loop keeps the relation as well
    have hagain : ∀ x, (again body x).Keeps R := by
      intro x
      cases x with
      | inl b' => exact hk
      | inr a => exact trivial
    simp only [Prog.advance] at h
    -- the rounds are counted apart from the fuel of the body
    suffices H : ∀ m b s, advanceN body (fun b s => Prog.advance n (body b) s) m b s
        = some (st, s') → R s s' ∧ KeepsStop R st from H n b s h
    intro m
    induction m with
    | zero => intro b s h; simp [advanceN] at h
    | succ m ihm =>
      intro b s h
      simp only [advanceN] at h
      cases hb : Prog.advance n (body b) s with
      | none => rw [hb] at h; simp at h
      | some X =>
        obtain ⟨st', s1⟩ := X
        rw [hb] at h
        obtain ⟨hR, hst⟩ := ih b (hk b) hb
        cases st' with
        | done x =>
          cases x with
          | inl b' =>
            obtain ⟨hR', hst'⟩ := ihm b' s1 h
            exact ⟨htrans _ _ _ hR hR', hst'⟩
          | inr a =>
            simp only [Option.some.injEq, Prod.mk.injEq] at h
            obtain ⟨rfl, rfl⟩ := h
            exact ⟨hR, trivial⟩
        | parked w =>
          simp only [Option.some.injEq, Prod.mk.injEq] at h
          obtain ⟨rfl, rfl⟩ := h
          exact ⟨hR, fun r => ⟨hst r, hagain⟩⟩

/-- Wherever it is parked, it has moved along `R` so far and will go on so. -/
theorem Reached.keeps {answer : (c : S.Call) → A → Option (S.Reply c)} {p : Prog S σ α} {s s1 : σ}
    {tr : List (S.Call × A)} {w : Parked S σ α} (h : Reached answer p s tr w s1) (hk : p.Keeps R) :
    R s s1 ∧ ∀ r, (w.resume r).Keeps R := by
  induction h with
  | start hadv => exact Keeps.advance hrefl htrans _ hk hadv
  | resume _ _ hadv ih =>
    obtain ⟨hR, hkeeps⟩ := ih
    obtain ⟨hR', hkeeps'⟩ := Keeps.advance hrefl htrans _ (hkeeps _) hadv
    exact ⟨htrans _ _ _ hR hR', hkeeps'⟩

/-- The same where it has stopped, be it in a call or at its end. -/
theorem Stopped.keeps {answer : (c : S.Call) → A → Option (S.Reply c)} {p : Prog S σ α} {s s' : σ}
    {tr : List (S.Call × A)} {st : Stop S σ α} (h : Stopped answer p s tr s' st) (hk : p.Keeps R) :
    R s s' := by
  cases st with
  | done a => exact Keeps.wlp hrefl htrans _ hk _ _ _ h
  | parked w => exact (Reached.keeps hrefl htrans h hk).1

end

end Prog

end Coroutine
