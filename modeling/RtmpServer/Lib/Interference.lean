import RtmpServer.Lib.Schedule

/-!
# What other coroutines can do to a program

Two ways to speak of the others without saying who they are.

* `Simulates V F`: from two states that look alike (`V`) the program runs alike
  up to each blocking call, as long as both states look alike again when it is
  resumed; what it does to the rest of the state is bounded by `F`. Two
  coroutines with fitting `V` and `F` cannot tell whether they run alone.
* `amid`: the program among others that change the state in every blocking
  call, as the environment says. What `wlp` says of `p.amid`, in every
  environment, holds of `p` in every schedule.
-/

namespace Coroutine

variable {S : Sig} {σ α β : Type}

namespace Prog

/-! ## Two runs side by side -/

/-- Run from two states that `pre` relates, the program does the same and leaves
states that `post` relates. At a blocking call they are related by `V`, and
nothing else is known of them after it. Every action moves the first state
along `F`. -/
def Simulates (V F : σ → σ → Prop) :
    {α : Type} → (σ → σ → Prop) → Prog S σ α → (α → σ → σ → Prop) → Prop
  | _, pre, .ret a, post => ∀ s t, pre s t → post a s t
  | _, pre, .act f, post => ∀ s t a s', pre s t → f s = some (a, s') →
      F s s' ∧ ∃ t', f t = some (a, t') ∧ post a s' t'
  | _, pre, .call _ k, post => (∀ s t, pre s t → V s t) ∧ ∀ r, Simulates V F V (k r) post
  | _, pre, @Prog.bind _ _ _ β p k, post => ∃ mid : β → σ → σ → Prop,
      Simulates V F pre p mid ∧ ∀ b, (∃ s t, mid b s t) → Simulates V F (mid b) (k b) post
  | _, pre, @Prog.iter _ _ _ β body b, post => ∃ inv : β → σ → σ → Prop,
      (∀ s t, pre s t → inv b s t) ∧ ∀ b, Simulates V F (inv b) (body b) fun x =>
        match x with
        | .inl b' => inv b'
        | .inr a => post a

/-- The same where the program has stopped: at its end the states are related by `post`, in
a call by `V` and whatever it is answered. -/
def SimulatesStop (V F : σ → σ → Prop) (post : α → σ → σ → Prop) (s t : σ) : Stop S σ α → Prop
  | .done a => post a s t
  | .parked w => V s t ∧ ∀ r, Simulates V F V (w.resume r) post

section

variable {V F : σ → σ → Prop}

/-- The states before may be more alike than is asked, those after less. -/
theorem Simulates.mono (p : Prog S σ α) :
    ∀ {pre pre' : σ → σ → Prop} {post post' : α → σ → σ → Prop}, Simulates V F pre p post →
      (∀ s t, pre' s t → pre s t) → (∀ a s t, post a s t → post' a s t) →
      Simulates V F pre' p post' := by
  induction p with
  | ret a =>
    intro pre pre' post post' h hpre hpost s t hst
    exact hpost a s t (h s t (hpre s t hst))
  | act f =>
    intro pre pre' post post' h hpre hpost s t a s' hst hf
    obtain ⟨hF, t', hf', hp⟩ := h s t a s' (hpre s t hst) hf
    exact ⟨hF, t', hf', hpost a s' t' hp⟩
  | call c k ih =>
    intro pre pre' post post' h hpre hpost
    exact ⟨fun s t hst => h.1 s t (hpre s t hst),
      fun r => ih r (h.2 r) (fun _ _ hV => hV) hpost⟩
  | bind p k ihp ihk =>
    intro pre pre' post post' h hpre hpost
    obtain ⟨mid, hp, hk⟩ := h
    exact ⟨mid, ihp hp hpre fun _ _ _ hm => hm,
      fun b hb => ihk b (hk b hb) (fun _ _ hm => hm) hpost⟩
  | iter body b ih =>
    intro pre pre' post post' h hpre hpost
    obtain ⟨inv, hinv, hbody⟩ := h
    refine ⟨inv, fun s t hst => hinv s t (hpre s t hst), fun b => ?_⟩
    refine ih b (hbody b) (fun _ _ hi => hi) fun x s t hx => ?_
    cases x with
    | inl b' => exact hx
    | inr a => exact hpost a s t hx

variable {pre : σ → σ → Prop} {post : α → σ → σ → Prop}

/-- To look at both states is to see the same, as long as what is looked at is the same. -/
theorem simulates_gets {f : σ → α} (hrefl : ∀ s, F s s) (hf : ∀ s t, pre s t → f s = f t)
    (hpost : ∀ s t, pre s t → post (f s) s t) :
    Simulates V F pre (gets f : Prog S σ α) post := by
  intro s t a s' hst h
  cases h
  exact ⟨hrefl s, t, by rw [hf s t hst], hpost s t hst⟩

/-- The same of a read that may be undefined: it is defined in both states, and to the same
value. -/
theorem simulates_read {f : σ → Option α} (hrefl : ∀ s, F s s)
    (hf : ∀ s t, pre s t → f s = f t) (hpost : ∀ a s t, pre s t → f s = some a → post a s t) :
    Simulates V F pre (read f : Prog S σ α) post := by
  intro s t a s' hst h
  obtain ⟨b, hb, heq⟩ := Option.map_eq_some_iff.mp h
  cases heq
  refine ⟨hrefl s, t, ?_, hpost a s t hst hb⟩
  show (f t).map (·, t) = some (a, t)
  rw [← hf s t hst, hb]
  rfl

/-- An update of both states keeps them alike, as long as it moves the first of them along
`F`. -/
theorem simulates_modify {f : σ → σ} {post : Unit → σ → σ → Prop}
    (hF : ∀ s t, pre s t → F s (f s)) (hpost : ∀ s t, pre s t → post () (f s) (f t)) :
    Simulates V F pre (modify f : Prog S σ Unit) post := by
  intro s t a s' hst h
  cases h
  exact ⟨hF s t hst, f t, rfl, hpost s t hst⟩

/-- A choice on something known in advance is made the same way in both runs. -/
theorem simulates_ite {c : Prop} [Decidable c] {p q : Prog S σ α}
    (hp : c → Simulates V F pre p post) (hq : ¬ c → Simulates V F pre q post) :
    Simulates V F pre (if c then p else q) post := by
  split
  · exact hp ‹_›
  · exact hq ‹_›

variable (hrefl : ∀ s, F s s) (htrans : ∀ s t u, F s t → F t u → F s u)
include hrefl htrans

/-- Up to the next blocking call the program does the same in both states: it
stops in the same place. -/
theorem Simulates.advance {n : Nat} (p : Prog S σ α) :
    ∀ {pre : σ → σ → Prop} {post : α → σ → σ → Prop} {s t s' : σ} {st : Stop S σ α},
      Simulates V F pre p post → pre s t → Prog.advance n p s = some (st, s') →
      F s s' ∧ ∃ t', Prog.advance n p t = some (st, t') ∧ SimulatesStop V F post s' t' st := by
  induction p with
  | ret a =>
    intro pre post s t s' st hp hst h
    simp only [Prog.advance, Option.some.injEq, Prod.mk.injEq] at h
    obtain ⟨rfl, rfl⟩ := h
    exact ⟨hrefl _, t, rfl, hp _ t hst⟩
  | act f =>
    intro pre post s t s' st hp hst h
    simp only [Prog.advance, Option.map_eq_some_iff, Prod.mk.injEq] at h
    obtain ⟨⟨b, s1⟩, hf, rfl, rfl⟩ := h
    obtain ⟨hF, t', hf', hpost⟩ := hp s t b s1 hst hf
    refine ⟨hF, t', ?_, hpost⟩
    rw [Prog.advance, hf']
    rfl
  | call c k ih =>
    intro pre post s t s' st hp hst h
    simp only [Prog.advance, Option.some.injEq, Prod.mk.injEq] at h
    obtain ⟨rfl, rfl⟩ := h
    exact ⟨hrefl _, t, rfl, hp.1 _ t hst, hp.2⟩
  | bind p k ihp ihk =>
    intro pre post s t s' st hp hst h
    obtain ⟨mid, hp, hk⟩ := hp
    simp only [Prog.advance] at h ⊢
    cases hadv : Prog.advance n p s with
    | none => rw [hadv] at h; simp at h
    | some R =>
      obtain ⟨st', s1⟩ := R
      rw [hadv] at h
      obtain ⟨hF, t1, hadv', hstop⟩ := ihp hp hst hadv
      rw [hadv']
      cases st' with
      | done b =>
        obtain ⟨hF', t', h', hstop'⟩ := ihk b (hk b ⟨_, _, hstop⟩) hstop h
        exact ⟨htrans _ _ _ hF hF', t', h', hstop'⟩
      | parked w =>
        simp only [Option.some.injEq, Prod.mk.injEq] at h
        obtain ⟨rfl, rfl⟩ := h
        -- the second run waits at the same call, and goes on under the same relation
        exact ⟨hF, t1, rfl, hstop.1, fun r => ⟨mid, hstop.2 r, hk⟩⟩
  | iter body b ih =>
    intro pre post s t s' st hp hst h
    obtain ⟨inv, hinv, hbody⟩ := hp
    -- what comes after a round is related whichever way the round ends
    have hagain : ∀ x, Simulates V F
        (match x with
          | .inl b' => inv b'
          | .inr a => post a) (again body x) post := by
      intro x
      cases x with
      | inl b' => exact ⟨inv, fun _ _ hi => hi, hbody⟩
      | inr a => exact fun _ _ ha => ha
    simp only [Prog.advance] at h ⊢
    -- the rounds are counted apart from the fuel of the body, which every round has whole
    suffices H : ∀ m b s t, inv b s t →
        advanceN body (fun b s => Prog.advance n (body b) s) m b s = some (st, s') →
        F s s' ∧ ∃ t', advanceN body (fun b s => Prog.advance n (body b) s) m b t = some (st, t') ∧
          SimulatesStop V F post s' t' st from H n b s t (hinv s t hst) h
    intro m
    induction m with
    | zero => intro b s t _ h; simp [advanceN] at h
    | succ m ihm =>
      intro b s t hst h
      simp only [advanceN] at h ⊢
      cases hadv : Prog.advance n (body b) s with
      | none => rw [hadv] at h; simp at h
      | some R =>
        obtain ⟨st', s1⟩ := R
        rw [hadv] at h
        obtain ⟨hF, t1, hadv', hstop⟩ := ih b (hbody b) hst hadv
        rw [hadv']
        cases st' with
        | done x =>
          cases x with
          | inl b' =>
            obtain ⟨hF', t', h', hstop'⟩ := ihm b' s1 t1 hstop h
            exact ⟨htrans _ _ _ hF hF', t', h', hstop'⟩
          | inr a =>
            simp only [Option.some.injEq, Prod.mk.injEq] at h
            obtain ⟨rfl, rfl⟩ := h
            exact ⟨hF, t1, rfl, hstop⟩
        | parked w =>
          simp only [Option.some.injEq, Prod.mk.injEq] at h
          obtain ⟨rfl, rfl⟩ := h
          exact ⟨hF, t1, rfl, hstop.1, fun r => ⟨_, hstop.2 r, fun x _ => hagain x⟩⟩

/-- And so when it is resumed, from any two states that look alike. -/
theorem Simulates.resume {A : Type} {answer : (c : S.Call) → A → Option (S.Reply c)} {n : Nat}
    {w : Parked S σ α} {post : α → σ → σ → Prop} {x : A} {s t s' : σ} {st : Stop S σ α}
    (hw : ∀ r, Simulates V F V (w.resume r) post) (hst : V s t)
    (hres : Prog.resume answer n w x s = some (st, s')) :
    F s s' ∧ ∃ t', Prog.resume answer n w x t = some (st, t') ∧
      SimulatesStop V F post s' t' st := by
  obtain ⟨r, hx, hadv⟩ := resume_eq_some.mp hres
  obtain ⟨hF, t', hadv', hstop⟩ := Simulates.advance hrefl htrans _ (hw r) hst hadv
  exact ⟨hF, t', resume_eq_some.mpr ⟨r, hx, hadv'⟩, hstop⟩

end

end Prog

/-! ## Among others -/

/-- The calls of `S`, each answered together with what the others did in the
meantime. -/
abbrev Sig.amid (S : Sig) (O : Type) : Sig := ⟨S.Call, fun c => S.Reply c × O⟩

namespace Prog

variable {O : Type} (others : O → σ → σ)

/-- The program among others: `others o` is what `o` does to the state. -/
def amid : {α : Type} → Prog S σ α → Prog (S.amid O) σ α
  | _, .ret a => .ret a
  | _, .act f => .act f
  | _, .call c k => .call c fun r => .bind (modify (others r.2)) fun _ => amid (k r.1)
  | _, .bind p k => .bind (amid p) fun b => amid (k b)
  | _, .iter body b => .iter (fun b => amid (body b)) b

/-- A program that moves along `R` does so among others who do, because at its calls they
do. -/
theorem Keeps.amid {R : σ → σ → Prop} (hothers : ∀ o s, R s (others o s)) (p : Prog S σ α) :
    p.Keeps R → (p.amid others).Keeps R := by
  induction p with
  | ret a => exact id
  | act f => exact id
  | call c k ih =>
    intro hk r
    exact ⟨keeps_modify (hothers r.2), fun _ => ih r.1 (hk r.1)⟩
  | bind p k ihp ihk =>
    intro hk
    exact ⟨ihp hk.1, fun b => ihk b (hk.2 b)⟩
  | iter body b ih =>
    intro hk b
    exact ih b (hk b)

section

variable {ε : Type} {env : Env (S.amid O) ε} {s : σ} {e : ε} {Q : α → σ → ε → Prop}

/-- A program that only returns has no call for the others to come in at. -/
theorem amid_ret (a : α) : (ret a : Prog S σ α).amid others = .ret a := rfl

/-- The others do not come in where the state is looked at. -/
theorem amid_gets (f : σ → α) : (gets f : Prog S σ α).amid others = gets f := rfl

/-- Nor do they where it is updated: the scheduler does not preempt. -/
theorem amid_modify (f : σ → σ) : (modify f : Prog S σ Unit).amid others = modify f := rfl

/-- Nor do they in a read. -/
theorem amid_read (f : σ → Option α) : (read f : Prog S σ α).amid others = read f := rfl

/-- The others come in at the calls of both parts of a sequence. -/
theorem amid_bind (p : Prog S σ β) (k : β → Prog S σ α) :
    (bind p k).amid others = .bind (p.amid others) fun b => (k b).amid others := rfl

/-- And at the calls of every round of a loop. -/
theorem amid_iter (body : β → Prog S σ (β ⊕ α)) (b : β) :
    (iter body b).amid others = .iter (fun b => (body b).amid others) b := rfl

/-- A choice is the same among others. -/
theorem amid_ite {c : Prop} [Decidable c] (p q : Prog S σ α) :
    (if c then p else q).amid others = if c then p.amid others else q.amid others := by
  split
  · rfl
  · rfl

/-- At a call the others come in: it is answered, the state becomes what they have made of
it, and the program goes on from there. -/
theorem wlp_amid_call {c : S.Call} {k : S.Reply c → Prog S σ α} :
    wlp env ((call c k).amid others) Q s e ↔
      ∀ r o e1, env c e = some ((r, o), e1) → wlp env ((k r).amid others) Q (others o s) e1 := by
  refine wlp_call.trans ?_
  constructor
  · intro h r o e1 hr
    have hbind := h (r, o) e1 hr
    rwa [wlp_bind, wlp_modify] at hbind
  · intro h r e1 hr
    rw [wlp_bind, wlp_modify]
    exact h r.1 r.2 e1 hr

end

end Prog

/-! ### As if by itself -/

/-- What the program is answered, without what the others did: the environment of the
program by itself. -/
def Env.answers {O ε : Type} (env : Env (S.amid O) ε) : Env S ε := fun c e =>
  (env c e).map fun r => (r.1.1, r.2)

/-- An answer among others is an answer to the program by itself. -/
theorem Env.answers_of_eq {O ε : Type} {env : Env (S.amid O) ε} {c : S.Call} {e e' : ε}
    {r : S.Reply c} {o : O} (h : env c e = some ((r, o), e')) :
    env.answers c e = some (r, e') := by
  rw [Env.answers, h]
  rfl

namespace Prog

variable {O : Type} (others : O → σ → σ)

/-- Among others that leave alone what `V` says of a state, a program does what it
does by itself with the same answers, if it looks at nothing else: the result is
the same, and the two states end alike. -/
theorem Simulates.wlp_amid {V F : σ → σ → Prop} {ε : Type} {env : Env (S.amid O) ε}
    (hothers : ∀ c e r o e', env c e = some ((r, o), e') → ∀ s t, V s t → V (others o s) t)
    (p : Prog S σ α) : ∀ {pre : σ → σ → Prop} {post : α → σ → σ → Prop} {s t : σ} {e : ε},
      Simulates V F pre p post → pre s t →
      wlp env (p.amid others) (fun a s' e' => ∃ t', Runs env.answers p t e a t' e' ∧ post a s' t')
        s e := by
  induction p with
  | ret a =>
    intro pre post s t e h hst
    exact wlp_ret.mpr ⟨t, runs_ret.mpr ⟨rfl, rfl, rfl⟩, h s t hst⟩
  | act f =>
    intro pre post s t e h hst
    refine wlp_act.mpr fun a s' hf => ?_
    obtain ⟨-, t', hf', hpost⟩ := h s t a s' hst hf
    exact ⟨t', runs_act.mpr ⟨hf', rfl⟩, hpost⟩
  | call c k ih =>
    intro pre post s t e h hst
    refine (wlp_amid_call others).mpr fun r o e1 hr => ?_
    refine wlp_mono (ih r (h.2 r) (hothers _ _ _ _ _ hr s t (h.1 s t hst))) ?_
    intro a s' e' ⟨t', hrun, hpost⟩
    exact ⟨t', runs_call.mpr ⟨r, e1, Env.answers_of_eq hr, hrun⟩, hpost⟩
  | bind p k ihp ihk =>
    intro pre post s t e h hst
    obtain ⟨mid, hp, hk⟩ := h
    refine wlp_bind.mpr (wlp_mono (ihp hp hst) fun b s1 e1 ⟨t1, hrun1, hmid⟩ => ?_)
    refine wlp_mono (ihk b (hk b ⟨s1, t1, hmid⟩) hmid) fun a s' e' ⟨t', hrun, hpost⟩ => ?_
    exact ⟨t', runs_bind.mpr ⟨b, t1, e1, hrun1, hrun⟩, hpost⟩
  | iter body b ih =>
    intro pre post s t e h hst
    obtain ⟨inv, hinv, hbody⟩ := h
    -- what is left of the loop ends as the whole of it does
    refine wlp_iter_of_inv (fun b1 s1 e1 => ∃ t1, inv b1 s1 t1 ∧ ∀ a t' e',
      Runs env.answers (iter body b1) t1 e1 a t' e' → Runs env.answers (iter body b) t e a t' e')
      ?_ ⟨t, hinv s t hst, fun _ _ _ hrun => hrun⟩
    intro b1 s1 e1 ⟨t1, hinv1, hrest⟩
    refine wlp_mono (ih b1 (hbody b1) hinv1) fun x s2 e2 ⟨t2, hround, hx⟩ => ?_
    have hrest2 : ∀ a t' e', Runs env.answers (again body x) t2 e2 a t' e' →
        Runs env.answers (iter body b) t e a t' e' := fun a t' e' hrun =>
      hrest a t' e' (runs_iter.mpr ⟨x, t2, e2, hround, hrun⟩)
    cases x with
    | inl b2 => exact ⟨t2, hx, hrest2⟩
    | inr a => exact ⟨t2, hrest2 a t2 e2 (runs_ret.mpr ⟨rfl, rfl, rfl⟩), hx⟩

/-! ### Among others who do nothing -/

/-- The environment in which the others only ever do `idle`, that is nothing where `idle` is
nothing. -/
def alone {ε : Type} (idle : O) (env : Env S ε) : Env (S.amid O) ε := fun c e =>
  (env c e).map fun r => ((r.1, idle), r.2)

section

variable {others} {ε : Type} {env : Env S ε} {idle : O}

/-- What the program is answered there is what it is answered by itself. -/
theorem answers_alone : (alone idle env).answers = env := by
  funext c e
  unfold Env.answers alone
  rw [Option.map_map]
  exact Option.map_id_apply

/-- Alone, and with `idle` doing nothing, the program among others has the run that it has
by itself, step by step. -/
theorem exec_alone (hidle : ∀ s, others idle s = s) (n : Nat) (p : Prog S σ α) :
    ∀ (s : σ) (e : ε), exec (alone idle env) n (p.amid others) s e = exec env n p s e := by
  induction p with
  | ret a => exact fun s e => rfl
  | act f => exact fun s e => rfl
  | call c k ih =>
    intro s e
    simp only [amid, exec, alone]
    cases env c e with
    | none => rfl
    | some r =>
      show exec (alone idle env) n ((k r.1).amid others) (others idle s) r.2 = _
      rw [hidle, ih]
  | bind p k ihp ihk =>
    intro s e
    simp only [amid, exec, ihp, ihk]
  | iter body b ih =>
    intro s e
    simp only [amid, exec, ih]

/-- There the program runs as it does by itself, to the same end. -/
theorem runs_alone (hidle : ∀ s, others idle s = s) {p : Prog S σ α} {s s' : σ} {e e' : ε}
    {a : α} :
    Runs (alone idle env) (p.amid others) s e a s' e' ↔ Runs env p s e a s' e' := by
  unfold Runs
  simp only [exec_alone hidle]

end

end Prog

/-! ## Fewer answers -/

/-- The environment with the answers that `A` does not allow left out: a call that would get
one is never answered. -/
def Env.only {ε : Type} (A : (c : S.Call) → S.Reply c → Prop) [∀ c r, Decidable (A c r)]
    (env : Env S ε) : Env S ε := fun c e =>
  match env c e with
  | none => none
  | some (r, e') => if A c r then some (r, e') else none

/-- What remains are the answers of the environment that `A` allows. -/
theorem Env.only_eq_some {ε : Type} {A : (c : S.Call) → S.Reply c → Prop}
    [∀ c r, Decidable (A c r)] {env : Env S ε} {c : S.Call} {e e' : ε} {r : S.Reply c} :
    env.only A c e = some (r, e') ↔ env c e = some (r, e') ∧ A c r := by
  unfold Env.only
  cases env c e with
  | none => exact ⟨fun h => (nomatch h), fun h => (nomatch h.1)⟩
  | some x =>
    by_cases hA : A c x.1
    · simp only [if_pos hA]
      constructor
      · intro h
        cases h
        exact ⟨rfl, hA⟩
      · exact fun h => h.1
    · simp only [if_neg hA]
      refine ⟨fun h => (nomatch h), fun ⟨h, hr⟩ => ?_⟩
      cases h
      exact absurd hr hA

end Coroutine
