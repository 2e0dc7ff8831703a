import Mathlib.Logic.Basic

/-!
# Coroutine programs: syntax, runs, and the two weakest preconditions

A `Prog` is a program over a shared state `σ` that stops, now and then, in a
*blocking call*. Between two blocking calls it runs alone; what happens while
it is parked in one is the environment's business. The control structure
(sequencing and unbounded loops) is syntax, everything in between is an
ordinary Lean function on the state, so a body of code is written once and
read in two ways:

* `exec`/`Runs`: alone against an environment that answers every call.
  `wp` (the run ends, and ends in `Q`) and `wlp` (if the run ends, it ends in
  `Q`) are computed from the program by the rules of this file; all of them
  are equivalences, so they also refute.
* `advance`: up to the next blocking call, which is the step of a scheduler.
  `Reached.runs` puts the two together: a coroutine that was parked and
  resumed with nobody touching its state has simply run.

`exec` carries fuel because a loop may go round for ever; nothing else
needs it, and `Runs` hides it.
-/

namespace Coroutine

/-- The blocking calls of a program and what each of them answers. The type of the answer
depends on the call. -/
structure Sig where
  Call : Type
  Reply : Call → Type

/-- A program over the state `σ`. `act` may be undefined (`none`): that is
undefined behaviour of the code, and no run goes through it. -/
inductive Prog (S : Sig) (σ : Type) : Type → Type 1 where
  | ret {α : Type} (a : α) : Prog S σ α
  | act {α : Type} (f : σ → Option (α × σ)) : Prog S σ α
  | call {α : Type} (c : S.Call) (k : S.Reply c → Prog S σ α) : Prog S σ α
  | bind {α β : Type} (p : Prog S σ β) (k : β → Prog S σ α) : Prog S σ α
  | iter {α β : Type} (body : β → Prog S σ (β ⊕ α)) (b : β) : Prog S σ α

variable {S : Sig} {σ ε α β : Type}

/-- Programs are sequenced by `bind`, so that the code of a coroutine can be written with
`do`. -/
instance : Monad (Prog S σ) where
  pure := .ret
  bind := .bind

/-- An environment answers a call from its own state, which may change with the call, or
never answers. -/
abbrev Env (S : Sig) (ε : Type) := (c : S.Call) → ε → Option (S.Reply c × ε)

namespace Prog

/-- A function of the state: the program goes on with its value, and the state stays. -/
def gets (f : σ → α) : Prog S σ α := .act fun s => some (f s, s)

/-- An update of the state, with no value to go on with. -/
def modify (f : σ → σ) : Prog S σ Unit := .act fun s => some ((), f s)

/-- A function of the state that may be undefined there, as a read behind the end of a
buffer is. -/
def read (f : σ → Option α) : Prog S σ α := .act fun s => (f s).map (·, s)

/-- What is left of a loop after one round of its body: the loop from the next value, or
nothing but the result. -/
def again (body : β → Prog S σ (β ⊕ α)) : β ⊕ α → Prog S σ α
  | .inl b => .iter body b
  | .inr a => .ret a

@[simp] theorem pure_eq (a : α) : (pure a : Prog S σ α) = .ret a := rfl

@[simp] theorem bind_eq (p : Prog S σ β) (k : β → Prog S σ α) : (p >>= k) = .bind p k := rfl

/-! ## Running against an environment -/

/-- At most `n` rounds of a loop, of which `step` is one. No answer means that the rounds
did not suffice, or that one of them gave none. -/
def iterN (step : β → σ → ε → Option ((β ⊕ α) × σ × ε)) : Nat → β → σ → ε → Option (α × σ × ε)
  | 0, _, _, _ => none
  | n + 1, b, s, e =>
    match step b s e with
    | none => none
    | some (.inl b', s', e') => iterN step n b' s' e'
    | some (.inr a, s', e') => some (a, s', e')

/-- The run of a program against `env`, every loop with `fuel` rounds. No answer means too
little fuel, undefined behaviour, or a call that is never answered. -/
def exec (env : Env S ε) (fuel : Nat) : {α : Type} → Prog S σ α → σ → ε → Option (α × σ × ε)
  | _, .ret a, s, e => some (a, s, e)
  | _, .act f, s, e => (f s).map fun r => (r.1, r.2, e)
  | _, .call c k, s, e =>
    match env c e with
    | none => none
    | some (r, e') => exec env fuel (k r) s e'
  | _, .bind p k, s, e =>
    match exec env fuel p s e with
    | none => none
    | some (b, s', e') => exec env fuel (k b) s' e'
  | _, .iter body b, s, e => iterN (fun b s e => exec env fuel (body b) s e) fuel b s e

/-- More rounds, of a body that has at least the answers it had, change no answer of a loop. -/
theorem iterN_mono {step step' : β → σ → ε → Option ((β ⊕ α) × σ × ε)}
    (hstep : ∀ b s e R, step b s e = some R → step' b s e = some R) :
    ∀ {n m : Nat} {b : β} {s : σ} {e : ε} {R : α × σ × ε}, n ≤ m →
      iterN step n b s e = some R → iterN step' m b s e = some R := by
  intro n
  induction n with
  | zero => intro m b s e R _ h; simp [iterN] at h
  | succ n ih =>
    intro m b s e R hnm h
    obtain ⟨m, rfl⟩ : ∃ m', m = m' + 1 := ⟨m - 1, by omega⟩
    simp only [iterN] at h ⊢
    cases hs : step b s e with
    | none => rw [hs] at h; simp at h
    | some X =>
      rw [hs] at h
      rw [hstep _ _ _ _ hs]
      obtain ⟨x, s', e'⟩ := X
      cases x with
      | inl b' => exact ih (by omega) h
      | inr a => exact h

/-- More fuel changes no answer, so that a run may be given any amount that suffices. -/
theorem exec_mono (env : Env S ε) {n m : Nat} (hnm : n ≤ m) (p : Prog S σ α) :
    ∀ {s : σ} {e : ε} {R : α × σ × ε},
      exec env n p s e = some R → exec env m p s e = some R := by
  induction p with
  | ret a => intro s e R h; simpa [exec] using h
  | act f => intro s e R h; simpa [exec] using h
  | call c k ih =>
    intro s e R h
    simp only [exec] at h ⊢
    cases hc : env c e with
    | none => rw [hc] at h; simp at h
    | some X => rw [hc] at h; exact ih _ h
  | bind p k ihp ihk =>
    intro s e R h
    simp only [exec] at h ⊢
    cases hp : exec env n p s e with
    | none => rw [hp] at h; simp at h
    | some X =>
      rw [hp] at h
      rw [ihp hp]
      exact ihk _ h
  | iter body b ih =>
    intro s e R h
    -- the body has the same run with more fuel, and the loop more rounds to go
    simp only [exec] at h ⊢
    exact iterN_mono (fun b _ _ _ hb => ih b hb) hnm h

/-- `p`, started in `s` with the environment in `e`, ends with `a`, in `s'` and `e'`. -/
def Runs (env : Env S ε) (p : Prog S σ α) (s : σ) (e : ε) (a : α) (s' : σ) (e' : ε) : Prop :=
  ∃ n, exec env n p s e = some (a, s', e')

variable {env : Env S ε} {s s' : σ} {e e' : ε} {a : α}

theorem runs_ret {b : α} : Runs env (.ret b) s e a s' e' ↔ b = a ∧ s = s' ∧ e = e' := by
  simp [Runs, exec]

theorem runs_act {f : σ → Option (α × σ)} :
    Runs env (.act f) s e a s' e' ↔ f s = some (a, s') ∧ e = e' := by
  simp only [Runs, exec, Option.map_eq_some_iff, exists_const]
  constructor
  · rintro ⟨⟨b, t⟩, hf, heq⟩
    simp only [Prod.mk.injEq] at heq
    obtain ⟨rfl, rfl, rfl⟩ := heq
    exact ⟨hf, rfl⟩
  · rintro ⟨hf, rfl⟩
    exact ⟨_, hf, rfl⟩

/-- A call's run is the environment's answer, and then the run of what follows it. -/
theorem runs_call {c : S.Call} {k : S.Reply c → Prog S σ α} :
    Runs env (.call c k) s e a s' e' ↔
      ∃ r e1, env c e = some (r, e1) ∧ Runs env (k r) s e1 a s' e' := by
  simp only [Runs, exec]
  constructor
  · rintro ⟨n, h⟩
    cases hc : env c e with
    | none => rw [hc] at h; simp at h
    | some X => rw [hc] at h; exact ⟨X.1, X.2, rfl, n, h⟩
  · rintro ⟨r, e1, hc, n, h⟩
    exact ⟨n, by rw [hc]; exact h⟩

/-- A sequence is a run of the first program and one of the second from where the first
ends. -/
theorem runs_bind {p : Prog S σ β} {k : β → Prog S σ α} :
    Runs env (.bind p k) s e a s' e' ↔
      ∃ b s1 e1, Runs env p s e b s1 e1 ∧ Runs env (k b) s1 e1 a s' e' := by
  simp only [Runs, exec]
  constructor
  · rintro ⟨n, h⟩
    cases hp : exec env n p s e with
    | none => rw [hp] at h; simp at h
    | some X =>
      rw [hp] at h
      exact ⟨X.1, X.2.1, X.2.2, ⟨n, hp⟩, n, h⟩
  · rintro ⟨b, s1, e1, ⟨n, hp⟩, m, hk⟩
    refine ⟨max n m, ?_⟩
    rw [exec_mono env (Nat.le_max_left n m) p hp]
    exact exec_mono env (Nat.le_max_right n m) (k b) hk

/-- A loop is one round of its body and then what is left of it. -/
theorem runs_iter {body : β → Prog S σ (β ⊕ α)} {b : β} :
    Runs env (.iter body b) s e a s' e' ↔
      ∃ x s1 e1, Runs env (body b) s e x s1 e1 ∧ Runs env (again body x) s1 e1 a s' e' := by
  constructor
  · rintro ⟨n, h⟩
    cases n with
    | zero => simp [exec, iterN] at h
    | succ n =>
      simp only [exec, iterN] at h
      cases hb : exec env (n + 1) (body b) s e with
      | none => rw [hb] at h; simp at h
      | some X =>
        rw [hb] at h
        obtain ⟨x, s1, e1⟩ := X
        refine ⟨x, s1, e1, ⟨n + 1, hb⟩, ?_⟩
        -- the loop's own fuel counts a round less from here on, which does no harm
        cases x with
        | inl b' =>
          refine ⟨n + 1, ?_⟩
          simp only [again, exec]
          exact iterN_mono (fun _ _ _ _ h => h) (Nat.le_succ n) h
        | inr a' => exact ⟨0, h⟩
  · rintro ⟨x, s1, e1, ⟨n, hb⟩, m, hx⟩
    -- the body and the rest may need different fuel; the greater serves both
    have hb' := exec_mono env (Nat.le_succ_of_le (Nat.le_max_left n m)) (body b) hb
    refine ⟨(max n m).succ, ?_⟩
    simp only [exec, iterN, hb']
    cases x with
    | inl b' =>
      simp only [again, exec] at hx
      refine iterN_mono (fun _ _ _ _ h => ?_) (Nat.le_max_right n m) hx
      exact exec_mono env (Nat.le_succ_of_le (Nat.le_max_right n m)) _ h
    | inr a' => simpa [again, exec] using hx

/-- A program has one run from a state at most: what it returns, the state and the
environment's state are settled by where it starts. -/
theorem runs_det {p : Prog S σ α} {a₁ a₂ : α} {s₁ s₂ : σ} {e₁ e₂ : ε}
    (h₁ : Runs env p s e a₁ s₁ e₁) (h₂ : Runs env p s e a₂ s₂ e₂) :
    a₁ = a₂ ∧ s₁ = s₂ ∧ e₁ = e₂ := by
  obtain ⟨n, hn⟩ := h₁
  obtain ⟨m, hm⟩ := h₂
  have h := (exec_mono env (Nat.le_max_left n m) p hn).symm.trans
    (exec_mono env (Nat.le_max_right n m) p hm)
  simpa using h

/-- An environment that answers as another one does, seen through `f`, gives the
same run. -/
theorem exec_map {δ : Type} {env : Env S ε} {env' : Env S δ} {f : ε → δ}
    (henv : ∀ c e r e1, env c e = some (r, e1) → env' c (f e) = some (r, f e1)) {n : Nat}
    (p : Prog S σ α) : ∀ {s : σ} {e : ε} {R : α × σ × ε}, exec env n p s e = some R →
      exec env' n p s (f e) = some (R.1, R.2.1, f R.2.2) := by
  induction p with
  | ret a =>
    intro s e R h
    cases h
    rfl
  | act g =>
    intro s e R h
    obtain ⟨r, hg, hR⟩ := Option.map_eq_some_iff.mp h
    cases hR
    simp [exec, hg]
  | call c k ih =>
    intro s e R h
    simp only [exec] at h ⊢
    cases hc : env c e with
    | none => rw [hc] at h; simp at h
    | some X =>
      rw [hc] at h
      rw [henv _ _ _ _ hc]
      exact ih _ h
  | bind p k ihp ihk =>
    intro s e R h
    simp only [exec] at h ⊢
    cases hp : exec env n p s e with
    | none => rw [hp] at h; simp at h
    | some X =>
      rw [hp] at h
      rw [ihp hp]
      exact ihk _ h
  | iter body b ih =>
    intro s e R h
    simp only [exec] at h ⊢
    suffices H : ∀ m b s e, iterN (fun b s e => exec env n (body b) s e) m b s e = some R →
        iterN (fun b s e => exec env' n (body b) s e) m b s (f e)
          = some (R.1, R.2.1, f R.2.2) from H n b s e h
    -- the fuel of the loop counts down while that of its body stays: the induction is on the
    -- first alone
    intro m
    induction m with
    | zero => intro b s e h; simp [iterN] at h
    | succ m ihm =>
      intro b s e h
      simp only [iterN] at h ⊢
      cases hb : exec env n (body b) s e with
      | none => rw [hb] at h; simp at h
      | some X =>
        obtain ⟨x, s', e'⟩ := X
        rw [hb] at h
        rw [ih b hb]
        cases x with
        | inl b' => exact ihm b' s' e' h
        | inr a =>
          cases h
          rfl

/-! ## Weakest preconditions -/

/-- The run ends, and in `Q`: total correctness, with the return value, the state and the
environment's state for `Q` to speak of. -/
def wp (env : Env S ε) (p : Prog S σ α) (Q : α → σ → ε → Prop) (s : σ) (e : ε) : Prop :=
  ∃ a s' e', Runs env p s e a s' e' ∧ Q a s' e'

/-- If the run ends, it ends in `Q`. A program that is blocked for ever, or undefined,
satisfies it whatever `Q` is. -/
def wlp (env : Env S ε) (p : Prog S σ α) (Q : α → σ → ε → Prop) (s : σ) (e : ε) : Prop :=
  ∀ a s' e', Runs env p s e a s' e' → Q a s' e'

variable {Q Q' : α → σ → ε → Prop} {p : Prog S σ α}

/-- What holds at the end of a run may be weakened. -/
theorem wp_mono (h : wp env p Q s e) (hQ : ∀ a s' e', Q a s' e' → Q' a s' e') :
    wp env p Q' s e := by
  obtain ⟨a, s', e', hr, hq⟩ := h
  exact ⟨a, s', e', hr, hQ _ _ _ hq⟩

/-- Ends that are the same are reached together. -/
theorem wp_congr (hQ : ∀ a s' e', Q a s' e' ↔ Q' a s' e') :
    wp env p Q s e ↔ wp env p Q' s e :=
  ⟨fun h => wp_mono h fun a s' e' => (hQ a s' e').mp,
    fun h => wp_mono h fun a s' e' => (hQ a s' e').mpr⟩

/-- What holds of every end of a run may be weakened. -/
theorem wlp_mono (h : wlp env p Q s e) (hQ : ∀ a s' e', Q a s' e' → Q' a s' e') :
    wlp env p Q' s e :=
  fun a s' e' hr => hQ _ _ _ (h a s' e' hr)

/-- A run that ends settles both: what `wp` promises is what `wlp` allows. -/
theorem wlp_of_wp (h : wp env p Q s e) : wlp env p Q s e := by
  obtain ⟨a, s', e', hr, hq⟩ := h
  intro b t f hr'
  obtain ⟨rfl, rfl, rfl⟩ := runs_det hr hr'
  exact hq

/-- A run that ends, whatever was known of its end, ends where `wlp` says. -/
theorem wp_of_wlp {Q₀ : α → σ → ε → Prop} (h : wp env p Q₀ s e) (hl : wlp env p Q s e) :
    wp env p Q s e := by
  obtain ⟨a, s', e', hr, -⟩ := h
  exact ⟨a, s', e', hr, hl _ _ _ hr⟩

@[simp] theorem wp_ret {b : α} : wp env (.ret b) Q s e ↔ Q b s e := by
  simp [wp, runs_ret, and_assoc]

@[simp] theorem wlp_ret {b : α} : wlp env (.ret b) Q s e ↔ Q b s e := by
  simp [wlp, runs_ret]

/-- A step ends where it is defined, and in the state it leads to. -/
theorem wp_act {f : σ → Option (α × σ)} :
    wp env (.act f) Q s e ↔ ∃ a s', f s = some (a, s') ∧ Q a s' e := by
  simp [wp, runs_act, and_assoc]

/-- Where a step is undefined there is no run, and nothing to be shown. -/
theorem wlp_act {f : σ → Option (α × σ)} :
    wlp env (.act f) Q s e ↔ ∀ a s', f s = some (a, s') → Q a s' e := by
  simp [wlp, runs_act]

@[simp] theorem wp_gets {f : σ → α} : wp env (gets f) Q s e ↔ Q (f s) s e := by
  simp [gets, wp_act, and_assoc]

@[simp] theorem wlp_gets {f : σ → α} : wlp env (gets f) Q s e ↔ Q (f s) s e := by
  simp [gets, wlp_act]

@[simp] theorem wp_modify {f : σ → σ} {Q : Unit → σ → ε → Prop} :
    wp env (modify f) Q s e ↔ Q () (f s) e := by
  simp only [modify, wp_act, Option.some.injEq, Prod.mk.injEq]
  constructor
  · rintro ⟨_, _, ⟨-, rfl⟩, h⟩
    exact h
  · exact fun h => ⟨(), f s, ⟨trivial, rfl⟩, h⟩

@[simp] theorem wlp_modify {f : σ → σ} {Q : Unit → σ → ε → Prop} :
    wlp env (modify f) Q s e ↔ Q () (f s) e := by
  simp only [modify, wlp_act, Option.some.injEq, Prod.mk.injEq]
  constructor
  · exact fun h => h () (f s) ⟨trivial, rfl⟩
  · rintro h _ _ ⟨-, rfl⟩
    exact h

@[simp] theorem wp_read {f : σ → Option α} :
    wp env (read f) Q s e ↔ ∃ a, f s = some a ∧ Q a s e := by
  simp only [read, wp_act, Option.map_eq_some_iff, Prod.mk.injEq]
  constructor
  · rintro ⟨a, s', ⟨b, hb, rfl, rfl⟩, hq⟩
    exact ⟨b, hb, hq⟩
  · rintro ⟨a, ha, hq⟩
    exact ⟨a, s, ⟨a, ha, rfl, rfl⟩, hq⟩

@[simp] theorem wlp_read {f : σ → Option α} :
    wlp env (read f) Q s e ↔ ∀ a, f s = some a → Q a s e := by
  simp only [read, wlp_act, Option.map_eq_some_iff, Prod.mk.injEq]
  constructor
  · intro h a ha
    exact h a s ⟨a, ha, rfl, rfl⟩
  · rintro h a s' ⟨b, hb, rfl, rfl⟩
    exact h b hb

@[simp] theorem wp_call {c : S.Call} {k : S.Reply c → Prog S σ α} :
    wp env (.call c k) Q s e ↔ ∃ r e1, env c e = some (r, e1) ∧ wp env (k r) Q s e1 := by
  simp only [wp, runs_call]
  constructor
  · rintro ⟨a, s', e', ⟨r, e1, hc, hr⟩, hq⟩
    exact ⟨r, e1, hc, a, s', e', hr, hq⟩
  · rintro ⟨r, e1, hc, a, s', e', hr, hq⟩
    exact ⟨a, s', e', ⟨r, e1, hc, hr⟩, hq⟩

@[simp] theorem wlp_call {c : S.Call} {k : S.Reply c → Prog S σ α} :
    wlp env (.call c k) Q s e ↔ ∀ r e1, env c e = some (r, e1) → wlp env (k r) Q s e1 := by
  simp only [wlp, runs_call]
  constructor
  · intro h r e1 hc a s' e' hr
    exact h a s' e' ⟨r, e1, hc, hr⟩
  · rintro h a s' e' ⟨r, e1, hc, hr⟩
    exact h r e1 hc a s' e' hr

@[simp] theorem wp_bind {p : Prog S σ β} {k : β → Prog S σ α} :
    wp env (.bind p k) Q s e ↔ wp env p (fun b => wp env (k b) Q) s e := by
  simp only [wp, runs_bind]
  constructor
  · rintro ⟨a, s', e', ⟨b, s1, e1, hp, hk⟩, hq⟩
    exact ⟨b, s1, e1, hp, a, s', e', hk, hq⟩
  · rintro ⟨b, s1, e1, hp, a, s', e', hk, hq⟩
    exact ⟨a, s', e', ⟨b, s1, e1, hp, hk⟩, hq⟩

@[simp] theorem wlp_bind {p : Prog S σ β} {k : β → Prog S σ α} :
    wlp env (.bind p k) Q s e ↔ wlp env p (fun b => wlp env (k b) Q) s e := by
  simp only [wlp, runs_bind]
  constructor
  · intro h b s1 e1 hp a s' e' hk
    exact h a s' e' ⟨b, s1, e1, hp, hk⟩
  · rintro h a s' e' ⟨b, s1, e1, hp, hk⟩
    exact h b s1 e1 hp a s' e' hk

@[simp] theorem wlp_ite {c : Prop} [Decidable c] {p q : Prog S σ α} :
    wlp env (if c then p else q) Q s e ↔ if c then wlp env p Q s e else wlp env q Q s e := by
  split <;> rfl

/-! ### Loops -/

/-- The first round of a loop: the rest of it is what `again` makes of the value that the
round ends with. -/
theorem wp_iter {body : β → Prog S σ (β ⊕ α)} {b : β} :
    wp env (.iter body b) Q s e ↔
      wp env (body b) (fun x => wp env (again body x) Q) s e := by
  simp only [wp, runs_iter]
  constructor
  · rintro ⟨a, s', e', ⟨x, s1, e1, hb, hx⟩, hq⟩
    exact ⟨x, s1, e1, hb, a, s', e', hx, hq⟩
  · rintro ⟨x, s1, e1, hb, a, s', e', hx, hq⟩
    exact ⟨a, s', e', ⟨x, s1, e1, hb, hx⟩, hq⟩

@[simp] theorem wp_again_inl {body : β → Prog S σ (β ⊕ α)} {b : β} :
    wp env (again body (.inl b)) Q s e ↔ wp env (.iter body b) Q s e := Iff.rfl

@[simp] theorem wp_again_inr {body : β → Prog S σ (β ⊕ α)} {b : α} :
    wp env (again body (.inr b)) Q s e ↔ Q b s e := by
  simp [again]

/-- The loop rule: an invariant that the body keeps while a measure falls. -/
theorem wp_iter_of_inv {body : β → Prog S σ (β ⊕ α)}
    (I : β → σ → ε → Prop) (μ : β → σ → ε → Nat)
    (hbody : ∀ b s e, I b s e → wp env (body b) (fun x s' e' =>
      match x with
      | .inl b' => I b' s' e' ∧ μ b' s' e' < μ b s e
      | .inr a => Q a s' e') s e) :
    ∀ {b : β} {s : σ} {e : ε}, I b s e → wp env (.iter body b) Q s e := by
  intro b s e hI
  generalize hm : μ b s e = m
  induction m using Nat.strongRecOn generalizing b s e with
  | ind m ih =>
    rw [wp_iter]
    refine wp_mono (hbody b s e hI) fun x s' e' hx => ?_
    cases x with
    | inl b' => exact ih _ (hm ▸ hx.2) hx.1 rfl
    | inr a => exact wp_again_inr.mpr hx

/-- The partial loop rule. With `Q` false it says that the loop never ends. -/
theorem wlp_iter_of_inv {body : β → Prog S σ (β ⊕ α)} (I : β → σ → ε → Prop)
    (hbody : ∀ b s e, I b s e → wlp env (body b) (fun x s' e' =>
      match x with
      | .inl b' => I b' s' e'
      | .inr a => Q a s' e') s e) :
    ∀ {b : β} {s : σ} {e : ε}, I b s e → wlp env (.iter body b) Q s e := by
  rintro b s e hI a s' e' ⟨n, h⟩
  simp only [exec] at h
  -- the rounds still allowed shrink; the fuel of the body stays `n`
  suffices H : ∀ m b s e, I b s e →
      iterN (fun b s e => exec env n (body b) s e) m b s e = some (a, s', e') → Q a s' e' from
    H n b s e hI h
  intro m
  induction m with
  | zero => intro b s e _ h; simp [iterN] at h
  | succ m ih =>
    intro b s e hI h
    simp only [iterN] at h
    cases hb : exec env n (body b) s e with
    | none => rw [hb] at h; simp at h
    | some X =>
      obtain ⟨x, s1, e1⟩ := X
      have hx := hbody b s e hI x s1 e1 ⟨n, hb⟩
      rw [hb] at h
      cases x with
      | inl b' => exact ih b' s1 e1 hx h
      | inr a' =>
        simp only [Option.some.injEq, Prod.mk.injEq] at h
        obtain ⟨rfl, rfl, rfl⟩ := h
        exact hx

end Prog

/-! ## Up to the next blocking call -/

/-- A coroutine that waits for the answer to a blocking call: the call, and how it goes on
with each answer. -/
structure Parked (S : Sig) (σ α : Type) where
  call : S.Call
  resume : S.Reply call → Prog S σ α

/-- Where a coroutine stops: at its end, with what it returns, or in a blocking call. -/
inductive Stop (S : Sig) (σ α : Type) where
  | done (a : α)
  | parked (w : Parked S σ α)

namespace Prog

/-- At most `n` rounds of a loop, as long as none of them blocks. -/
def advanceN (body : β → Prog S σ (β ⊕ α)) (step : β → σ → Option (Stop S σ (β ⊕ α) × σ)) :
    Nat → β → σ → Option (Stop S σ α × σ)
  | 0, _, _ => none
  | n + 1, b, s =>
    match step b s with
    | none => none
    | some (.done (.inl b'), s') => advanceN body step n b' s'
    | some (.done (.inr a), s') => some (.done a, s')
    | some (.parked w, s') => some (.parked ⟨w.call, fun r => .bind (w.resume r) (again body)⟩, s')

/-- Run up to the next blocking call. The coroutine has the state to itself until then. -/
def advance (fuel : Nat) : {α : Type} → Prog S σ α → σ → Option (Stop S σ α × σ)
  | _, .ret a, s => some (.done a, s)
  | _, .act f, s => (f s).map fun r => (.done r.1, r.2)
  | _, .call c k, s => some (.parked ⟨c, k⟩, s)
  | _, .bind p k, s =>
    match advance fuel p s with
    | none => none
    | some (.done b, s') => advance fuel (k b) s'
    | some (.parked w, s') => some (.parked ⟨w.call, fun r => .bind (w.resume r) k⟩, s')
  | _, .iter body b, s => advanceN body (fun b s => advance fuel (body b) s) fuel b s

/-- A stop as a program: what remains to be run, which is the call itself and what follows
it, or nothing. -/
def ofStop : Stop S σ α → Prog S σ α
  | .done a => .ret a
  | .parked w => .call w.call w.resume

/-- Advancing to the next blocking call does not change what a run gives. -/
theorem runs_of_advance {env : Env S ε} {fuel : Nat} (p : Prog S σ α) :
    ∀ {s s1 : σ} {st : Stop S σ α}, advance fuel p s = some (st, s1) →
      ∀ {e e' : ε} {a : α} {s' : σ},
        Runs env p s e a s' e' ↔ Runs env (ofStop st) s1 e a s' e' := by
  induction p with
  | ret b =>
    intro s s1 st h e e' a s'
    simp only [advance, Option.some.injEq, Prod.mk.injEq] at h
    obtain ⟨rfl, rfl⟩ := h
    rfl
  | act f =>
    intro s s1 st h e e' a s'
    simp only [advance, Option.map_eq_some_iff, Prod.mk.injEq] at h
    obtain ⟨⟨b, t⟩, hf, rfl, rfl⟩ := h
    simp only [ofStop, runs_act, runs_ret, hf, Option.some.injEq, Prod.mk.injEq, and_assoc]
  | call c k =>
    intro s s1 st h e e' a s'
    simp only [advance, Option.some.injEq, Prod.mk.injEq] at h
    obtain ⟨rfl, rfl⟩ := h
    rfl
  | bind p k ihp ihk =>
    intro s s1 st h e e' a s'
    simp only [advance] at h
    cases hp : advance fuel p s with
    | none => rw [hp] at h; simp at h
    | some X =>
      obtain ⟨st', s2⟩ := X
      rw [hp] at h
      rw [runs_bind]
      simp only [ihp hp]
      cases st' with
      | done b =>
        rw [← ihk b h]
        simp [ofStop, runs_ret, and_assoc]
      | parked w =>
        simp only [Option.some.injEq, Prod.mk.injEq] at h
        obtain ⟨rfl, rfl⟩ := h
        -- parked inside `p`: the call comes first, and `k` stays behind its answer
        rw [← runs_bind]
        simp only [ofStop, runs_bind, runs_call]
        constructor
        · rintro ⟨b, t, f, ⟨r, e1, hc, hr⟩, hk⟩
          exact ⟨r, e1, hc, b, t, f, hr, hk⟩
        · rintro ⟨r, e1, hc, b, t, f, hr, hk⟩
          exact ⟨b, t, f, ⟨r, e1, hc, hr⟩, hk⟩
  | iter body b ih =>
    intro s s1 st h e e' a s'
    simp only [advance] at h
    -- as in `exec_map`, the rounds are counted apart from the fuel of the body
    suffices H : ∀ m b s, advanceN body (fun b s => advance fuel (body b) s) m b s = some (st, s1) →
        (Runs env (.iter body b) s e a s' e' ↔ Runs env (ofStop st) s1 e a s' e') from H fuel b s h
    intro m
    induction m with
    | zero => intro b s h; simp [advanceN] at h
    | succ m ihm =>
      intro b s h
      simp only [advanceN] at h
      rw [runs_iter]
      cases hb : advance fuel (body b) s with
      | none => rw [hb] at h; simp at h
      | some X =>
        obtain ⟨st', s2⟩ := X
        rw [hb] at h
        simp only [ih b hb]
        cases st' with
        | done x =>
          cases x with
          | inl b' =>
            rw [← ihm b' s2 h]
            simp [ofStop, runs_ret, again, and_assoc]
          | inr a' =>
            simp only [Option.some.injEq, Prod.mk.injEq] at h
            obtain ⟨rfl, rfl⟩ := h
            simp [ofStop, runs_ret, again, and_assoc]
        | parked w =>
          simp only [Option.some.injEq, Prod.mk.injEq] at h
          obtain ⟨rfl, rfl⟩ := h
          -- parked inside the body: the next rounds stay behind the answer
          simp only [ofStop, runs_bind, runs_call]
          constructor
          · rintro ⟨x, t, f, ⟨r, e1, hc, hr⟩, hk⟩
            exact ⟨r, e1, hc, x, t, f, hr, hk⟩
          · rintro ⟨r, e1, hc, x, t, f, hr, hk⟩
            exact ⟨x, t, f, ⟨r, e1, hc, hr⟩, hk⟩

end Prog

end Coroutine
