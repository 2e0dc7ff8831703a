import Mathlib.Algebra.Group.Defs
import RtmpServer.Lib.Calls

/-!
# Calls that are made of other calls

`Prog.link` puts code over the calls of `T` in the place of each call of `S`:
a program over the upper interface becomes one over the lower. What the upper
calls then answer is the environment `provided` by the lower one, and
`runs_link` says that the linked program has the runs that the program has
there, among any others. What holds of a program in every environment holds of
it on top of every implementation.

An implementation has no state of its own, and in its calls the others come in
as often as it calls; `provided` takes together what they did.
-/

namespace Coroutine

variable {S T : Sig} {σ α β ε O : Type}

/-- Code over the calls of `T` for each call of `S`: the implementation of one interface by
another. -/
abbrev Impl (S T : Sig) := (c : S.Call) → Prog T Unit (S.Reply c)

/-- Changes that can be taken together: `others` is an action of theirs, with `1` for
nothing at all. -/
structure Acts [Monoid O] (others : O → σ → σ) : Prop where
  one : ∀ s, others 1 s = s
  mul : ∀ o o' s, others (o' * o) s = others o' (others o s)

namespace Prog

/-- The program in a state that it does not touch, being one over no state at all. -/
def lift : {α : Type} → Prog T Unit α → Prog T σ α
  | _, .ret a => .ret a
  | _, .act f => .act fun s => (f ()).map fun r => (r.1, s)
  | _, .call c k => .call c fun r => lift (k r)
  | _, .bind p k => .bind (lift p) fun b => lift (k b)
  | _, .iter body b => .iter (fun b => lift (body b)) b

/-- The program with `impl` in the place of its calls: each call runs the code it has there,
and goes on with what that returns. -/
def link (impl : Impl S T) : {α : Type} → Prog S σ α → Prog T σ α
  | _, .ret a => .ret a
  | _, .act f => .act f
  | _, .call c k => .bind (lift (impl c)) fun r => link impl (k r)
  | _, .bind p k => .bind (link impl p) fun b => link impl (k b)
  | _, .iter body b => .iter (fun b => link impl (body b)) b

/-! ## Loops round by round -/

/-- A loop against another program, be it over different calls: `R` relates where
the loop stands to the program that is left, `Q` the results. A round that goes
on leaves a program that completes the one before it, a round that ends is a run
of it. -/
theorem Runs.rounds {S' : Sig} {env : Env S ε} {env' : Env S' ε} {γ : Type} {Q : α → γ → Prop}
    {body : β → Prog S σ (β ⊕ α)} {R : β → Prog S' σ γ → Prop}
    (hround : ∀ b p s e x s₁ e₁, R b p → Runs env (body b) s e x s₁ e₁ →
      match x with
      | .inl b₁ => ∃ p₁, R b₁ p₁ ∧ ∀ c s' e', Runs env' p₁ s₁ e₁ c s' e' → Runs env' p s e c s' e'
      | .inr a => ∃ c, Q a c ∧ Runs env' p s e c s₁ e₁)
    {b : β} {p : Prog S' σ γ} (hR : R b p) {s s' : σ} {e e' : ε} {a : α}
    (h : Runs env (.iter body b) s e a s' e') : ∃ c, Q a c ∧ Runs env' p s e c s' e' := by
  refine wlp_iter_of_inv (Q := fun a s' e' => ∃ c, Q a c ∧ Runs env' p s e c s' e')
    (fun b₁ s₁ e₁ => ∃ p₁, R b₁ p₁ ∧ ∀ c s' e', Runs env' p₁ s₁ e₁ c s' e' →
      Runs env' p s e c s' e') ?_ ⟨p, hR, fun _ _ _ h => h⟩ a s' e' h
  intro b₁ s₁ e₁ hinv x s₂ e₂ hx
  obtain ⟨p₁, hR₁, hleft⟩ := hinv
  have hr := hround b₁ p₁ s₁ e₁ x s₂ e₂ hR₁ hx
  cases x with
  | inl b₂ =>
    obtain ⟨p₂, hR₂, hmore⟩ := hr
    exact ⟨p₂, hR₂, fun c s' e' h => hleft c s' e' (hmore c s' e' h)⟩
  | inr a =>
    obtain ⟨c, hQ, hc⟩ := hr
    exact ⟨c, hQ, hleft c s₂ e₂ hc⟩

/-- Induction over the rounds of a run, from its end: what holds of the last round and is
kept by one more in front holds of all. -/
theorem Runs.iter_induct {env : Env S ε} {body : β → Prog S σ (β ⊕ α)} {s' : σ} {e' : ε} {a : α}
    {P : β → σ → ε → Prop}
    (last : ∀ b s e, Runs env (body b) s e (.inr a) s' e' → P b s e)
    (more : ∀ b s e b₁ s₁ e₁, Runs env (body b) s e (.inl b₁) s₁ e₁ →
      Runs env (.iter body b₁) s₁ e₁ a s' e' → P b₁ s₁ e₁ → P b s e)
    {b : β} {s : σ} {e : ε} (h : Runs env (.iter body b) s e a s' e') : P b s e := by
  obtain ⟨n, h⟩ := h
  simp only [exec] at h
  -- the rounds still allowed shrink; the fuel of the body stays `n`
  suffices H : ∀ m b s e,
      iterN (fun b s e => exec env n (body b) s e) m b s e = some (a, s', e') → P b s e from
    H n b s e h
  intro m
  induction m with
  | zero =>
    intro b s e h
    cases h
  | succ m ih =>
    intro b s e h
    simp only [iterN] at h
    cases hb : exec env n (body b) s e with
    | none =>
      rw [hb] at h
      cases h
    | some X =>
      obtain ⟨x, s₁, e₁⟩ := X
      rw [hb] at h
      cases x with
      | inl b₁ =>
        refine more b s e b₁ s₁ e₁ ⟨n, hb⟩ ⟨max n m, ?_⟩ (ih b₁ s₁ e₁ h)
        simp only [exec]
        refine iterN_mono (fun _ _ _ _ h => ?_) (Nat.le_max_right n m) h
        exact exec_mono env (Nat.le_max_left n m) _ h
      | inr a' =>
        cases h
        exact last b s e ⟨n, hb⟩

/-- Two loops in step: each round of the one is a round of the other. -/
theorem Runs.iter_rel {S' : Sig} {env : Env S ε} {env' : Env S' ε} {γ δ : Type} {R : β → γ → Prop}
    {Q : α → δ → Prop} {body : β → Prog S σ (β ⊕ α)} {body' : γ → Prog S' σ (γ ⊕ δ)}
    (hround : ∀ b c s e x s₁ e₁, R b c → Runs env (body b) s e x s₁ e₁ →
      ∃ y, Sum.LiftRel R Q x y ∧ Runs env' (body' c) s e y s₁ e₁)
    {b : β} {c : γ} (hR : R b c) {s s' : σ} {e e' : ε} {a : α}
    (h : Runs env (.iter body b) s e a s' e') :
    ∃ d, Q a d ∧ Runs env' (.iter body' c) s e d s' e' := by
  refine Runs.rounds (R := fun b p => ∃ c, R b c ∧ p = .iter body' c) ?_ ⟨c, hR, rfl⟩ h
  intro b p s e x s₁ e₁ hp hx
  obtain ⟨c, hR, rfl⟩ := hp
  obtain ⟨y, hy, hrun⟩ := hround b c s e x s₁ e₁ hR hx
  cases hy with
  | inl hR₁ =>
    exact ⟨_, ⟨_, hR₁, rfl⟩, fun d s' e' h => runs_iter.mpr ⟨_, s₁, e₁, hrun, h⟩⟩
  | inr hQ =>
    exact ⟨_, hQ, runs_iter.mpr ⟨_, s₁, e₁, hrun, runs_ret.mpr ⟨rfl, rfl, rfl⟩⟩⟩

/-- A loop each of whose rounds is the same round of another one. -/
theorem Runs.iter {S' : Sig} {env : Env S ε} {env' : Env S' ε} {s s' : σ} {e e' : ε}
    {a : α} {body : β → Prog S σ (β ⊕ α)} {body' : β → Prog S' σ (β ⊕ α)}
    (hbody : ∀ b s e x s' e', Runs env (body b) s e x s' e' → Runs env' (body' b) s e x s' e')
    {b : β} (h : Runs env (.iter body b) s e a s' e') : Runs env' (.iter body' b) s e a s' e' := by
  have hrun : ∃ c, a = c ∧ Runs env' (.iter body' b) s e c s' e' := by
    refine Runs.iter_rel (R := Eq) (fun b c s e x s₁ e₁ hbc hx => ⟨x, ?_, ?_⟩) rfl h
    · cases x with
      | inl b => exact .inl rfl
      | inr a => exact .inr rfl
    · exact hbc ▸ hbody b s e x s₁ e₁ hx
  obtain ⟨c, rfl, hc⟩ := hrun
  exact hc

/-! ## What the upper calls answer -/

section

variable {others : O → σ → σ}

/-- A program that does not touch the state runs in any; the others come in
where they did. -/
theorem exec_lift (f : O → σ) (m : O → O → O) (hf : ∀ o o', f (m o' o) = others o' (f o))
    (env : Env (T.amid O) ε) (n : Nat) (q : Prog T Unit α) : ∀ (o : O) (e : ε),
    exec env n ((lift q : Prog T σ α).amid others) (f o) e
      = (exec env n ((lift q : Prog T O α).amid m) o e).map fun r => (r.1, f r.2.1, r.2.2) := by
  induction q with
  | ret a => exact fun _ _ => rfl
  | act g =>
    intro o e
    show ((g ()).map _).map _ = (((g ()).map _).map _).map _
    cases g () with
    | none => rfl
    | some r => rfl
  | call c k ih =>
    intro o e
    simp only [lift, amid, exec]
    cases env c e with
    | none => rfl
    | some r =>
      show exec env n ((lift (k r.1.1)).amid others) (others r.1.2 (f o)) r.2 = _
      rw [← hf, ih]
      rfl
  | bind p k ihp ihk =>
    intro o e
    simp only [lift, amid, exec, ihp]
    cases exec env n ((lift p : Prog T O _).amid m) o e with
    | none => rfl
    | some r => exact ihk r.1 r.2.1 r.2.2
  | iter body b ih =>
    intro o e
    simp only [lift, amid, exec]
    -- the rounds are counted apart from the fuel of the body
    suffices H : ∀ k b o e,
        iterN (fun b s e => exec env n ((lift (body b) : Prog T σ _).amid others) s e) k b (f o) e
          = (iterN (fun b o e => exec env n ((lift (body b) : Prog T O _).amid m) o e) k b o e).map
            fun r => (r.1, f r.2.1, r.2.2) from H n b o e
    intro k
    induction k with
    | zero => exact fun _ _ _ => rfl
    | succ k ihk =>
      intro b o e
      simp only [iterN, ih]
      cases exec env n ((lift (body b) : Prog T O _).amid m) o e with
      | none => rfl
      | some r =>
        obtain ⟨x, o', e'⟩ := r
        cases x with
        | inl b' => exact ihk b' o' e'
        | inr a => rfl

variable [Monoid O]

/-- The implementation `q` gives `r` in `e`, and the others have done `o`. -/
def Answers (env : Env (T.amid O) ε) (q : Prog T Unit α) (e : ε) (r : α) (o : O) (e' : ε) : Prop :=
  Runs env ((lift q : Prog T O α).amid fun o' o => o' * o) 1 e r o e'

/-- In the state of a larger program it gives the same, and the state is only changed by the
others. -/
theorem runs_lift (hacts : Acts others) {env : Env (T.amid O) ε} {q : Prog T Unit α} {s s' : σ}
    {e e' : ε} {r : α} :
    Runs env ((lift q).amid others) s e r s' e' ↔
      ∃ o, others o s = s' ∧ Answers env q e r o e' := by
  have hexec := fun n => exec_lift (fun o => others o s) (fun o' o => o' * o)
    (hacts.mul · · s) env n q 1 e
  simp only [hacts.one] at hexec
  unfold Answers Runs
  constructor
  · rintro ⟨n, hn⟩
    rw [hexec] at hn
    obtain ⟨⟨r', o, e₁⟩, hr, heq⟩ := Option.map_eq_some_iff.mp hn
    cases heq
    exact ⟨o, rfl, n, hr⟩
  · rintro ⟨o, rfl, n, hn⟩
    exact ⟨n, by rw [hexec, hn]; rfl⟩

/-- Over no state, to touch nothing is no restriction. -/
theorem lift_unit (q : Prog T Unit α) : (lift q : Prog T Unit α) = q := by
  induction q with
  | ret a => rfl
  | act f =>
    show Prog.act _ = Prog.act f
    congr 1
    funext s
    show (f ()).map _ = f ()
    cases f () with
    | none => rfl
    | some r => rfl
  | call c k ih => exact congrArg (Prog.call c) (funext ih)
  | bind p k ihp ihk =>
    rw [lift, ihp]
    exact congrArg (Prog.bind p) (funext ihk)
  | iter body b ih => exact congrArg (Prog.iter · b) (funext ih)

/-- Where it does not matter what the others do, the implementation runs by itself. -/
theorem Answers.unit {env : Env (T.amid O) ε} {q : Prog T Unit α} {e e' : ε} {r : α} {o : O}
    (h : Answers env q e r o e') : Runs env (q.amid fun (_ : O) s => s) () e r () e' := by
  obtain ⟨n, hn⟩ := h
  have hexec : exec env n ((lift q : Prog T Unit α).amid fun (_ : O) s => s) () e
      = (exec env n ((lift q : Prog T O α).amid fun o' o => o' * o) 1 e).map fun r =>
        (r.1, (), r.2.2) :=
    exec_lift (fun _ => ()) (fun o' o => o' * o) (fun _ _ => rfl) env n q 1 e
  rw [lift_unit, hn] at hexec
  exact ⟨n, hexec⟩

/-- The environment that an implementation makes of another one: it answers with what the
implementation gives, and with all that the others did in the meantime. -/
noncomputable def provided (env : Env (T.amid O) ε) (impl : Impl S T) : Env (S.amid O) ε :=
  fun c e =>
    open Classical in
    if h : ∃ r : (S.Reply c × O) × ε, Answers env (impl c) e r.1.1 r.1.2 r.2 then some h.choose
    else none

/-- Such an answer is a run of the implementation, with the others' changes taken together. -/
theorem provided_eq_some {env : Env (T.amid O) ε} {impl : Impl S T} {c : S.Call} {e e' : ε}
    {r : S.Reply c} {o : O} :
    provided env impl c e = some ((r, o), e') ↔ Answers env (impl c) e r o e' := by
  unfold provided
  constructor
  · intro h
    split at h
    · rename_i hex
      have hspec := hex.choose_spec
      rw [Option.some.inj h] at hspec
      exact hspec
    · cases h
  · intro h
    have hex : ∃ r : (S.Reply c × O) × ε, Answers env (impl c) e r.1.1 r.1.2 r.2 :=
      ⟨((r, o), e'), h⟩
    rw [dif_pos hex]
    obtain ⟨hr, ho, he⟩ := runs_det hex.choose_spec h
    exact congrArg some (Prod.ext (Prod.ext hr ho) he)

/-- The linked program has the runs that the program has in what its calls are
made of. -/
theorem runs_link (hacts : Acts others) {env : Env (T.amid O) ε} {impl : Impl S T}
    (p : Prog S σ α) : ∀ {s s' : σ} {e e' : ε} {a : α},
      Runs env ((p.link impl).amid others) s e a s' e' ↔
        Runs (provided env impl) (p.amid others) s e a s' e' := by
  induction p with
  | ret b => exact runs_ret.trans runs_ret.symm
  | act f => exact runs_act.trans runs_act.symm
  | call c k ih =>
    intro s s' e e' a
    refine runs_bind.trans (Iff.trans ?_ runs_call.symm)
    constructor
    · rintro ⟨r, s₁, e₁, hr, hk⟩
      -- the routine's calls let the others at the state between them; `o` is all they did
      obtain ⟨o, rfl, ho⟩ := (runs_lift hacts).mp hr
      refine ⟨(r, o), e₁, provided_eq_some.mpr ho, runs_bind.mpr ⟨(), others o s, e₁, ?_, ?_⟩⟩
      · exact runs_act.mpr ⟨rfl, rfl⟩
      · exact (ih r).mp hk
    · rintro ⟨⟨r, o⟩, e₁, hr, hk⟩
      obtain ⟨_, s₁, e₂, hmod, hk⟩ := runs_bind.mp hk
      obtain ⟨heq, rfl⟩ := runs_act.mp hmod
      cases heq
      exact ⟨r, _, e₁, (runs_lift hacts).mpr ⟨o, rfl, provided_eq_some.mp hr⟩, (ih r).mpr hk⟩
  | bind p k ihp ihk =>
    intro s s' e e' a
    refine runs_bind.trans (Iff.trans ?_ runs_bind.symm)
    simp only [ihp, ihk]
  | iter body b ih =>
    intro s s' e e' a
    constructor
    · exact Runs.iter fun b _ _ _ _ _ h => (ih b).mp h
    · exact Runs.iter fun b _ _ _ _ _ h => (ih b).mpr h

end

end Prog
end Coroutine
