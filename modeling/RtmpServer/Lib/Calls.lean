import RtmpServer.Lib.Projection

/-!
# Which blocking calls a program makes

`p.CallsOnly C` says that every blocking call of `p` is one of `C`, whatever the
answers are. Such a program moves the environment only along what the calls of
`C` do to it (`CallsOnly.wlp`), among others as well (`CallsOnly.amid`), and
wherever it is parked, it is in a call of `C` (`Followed.callsOnly`).
-/

namespace Coroutine.Prog

variable {S : Sig} {σ ε α β O : Type}

/-- Every blocking call of the program is one of `C`, whatever the calls before it have
answered. -/
def CallsOnly (C : S.Call → Prop) : {α : Type} → Prog S σ α → Prop
  | _, .ret _ => True
  | _, .act _ => True
  | _, .call c k => C c ∧ ∀ r, CallsOnly C (k r)
  | _, .bind p k => CallsOnly C p ∧ ∀ b, CallsOnly C (k b)
  | _, .iter body _ => ∀ b, CallsOnly C (body b)

variable {C : S.Call → Prop}

/-- A choice makes the calls of both its branches. -/
theorem callsOnly_ite {c : Prop} [Decidable c] {p q : Prog S σ α} (hp : p.CallsOnly C)
    (hq : q.CallsOnly C) : (if c then p else q).CallsOnly C := by
  split
  · exact hp
  · exact hq

/-- What makes the calls of `C` only makes those of any larger `D` only. -/
theorem CallsOnly.mono {C D : S.Call → Prop} (h : ∀ c, C c → D c) (p : Prog S σ α) :
    p.CallsOnly C → p.CallsOnly D := by
  induction p with
  | ret a => exact id
  | act f => exact id
  | call c k ih => exact fun hp => ⟨h c hp.1, fun r => ih r (hp.2 r)⟩
  | bind p k ihp ihk => exact fun hp => ⟨ihp hp.1, fun b => ihk b (hp.2 b)⟩
  | iter body b ih => exact fun hp b => ih b (hp b)

/-- Among others a program still makes its own calls: what the others do in a wait is no
call of its. -/
theorem CallsOnly.amid {C : S.Call → Prop} (others : O → σ → σ) (p : Prog S σ α) :
    p.CallsOnly C → CallsOnly (S := S.amid O) C (p.amid others) := by
  induction p with
  | ret a => exact id
  | act f => exact id
  | call c k ih => exact fun h => ⟨h.1, fun r => ⟨trivial, fun _ => ih r.1 (h.2 r.1)⟩⟩
  | bind p k ihp ihk => exact fun h => ⟨ihp h.1, fun b => ihk b (h.2 b)⟩
  | iter body b ih => exact fun h b => ih b (h b)

/-- The environment moves along what the calls do to it: a relation that every call of `C`
is in, and that can be composed, holds from the start of a run to its end. -/
theorem CallsOnly.wlp {env : Env S ε} {R : ε → ε → Prop} (hrefl : ∀ e, R e e)
    (htrans : ∀ e f g, R e f → R f g → R e g)
    (hcall : ∀ c r e e', C c → env c e = some (r, e') → R e e') (p : Prog S σ α) :
    ∀ {s : σ} {e : ε}, p.CallsOnly C → Prog.wlp env p (fun _ _ e' => R e e') s e := by
  induction p with
  | ret a =>
    intro s e _
    exact wlp_ret.mpr (hrefl e)
  | act f =>
    intro s e _
    exact wlp_act.mpr fun _ _ _ => hrefl e
  | call c k ih =>
    intro s e h
    refine wlp_call.mpr fun r e1 hr => wlp_mono (ih r (h.2 r)) fun _ _ e' he => ?_
    exact htrans _ _ _ (hcall c r e e1 h.1 hr) he
  | bind p k ihp ihk =>
    intro s e h
    refine wlp_bind.mpr (wlp_mono (ihp h.1) fun b s1 e1 h1 => ?_)
    exact wlp_mono (ihk b (h.2 b)) fun _ _ e' h' => htrans _ _ _ h1 h'
  | iter body b ih =>
    intro s e h
    -- what the loop keeps is the relation itself, between its start and each round
    refine wlp_iter_of_inv (fun _ _ e1 => R e e1) (fun b s1 e1 h1 => ?_) (hrefl e)
    refine wlp_mono (ih b (h b)) fun x _ e' h' => ?_
    cases x with
    | inl b' => exact htrans _ _ _ h1 h'
    | inr a => exact htrans _ _ _ h1 h'

/-! ## Where such a program is parked -/

/-- The call that a program is stopped in is one of `C`, and so are all those behind it. -/
def StopsIn (C : S.Call → Prop) : Stop S σ α → Prop
  | .done _ => True
  | .parked w => C w.call ∧ ∀ r, (w.resume r).CallsOnly C

/-- A program that makes the calls of `C` only stops in such a call. -/
theorem CallsOnly.advance {n : Nat} (p : Prog S σ α) :
    ∀ {s s' : σ} {stop : Stop S σ α}, p.CallsOnly C → Prog.advance n p s = some (stop, s') →
      StopsIn C stop := by
  induction p with
  | ret a =>
    intro s s' stop _ h
    cases h
    trivial
  | act f =>
    intro s s' stop _ h
    obtain ⟨r, _, heq⟩ := Option.map_eq_some_iff.mp h
    cases heq
    trivial
  | call c k =>
    intro s s' stop hp h
    cases h
    exact hp
  | bind p k ihp ihk =>
    intro s s' stop hp h
    simp only [Prog.advance] at h
    cases hadv : Prog.advance n p s with
    | none =>
      rw [hadv] at h
      cases h
    | some X =>
      obtain ⟨stop', s1⟩ := X
      rw [hadv] at h
      have hstop := ihp hp.1 hadv
      cases stop' with
      | done b => exact ihk b (hp.2 b) h
      | parked w =>
        cases h
        exact ⟨hstop.1, fun r => ⟨hstop.2 r, hp.2⟩⟩
  | iter body b ih =>
    intro s s' stop hp h
    have hagain : ∀ x, (again body x).CallsOnly C := by
      intro x
      cases x with
      | inl b' => exact hp
      | inr a => exact trivial
    simp only [Prog.advance] at h
    -- by induction on the rounds: a round that blocks has the rest of the loop behind its call
    suffices H : ∀ m b s, advanceN body (fun b s => Prog.advance n (body b) s) m b s
        = some (stop, s') → StopsIn C stop from H n b s h
    intro m
    induction m with
    | zero =>
      intro b s h
      cases h
    | succ m ihm =>
      intro b s h
      simp only [advanceN] at h
      cases hb : Prog.advance n (body b) s with
      | none =>
        rw [hb] at h
        cases h
      | some X =>
        obtain ⟨stop', s1⟩ := X
        rw [hb] at h
        have hstop := ih b (hp b) hb
        cases stop' with
        | done x =>
          cases x with
          | inl b' => exact ihm b' s1 h
          | inr a =>
            cases h
            trivial
        | parked w =>
          cases h
          exact ⟨hstop.1, fun r => ⟨hstop.2 r, hagain⟩⟩

end Coroutine.Prog
