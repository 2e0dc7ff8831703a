import RtmpServer.Lib.Schedule

/-!
# From one blocking call to the next

A coroutine among others has the state to itself from the moment it is resumed
to its next blocking call: a *stretch*. `Stretches A J pre p post` says what
each stretch of `p` makes of the state it finds, whatever state that is: `J c`
where it ends in the call `c`, `post` where `p` ends, as long as the calls give
no answers but those that `A` allows. Everything is a relation between the
state at the beginning of the stretch and the state now.
-/

namespace Coroutine.Prog

variable {S : Sig} {σ α β : Type}

/-- `pre` relates the beginning of the stretch in which `p` starts to the state
it starts in. A call ends the stretch, and another one begins where it is
answered. -/
def Stretches (A : (c : S.Call) → S.Reply c → Prop) (J : S.Call → σ → σ → Prop) :
    {α : Type} → (σ → σ → Prop) → Prog S σ α → (α → σ → σ → Prop) → Prop
  | _, pre, .ret a, post => ∀ s t, pre s t → post a s t
  | _, pre, .act f, post => ∀ s t a t', pre s t → f t = some (a, t') → post a s t'
  | _, pre, .call c k, post =>
    (∀ s t, pre s t → J c s t) ∧ ∀ r, A c r → Stretches A J Eq (k r) post
  | _, pre, @Prog.bind _ _ _ β p k, post => ∃ mid : β → σ → σ → Prop,
      Stretches A J pre p mid ∧ ∀ b, Stretches A J (mid b) (k b) post
  | _, pre, @Prog.iter _ _ _ β body b, post => ∃ inv : β → σ → σ → Prop,
      (∀ s t, pre s t → inv b s t) ∧ ∀ b, Stretches A J (inv b) (body b) fun x =>
        match x with
        | .inl b' => inv b'
        | .inr a => post a

variable {A : (c : S.Call) → S.Reply c → Prop} {J : S.Call → σ → σ → Prop}

/-- What a stretch from `s` has come to: the end, or a call and what follows
it. -/
def StretchesStop (A : (c : S.Call) → S.Reply c → Prop) (J : S.Call → σ → σ → Prop)
    (post : α → σ → σ → Prop) (s t : σ) : Stop S σ α → Prop
  | .done a => post a s t
  | .parked w => J w.call s t ∧ ∀ r, A w.call r → Stretches A J Eq (w.resume r) post

/-- A stretch may begin with more known than is asked, and less may be said where it ends. -/
theorem Stretches.mono (p : Prog S σ α) :
    ∀ {pre pre' : σ → σ → Prop} {post post' : α → σ → σ → Prop}, Stretches A J pre p post →
      (∀ s t, pre' s t → pre s t) → (∀ a s t, post a s t → post' a s t) →
      Stretches A J pre' p post' := by
  induction p with
  | ret a =>
    intro pre pre' post post' h hpre hpost s t hst
    exact hpost a s t (h s t (hpre s t hst))
  | act f =>
    intro pre pre' post post' h hpre hpost s t a t' hst hf
    exact hpost a s t' (h s t a t' (hpre s t hst) hf)
  | call c k ih =>
    intro pre pre' post post' h hpre hpost
    exact ⟨fun s t hst => h.1 s t (hpre s t hst),
      fun r hr => ih r (h.2 r hr) (fun _ _ heq => heq) hpost⟩
  | bind p k ihp ihk =>
    intro pre pre' post post' h hpre hpost
    obtain ⟨mid, hp, hk⟩ := h
    exact ⟨mid, ihp hp hpre fun _ _ _ hm => hm, fun b => ihk b (hk b) (fun _ _ hm => hm) hpost⟩
  | iter body b ih =>
    intro pre pre' post post' h hpre hpost
    obtain ⟨inv, hinv, hbody⟩ := h
    refine ⟨inv, fun s t hst => hinv s t (hpre s t hst), fun b => ?_⟩
    refine ih b (hbody b) (fun _ _ hi => hi) fun x s t hx => ?_
    cases x with
    | inl b' => exact hx
    | inr a => exact hpost a s t hx

variable {pre : σ → σ → Prop} {post : α → σ → σ → Prop}

/-- To look at the state does not take the stretch any further. -/
theorem stretches_gets {f : σ → α} (h : ∀ s t, pre s t → post (f t) s t) :
    Stretches A J pre (gets f : Prog S σ α) post := by
  intro s t a t' hst hf
  cases hf
  exact h s t hst

/-- A read does not either, and what is known where it is undefined does not matter. -/
theorem stretches_read {f : σ → Option α} (h : ∀ s t a, pre s t → f t = some a → post a s t) :
    Stretches A J pre (read f : Prog S σ α) post := by
  intro s t a t' hst hf
  obtain ⟨b, hb, heq⟩ := Option.map_eq_some_iff.mp hf
  cases heq
  exact h s t a hst hb

/-- An update takes the stretch one step further. -/
theorem stretches_modify {f : σ → σ} {post : Unit → σ → σ → Prop}
    (h : ∀ s t, pre s t → post () s (f t)) :
    Stretches A J pre (modify f : Prog S σ Unit) post := by
  intro s t a t' hst hf
  cases hf
  exact h s t hst

/-- A choice has the stretches of the branch that is taken. -/
theorem stretches_ite {c : Prop} [Decidable c] {p q : Prog S σ α}
    (hp : c → Stretches A J pre p post) (hq : ¬ c → Stretches A J pre q post) :
    Stretches A J pre (if c then p else q) post := by
  split
  · exact hp ‹_›
  · exact hq ‹_›

/-- A program that moves along a preorder does so in each of its stretches. -/
theorem Keeps.stretches {R : σ → σ → Prop} (hrefl : ∀ s, R s s)
    (htrans : ∀ s t u, R s t → R t u → R s u) (hJ : ∀ c s t, R s t → J c s t) (p : Prog S σ α) :
    p.Keeps R → Stretches A J R p fun _ => R := by
  induction p with
  | ret a => exact fun _ s t hst => hst
  | act f => exact fun hk s t a t' hst hf => htrans _ _ _ hst (hk _ _ _ hf)
  | call c k ih =>
    intro hk
    refine ⟨hJ c, fun r _ => Stretches.mono _ (ih r (hk r)) (fun s t heq => ?_) fun _ _ _ h => h⟩
    rw [← heq]
    exact hrefl s
  | bind p k ihp ihk => exact fun hk => ⟨fun _ => R, ihp hk.1, fun b => ihk b (hk.2 b)⟩
  | iter body b ih =>
    intro hk
    refine ⟨fun _ => R, fun _ _ hst => hst, fun b => ?_⟩
    refine Stretches.mono _ (ih b (hk b)) (fun _ _ hst => hst) fun x s t hst => ?_
    cases x with
    | inl b' => exact hst
    | inr a => exact hst

/-- What is said of the stretches of a program is true of the stretch that
begins in `s`. -/
theorem Stretches.advance {n : Nat} {s : σ} (p : Prog S σ α) :
    ∀ {pre : σ → σ → Prop} {post : α → σ → σ → Prop} {t t' : σ} {st : Stop S σ α},
      Stretches A J pre p post → pre s t → Prog.advance n p t = some (st, t') →
      StretchesStop A J post s t' st := by
  induction p with
  | ret a =>
    intro pre post t t' st hp hst h
    simp only [Prog.advance, Option.some.injEq, Prod.mk.injEq] at h
    obtain ⟨rfl, rfl⟩ := h
    exact hp s t hst
  | act f =>
    intro pre post t t' st hp hst h
    simp only [Prog.advance, Option.map_eq_some_iff, Prod.mk.injEq] at h
    obtain ⟨⟨b, t1⟩, hf, rfl, rfl⟩ := h
    exact hp s t b t1 hst hf
  | call c k ih =>
    intro pre post t t' st hp hst h
    simp only [Prog.advance, Option.some.injEq, Prod.mk.injEq] at h
    obtain ⟨rfl, rfl⟩ := h
    exact ⟨hp.1 s t hst, hp.2⟩
  | bind p k ihp ihk =>
    intro pre post t t' st hp hst h
    obtain ⟨mid, hp, hk⟩ := hp
    simp only [Prog.advance] at h
    cases hadv : Prog.advance n p t with
    | none => rw [hadv] at h; simp at h
    | some R =>
      obtain ⟨st', t1⟩ := R
      rw [hadv] at h
      have hstop := ihp hp hst hadv
      cases st' with
      | done b => exact ihk b (hk b) hstop h
      | parked w =>
        simp only [Option.some.injEq, Prod.mk.injEq] at h
        obtain ⟨rfl, rfl⟩ := h
        -- a stretch ends here, and the next one begins with the answer
        exact ⟨hstop.1, fun r hr => ⟨mid, hstop.2 r hr, hk⟩⟩
  | iter body b ih =>
    intro pre post t t' st hp hst h
    obtain ⟨inv, hinv, hbody⟩ := hp
    -- what comes after a round is in order whichever way the round ends
    have hagain : ∀ x, Stretches A J
        (match x with
          | .inl b' => inv b'
          | .inr a => post a) (again body x) post := by
      intro x
      cases x with
      | inl b' => exact ⟨inv, fun _ _ hi => hi, hbody⟩
      | inr a => exact fun _ _ ha => ha
    simp only [Prog.advance] at h
    suffices H : ∀ m b t, inv b s t →
        advanceN body (fun b t => Prog.advance n (body b) t) m b t = some (st, t') →
        StretchesStop A J post s t' st from H n b t (hinv s t hst) h
    intro m
    induction m with
    | zero => intro b t _ h; simp [advanceN] at h
    | succ m ihm =>
      intro b t hst h
      simp only [advanceN] at h
      cases hadv : Prog.advance n (body b) t with
      | none => rw [hadv] at h; simp at h
      | some R =>
        obtain ⟨st', t1⟩ := R
        rw [hadv] at h
        have hstop := ih b (hbody b) hst hadv
        cases st' with
        | done x =>
          cases x with
          | inl b' => exact ihm b' t1 hstop h
          | inr a =>
            simp only [Option.some.injEq, Prod.mk.injEq] at h
            obtain ⟨rfl, rfl⟩ := h
            exact hstop
        | parked w =>
          simp only [Option.some.injEq, Prod.mk.injEq] at h
          obtain ⟨rfl, rfl⟩ := h
          exact ⟨hstop.1, fun r hr => ⟨_, hstop.2 r hr, fun x => hagain x⟩⟩

/-- And so it is when the coroutine is resumed: a new stretch begins in the state it finds. -/
theorem StretchesStop.resume {B : Type} {answer : (c : S.Call) → B → Option (S.Reply c)} {n : Nat}
    {w : Parked S σ α} {x : B} {t t' : σ} {st : Stop S σ α}
    (hw : ∀ r, A w.call r → Stretches A J Eq (w.resume r) post)
    (hA : ∀ r, answer w.call x = some r → A w.call r)
    (hres : Prog.resume answer n w x t = some (st, t')) : StretchesStop A J post t t' st := by
  obtain ⟨r, hx, hadv⟩ := resume_eq_some.mp hres
  exact Stretches.advance _ (hw r (hA r hx)) rfl hadv

end Coroutine.Prog
