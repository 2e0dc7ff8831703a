import RtmpServer.Lib.Coroutine

/-!
# Programs that ask for nothing

A program *idles* in a state if it ends there without a call and leaves the
state as it is: what it would ask for is there already. The rules are one for
each construct. Where a program that has run idles afterwards, running it once
more is running it not at all.
-/

namespace Coroutine.Prog

variable {S : Sig} {σ ε α β : Type} {env : Env S ε} {s s' s1 : σ} {e e' e1 : ε} {a : α} {b : β}
  {p : Prog S σ β} {k : β → Prog S σ α}

/-- What follows a program whose run is known: the rest starts from where that run ends. -/
theorem Runs.bind_iff (h : Runs env p s e b s1 e1) :
    Runs env (.bind p k) s e a s' e' ↔ Runs env (k b) s1 e1 a s' e' := by
  rw [runs_bind]
  constructor
  · rintro ⟨b', s2, e2, hp, hk⟩
    obtain ⟨rfl, rfl, rfl⟩ := runs_det h hp
    exact hk
  · exact fun hk => ⟨b, s1, e1, h, hk⟩

/-- `p` gives `b` in `s`, makes no call and changes nothing, whatever the environment is. -/
structure Idles (p : Prog S σ β) (s : σ) (b : β) : Prop where
  runs : ∀ {ε : Type} (env : Env S ε) (e : ε), Runs env p s e b s e

/-- A program that only returns idles. -/
theorem idles_ret (s : σ) (b : β) : (Prog.ret b : Prog S σ β).Idles s b where
  runs _ _ := runs_ret.mpr ⟨rfl, rfl, rfl⟩

/-- To look at the state is to idle. -/
theorem idles_gets (s : σ) (f : σ → β) : (gets f : Prog S σ β).Idles s (f s) where
  runs _ _ := runs_act.mpr ⟨rfl, rfl⟩

/-- A read that is defined in the state idles, and gives what is read. -/
theorem idles_read (s : σ) {f : σ → Option β} (h : f s = some b) :
    (read f : Prog S σ β).Idles s b where
  runs env e := by
    refine runs_act.mpr ⟨?_, rfl⟩
    rw [h]
    rfl

/-- An update that leaves the state as it is idles. -/
theorem idles_modify {f : σ → σ} (h : f s = s) : (modify f : Prog S σ Unit).Idles s () where
  runs env e := by
    refine runs_act.mpr ⟨?_, rfl⟩
    rw [h]

/-- One idling program after the other idles. -/
theorem Idles.bind (hp : p.Idles s b) (hk : (k b).Idles s a) : (Prog.bind p k).Idles s a where
  runs env e := (hp.runs env e).bind_iff.mpr (hk.runs env e)

/-- Behind a program that idles everything is where it was, so its postcondition is a
condition on the state it starts in. -/
theorem Idles.wlp_iff {Q : β → σ → ε → Prop} (h : p.Idles s b) : wlp env p Q s e ↔ Q b s e := by
  constructor
  · exact fun hQ => hQ b s e (h.runs env e)
  · intro hQ b' s' e' hrun
    obtain ⟨rfl, rfl, rfl⟩ := runs_det (h.runs env e) hrun
    exact hQ

end Coroutine.Prog
