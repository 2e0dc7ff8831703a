import RtmpServer.History
import RtmpServer.View

/-!
# Reads among the others

A read looks at the buffer that it appends to and at nothing else. Among others
that leave that buffer alone it therefore does what it does by itself with the
same answers (`wlp_sameBuffer`), and what is known of it by itself carries over:
how far it comes, and what it appends.

Nobody else has a session's `io_buffer`. The `audio_video_buffer` is one for all
of them, and another publisher clears it and appends to it.
-/

namespace RtmpServer

open Coroutine Coroutine.Prog

/-- In the calls that this environment answers, the others leave the buffer alone. -/
def Spares {ε : Type} (env : Env (st.amid Others) ε) (b : Buffer) : Prop :=
  ∀ c e r o e', env c e = some ((r, o), e') → ∀ s, (Others.apply o s).buffer b = s.buffer b

theorem spares_ioBuffer {ε : Type} (env : Env (st.amid Others) ε) : Spares env .ioBuffer :=
  fun _ _ _ _ _ _ _ => rfl

/-- Another session stores a record of its own. -/
def otherEntry : Others where
  change g := g.setHeader 7 { timestamp := 1 }
  storable _ h := h

/-- The two states have the same in this buffer. -/
def SameBuffer (b : Buffer) (s t : State) : Prop := s.buffer b = t.buffer b

/-- No matter what the program does to the state. -/
def Anyhow (_ _ : State) : Prop := True

section

variable {ε : Type} {env : Env (st.amid Others) ε} {b : Buffer} {s : State} {e : ε}
  (hspares : Spares env b)
include hspares

/-- What holds of a program by itself holds among the others, of a state with the
same buffer. -/
theorem wlp_sameBuffer {α : Type} {p : Routine α} {Q : α → State → ε → Prop}
    (hsim : Simulates (SameBuffer b) Anyhow (SameBuffer b) p fun _ => SameBuffer b)
    (hQ : wlp env.answers p Q s e) :
    wlp env (p.amid Others.apply) (fun a s' e' => ∃ t', Q a t' e' ∧ SameBuffer b s' t') s e := by
  have hothers : ∀ c e r o e', env c e = some ((r, o), e') → ∀ s t, SameBuffer b s t →
      SameBuffer b (Others.apply o s) t :=
    fun c e r o e' hr s t h => (hspares c e r o e' hr s).trans h
  refine wlp_mono (Simulates.wlp_amid Others.apply hothers p hsim rfl) ?_
  intro a s' e' hby
  obtain ⟨t', hrun, hsame⟩ := hby
  exact ⟨t', hQ _ _ _ hrun, hsame⟩

variable {took : ε → Bytes → ε → Prop} (hacc : Account env.answers took)
include hacc

/-- An exact read appends what was missing, or fails with less than that received. -/
theorem wlp_readNbytesCycleOn_amid {nbytes : Nat} :
    wlp env ((readNbytesCycleOn b nbytes).amid Others.apply) (fun r s' e' => ∃ p, took e p e' ∧
      (r.1 = -1 ∧ s'.buffer b = s.buffer b ∧ p.length < nbytes - (s.buffer b).length ∨
        r = (0, p.length) ∧ s'.buffer b = s.buffer b ++ p ∧
          p.length = nbytes - (s.buffer b).length)) s e := by
  have hsim := simulates_readNbytesCycleOn (b := b) (V := SameBuffer b) (F := Anyhow)
    (fun _ => trivial) (fun _ _ => trivial) (fun _ _ h => h) (fun _ _ _ _ => by simp [SameBuffer])
    nbytes
  refine wlp_mono (wlp_sameBuffer hspares hsim (wlp_readNbytesCycleOn_received hacc)) ?_
  intro r s' e' hby
  obtain ⟨t', ⟨p, hp, hread⟩, hsame⟩ := hby
  refine ⟨p, hp, ?_⟩
  rw [show s'.buffer b = t'.buffer b from hsame]
  rcases hread with ⟨hrc, ht, hlt⟩ | ⟨hr, ht, hlen⟩
  · exact Or.inl ⟨hrc, by rw [ht], hlt⟩
  · exact Or.inr ⟨hr, by rw [ht, State.buffer_append], hlen⟩

/-- A single read as well. -/
theorem wlp_readNbytesOn_amid {nbytes : Nat} :
    wlp env ((readNbytesOn b nbytes).amid Others.apply) (fun rc s' e' => ∃ p, took e p e' ∧
      (rc = -1 ∧ s'.buffer b = s.buffer b ∧ p.length < nbytes - (s.buffer b).length ∨
        rc = 0 ∧ s'.buffer b = s.buffer b ++ p ∧
          p.length = nbytes - (s.buffer b).length)) s e := by
  have hsim := simulates_readNbytesOn (b := b) (V := SameBuffer b) (F := Anyhow)
    (fun _ => trivial) (fun _ _ => trivial) (fun _ _ h => h) (fun _ _ _ _ => by simp [SameBuffer])
    nbytes
  refine wlp_mono (wlp_sameBuffer hspares hsim (wlp_readNbytesOn_received hacc)) ?_
  intro rc s' e' hby
  obtain ⟨t', ⟨p, hp, hread⟩, hsame⟩ := hby
  refine ⟨p, hp, ?_⟩
  rw [show s'.buffer b = t'.buffer b from hsame]
  rcases hread with ⟨hrc, ht, hlt⟩ | ⟨hr, ht, hlen⟩
  · exact Or.inl ⟨hrc, by rw [ht], hlt⟩
  · exact Or.inr ⟨hr, by rw [ht, State.buffer_append], hlen⟩

end

end RtmpServer
