import RtmpServer.Lib.Schedule

/-!
# How a scheduler's step goes through a program

`advance` by cases: what is sequenced goes on where the first part ends or
parks, and a loop whose round blocks or leaves it goes through that round only
(`advance_iter_round`). A step of such a loop is then one stretch of its body.
-/

namespace Coroutine.Prog

variable {S : Sig} {σ α β : Type} {n : Nat} {s s' : σ}

section

variable {p : Prog S σ β} {k : β → Prog S σ α}

/-- Where the first part is undefined, so is the sequence. -/
theorem advance_bind_none (h : advance n p s = none) : advance n (.bind p k) s = none := by
  simp only [advance, h]

/-- Where the first part ends, the sequence goes on with what follows it. -/
theorem advance_bind_done {b : β} (h : advance n p s = some (.done b, s')) :
    advance n (.bind p k) s = advance n (k b) s' := by
  simp only [advance, h]

/-- Where the first part parks, the sequence parks in the same call, and what follows it
waits behind the call. -/
theorem advance_bind_parked {w : Parked S σ β} (h : advance n p s = some (.parked w, s')) :
    advance n (.bind p k) s = some (.parked ⟨w.call, fun r => .bind (w.resume r) k⟩, s') := by
  simp only [advance, h]

/-- A read that is undefined stops the program there. -/
theorem advance_read_none {f : σ → Option β} (h : f s = none) :
    advance n (.bind (read f) k) s = none := by
  simp only [read, advance, h, Option.map_none]

/-- A read that is defined goes on with what it gives, in the same state. -/
theorem advance_read_some {f : σ → Option β} {b : β} (h : f s = some b) :
    advance n (.bind (read f) k) s = advance n (k b) s := by
  simp only [read, advance, h, Option.map_some]

end

variable {body : β → Prog S σ (β ⊕ α)} {b : β}

/-- A loop whose round does not go round on its own stops where the round does, so one step
of the scheduler is one round. -/
theorem advance_iter_round
    (hround : ∀ b' s', advance (n + 1) (body b) s ≠ some (.done (.inl b'), s')) :
    advance (n + 1) (.iter body b) s = advance (n + 1) (.bind (body b) (again body)) s := by
  show advanceN body (fun b s => advance (n + 1) (body b) s) (n + 1) b s = _
  cases hb : advance (n + 1) (body b) s with
  | none =>
    rw [advance_bind_none hb]
    simp only [advanceN, hb]
  | some r =>
    obtain ⟨stop, s'⟩ := r
    cases stop with
    | parked w =>
      rw [advance_bind_parked hb]
      simp only [advanceN, hb]
    | done x =>
      cases x with
      | inl b' => exact absurd hb (hround b' s')
      | inr a =>
        rw [advance_bind_done hb]
        simp only [advanceN, hb]
        rfl

end Coroutine.Prog
