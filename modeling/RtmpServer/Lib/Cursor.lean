/-!
# Parsers with a cursor

A parser in C has a buffer and a pointer into it, and nothing but its own checks
keeps what it reads inside the buffer. `Scan` is such a parser with a log of what
it reads. A parser that is given the rest of the buffer as a list cannot read
anything else, and is the easier one to reason about.

`Refines err m f S` relates the two: `m` reads outside the buffer exactly where
`S` holds of the rest, and everywhere else does what `f` does, with `err` for the
ways to stop. The rules below go along the text of `m`, and compute `S` with `f`.
-/

namespace Cursor

variable {β φ ψ α γ : Type}

/-! ## Scans -/

/-- What a parser does besides computing, and what its checks are there for. -/
inductive Event where
  /-- It reads the `n` elements from `p` on. -/
  | read (p n : Nat)
  /-- It has been told that `n` elements of a string follow from `p` on. -/
  | announced (p n : Nat)
  deriving DecidableEq

/-- The `n` elements from `p` on are inside a buffer of the size. -/
def Inside (size p n : Nat) : Prop := ∀ i, i < n → p + i < size

/-- Nothing that the log has read is outside a buffer of the size. -/
def InBounds (size : Nat) (log : List Event) : Prop :=
  ∀ p n, Event.read p n ∈ log → Inside size p n

/-- No string that the log announces goes on behind the end of the buffer, whether it is
then read or not. -/
def Fits (size : Nat) (log : List Event) : Prop :=
  ∀ p n, Event.announced p n ∈ log → Inside size p n

/-- To be inside the buffer is to be among the elements that are left from the position on. -/
theorem inside_iff {b : List β} {p n : Nat} : Inside b.length p n ↔ n ≤ (b.drop p).length := by
  rw [List.length_drop]
  constructor
  · intro h
    rcases Nat.eq_zero_or_pos n with h0 | hpos
    · omega
    · have hlast := h (n - 1) (by omega)
      omega
  · intro h i hi
    omega

theorem inBounds_nil (size : Nat) : InBounds size [] := fun _ _ h => nomatch h

theorem fits_nil (size : Nat) : Fits size [] := fun _ _ h => nomatch h

/-- Two stretches of a log are in bounds together exactly when each of them is. -/
theorem inBounds_append {size : Nat} {log log' : List Event} :
    InBounds size (log ++ log') ↔ InBounds size log ∧ InBounds size log' := by
  constructor
  · intro h
    exact ⟨fun p n hmem => h p n (List.mem_append_left _ hmem),
      fun p n hmem => h p n (List.mem_append_right _ hmem)⟩
  · intro h p n hmem
    rcases List.mem_append.mp hmem with hmem | hmem
    · exact h.1 p n hmem
    · exact h.2 p n hmem

/-- Two stretches of a log fit together exactly when each of them does. -/
theorem fits_append {size : Nat} {log log' : List Event} :
    Fits size (log ++ log') ↔ Fits size log ∧ Fits size log' := by
  constructor
  · intro h
    exact ⟨fun p n hmem => h p n (List.mem_append_left _ hmem),
      fun p n hmem => h p n (List.mem_append_right _ hmem)⟩
  · intro h p n hmem
    rcases List.mem_append.mp hmem with hmem | hmem
    · exact h.1 p n hmem
    · exact h.2 p n hmem

theorem inBounds_read {size p n : Nat} : InBounds size [.read p n] ↔ Inside size p n := by
  constructor
  · intro h
    exact h p n (List.mem_singleton.mpr rfl)
  · intro h p' n' hmem
    cases List.mem_singleton.mp hmem
    exact h

theorem inBounds_announced (size p n : Nat) : InBounds size [.announced p n] := by
  intro p' n' hmem
  cases List.mem_singleton.mp hmem

theorem fits_read (size p n : Nat) : Fits size [.read p n] := by
  intro p' n' hmem
  cases List.mem_singleton.mp hmem

theorem fits_announced {size p n : Nat} : Fits size [.announced p n] ↔ Inside size p n := by
  constructor
  · intro h
    exact h p n (List.mem_singleton.mpr rfl)
  · intro h p' n' hmem
    cases List.mem_singleton.mp hmem
    exact h

/-- A parser over a buffer, from a position on: the log, and how it ends. -/
def Scan (β φ α : Type) : Type := List β → Nat → List Event × Except φ (α × Nat)

namespace Scan

/-- Nothing is read, and the pointer stays where it is. -/
protected def pure (a : α) : Scan β φ α := fun _ p => ([], .ok (a, p))

/-- One scan from where the other has left the pointer. The log is that of both, or of the
first alone where it stops. -/
protected def bind (m : Scan β φ α) (k : α → Scan β φ γ) : Scan β φ γ := fun b p =>
  match m b p with
  | (log, .error e) => (log, .error e)
  | (log, .ok (a, p')) => (log ++ (k a b p').1, (k a b p').2)

/-- Scans are sequenced with `do`, as the statements of the parser are. -/
instance : Monad (Scan β φ) where
  pure := Scan.pure
  bind := Scan.bind

/-- The parser returns early, with `e` for the way it does so. -/
def stop (e : φ) : Scan β φ α := fun _ _ => ([], .error e)

/-- `p + n <= end`, the check that a parser makes before it reads. It reads nothing itself. -/
def fits (n : Nat) : Scan β φ Bool := fun b p => ([], .ok (decide (p + n ≤ b.length), p))

/-- Look at `n` elements. What is behind the end is left open: nothing comes of it. -/
def peek (n : Nat) : Scan β φ (List β) := fun b p => ([.read p n], .ok ((b.drop p).take n, p))

/-- `p += n`, with no check of its own: the pointer may come to be behind the end. -/
def skip (n : Nat) : Scan β φ Unit := fun _ p => ([], .ok ((), p + n))

/-- `n` elements from the pointer on, which goes behind them. -/
def read (n : Nat) : Scan β φ (List β) := do
  let x ← peek n
  skip n
  return x

/-- A string of `n` elements is to follow, as the number in front of it says. Nothing is
read yet. -/
def announce (n : Nat) : Scan β φ Unit := fun _ p => ([.announced p n], .ok ((), p))

/-- A check and the two ways on from it, told by what is left of the buffer instead of the
pointer. -/
theorem fitsThen_eq {m k : Scan β φ α} {n : Nat} (b : List β) (p : Nat) (h0 : 0 < n) :
    (fits n >>= fun x => if x = true then m else k) b p
      = if n ≤ (b.drop p).length then m b p else k b p := by
  have hbind : (fits n >>= fun x => if x = true then m else k) b p
      = (if decide (p + n ≤ b.length) = true then m else k) b p := rfl
  rw [hbind, List.length_drop]
  by_cases hle : p + n ≤ b.length
  · rw [if_pos (decide_eq_true hle), if_pos (by omega)]
  · rw [if_neg (by simpa using hle), if_neg (by omega)]

end Scan

/-! ## The pointer goes forward -/

/-- A scan that goes on does so `n` elements further at least. It says nothing of a scan
that stops. -/
def Advances (n : Nat) (m : Scan β φ α) : Prop :=
  ∀ b p a p', (m b p).2 = .ok (a, p') → p + n ≤ p'

namespace Advances

/-- What reads nothing advances by nothing. -/
theorem pure (a : α) : Advances 0 (Pure.pure a : Scan β φ α) := by
  intro b p a' p' h
  cases h
  exact Nat.le_refl _

theorem stop (e : φ) (n : Nat) : Advances n (Scan.stop e : Scan β φ α) := fun _ _ _ _ h => nomatch h

theorem fits (n : Nat) : Advances 0 (Scan.fits n : Scan β φ Bool) := by
  intro b p a p' h
  cases h
  exact Nat.le_refl _

theorem peek (n : Nat) : Advances 0 (Scan.peek n : Scan β φ (List β)) := by
  intro b p a p' h
  cases h
  exact Nat.le_refl _

theorem skip (n : Nat) : Advances n (Scan.skip n : Scan β φ Unit) := by
  intro b p a p' h
  cases h
  exact Nat.le_refl _

theorem announce (n : Nat) : Advances 0 (Scan.announce n : Scan β φ Unit) := by
  intro b p a p' h
  cases h
  exact Nat.le_refl _

/-- One after the other advances by what both advance by together. -/
theorem bind {m : Scan β φ α} {k : α → Scan β φ γ} {i j n : Nat} (hm : Advances i m)
    (hk : ∀ a, Advances j (k a)) (hn : n ≤ i + j) : Advances n (m >>= k) := by
  intro b p a p' h
  have hbind : (m >>= k) b p = Scan.bind m k b p := rfl
  rw [hbind, Scan.bind] at h
  cases hmb : m b p with
  | mk log result =>
    rw [hmb] at h
    cases result with
    | error e => cases h
    | ok r =>
      obtain ⟨x, q⟩ := r
      have hfirst := hm b p x q (by rw [hmb])
      have hthen := hk x b q a p' h
      omega

/-- A choice advances by what both its branches do. -/
theorem ite {c : Prop} [Decidable c] {m m' : Scan β φ α} {n : Nat} (hm : Advances n m)
    (hm' : Advances n m') : Advances n (if c then m else m') := by
  by_cases hc : c
  · rw [if_pos hc]
    exact hm
  · rw [if_neg hc]
    exact hm'

/-- A check in front reads nothing, so the scans behind it advance as they do without it. -/
theorem fitsThen {m m' : Scan β φ α} {i n : Nat} (hm : Advances n m) (hm' : Advances n m') :
    Advances n (Scan.fits i >>= fun x => if x = true then m else m') :=
  bind (fits i) (fun _ => ite hm hm') (Nat.le_add_left _ _)

theorem read (n : Nat) : Advances n (Scan.read n : Scan β φ (List β)) :=
  bind (peek n) (fun _ => bind (skip n) (fun _ => pure _) (Nat.le_refl _)) (Nat.le_add_left _ _)

end Advances

/-! ## What a scan refines -/

/-- The end of a scan, with the rest of the buffer for the cursor. -/
def observe (err : φ → ψ) (b : List β) : Except φ (α × Nat) → Except ψ (α × List β)
  | .ok (a, p) => .ok (a, b.drop p)
  | .error e => .error (err e)

/-- `g` on what `f` leaves, unless `f` has stopped. -/
def andThen (f : List β → Except ψ (α × List β)) (g : α → List β → Except ψ (γ × List β))
    (q : List β) : Except ψ (γ × List β) :=
  match f q with
  | .ok (a, q') => g a q'
  | .error e => .error e

theorem andThen_ok {f : List β → Except ψ (α × List β)} {g : α → List β → Except ψ (γ × List β)}
    {q q' : List β} {a : α} (h : f q = .ok (a, q')) : andThen f g q = g a q' := by
  rw [andThen, h]

theorem andThen_error {f : List β → Except ψ (α × List β)}
    {g : α → List β → Except ψ (γ × List β)} {q : List β} {e : ψ} (h : f q = .error e) :
    andThen f g q = .error e := by
  rw [andThen, h]

/-- `m` reads outside the buffer where `S` holds of its rest, does what `f` does
elsewhere, and refuses a string that is not all there. -/
structure Refines (err : φ → ψ) (refusal : ψ → Prop) (m : Scan β φ α)
    (f : List β → Except ψ (α × List β)) (S : List β → Prop) : Prop where
  inBounds : ∀ b p, InBounds b.length (m b p).1 ↔ ¬ S (b.drop p)
  outcome : ∀ b p, ¬ S (b.drop p) → observe err b (m b p).2 = f (b.drop p)
  fits : ∀ b p, ¬ S (b.drop p) →
    Fits b.length (m b p).1 ∨ ∃ e, f (b.drop p) = .error e ∧ refusal e

namespace Refines

variable {err : φ → ψ} {refusal : ψ → Prop} {m m' : Scan β φ α}
  {f f' : List β → Except ψ (α × List β)} {S S' : List β → Prop}

/-- Nothing to read, nothing to go wrong. -/
theorem pure (a : α) :
    Refines err refusal (Pure.pure a : Scan β φ α) (fun q => .ok (a, q)) (fun _ => False) where
  inBounds _ _ := ⟨fun _ h => h, fun _ => inBounds_nil _⟩
  outcome _ _ _ := rfl
  fits _ _ _ := Or.inl (fits_nil _)

/-- An early return is the error that `err` makes of it. -/
theorem stop (e : φ) :
    Refines err refusal (Scan.stop e : Scan β φ α) (fun _ => .error (err e)) (fun _ => False) where
  inBounds _ _ := ⟨fun _ h => h, fun _ => inBounds_nil _⟩
  outcome _ _ _ := rfl
  fits _ _ _ := Or.inl (fits_nil _)

/-- To move the pointer is to drop elements, and fine behind the end too: only a read is
outside. -/
theorem skip (n : Nat) :
    Refines err refusal (Scan.skip n : Scan β φ Unit) (fun q => .ok ((), q.drop n))
      (fun _ => False) where
  inBounds _ _ := ⟨fun _ h => h, fun _ => inBounds_nil _⟩
  outcome _ _ _ := by
    rw [List.drop_drop]
    rfl
  fits _ _ _ := Or.inl (fits_nil _)

/-- A look at `n` elements goes outside exactly where fewer are left. -/
theorem peek (n : Nat) :
    Refines err refusal (Scan.peek n : Scan β φ (List β)) (fun q => .ok (q.take n, q))
      (fun q => q.length < n) where
  inBounds _ _ := by
    rw [Nat.not_lt]
    exact inBounds_read.trans inside_iff
  outcome _ _ _ := rfl
  fits _ _ _ := Or.inl (fits_read _ _ _)

/-- One after the other: the first goes outside, or the second does from where the first has
left the pointer. What the second has to refine may depend on what the first has read. -/
theorem bind {k : α → Scan β φ γ} {g : α → List β → Except ψ (γ × List β)}
    {T : α → List β → Prop} (hm : Refines err refusal m f S)
    (hk : ∀ a q q', ¬ S q → f q = .ok (a, q') → Refines err refusal (k a) (g a) (T a)) :
    Refines err refusal (m >>= k) (andThen f g)
      (fun q => S q ∨ ∃ a q', f q = .ok (a, q') ∧ T a q') := by
  -- what the first scan has done, where it stays inside
  have hfirst : ∀ b p, ¬ S (b.drop p) →
      (∃ e, (m >>= k) b p = ((m b p).1, .error e) ∧ f (b.drop p) = .error (err e)) ∨
      ∃ a p', (m b p).2 = .ok (a, p') ∧ f (b.drop p) = .ok (a, b.drop p') ∧
        (m >>= k) b p = ((m b p).1 ++ (k a b p').1, (k a b p').2) := by
    intro b p hS
    have houtcome := hm.outcome b p hS
    have hbind : (m >>= k) b p = Scan.bind m k b p := rfl
    cases hmb : m b p with
    | mk log result =>
      rw [hmb] at houtcome
      cases result with
      | error e =>
        refine Or.inl ⟨e, ?_, houtcome.symm⟩
        rw [hbind, Scan.bind, hmb]
      | ok r =>
        obtain ⟨a, p'⟩ := r
        refine Or.inr ⟨a, p', rfl, houtcome.symm, ?_⟩
        rw [hbind, Scan.bind, hmb]
  have hlog : ∀ b p, ∃ log, ((m >>= k) b p).1 = (m b p).1 ++ log := by
    intro b p
    have hbind : (m >>= k) b p = Scan.bind m k b p := rfl
    cases hmb : m b p with
    | mk log result =>
      cases result with
      | error e => exact ⟨[], by rw [hbind, Scan.bind, hmb, List.append_nil]⟩
      | ok r => exact ⟨_, by rw [hbind, Scan.bind, hmb]⟩
  refine ⟨fun b p => ?_, fun b p hno => ?_, fun b p hno => ?_⟩
  · by_cases hS : S (b.drop p)
    · obtain ⟨log, hlog⟩ := hlog b p
      rw [hlog, inBounds_append, hm.inBounds]
      exact ⟨fun h => absurd hS h.1, fun h => absurd (Or.inl hS) h⟩
    · rcases hfirst b p hS with ⟨e, hbind, hf⟩ | ⟨a, p', -, hf, hbind⟩
      · rw [hbind, hm.inBounds]
        refine ⟨fun _ h => ?_, fun _ => hS⟩
        rcases h with h | ⟨a, q', hok, -⟩
        · exact hS h
        · rw [hf] at hok
          cases hok
      · rw [hbind, inBounds_append, hm.inBounds, (hk a _ _ hS hf).inBounds]
        constructor
        · rintro ⟨-, hT⟩ (h | ⟨a', q', hok, hT'⟩)
          · exact hS h
          · rw [hf] at hok
            cases hok
            exact hT hT'
        · intro h
          exact ⟨hS, fun hT => h (Or.inr ⟨a, b.drop p', hf, hT⟩)⟩
  · have hS : ¬ S (b.drop p) := fun h => hno (Or.inl h)
    rcases hfirst b p hS with ⟨e, hbind, hf⟩ | ⟨a, p', -, hf, hbind⟩
    · rw [hbind, andThen_error hf]
      rfl
    · rw [hbind, andThen_ok hf]
      exact (hk a _ _ hS hf).outcome b p' fun hT => hno (Or.inr ⟨a, b.drop p', hf, hT⟩)
  · have hS : ¬ S (b.drop p) := fun h => hno (Or.inl h)
    rcases hfirst b p hS with ⟨e, hbind, hf⟩ | ⟨a, p', -, hf, hbind⟩
    · rw [hbind, andThen_error hf]
      rcases hm.fits b p hS with hfits | ⟨e', he', hrefusal⟩
      · exact Or.inl hfits
      · rw [hf] at he'
        cases he'
        exact Or.inr ⟨_, rfl, hrefusal⟩
    · have hT : ¬ T a (b.drop p') := fun hT => hno (Or.inr ⟨a, b.drop p', hf, hT⟩)
      rw [hbind, andThen_ok hf]
      rcases hm.fits b p hS with hfits | ⟨e', he', -⟩
      · rcases (hk a _ _ hS hf).fits b p' hT with hfits' | hrefused
        · exact Or.inl (fits_append.mpr ⟨hfits, hfits'⟩)
        · exact Or.inr hrefused
      · rw [hf] at he'
        cases he'

/-- A condition and a function may be replaced by others that agree with them, the function
where nothing goes wrong only. -/
theorem congr (hm : Refines err refusal m f S) (hS : ∀ q, S q ↔ S' q)
    (hf : ∀ q, ¬ S' q → f q = f' q) :
    Refines err refusal m f' S' where
  inBounds b p := (hm.inBounds b p).trans (not_congr (hS _))
  outcome b p hno := (hm.outcome b p (fun h => hno ((hS _).mp h))).trans (hf _ hno)
  fits b p hno := by
    rw [← hf _ hno]
    exact hm.fits b p fun h => hno ((hS _).mp h)

/-- A choice goes outside where the branch that is taken does. -/
theorem ite {c : Prop} [Decidable c] (hm : c → Refines err refusal m f S)
    (hm' : ¬ c → Refines err refusal m' f' S') :
    Refines err refusal (if c then m else m') (fun q => if c then f q else f' q)
      (fun q => c ∧ S q ∨ ¬ c ∧ S' q) := by
  by_cases hc : c
  · simp only [if_pos hc]
    exact (hm hc).congr (fun q => by simp [hc]) fun _ _ => rfl
  · simp only [if_neg hc]
    exact (hm' hc).congr (fun q => by simp [hc]) fun _ _ => rfl

/-- A check in front: the branch that it leads to decides, and it knows what the check has
found out. -/
theorem fitsThen {n : Nat} (h0 : 0 < n) (hm : Refines err refusal m f S)
    (hm' : Refines err refusal m' f' S') :
    Refines err refusal (Scan.fits n >>= fun x => if x = true then m else m')
      (fun q => if n ≤ q.length then f q else f' q)
      (fun q => n ≤ q.length ∧ S q ∨ ¬ n ≤ q.length ∧ S' q) := by
  have hcheck := fun b p => Scan.fitsThen_eq (m := m) (k := m') b p h0
  refine ⟨fun b p => ?_, fun b p hno => ?_, fun b p hno => ?_⟩
  · rw [hcheck]
    by_cases hle : n ≤ (b.drop p).length
    · rw [if_pos hle, hm.inBounds]
      simp only [hle, true_and, not_true_eq_false, false_and, or_false]
    · rw [if_neg hle, hm'.inBounds]
      simp only [hle, false_and, not_false_eq_true, true_and, false_or]
  · rw [hcheck]
    by_cases hle : n ≤ (b.drop p).length
    · rw [if_pos hle, if_pos hle]
      exact hm.outcome b p fun hS => hno (Or.inl ⟨hle, hS⟩)
    · rw [if_neg hle, if_neg hle]
      exact hm'.outcome b p fun hS => hno (Or.inr ⟨hle, hS⟩)
  · rw [hcheck]
    by_cases hle : n ≤ (b.drop p).length
    · rw [if_pos hle, if_pos hle]
      exact hm.fits b p fun hS => hno (Or.inl ⟨hle, hS⟩)
    · rw [if_neg hle, if_neg hle]
      exact hm'.fits b p fun hS => hno (Or.inr ⟨hle, hS⟩)

/-- A string that is announced has to be there in the end, unless the parser refuses its
input; then the announcement changes nothing. -/
theorem announce {n : Nat} (hm : Refines err refusal m f S)
    (hfit : ∀ q, ¬ S q → n ≤ q.length ∨ ∃ e, f q = .error e ∧ refusal e) :
    Refines err refusal (Scan.announce n >>= fun _ => m) f S := by
  have hlog : ∀ b p, (Scan.announce n >>= fun _ => m) b p
      = ([.announced p n] ++ (m b p).1, (m b p).2) := fun _ _ => rfl
  refine ⟨fun b p => ?_, fun b p hno => ?_, fun b p hno => ?_⟩
  · rw [hlog, inBounds_append, ← hm.inBounds]
    exact and_iff_right (inBounds_announced _ _ _)
  · rw [hlog]
    exact hm.outcome b p hno
  · rw [hlog, fits_append, fits_announced, inside_iff]
    rcases hfit _ hno with hle | hrefused
    · rcases hm.fits b p hno with hfits | hrefused
      · exact Or.inl ⟨hle, hfits⟩
      · exact Or.inr hrefused
    · exact Or.inr hrefused

/-- A read of `n` elements goes outside exactly where fewer are left. -/
theorem read (n : Nat) :
    Refines err refusal (Scan.read n : Scan β φ (List β)) (fun q => .ok (q.take n, q.drop n))
      (fun q => q.length < n) := by
  refine ((peek n).bind fun x _ _ _ _ => (skip n).bind fun _ _ _ _ _ => pure x).congr
    (fun q => ?_) fun q _ => rfl
  simp

/-- Elements that are checked to be there, and then read: this never goes outside itself. -/
theorem fitsRead {n : Nat} {e : φ} {k : List β → Scan β φ γ}
    {g : List β → List β → Except ψ (γ × List β)} {T : List β → List β → Prop} (h0 : 0 < n)
    (hk : ∀ x, x.length = n → Refines err refusal (k x) (g x) (T x)) :
    Refines err refusal (Scan.fits n >>= fun x =>
      if x = true then Scan.read n >>= k else Scan.stop e)
      (fun q => if n ≤ q.length then g (q.take n) (q.drop n) else .error (err e))
      (fun q => n ≤ q.length ∧ T (q.take n) (q.drop n)) := by
  have hread : Refines err refusal (Scan.read n >>= k) _ _ := (read n).bind fun x q q' hq hx => by
    cases hx
    exact hk _ (List.length_take_of_le (Nat.le_of_not_lt hq))
  refine (fitsThen h0 hread (stop e)).congr (fun q => ?_) fun q _ => rfl
  constructor
  · rintro (⟨hle, hlt | ⟨x, q', heq, hT⟩⟩ | ⟨-, hfalse⟩)
    · exact absurd hle (Nat.not_le_of_lt hlt)
    · cases heq
      exact ⟨hle, hT⟩
    · exact hfalse.elim
  · rintro ⟨hle, hT⟩
    exact Or.inl ⟨hle, Or.inr ⟨_, _, rfl, hT⟩⟩

/-- One element, checked to be there and read: the shape in which the parsers take a marker. -/
theorem next {e : φ} {k : List β → Scan β φ γ} {g : β → List β → Except ψ (γ × List β)}
    {T : β → List β → Prop} (hk : ∀ c, Refines err refusal (k [c]) (g c) (T c)) :
    Refines err refusal (Scan.fits 1 >>= fun x =>
      if x = true then Scan.read 1 >>= k else Scan.stop e)
      (fun q => match q with | [] => .error (err e) | c :: q => g c q)
      (fun q => ∃ c q', q = c :: q' ∧ T c q') := by
  have hread : ∀ x, x.length = 1 → Refines err refusal (k x)
      (fun q => match x with | [] => .error (err e) | c :: _ => g c q)
      -- behind the check the reader takes one byte, whatever stands at its head
      (fun q => ∃ c, x = [c] ∧ T c q) := by
    intro x hx
    obtain ⟨c, rfl⟩ := List.length_eq_one_iff.mp hx
    exact (hk c).congr (fun q => by simp) fun q _ => rfl
  refine (fitsRead Nat.one_pos hread).congr (fun q => ?_) fun q _ => ?_
  · cases q with
    | nil => simp
    | cons c q =>
      constructor
      · rintro ⟨-, d, heq, hT⟩
        cases heq
        exact ⟨c, q, rfl, hT⟩
      · rintro ⟨d, q', heq, hT⟩
        cases heq
        exact ⟨by simp, c, rfl, hT⟩
  · cases q with
    | nil => rfl
    | cons c q => simp

/-- One element, checked to be there and looked at, with the pointer staying on it for what
comes next. -/
theorem look {e : φ} {k : List β → Scan β φ γ} {g : β → List β → Except ψ (γ × List β)}
    {T : β → List β → Prop} (hk : ∀ c, Refines err refusal (k [c]) (g c) (T c)) :
    Refines err refusal (Scan.fits 1 >>= fun x =>
      if x = true then Scan.peek 1 >>= k else Scan.stop e)
      (fun q => match q with | [] => .error (err e) | c :: q => g c (c :: q))
      (fun q => ∃ c q', q = c :: q' ∧ T c q) := by
  have hpeek : Refines err refusal (Scan.peek 1 >>= k)
      (fun q => match q with | [] => .error (err e) | c :: q => g c (c :: q))
      (fun q => q = [] ∨ ∃ c q', q = c :: q' ∧ T c q) := by
    -- `peek` stays where it is, so that `g` sees the byte again
    have hread : Refines err refusal (Scan.peek 1 >>= k) _ _ :=
      (peek 1).bind (g := fun x q => match x with | [] => .error (err e) | c :: _ => g c q)
        (T := fun x q => ∃ c, x = [c] ∧ T c q) fun x q q' hq hx => by
      cases q with
      | nil => exact absurd Nat.one_pos hq
      | cons c q =>
        cases hx
        exact (hk c).congr (fun q => by simp) fun q _ => rfl
    refine hread.congr (fun q => ?_) fun q hq => ?_
    · cases q with
      | nil => simp
      | cons c q =>
        constructor
        · rintro (hlt | ⟨x, q', hx, d, hd, hT⟩)
          · simp at hlt
          · cases hx
            cases hd
            exact Or.inr ⟨c, q, rfl, hT⟩
        · rintro (hnil | ⟨d, q', hd, hT⟩)
          · cases hnil
          · cases hd
            exact Or.inr ⟨_, _, rfl, c, rfl, hT⟩
    · cases q with
      | nil => exact absurd (Or.inl rfl) hq
      | cons c q => rfl
  refine (fitsThen Nat.one_pos hpeek (stop e)).congr (fun q => ?_) fun q _ => ?_
  · cases q with
    | nil => simp
    | cons c q => simp
  · cases q with
    | nil => rfl
    | cons c q => simp

/-- To skip elements and go on is to go on with the rest of the buffer. -/
theorem skipThen {n : Nat} (hm : Refines err refusal m f S) :
    Refines err refusal (Scan.skip n >>= fun _ => m) (fun q => f (q.drop n))
      (fun q => S (q.drop n)) := by
  refine ((skip n).bind fun _ _ _ _ _ => hm).congr (fun q => ?_) fun q _ => rfl
  simp

end Refines

end Cursor
