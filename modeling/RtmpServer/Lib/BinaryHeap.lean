import Mathlib.Logic.Equiv.Basic
import Mathlib.Order.Lattice
import Mathlib.Tactic.Push

/-!
# Binary heaps by position

The positions of a heap of `n` are `1` to `n`; the parent of position `i` is
`i / 2`. What sits where is a function `a`, and every repair of the order is a
chain of exchanges `a ∘ Equiv.swap i j`, so that the contents stay what they were
without more being said (`exists_swap`, `injective_swap`).

Two repairs: along the way from the root down to a position, which is read off
the binary digits of that position (`PathOrdered`, of an element that waits at
its end), and from a position downwards (`DownOrdered`). Each has its start, one
step, and its end.
-/

namespace BinaryHeap

variable {α κ : Type} [LinearOrder κ]

/-- The order of a heap of `n` elements, position by position: no element is due before the
one at its parent's position. -/
def Ordered (due : α → κ) (a : Nat → α) (n : Nat) : Prop :=
  ∀ i, 2 ≤ i → i ≤ n → due (a (i / 2)) ≤ due (a i)

section

variable {due : α → κ} {a : Nat → α} {n : Nat}

/-- The root is due first, that is no later than the element at any other position: the
order, climbed up from parent to parent. -/
theorem Ordered.root_le (h : Ordered due a n) : ∀ i, 1 ≤ i → i ≤ n → due (a 1) ≤ due (a i) := by
  intro i
  induction i using Nat.strongRecOn with
  | ind i ih =>
    intro h1 hn
    rcases Nat.eq_or_lt_of_le h1 with rfl | h2
    · exact le_refl _
    · exact le_trans (ih (i / 2) (by omega) (by omega) (by omega)) (h i h2 hn)

/-- The order of a heap is the order of every shorter one, so the last element can be left
out. -/
theorem Ordered.shrink {m : Nat} (h : Ordered due a n) (hm : m ≤ n) : Ordered due a m :=
  fun i h2 hi => h i h2 (Nat.le_trans hi hm)

/-- Only the due times at the positions up to `n` count, whatever the elements are and
whatever is behind them. -/
theorem Ordered.congr {due' : α → κ} {b : Nat → α} (h : Ordered due a n)
    (hab : ∀ i, 1 ≤ i → i ≤ n → due' (b i) = due (a i)) : Ordered due' b n := by
  intro i h2 hi
  rw [hab (i / 2) (by omega) (by omega), hab i (by omega) hi]
  exact h i h2 hi

end

/-! ## Exchanges -/

section

variable (a : Nat → α) (i j : Nat)

/-- `a` with the elements at the positions `i` and `j` exchanged, and all the others where
they were. -/
def swap : Nat → α := a ∘ Equiv.swap i j

@[simp] theorem swap_left : swap a i j i = a j := by
  rw [swap, Function.comp_apply, Equiv.swap_apply_left]

@[simp] theorem swap_right : swap a i j j = a i := by
  rw [swap, Function.comp_apply, Equiv.swap_apply_right]

/-- Every position but the two keeps its element under an exchange. -/
theorem swap_of_ne {k : Nat} (hi : k ≠ i) (hj : k ≠ j) : swap a i j k = a k := by
  rw [swap, Function.comp_apply, Equiv.swap_apply_of_ne_of_ne hi hj]

end

section

variable {a : Nat → α} {i j n : Nat}

/-- Where an element is after an exchange: the position it is found at from `a`'s own one,
inside the same bounds. -/
theorem swap_bounds (hi : 1 ≤ i ∧ i ≤ n) (hj : 1 ≤ j ∧ j ≤ n) {k : Nat} (hk : 1 ≤ k ∧ k ≤ n) :
    1 ≤ Equiv.swap i j k ∧ Equiv.swap i j k ≤ n := by
  rcases eq_or_ne k i with rfl | hki
  · rw [Equiv.swap_apply_left]
    exact hj
  · rcases eq_or_ne k j with rfl | hkj
    · rw [Equiv.swap_apply_right]
      exact hi
    · rw [Equiv.swap_apply_of_ne_of_ne hki hkj]
      exact hk

/-- An exchange keeps the contents: what is at some position of `a` is at some position
afterwards, and the other way round. -/
theorem exists_swap (hi : 1 ≤ i ∧ i ≤ n) (hj : 1 ≤ j ∧ j ≤ n) (x : α) :
    (∃ k, (1 ≤ k ∧ k ≤ n) ∧ swap a i j k = x) ↔ ∃ k, (1 ≤ k ∧ k ≤ n) ∧ a k = x := by
  constructor
  · intro h
    obtain ⟨k, hk, hx⟩ := h
    exact ⟨_, swap_bounds hi hj hk, hx⟩
  · intro h
    obtain ⟨k, hk, hx⟩ := h
    refine ⟨Equiv.swap i j k, swap_bounds hi hj hk, ?_⟩
    rw [swap, Function.comp_apply, Equiv.swap_apply_self, hx]

/-- No element is at two of the positions, so that a position may be known by its element. -/
def Injective (a : Nat → α) (n : Nat) : Prop :=
  ∀ i j, 1 ≤ i → i ≤ n → 1 ≤ j → j ≤ n → a i = a j → i = j

/-- Two positions of such a heap hold two elements. -/
theorem Injective.ne (h : Injective a n) (hi : 1 ≤ i ∧ i ≤ n) (hj : 1 ≤ j ∧ j ≤ n) (hne : i ≠ j) :
    a i ≠ a j :=
  fun heq => hne (h i j hi.1 hi.2 hj.1 hj.2 heq)

/-- The elements but the last: those that are at a position up to `n` and differ from the
one at `n + 1`. -/
theorem Injective.exists_init (h : Injective a (n + 1)) (x : α) :
    (∃ k, (1 ≤ k ∧ k ≤ n) ∧ a k = x) ↔ x ≠ a (n + 1) ∧ ∃ k, (1 ≤ k ∧ k ≤ n + 1) ∧ a k = x := by
  constructor
  · intro hk
    obtain ⟨k, hk, rfl⟩ := hk
    exact ⟨h.ne (by omega) (by omega) (by omega), k, by omega, rfl⟩
  · intro hk
    obtain ⟨hne, k, hk, rfl⟩ := hk
    refine ⟨k, ⟨hk.1, ?_⟩, rfl⟩
    by_contra hlast
    exact hne (congrArg a (by omega))

/-- An exchange brings no element to a second position. -/
theorem Injective.swap (h : Injective a n) (hi : 1 ≤ i ∧ i ≤ n) (hj : 1 ≤ j ∧ j ≤ n) :
    Injective (swap a i j) n := by
  intro k l hk hkn hl hln heq
  have hk' := swap_bounds hi hj ⟨hk, hkn⟩
  have hl' := swap_bounds hi hj ⟨hl, hln⟩
  exact (Equiv.swap i j).injective (h _ _ hk'.1 hk'.2 hl'.1 hl'.2 heq)

end

/-! ## On the way down to a position -/

section

variable {due : α → κ} {a : Nat → α} {n t k : Nat}

/-- The position `k` steps above `t`. The element to be placed waits at `t`; those
above position `t >>> k` are no later than it. -/
structure PathOrdered (due : α → κ) (a : Nat → α) (n t k : Nat) : Prop where
  rest : ∀ j, 2 ≤ j → j ≤ n → j ≠ t → j / 2 ≠ t → due (a (j / 2)) ≤ due (a j)
  above : 2 ≤ t >>> k → due (a (t >>> k / 2)) ≤ due (a t)
  grand : 2 ≤ t → ∀ j, j ≤ n → j / 2 = t → due (a (t / 2)) ≤ due (a j)

/-- What has to be in order below position `i` once it is in order above. -/
structure DownOrdered (due : α → κ) (a : Nat → α) (n i : Nat) : Prop where
  rest : ∀ j, 2 ≤ j → j ≤ n → j / 2 ≠ i → due (a (j / 2)) ≤ due (a j)
  grand : 2 ≤ i → ∀ j, j ≤ n → j / 2 = i → due (a (i / 2)) ≤ due (a j)

/-- A position further up the way is a smaller one, as long as there is a way at all. -/
theorem shiftRight_succ_lt (ht : 1 ≤ t) (k : Nat) : t >>> (k + 1) < t := by
  rw [Nat.shiftRight_succ]
  have hle : t >>> k ≤ t := Nat.shiftRight_le t k
  omega

/-- On a step of the way an element that is later than the one that waits takes its place. -/
theorem PathOrdered.step_swap (h : PathOrdered due a n t (k + 1)) (hpos : 1 ≤ t >>> (k + 1))
    (hlt : due (a t) < due (a (t >>> (k + 1)))) :
    PathOrdered due (swap a (t >>> (k + 1)) t) n t k := by
  have hparent : t >>> k / 2 = t >>> (k + 1) := (Nat.shiftRight_succ t k).symm
  have hit : t >>> (k + 1) < t := shiftRight_succ_lt (by
    by_contra h0
    rw [Nat.lt_one_iff.mp (Nat.not_le.mp h0), Nat.zero_shiftRight] at hpos
    omega) k
  have hrest := h.rest
  have habove := h.above
  have hgrand := h.grand
  generalize t >>> (k + 1) = i at hpos hlt hparent hit habove ⊢
  refine ⟨fun j h2 hj hjt hpt => ?_, fun _ => ?_, fun h2 j hj hjt => ?_⟩
  · by_cases hji : j = i
    · -- the element that waited comes under the parent of `i`
      subst hji
      rw [swap_left, swap_of_ne _ _ _ (by omega) (by omega)]
      exact habove h2
    · -- a child of `i` has an earlier parent than before, and every other one its own
      rw [swap_of_ne _ _ _ hji hjt]
      by_cases hpi : j / 2 = i
      · rw [hpi, swap_left]
        exact le_trans (le_of_lt hlt) (hpi ▸ hrest j h2 hj hjt hpt)
      · rw [swap_of_ne _ _ _ hpi hpt]
        exact hrest j h2 hj hjt hpt
  · rw [hparent, swap_left, swap_right]
    exact le_of_lt hlt
  · -- the children of `t` stay, and its parent is who it was or an earlier one
    rw [swap_of_ne a i t (k := j) (by omega) (by omega)]
    by_cases hpi : t / 2 = i
    · rw [hpi, swap_left]
      exact le_trans (le_of_lt hlt) (hpi ▸ hgrand h2 j hj hjt)
    · rw [swap_of_ne _ _ _ hpi (by omega)]
      exact hgrand h2 j hj hjt

/-- Otherwise it stays, and the way goes on below it with what was in order still in order. -/
theorem PathOrdered.step_stay (h : PathOrdered due a n t (k + 1))
    (hle : ¬ due (a t) < due (a (t >>> (k + 1)))) : PathOrdered due a n t k where
  rest := h.rest
  above := fun _ => by
    rw [← Nat.shiftRight_succ]
    exact not_lt.mp hle
  grand := h.grand

/-- At the end of the way everything above `t` is in order, and what remains is to be
settled downwards from there. -/
theorem PathOrdered.arrived (h : PathOrdered due a n t 0) : DownOrdered due a n t where
  rest := by
    intro j h2 hj hpt
    by_cases hjt : j = t
    · subst hjt
      exact h.above h2
    · exact h.rest j h2 hj hjt hpt
  grand := h.grand

/-- A new last element waits at the end of the way to its own position, whatever is above
it. -/
theorem Ordered.path_last (h : Ordered due a n) (hk : (n + 1) >>> k ≤ 1) :
    PathOrdered due a (n + 1) (n + 1) k where
  rest j h2 hj hjt _ := h j h2 (by omega)
  above h2 := absurd h2 (by omega)
  grand _ j hj hjt := absurd hjt (by omega)

/-- The last element waits in the place of another one, which is taken out and goes to the
end. -/
theorem Ordered.path_removed (h : Ordered due a (n + 1)) (ht : 1 ≤ t) (htn : t ≤ n)
    (hk : t >>> k ≤ 1) : PathOrdered due (swap a t (n + 1)) n t k where
  rest j h2 hj hjt hpt := by
    rw [swap_of_ne _ _ _ hpt (by omega), swap_of_ne _ _ _ hjt (by omega)]
    exact h j h2 (by omega)
  above h2 := absurd h2 (by omega)
  grand h2 j hj hjt := by
    rw [swap_of_ne _ _ _ (by omega) (by omega),
      swap_of_ne a t (n + 1) (k := j) (by omega) (by omega)]
    have hchild := h j (by omega) (by omega)
    rw [hjt] at hchild
    exact le_trans (h t h2 (by omega)) hchild

/-! ## Downwards -/

variable {i : Nat}

/-- The child of `i` that is due first; of two that are due together the right one. -/
def younger (due : α → κ) (a : Nat → α) (n i : Nat) : Nat :=
  if 2 * i + 1 ≤ n ∧ ¬ due (a (2 * i)) < due (a (2 * i + 1)) then 2 * i + 1 else 2 * i

/-- The younger child is a position of the heap, and a child. -/
theorem younger_bounds (due : α → κ) (a : Nat → α) (h : 2 * i ≤ n) :
    younger due a n i ≤ n ∧ younger due a n i / 2 = i := by
  unfold younger
  split
  · omega
  · omega

/-- Neither child of `i` is due before the younger one, so that it may become the parent of
the other. -/
theorem younger_le {j : Nat} (hj : j ≤ n) (hji : j / 2 = i) :
    due (a (younger due a n i)) ≤ due (a j) := by
  have hcases : j = 2 * i ∨ j = 2 * i + 1 := by omega
  unfold younger
  split
  · rename_i hright
    rcases hcases with rfl | rfl
    · exact not_lt.mp hright.2
    · exact le_refl _
  · rename_i hleft
    rcases hcases with rfl | rfl
    · exact le_refl _
    · by_contra hlt
      exact hleft ⟨hj, fun h => hlt (le_of_lt h)⟩

/-- An element that is later than a child changes places with it, and is to be settled
further down from where the child was. -/
theorem DownOrdered.step (h : DownOrdered due a n i) (hpos : 1 ≤ i) (hchild : 2 * i ≤ n)
    (hlt : due (a (younger due a n i)) < due (a i)) :
    DownOrdered due (swap a i (younger due a n i)) n (younger due a n i) := by
  obtain ⟨hyn, hyi⟩ := younger_bounds due a hchild
  have hle : ∀ j, j ≤ n → j / 2 = i → due (a (younger due a n i)) ≤ due (a j) :=
    fun j hj hji => younger_le hj hji
  have hrest := h.rest
  have hgrand := h.grand
  generalize younger due a n i = y at hlt hyn hyi hle ⊢
  refine ⟨fun j h2 hj hpy => ?_, fun h2 j hj hjy => ?_⟩
  · by_cases hpi : j / 2 = i
    · rw [hpi, swap_left]
      by_cases hjy : j = y
      · rw [hjy, swap_right]
        exact le_of_lt hlt
      · rw [swap_of_ne _ _ _ (by omega) hjy]
        exact hle j hj hpi
    · rw [swap_of_ne _ _ _ hpi hpy]
      by_cases hji : j = i
      · rw [hji, swap_left]
        exact hgrand (hji ▸ h2) y hyn hyi
      · rw [swap_of_ne _ _ _ hji (fun hjy => hpi (hjy ▸ hyi))]
        exact hrest j h2 hj hpi
  · rw [hyi, swap_left, swap_of_ne a i y (k := j) (by omega) (by omega)]
    -- below the child nothing has moved: what is there was ordered under it all along
    have hchild := hrest j (by omega) hj (by omega)
    rwa [hjy] at hchild

/-- Without a child that is due before it, an element is in order, and the heap with it. -/
theorem DownOrdered.ordered (h : DownOrdered due a n i)
    (hdone : n < 2 * i ∨ due (a i) ≤ due (a (younger due a n i))) : Ordered due a n := by
  intro j h2 hj
  by_cases hji : j / 2 = i
  · rcases hdone with hleaf | hle
    · omega
    · rw [hji]
      exact le_trans hle (younger_le hj hji)
  · exact h.rest j h2 hj hji

end

end BinaryHeap
