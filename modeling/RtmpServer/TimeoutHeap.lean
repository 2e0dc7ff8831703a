import Mathlib.Data.Nat.Basic
import Mathlib.Data.Set.Insert
import RtmpServer.Lib.BinaryHeap

/-!
# `sched.c`: the timeout heap

The threads that wait with a timeout are a binary heap whose nodes are the
threads themselves, with pointers to their children and none back; a position is
found from its binary digits, root first. Here the pointers are cells, as in the
source, and a null pointer that is followed is undefined. `Linked` says which
heap by position a set of cells is. `heap_insert` and `heap_delete` follow the
repairs of the general theory step by step, and leave it linked and in order
(`heapInsert_last`, `heapDelete_linked`).
-/

namespace RtmpServer.Sched

open BinaryHeap

variable {Tid : Type} [DecidableEq Tid]

/-! ## The code -/

/-- The pointers of the heap: `_ST_SLEEPQ`, and `left` and `right` of each thread. -/
inductive Cell (Tid : Type) where
  | sleepq
  | left (thread : Tid)
  | right (thread : Tid)
  deriving DecidableEq

/-- The heap as the code has it: its pointers, `due` and `heap_index` of each thread, and
`_ST_SLEEPQ_SIZE`. The fields of a thread that is not in the heap are what they were last. -/
structure Sleepq (Tid : Type) where
  cell : Cell Tid → Option Tid
  due : Tid → Nat
  heapIndex : Tid → Nat
  size : Nat

namespace Sleepq

/-- `*p = t;` -/
def set (q : Sleepq Tid) (p : Cell Tid) (t : Option Tid) : Sleepq Tid :=
  { q with cell := Function.update q.cell p t }

/-- `t->heap_index = index;` -/
def setIndex (q : Sleepq Tid) (t : Tid) (index : Nat) : Sleepq Tid :=
  { q with heapIndex := Function.update q.heapIndex t index }

/-- `t->left = left; t->right = right;` -/
def setChildren (q : Sleepq Tid) (t : Tid) (left right : Option Tid) : Sleepq Tid :=
  (q.set (.left t) left).set (.right t) right

/-- `thread->left = t->left; thread->right = t->right;`, the children of `t` given to
`thread`. -/
def adopt (q : Sleepq Tid) (thread t : Tid) : Sleepq Tid :=
  q.setChildren thread (q.cell (.left t)) (q.cell (.right t))

/-- `thread->left = thread->right = NULL;`, which leaves `thread` without children. -/
def bare (q : Sleepq Tid) (thread : Tid) : Sleepq Tid := q.setChildren thread none none

/-- `*p = NULL; --_ST_SLEEPQ_SIZE;`, by which the last element goes. -/
def unlink (q : Sleepq Tid) (p : Cell Tid) : Sleepq Tid :=
  { q.set p none with size := q.size - 1 }

/-- `thread->due = due; thread->heap_index = ++_ST_SLEEPQ_SIZE;`, by which a thread asks for
the position behind the last one. -/
def enter (q : Sleepq Tid) (thread : Tid) (due : Nat) : Sleepq Tid :=
  { q.setIndex thread (q.size + 1) with
    due := Function.update q.due thread due
    size := q.size + 1 }

/-- `thread` takes the place of `t`, which `p` points to: its children, the pointer, and its
index. -/
def takeOver (q : Sleepq Tid) (thread t : Tid) (p : Cell Tid) (index : Nat) : Sleepq Tid :=
  ((q.adopt thread t).set p (some thread)).setIndex thread index

end Sleepq

/-- How often `s` is shifted until nothing is left: the `bits` of the code, which are the
binary digits of a position. -/
def bits (s : Nat) : Nat := if s = 0 then 0 else s.log2 + 1

/-- The loop of `heap_insert` for the bits below `bit`, and what follows it. -/
def insertFrom (target : Nat) : Nat → Sleepq Tid → Tid → Cell Tid → Nat →
    Option (Cell Tid × Sleepq Tid)
  | 0, q, thread, p, index =>
    some (p, ((q.setIndex thread index).set p (some thread)).bare thread)
  | bit + 1, q, thread, p, index => do
    let t ← q.cell p
    let (q, thread) :=
          if q.due thread < q.due t then (q.takeOver thread t p index, t) else (q, thread)
    let t ← q.cell p
    if target.testBit bit then insertFrom target bit q thread (.right t) (2 * index + 1)
    else insertFrom target bit q thread (.left t) (2 * index)

/-- `heap_insert`: from the root down to the position that the thread's own index names. -/
def heapInsert (q : Sleepq Tid) (thread : Tid) : Option (Cell Tid × Sleepq Tid) :=
  insertFrom (q.heapIndex thread) (bits (q.heapIndex thread) - 1) q thread .sleepq 1

/-- The walk of `heap_delete` to the pointer to the last element, by the binary digits of
the size. -/
def lastCell (q : Sleepq Tid) : Nat → Cell Tid → Option (Cell Tid)
  | 0, p => some p
  | bit + 1, p => do
    let t ← q.cell p
    lastCell q bit (if q.size.testBit bit then .right t else .left t)

/-- The child of `t` that `heap_delete` compares it with, `l` being the left one. -/
def youngerChild (q : Sleepq Tid) (t l : Tid) : Tid :=
  match q.cell (.right t) with
  | none => l
  | some r => if q.due l < q.due r then l else r

/-- `y`, a child of `t`, goes up to `p`, and `t` down to where `y` was. -/
def exchangeDown (q : Sleepq Tid) (p : Cell Tid) (t y : Tid) : Cell Tid × Sleepq Tid :=
  let tl := q.cell (.left y)
  let tr := q.cell (.right y)
  let q := q.set p (some y)
  let (p, q) :=
    if q.cell (.left t) = some y then
      (.left y, q.setChildren y (some t) (q.cell (.right t)))
    else (.right y, q.setChildren y (q.cell (.left t)) (some t))
  let q := q.setChildren t tl tr
  let indexTmp := q.heapIndex t
  (p, (q.setIndex t (q.heapIndex y)).setIndex y indexTmp)

/-- The loop of `heap_delete` that reestablishes the heap invariant below `t`. Every turn
goes one level down, so the size of the heap is fuel enough. -/
def reestablish : Nat → Sleepq Tid → Cell Tid → Tid → Option (Sleepq Tid)
  | 0, _, _, _ => none
  | fuel + 1, q, p, t =>
    match q.cell (.left t) with
    | none => some q
    | some l =>
      let y := youngerChild q t l
      if q.due t > q.due y then
        let (p, q) := exchangeDown q p t y
        reestablish fuel q p t
      else some q

/-- `heap_delete`: the last element is unlinked and, unless it is the thread itself, put in
the thread's place. -/
def heapDelete (q : Sleepq Tid) (thread : Tid) : Option (Sleepq Tid) := do
  let p ← lastCell q (bits q.size - 1) .sleepq
  let t ← q.cell p
  let q := q.unlink p
  let q ←
    if t ≠ thread then do
      let q := q.setIndex t (q.heapIndex thread)
      let (p, q) ← heapInsert q t
      let t ← q.cell p
      reestablish (q.size + 1) (q.adopt t thread) p t
    else some q
  some (q.bare thread)

/-! ## Positions and pointers -/

/-- The pointer of `x` to its child at position `j`: the left one at the even positions. -/
def childCell (x : Tid) (j : Nat) : Cell Tid := if j % 2 = 0 then .left x else .right x

/-- The pointer to position `j` of the heap `a`, which is the root's or one of the parent. -/
def slot (a : Nat → Tid) (j : Nat) : Cell Tid := if j = 1 then .sleepq else childCell (a (j / 2)) j

/-- What is at position `j` of a heap of `n`: a thread, or nothing. -/
def sits (a : Nat → Tid) (n j : Nat) : Option Tid := if j ≤ n then some (a j) else none

omit [DecidableEq Tid] in
/-- A pointer to a child is known by its thread and its side. -/
theorem childCell_eq_iff {x y : Tid} {j k : Nat} :
    childCell x j = childCell y k ↔ x = y ∧ j % 2 = k % 2 := by
  unfold childCell
  rcases Nat.mod_two_eq_zero_or_one j with hj | hj
  · rcases Nat.mod_two_eq_zero_or_one k with hk | hk
    · simp [hj, hk]
    · simp [hj, hk]
  · rcases Nat.mod_two_eq_zero_or_one k with hk | hk
    · simp [hj, hk]
    · simp [hj, hk]

omit [DecidableEq Tid] in
/-- The pointer to the root is none of them. -/
theorem childCell_ne_sleepq {x : Tid} {j : Nat} : childCell x j ≠ .sleepq := by
  unfold childCell
  split
  · exact fun heq => by cases heq
  · exact fun heq => by cases heq

omit [DecidableEq Tid] in
section

variable {a : Nat → Tid} {n i j k : Nat}

omit [DecidableEq Tid]

/-- The pointer to the root. -/
theorem slot_one : slot a 1 = .sleepq := if_pos rfl

/-- The pointer to any other position is one of the thread at its parent's. -/
theorem slot_child (hj : 2 ≤ j) : slot a j = childCell (a (j / 2)) j := if_neg (by omega)

/-- Different positions have different pointers, as the threads above them are different. -/
theorem slot_ne (h : Injective a n) (hj : 1 ≤ j) (hjn : j / 2 ≤ n) (hk : 1 ≤ k) (hkn : k / 2 ≤ n)
    (hne : j ≠ k) : slot a j ≠ slot a k := by
  intro heq
  rcases Nat.eq_or_lt_of_le hj with rfl | hj2
  · rw [slot_one, slot_child (by omega)] at heq
    exact childCell_ne_sleepq heq.symm
  · rcases Nat.eq_or_lt_of_le hk with rfl | hk2
    · rw [slot_one, slot_child hj2] at heq
      exact childCell_ne_sleepq heq
    · rw [slot_child hj2, slot_child hk2, childCell_eq_iff] at heq
      have := h _ _ (by omega) hjn (by omega) hkn heq.1
      omega

/-- The pointer to a position is not one of a thread that is not above it. -/
theorem slot_ne_child (h : Injective a n) (hi : 1 ≤ i ∧ i ≤ n) (hj : 1 ≤ j) (hjn : j / 2 ≤ n)
    (hne : j / 2 ≠ i) : slot a j ≠ childCell (a i) k := by
  rcases Nat.eq_or_lt_of_le hj with rfl | hj2
  · rw [slot_one]
    exact fun heq => childCell_ne_sleepq heq.symm
  · rw [slot_child hj2]
    intro heq
    rw [childCell_eq_iff] at heq
    exact h.ne ⟨by omega, hjn⟩ hi hne heq.1

/-- Nor is it one of a thread that is not in the heap at all, so what such a thread's
pointers are does not matter. -/
theorem slot_ne_outside {x : Tid} (hx : ∀ i, 1 ≤ i → i ≤ n → a i ≠ x) (hj : 1 ≤ j)
    (hjn : j / 2 ≤ n) : slot a j ≠ childCell x k := by
  rcases Nat.eq_or_lt_of_le hj with rfl | hj2
  · rw [slot_one]
    exact fun heq => childCell_ne_sleepq heq.symm
  · rw [slot_child hj2]
    intro heq
    rw [childCell_eq_iff] at heq
    exact hx _ (by omega) hjn heq.1

/-- The pointer to a position depends on the thread above it only. -/
theorem slot_congr {b : Nat → Tid} (h : j = 1 ∨ a (j / 2) = b (j / 2)) : slot a j = slot b j := by
  rcases h with rfl | h
  · rw [slot_one, slot_one]
  · unfold slot
    rw [h]

/-- An exchange elsewhere leaves the pointer to a position what it is. -/
theorem slot_swap {i' : Nat} (hi : j = 1 ∨ j / 2 ≠ i ∧ j / 2 ≠ i') :
    slot (swap a i i') j = slot a j := by
  rcases hi with rfl | ⟨hi, hi'⟩
  · rw [slot_one, slot_one]
  · exact slot_congr (Or.inr (swap_of_ne _ _ _ hi hi'))

/-- And what is at a position, if that is none of the two. -/
theorem sits_swap {i' : Nat} (hi : j ≠ i) (hi' : j ≠ i') : sits (swap a i i') n j = sits a n j := by
  unfold sits
  rw [swap_of_ne _ _ _ hi hi']

/-- Within the heap there is a thread at a position. -/
theorem sits_of_le (h : j ≤ n) : sits a n j = some (a j) := if_pos h

/-- Behind its end there is none. -/
theorem sits_of_lt (h : n < j) : sits a n j = none := if_neg (by omega)

end

/-- The pointers are those of the heap `a`, the indices are its positions, and no thread is
in it twice. -/
structure Linked (q : Sleepq Tid) (a : Nat → Tid) (n : Nat) : Prop where
  cells : ∀ j, 1 ≤ j → j / 2 ≤ n → q.cell (slot a j) = sits a n j
  index : ∀ i, 1 ≤ i → i ≤ n → q.heapIndex (a i) = i
  injective : Injective a n

/-- They are so but for position `t`, whose element waits to be put there: neither the
pointer to it nor its own pointers need be right. -/
structure Waits (q : Sleepq Tid) (a : Nat → Tid) (n t : Nat) : Prop where
  cells : ∀ j, 1 ≤ j → j / 2 ≤ n → j ≠ t → j / 2 ≠ t → q.cell (slot a j) = sits a n j
  index : ∀ i, 1 ≤ i → i ≤ n → i ≠ t → q.heapIndex (a i) = i
  injective : Injective a n

/-- It has been put there, with the pointer to it and its index, but it has no children yet. -/
structure Placed (q : Sleepq Tid) (a : Nat → Tid) (n t : Nat) : Prop where
  cells : ∀ j, 1 ≤ j → j / 2 ≤ n → j / 2 ≠ t → q.cell (slot a j) = sits a n j
  index : ∀ i, 1 ≤ i → i ≤ n → q.heapIndex (a i) = i
  injective : Injective a n
  bare : ∀ j, q.cell (childCell (a t) j) = none

/-- What rearranging leaves as it is: times and size, the threads that are in the
heap, and the pointers of all the others. -/
structure Rearranged (n : Nat) (q : Sleepq Tid) (a : Nat → Tid) (q' : Sleepq Tid) (a' : Nat → Tid) :
    Prop where
  due : q'.due = q.due
  size : q'.size = q.size
  threads : ∀ x, (∃ k, (1 ≤ k ∧ k ≤ n) ∧ a' k = x) ↔ ∃ k, (1 ≤ k ∧ k ≤ n) ∧ a k = x
  outside : ∀ x, (∀ k, 1 ≤ k → k ≤ n → a k ≠ x) →
    (∀ j, q'.cell (childCell x j) = q.cell (childCell x j)) ∧ q'.heapIndex x = q.heapIndex x

omit [DecidableEq Tid] in
/-- To do nothing is to rearrange nothing. -/
theorem Rearranged.refl (n : Nat) (q : Sleepq Tid) (a : Nat → Tid) : Rearranged n q a q a :=
  ⟨rfl, rfl, fun _ => Iff.rfl, fun _ _ => ⟨fun _ => rfl, rfl⟩⟩

omit [DecidableEq Tid] in
/-- One rearrangement after the other is a rearrangement. -/
theorem Rearranged.trans {n : Nat} {q q' q'' : Sleepq Tid} {a a' a'' : Nat → Tid}
    (h : Rearranged n q a q' a') (h' : Rearranged n q' a' q'' a'') : Rearranged n q a q'' a'' where
  due := h'.due.trans h.due
  size := h'.size.trans h.size
  threads x := (h'.threads x).trans (h.threads x)
  outside x hx := by
    have hx' : ∀ k, 1 ≤ k → k ≤ n → a' k ≠ x := by
      intro k h1 hn heq
      obtain ⟨l, hl, hlx⟩ := (h.threads x).mp ⟨k, ⟨h1, hn⟩, heq⟩
      exact hx l hl.1 hl.2 hlx
    obtain ⟨hcell, hindex⟩ := h.outside x hx
    obtain ⟨hcell', hindex'⟩ := h'.outside x hx'
    exact ⟨fun j => (hcell' j).trans (hcell j), hindex'.trans hindex⟩

/-! ## `heap_insert` -/

section

variable {q : Sleepq Tid} {a : Nat → Tid} {n t k : Nat} {x y : Tid} {p c : Cell Tid}

@[simp] theorem set_cell_self (v : Option Tid) : (q.set p v).cell p = v := Function.update_self ..

/-- The other pointers stay. -/
theorem set_cell_of_ne (v : Option Tid) (h : c ≠ p) : (q.set p v).cell c = q.cell c :=
  Function.update_of_ne h ..

@[simp] theorem set_due (v : Option Tid) : (q.set p v).due = q.due := rfl

@[simp] theorem set_size (v : Option Tid) : (q.set p v).size = q.size := rfl

@[simp] theorem set_heapIndex (v : Option Tid) : (q.set p v).heapIndex = q.heapIndex := rfl

@[simp] theorem setIndex_cell (i : Nat) : (q.setIndex x i).cell = q.cell := rfl

@[simp] theorem setIndex_due (i : Nat) : (q.setIndex x i).due = q.due := rfl

@[simp] theorem setIndex_size (i : Nat) : (q.setIndex x i).size = q.size := rfl

@[simp] theorem setIndex_self (i : Nat) : (q.setIndex x i).heapIndex x = i :=
  Function.update_self ..

/-- The indices of the others stay. -/
theorem setIndex_of_ne (i : Nat) (h : y ≠ x) : (q.setIndex x i).heapIndex y = q.heapIndex y :=
  Function.update_of_ne h ..

/-- The two pointers of a thread are what they have been set to, by the side of the
position. -/
theorem setChildren_child (l r : Option Tid) (j : Nat) :
    (q.setChildren x l r).cell (childCell x j) = if j % 2 = 0 then l else r := by
  unfold Sleepq.setChildren childCell
  split
  · rw [set_cell_of_ne _ (by simp), set_cell_self]
  · rw [set_cell_self]

/-- The pointers that are not the thread's stay. -/
theorem setChildren_of_ne (l r : Option Tid) (h : ∀ j, c ≠ childCell x j) :
    (q.setChildren x l r).cell c = q.cell c := by
  rw [Sleepq.setChildren, set_cell_of_ne _ (show c ≠ .right x from h 1),
    set_cell_of_ne _ (show c ≠ .left x from h 0)]

/-- Children that are adopted are those of the other thread. -/
theorem adopt_child (j : Nat) : (q.adopt x y).cell (childCell x j) = q.cell (childCell y j) := by
  rw [Sleepq.adopt, setChildren_child]
  unfold childCell
  split
  · rfl
  · rfl

/-- And only the thread's own pointers change by it. -/
theorem adopt_of_ne (h : ∀ j, c ≠ childCell x j) : (q.adopt x y).cell c = q.cell c :=
  setChildren_of_ne _ _ h

/-- A bare thread has no children on either side. -/
theorem bare_child (j : Nat) : (q.bare x).cell (childCell x j) = none := by
  rw [Sleepq.bare, setChildren_child, ite_self]

/-- And only its own pointers change by it. -/
theorem bare_of_ne (h : ∀ j, c ≠ childCell x j) : (q.bare x).cell c = q.cell c :=
  setChildren_of_ne _ _ h

/-- Whoever takes a place over is pointed to. -/
theorem takeOver_self (index : Nat) : (q.takeOver x y p index).cell p = some x := by
  rw [Sleepq.takeOver, setIndex_cell, set_cell_self]

/-- Whoever takes a place over has the children of the other one, but for the pointer
itself. -/
theorem takeOver_child (index : Nat) {j : Nat} (h : childCell x j ≠ p) :
    (q.takeOver x y p index).cell (childCell x j) = q.cell (childCell y j) := by
  rw [Sleepq.takeOver, setIndex_cell, set_cell_of_ne _ h, adopt_child]

/-- Nothing else changes by it. -/
theorem takeOver_of_ne (index : Nat) (hp : c ≠ p) (hx : ∀ j, c ≠ childCell x j) :
    (q.takeOver x y p index).cell c = q.cell c := by
  rw [Sleepq.takeOver, setIndex_cell, set_cell_of_ne _ hp, adopt_of_ne hx]

/-- The way to position `t` stays within the heap, above `t`: a thread on it may be replaced
by the one that waits, which then waits with the other's place. -/
theorem Waits.takeOver {i : Nat} (h : Waits q a n t) (hi : 1 ≤ i) (hit : i < t) (ht : t ≤ n) :
    Waits (q.takeOver (a t) (a i) (slot a i) i) (swap a i t) n t ∧
      Rearranged n q a (q.takeOver (a t) (a i) (slot a i) i) (swap a i t) := by
  have hin : 1 ≤ i ∧ i ≤ n := ⟨hi, by omega⟩
  have htn : 1 ≤ t ∧ t ≤ n := ⟨by omega, ht⟩
  have hchild : ∀ j, childCell (a t) j ≠ slot a i := fun j heq =>
    slot_ne_child h.injective htn hi (by omega) (by omega) heq.symm
  refine ⟨⟨fun j hj hjn hjt hpt => ?_, fun k hk hkn hkt => ?_, h.injective.swap hin htn⟩,
    rfl, rfl, exists_swap hin htn, fun x hx => ⟨fun j => ?_, ?_⟩⟩
  · -- the threads change places at `i` and `t`; the slots above and below them follow
    by_cases hpi : j / 2 = i
    · -- the children of position `i` are those of the thread that comes there
      have hj2 : 2 ≤ j := by omega
      rw [slot_child hj2, hpi, swap_left, takeOver_child _ (hchild j), sits_swap (by omega) hjt,
        ← h.cells j hj hjn hjt hpt, slot_child hj2, hpi]
    · -- no other child has a new parent, and only the slot of `i` has a new thread
      rw [slot_swap (Or.inr ⟨hpi, hpt⟩)]
      by_cases hji : j = i
      · rw [hji, takeOver_self, sits_of_le hin.2, swap_left]
      · rw [takeOver_of_ne _ (slot_ne h.injective hj hjn hi (by omega) hji)
          (fun _ => slot_ne_child h.injective htn hj hjn hpt), sits_swap hji hjt]
        exact h.cells j hj hjn hjt hpt
  · -- the indices: that of the thread that comes to `i` is set, the others stay
    by_cases hki : k = i
    · rw [hki, swap_left]
      exact setIndex_self i
    · rw [swap_of_ne _ _ _ hki hkt]
      refine (setIndex_of_ne _ (h.injective.ne ⟨hk, hkn⟩ htn hkt)).trans ?_
      exact h.index k hk hkn hkt
  · exact takeOver_of_ne _ (fun heq => slot_ne_outside hx hi (by omega) heq.symm)
      (fun k heq => hx t htn.1 htn.2 (childCell_eq_iff.mp heq).1.symm)
  · exact setIndex_of_ne _ (fun heq => hx t htn.1 htn.2 heq.symm)

/-- The element that waited is put in its place at the end of the way, where it is found by
its parent and is bare. -/
theorem Waits.place (h : Waits q a n t) (ht : 1 ≤ t ∧ t ≤ n) :
    Placed (((q.setIndex (a t) t).set (slot a t) (some (a t))).bare (a t)) a n t ∧
      Rearranged n q a (((q.setIndex (a t) t).set (slot a t) (some (a t))).bare (a t)) a := by
  refine ⟨⟨fun j hj hjn hpt => ?_, fun k hk hkn => ?_, h.injective, fun j => bare_child j⟩,
    rfl, rfl, fun _ => Iff.rfl, fun x hx => ⟨fun j => ?_, ?_⟩⟩
  · rw [bare_of_ne (fun k => slot_ne_child h.injective ht hj hjn hpt)]
    by_cases hjt : j = t
    · rw [hjt, set_cell_self, sits_of_le ht.2]
    · rw [set_cell_of_ne _ (slot_ne h.injective hj hjn ht.1 (by omega) hjt)]
      exact h.cells j hj hjn hjt hpt
  · by_cases hkt : k = t
    · rw [hkt]
      exact setIndex_self t
    · exact (setIndex_of_ne _ (h.injective.ne ⟨hk, hkn⟩ ht hkt)).trans (h.index k hk hkn hkt)
  · have hne : a t ≠ x := hx t ht.1 ht.2
    rw [bare_of_ne (fun k heq => hne (childCell_eq_iff.mp heq).1.symm),
      set_cell_of_ne _ (fun heq => slot_ne_outside hx ht.1 (by omega) heq.symm), setIndex_cell]
  · exact setIndex_of_ne _ (hx t ht.1 ht.2).symm

/-- The binary digits of `t` lead to it: the next position on the way. -/
theorem testBit_eq_digit (t k : Nat) : t.testBit k = decide (t >>> k % 2 = 1) := by
  rw [Nat.testBit_eq_decide_div_mod_eq, Nat.shiftRight_eq_div_pow]

/-- The next position on the way: a digit more of `t`. -/
theorem shiftRight_digit (t k : Nat) :
    t >>> k = if t.testBit k then 2 * (t >>> (k + 1)) + 1 else 2 * (t >>> (k + 1)) := by
  rw [testBit_eq_digit, Nat.shiftRight_succ]
  by_cases hodd : t >>> k % 2 = 1
  · rw [if_pos (decide_eq_true hodd)]
    omega
  · rw [if_neg (fun h => hodd (of_decide_eq_true h))]
    omega

omit [DecidableEq Tid] in
/-- The pointer to the next position on the way is the one that the code takes by the bit it
looks at. -/
theorem childCell_digit (x : Tid) (t k : Nat) :
    childCell x (t >>> k) = if t.testBit k then .right x else .left x := by
  rw [testBit_eq_digit]
  unfold childCell
  by_cases hodd : t >>> k % 2 = 1
  · rw [if_pos (decide_eq_true hodd), if_neg (by omega)]
  · rw [if_neg (fun h => hodd (of_decide_eq_true h)), if_pos (by omega)]

/-- A thread that is due earlier takes the place of the one on the way, which goes on. -/
theorem insertFrom_takes (hp : q.cell p = some y) (hlt : q.due x < q.due y) :
    insertFrom t (k + 1) q x p (t >>> (k + 1)) =
      insertFrom t k (q.takeOver x y p (t >>> (k + 1))) y (childCell x (t >>> k)) (t >>> k) := by
  have hself : (q.takeOver x y p (t >>> (k + 1))).cell p = some x := takeOver_self _
  rw [insertFrom, hp, childCell_digit, shiftRight_digit t k]
  simp only [Option.bind_eq_bind, Option.bind_some, if_pos hlt, hself]
  split
  · rfl
  · rfl

/-- Otherwise it goes on itself, below the thread that stays. -/
theorem insertFrom_stays (hp : q.cell p = some y) (hle : ¬ q.due x < q.due y) :
    insertFrom t (k + 1) q x p (t >>> (k + 1)) =
      insertFrom t k q x (childCell y (t >>> k)) (t >>> k) := by
  rw [insertFrom, hp, childCell_digit, shiftRight_digit t k]
  simp only [Option.bind_eq_bind, Option.bind_some, if_neg hle, hp]
  split
  · rfl
  · rfl

/-- The way down: what waited for `t` is placed, and all that is above `t` is in order. -/
theorem insertFrom_placed (ht : 1 ≤ t ∧ t ≤ n) (k : Nat) : ∀ (q : Sleepq Tid) (a : Nat → Tid),
    1 ≤ t >>> k → Waits q a n t → PathOrdered q.due a n t k →
    ∃ q' a', insertFrom t k q (a t) (slot a (t >>> k)) (t >>> k) = some (slot a' t, q') ∧
      Placed q' a' n t ∧ DownOrdered q'.due a' n t ∧ Rearranged n q a q' a' ∧
      ∀ j, t < j → a' j = a j := by
  induction k with
  | zero =>
    intro q a _ hwaits hpath
    obtain ⟨hplaced, hrearranged⟩ := hwaits.place ht
    -- at the place itself: the thread is put there, and no slot is left over
    exact ⟨_, a, rfl, hplaced, hpath.arrived, hrearranged, fun _ _ => rfl⟩
  | succ k ih =>
    intro q a hpos hwaits hpath
    have hit : t >>> (k + 1) < t := shiftRight_succ_lt ht.1 k
    have hhalf : t >>> k / 2 = t >>> (k + 1) := (Nat.shiftRight_succ t k).symm
    have hnext : slot a (t >>> k) = childCell (a (t >>> (k + 1))) (t >>> k) := by
      rw [slot_child (by omega), hhalf]
    have hthere : q.cell (slot a (t >>> (k + 1))) = some (a (t >>> (k + 1))) := by
      rw [hwaits.cells _ hpos (by omega) (by omega) (by omega), sits_of_le (by omega)]
    by_cases hlt : q.due (a t) < q.due (a (t >>> (k + 1)))
    · -- the thread due first takes the slot, and the other goes on down in its stead
      obtain ⟨htaken, hmoved⟩ := hwaits.takeOver hpos hit ht.2
      obtain ⟨q', a', hrun, hplaced, hdown, hrearranged, hafter⟩ :=
        ih _ _ (by omega) htaken (hpath.step_swap hpos hlt)
      refine ⟨q', a', ?_, hplaced, hdown, hmoved.trans hrearranged, fun j hj => ?_⟩
      · have hdown : slot (swap a (t >>> (k + 1)) t) (t >>> k) = childCell (a t) (t >>> k) := by
          rw [slot_child (by omega), hhalf, swap_left]
        rw [insertFrom_takes hthere hlt, ← hrun, swap_right, hdown]
      · rw [hafter j hj, swap_of_ne _ _ _ (by omega) (by omega)]
    · -- the slot keeps its thread, and the descent goes on towards `t`
      obtain ⟨q', a', hrun, hplaced, hdown, hrearranged, hafter⟩ :=
        ih q a (by omega) hwaits (hpath.step_stay hlt)
      exact ⟨q', a', by rw [insertFrom_stays hthere hlt, ← hrun, hnext],
        hplaced, hdown, hrearranged,
        hafter⟩

/-- The first digit of a position is the root, so the way from the root has a digit less
than the position. -/
theorem shiftRight_bits (ht : 1 ≤ t) : t >>> (bits t - 1) = 1 := by
  rw [bits, if_neg (by omega), Nat.add_sub_cancel, Nat.shiftRight_eq_div_pow]
  have hle : 2 ^ t.log2 ≤ t := Nat.log2_self_le (by omega)
  have hlt : t < 2 ^ (t.log2 + 1) := Nat.lt_log2_self
  rw [Nat.pow_succ] at hlt
  exact Nat.div_eq_of_lt_le (by omega) (by omega)

/-- `heap_insert` of a thread that is not in the heap, at the position after the last. -/
theorem heapInsert_last (h : Linked q a n) (hord : Ordered q.due a n)
    (hfresh : ∀ i, 1 ≤ i → i ≤ n → a i ≠ x) (hindex : q.heapIndex x = n + 1) :
    ∃ q' a', heapInsert q x = some (slot a' (n + 1), q') ∧ Linked q' a' (n + 1) ∧
      Ordered q'.due a' (n + 1) ∧
      Rearranged (n + 1) q (Function.update a (n + 1) x) q' a' := by
  have hold : ∀ i, i ≠ n + 1 → Function.update a (n + 1) x i = a i :=
    fun i hi => Function.update_of_ne hi x a
  have hnew : Function.update a (n + 1) x (n + 1) = x := Function.update_self ..
  generalize Function.update a (n + 1) x = b at hold hnew ⊢
  have hwaits : Waits q b (n + 1) (n + 1) := by
    refine ⟨fun j hj hjn hjt hpt => ?_, fun i hi hin hit => ?_, fun i j hi hin hj hjn heq => ?_⟩
    · rw [slot_congr (b := a) (Or.inr (hold _ hpt)), h.cells j hj (by omega)]
      unfold sits
      rw [hold j hjt]
      split
      · rw [if_pos (by omega)]
      · rw [if_neg (by omega)]
    · rw [hold i hit]
      exact h.index i hi (by omega)
    · -- the new thread is nowhere else in the heap
      by_cases hit : i = n + 1
      · by_cases hjt : j = n + 1
        · exact hit.trans hjt.symm
        · rw [hit, hnew, hold j hjt] at heq
          exact absurd heq.symm (hfresh j hj (by omega))
      · by_cases hjt : j = n + 1
        · rw [hjt, hnew, hold i hit] at heq
          exact absurd heq (hfresh i hi (by omega))
        · rw [hold i hit, hold j hjt] at heq
          exact h.injective i j hi (by omega) hj (by omega) heq
  have hord' : Ordered q.due b n := hord.congr (fun i _ hin => by rw [hold i (by omega)])
  have hroot : (n + 1) >>> (bits (n + 1) - 1) = 1 := shiftRight_bits (by omega)
  obtain ⟨q', a', hrun, hplaced, hdown, hrearranged, _⟩ :=
    insertFrom_placed (by omega) (bits (n + 1) - 1) q b (by omega) hwaits
      (hord'.path_last (by omega))
  rw [hroot, slot_one, hnew] at hrun
  refine ⟨q', a', ?_, ⟨fun j hj hjn => ?_, hplaced.index, hplaced.injective⟩,
    hdown.ordered (Or.inl (by omega)), hrearranged⟩
  · rw [heapInsert, hindex, hrun]
  · by_cases hpt : j / 2 = n + 1
    · -- the new last element has no children
      rw [slot_child (by omega), hpt, hplaced.bare, sits_of_lt (by omega)]
    · exact hplaced.cells j hj hjn hpt

/-! ## `heap_delete` -/

omit [DecidableEq Tid] in
/-- The walk along the digits of the size ends at the pointer to the last element. -/
theorem lastCell_slot (h : Linked q a n) (hsize : q.size = n) (k : Nat) (hk : 1 ≤ n >>> k) :
    lastCell q k (slot a (n >>> k)) = some (slot a n) := by
  induction k with
  | zero => rfl
  | succ k ih =>
    have hle : n >>> (k + 1) ≤ n := Nat.shiftRight_le n _
    have hhalf : n >>> k / 2 = n >>> (k + 1) := (Nat.shiftRight_succ n k).symm
    have hnext : slot a (n >>> k) = childCell (a (n >>> (k + 1))) (n >>> k) := by
      rw [slot_child (by omega), hhalf]
    rw [lastCell, h.cells _ hk (by omega), sits_of_le hle, hsize]
    simp only [Option.bind_eq_bind, Option.bind_some]
    rw [← childCell_digit, ← hnext]
    exact ih (by omega)

omit [DecidableEq Tid] in
/-- The left pointer of a thread in the heap leads to its left child's position. -/
theorem Linked.left (h : Linked q a n) {i : Nat} (hi : 1 ≤ i) (hin : i ≤ n) :
    q.cell (.left (a i)) = sits a n (2 * i) := by
  rw [← h.cells (2 * i) (by omega) (by omega), slot_child (by omega),
    show 2 * i / 2 = i by omega, childCell, if_pos (by omega)]

omit [DecidableEq Tid] in
/-- The right pointer leads to its right child's. -/
theorem Linked.right (h : Linked q a n) {i : Nat} (hi : 1 ≤ i) (hin : i ≤ n) :
    q.cell (.right (a i)) = sits a n (2 * i + 1) := by
  rw [← h.cells (2 * i + 1) (by omega) (by omega), slot_child (by omega),
    show (2 * i + 1) / 2 = i by omega, childCell, if_neg (by omega)]

omit [DecidableEq Tid] in
/-- The younger child as the code finds it, from the pointers, is the younger one by
position. -/
theorem youngerChild_eq (h : Linked q a n) {i : Nat} (hi : 1 ≤ i) (hchild : 2 * i ≤ n) :
    youngerChild q (a i) (a (2 * i)) = a (younger q.due a n i) := by
  unfold youngerChild younger
  rw [h.right hi (by omega), sits]
  by_cases hn : 2 * i + 1 ≤ n
  · rw [if_pos hn]
    by_cases hlt : q.due (a (2 * i)) < q.due (a (2 * i + 1))
    · rw [if_neg (fun hand => hand.2 hlt)]
      exact if_pos hlt
    · rw [if_pos ⟨hn, hlt⟩]
      exact if_neg hlt
  · rw [if_neg hn, if_neg (fun hand => hn hand.1)]

/-- What one turn of the loop changes, `y` being the left or the right child of `x`
as `j` is even or odd. -/
structure Exchanged (q : Sleepq Tid) (p : Cell Tid) (x y : Tid) (j : Nat)
    (q' : Sleepq Tid) : Prop where
  up : q'.cell p = some y
  children : ∀ k, q'.cell (childCell x k) = q.cell (childCell y k)
  siblings : ∀ k, q'.cell (childCell y k) =
    if k % 2 = j % 2 then some x else q.cell (childCell x k)
  others : ∀ c, c ≠ p → (∀ k, c ≠ childCell x k) → (∀ k, c ≠ childCell y k) → q'.cell c = q.cell c
  indexDown : q'.heapIndex x = q.heapIndex y
  indexUp : q'.heapIndex y = q.heapIndex x
  indexOthers : ∀ z, z ≠ x → z ≠ y → q'.heapIndex z = q.heapIndex z

/-- The two branches of the exchange as one: they differ by the side that the child is on. -/
theorem exchangeDown_eq {j : Nat} (hpx : ∀ k, p ≠ childCell x k)
    (hside : q.cell (.left x) = some y ↔ j % 2 = 0) :
    exchangeDown q p x y = (childCell y j,
      ((((q.set p (some y)).setChildren y (if j % 2 = 0 then some x else q.cell (.left x))
        (if j % 2 = 0 then q.cell (.right x) else some x)).setChildren x (q.cell (.left y))
        (q.cell (.right y))).setIndex x (q.heapIndex y)).setIndex y (q.heapIndex x)) := by
  have hleft : (q.set p (some y)).cell (.left x) = q.cell (.left x) :=
    set_cell_of_ne _ (fun heq => hpx 0 heq.symm)
  have hright : (q.set p (some y)).cell (.right x) = q.cell (.right x) :=
    set_cell_of_ne _ (fun heq => hpx 1 heq.symm)
  unfold exchangeDown childCell
  simp only [hleft, hright, hside]
  by_cases hj : j % 2 = 0
  · simp only [if_pos hj]
    rfl
  · simp only [if_neg hj]
    rfl

/-- What an exchange changes, and that it changes nothing else, whichever side it is on. -/
theorem exchangeDown_exchanged {j : Nat} (hxy : x ≠ y) (hpx : ∀ k, p ≠ childCell x k)
    (hpy : ∀ k, p ≠ childCell y k) (hside : q.cell (.left x) = some y ↔ j % 2 = 0) :
    ∃ q', exchangeDown q p x y = (childCell y j, q') ∧ Exchanged q p x y j q' ∧
      q'.due = q.due ∧ q'.size = q.size := by
  have hyx : ∀ k l, childCell y k ≠ childCell x l :=
    fun k l heq => hxy (childCell_eq_iff.mp heq).1.symm
  refine ⟨_, exchangeDown_eq hpx hside, ⟨?_, fun k => ?_, fun k => ?_, fun c hcp hcx hcy => ?_,
    ?_, ?_, fun z hzx hzy => ?_⟩, rfl, rfl⟩
  · -- the slot above holds the child now; the other cells are read off in the same way
    rw [setIndex_cell, setIndex_cell, setChildren_of_ne _ _ hpx, setChildren_of_ne _ _ hpy,
      set_cell_self]
  · rw [setIndex_cell, setIndex_cell, setChildren_child]
    unfold childCell
    split
    · rfl
    · rfl
  · rw [setIndex_cell, setIndex_cell, setChildren_of_ne _ _ (hyx k), setChildren_child]
    unfold childCell
    -- of the two children one is the thread that came down, the other its sibling
    rcases Nat.mod_two_eq_zero_or_one k with hk | hk
    · simp only [hk, if_pos]
      exact if_congr eq_comm rfl rfl
    · rcases Nat.mod_two_eq_zero_or_one j with hj | hj
      · simp [hk, hj]
      · simp [hk, hj]
  · rw [setIndex_cell, setIndex_cell, setChildren_of_ne _ _ hcx, setChildren_of_ne _ _ hcy,
      set_cell_of_ne _ hcp]
  · exact (setIndex_of_ne _ hxy).trans (setIndex_self _)
  · exact setIndex_self _
  · exact (setIndex_of_ne _ hzy).trans (setIndex_of_ne _ hzx)

omit [DecidableEq Tid] in
/-- An exchange with the child at position `j` is an exchange of the positions. -/
theorem Linked.exchanged {i j : Nat} {q' : Sleepq Tid} (h : Linked q a n) (hj : 2 ≤ j) (hjn : j ≤ n)
    (hji : j / 2 = i) (hx : Exchanged q (slot a i) (a i) (a j) j q') :
    Linked q' (swap a i j) n := by
  have hin : 1 ≤ i ∧ i ≤ n := by omega
  have hjn' : 1 ≤ j ∧ j ≤ n := by omega
  refine ⟨fun k hk hkn => ?_, fun k hk hkn => ?_, h.injective.swap hin hjn'⟩
  · by_cases hki : k / 2 = i
    · -- the children of `i`, which are now those of the thread that was at `j`
      rw [slot_child (by omega), hki, swap_left, hx.siblings]
      by_cases hkj : k = j
      · rw [if_pos (by rw [hkj]), hkj, sits_of_le hjn, swap_right]
      · rw [if_neg (by omega), sits_swap (by omega) hkj, ← h.cells k hk hkn,
          slot_child (by omega), hki]
    · -- the children of `j` go over to the thread that comes down
      by_cases hkj : k / 2 = j
      · rw [slot_child (by omega), hkj, swap_right, hx.children, sits_swap (by omega) (by omega),
          ← h.cells k hk hkn, slot_child (by omega), hkj]
      · -- all other slots are as they were
        rw [slot_swap (Or.inr ⟨hki, hkj⟩)]
        by_cases heq : k = i
        · rw [heq, hx.up, sits_of_le hin.2, swap_left]
        · rw [sits_swap heq (fun hkj' => hki (hkj' ▸ hji)), ← h.cells k hk hkn]
          exact hx.others _ (slot_ne h.injective hk hkn hin.1 (by omega) heq)
            (fun _ => slot_ne_child h.injective hin hk hkn hki)
            (fun _ => slot_ne_child h.injective hjn' hk hkn hkj)
  · by_cases hki : k = i
    · rw [hki, swap_left, hx.indexUp, h.index i hin.1 hin.2]
    · by_cases hkj : k = j
      · rw [hkj, swap_right, hx.indexDown, h.index j hjn'.1 hjn'.2]
      · rw [swap_of_ne _ _ _ hki hkj, hx.indexOthers _ (h.injective.ne ⟨hk, hkn⟩ hin hki)
          (h.injective.ne ⟨hk, hkn⟩ hjn' hkj)]
        exact h.index k hk hkn

/-- One turn of the loop: the two positions are exchanged in the heap that the pointers are
those of. -/
theorem Linked.exchangeDown {i j : Nat} (h : Linked q a n) (hj : 2 ≤ j) (hjn : j ≤ n)
    (hji : j / 2 = i) :
    ∃ q', exchangeDown q (slot a i) (a i) (a j) = (slot (swap a i j) j, q') ∧
      Linked q' (swap a i j) n ∧ Rearranged n q a q' (swap a i j) := by
  have hin : 1 ≤ i ∧ i ≤ n := by omega
  have hjn' : 1 ≤ j ∧ j ≤ n := by omega
  -- a thread is the left child exactly at an even position
  have hside : q.cell (.left (a i)) = some (a j) ↔ j % 2 = 0 := by
    rw [h.left hin.1 hin.2, sits_of_le (by omega), Option.some.injEq]
    refine ⟨fun heq => ?_, fun heven => ?_⟩
    · have := h.injective _ _ (by omega) (by omega) hjn'.1 hjn'.2 heq
      omega
    · rw [show 2 * i = j by omega]
  obtain ⟨q', hcode, hx, hdue, hsize⟩ := exchangeDown_exchanged (p := slot a i)
    (h.injective.ne hin hjn' (by omega))
    (fun _ => slot_ne_child h.injective hin hin.1 (by omega) (by omega))
    (fun _ => slot_ne_child h.injective hjn' hin.1 (by omega) (by omega)) hside
  refine ⟨q', ?_, h.exchanged hj hjn hji hx, hdue, hsize, exists_swap hin hjn',
    fun z hz => ⟨fun k => ?_, ?_⟩⟩
  · rw [hcode, slot_child hj, hji, swap_left]
  · refine hx.others _ (fun heq => slot_ne_outside hz hin.1 (by omega) heq.symm) (fun l heq => ?_)
      (fun l heq => ?_)
    · exact hz i hin.1 hin.2 (childCell_eq_iff.mp heq).1.symm
    · exact hz j hjn'.1 hjn'.2 (childCell_eq_iff.mp heq).1.symm
  · exact hx.indexOthers z (hz i hin.1 hin.2).symm (hz j hjn'.1 hjn'.2).symm

/-- The loop ends with the heap in order: by induction on what is below the position, which
every turn makes less. -/
theorem reestablish_ordered (fuel : Nat) : ∀ (q : Sleepq Tid) (a : Nat → Tid) (i : Nat),
    n < i + fuel → 1 ≤ i → i ≤ n → Linked q a n → DownOrdered q.due a n i →
    ∃ q' a', reestablish fuel q (slot a i) (a i) = some q' ∧ Linked q' a' n ∧
      Ordered q'.due a' n ∧ Rearranged n q a q' a' := by
  induction fuel with
  | zero =>
    intro q a i hfuel _ hin
    omega
  | succ fuel ih =>
    intro q a i hfuel hi hin h hdown
    rw [reestablish, h.left hi hin]
    -- the induction is on the levels below `i`: without a child the heap is in order
    by_cases hleaf : n < 2 * i
    · rw [sits_of_lt hleaf]
      exact ⟨q, a, rfl, h, hdown.ordered (Or.inl hleaf), Rearranged.refl n q a⟩
    · rw [sits_of_le (by omega)]
      simp only
      rw [youngerChild_eq h hi (by omega)]
      -- the earlier child is due first: it comes up, and the same goes on below
      by_cases hlt : q.due (a (younger q.due a n i)) < q.due (a i)
      · obtain ⟨hyn, hyi⟩ := younger_bounds q.due a (Nat.not_lt.mp hleaf)
        obtain ⟨q', hcode, hlinked, hmoved⟩ := h.exchangeDown (by omega) hyn hyi
        have hdown' : DownOrdered q'.due (swap a i (younger q.due a n i)) n
            (younger q.due a n i) := by
          rw [hmoved.due]
          exact hdown.step hi (by omega) hlt
        obtain ⟨q'', a', hrun, hlinked', hord, hrearranged⟩ :=
          ih q' _ _ (by omega) (by omega) hyn hlinked hdown'
        rw [swap_right] at hrun
        rw [if_pos hlt, hcode]
        exact ⟨q'', a', hrun, hlinked', hord, hmoved.trans hrearranged⟩
      · -- the thread is due before both children, so the heap is in order here already
        rw [if_neg hlt]
        exact ⟨q, a, rfl, h, hdown.ordered (Or.inr (not_lt.mp hlt)), Rearranged.refl n q a⟩

/-- Without its last element the heap is one of a position less. -/
theorem Linked.unlinkLast (h : Linked q a (n + 1)) : Linked (q.unlink (slot a (n + 1))) a n := by
  refine ⟨fun j hj hjn => ?_, fun i hi hin => h.index i hi (by omega),
    fun i j hi hin hj hjn => h.injective i j hi (by omega) hj (by omega)⟩
  show (q.set (slot a (n + 1)) none).cell (slot a j) = sits a n j
  by_cases hlast : j = n + 1
  · rw [hlast, set_cell_self, sits_of_lt (by omega)]
  · rw [set_cell_of_ne _ (slot_ne h.injective hj (by omega) (by omega) (by omega) hlast),
      h.cells j hj (by omega)]
    unfold sits
    exact if_congr (by omega) rfl rfl

/-- The unlinked last element, with the index of position `t`, waits to come to that
position. -/
theorem Linked.lastWaits (h : Linked q a n)
    (hlast : ∀ i, 1 ≤ i → i ≤ n → a i ≠ a (n + 1)) :
    Waits (q.setIndex (a (n + 1)) t) (swap a t (n + 1)) n t := by
  have hother : ∀ j, j ≤ n → j ≠ t → swap a t (n + 1) j = a j :=
    fun j hjn hjt => swap_of_ne _ _ _ hjt (by omega)
  refine ⟨fun j hj hjn hjt hpt => ?_, fun i hi hin hit => ?_, fun i j hi hin hj hjn heq => ?_⟩
  · -- the last place is off the heap now, and its thread waits at `t`
    rw [setIndex_cell, slot_swap (Or.inr ⟨hpt, by omega⟩), h.cells j hj hjn]
    unfold sits
    split
    · rw [hother j (by assumption) hjt]
    · rfl
  · rw [hother i hin hit, setIndex_of_ne _ (hlast i hi hin)]
    exact h.index i hi hin
  · -- the last thread comes to `t` only, and was nowhere below
    by_cases hit : i = t
    · by_cases hjt : j = t
      · exact hit.trans hjt.symm
      · rw [hit, swap_left, hother j hjn hjt] at heq
        exact absurd heq.symm (hlast j hj hjn)
    · by_cases hjt : j = t
      · rw [hjt, swap_left, hother i hin hit] at heq
        exact absurd heq (hlast i hi hin)
      · rw [hother i hin hit, hother j hjn hjt] at heq
        exact h.injective i j hi hin hj hjn heq

/-- The children of the thread that goes are given to the one that has come in its place. -/
theorem Placed.adopt (h : Placed q a n t) (ht : 1 ≤ t ∧ t ≤ n)
    (hchildren : ∀ j, j / 2 = t → q.cell (childCell x j) = sits a n j) :
    Linked (q.adopt (a t) x) a n := by
  refine ⟨fun j hj hjn => ?_, h.index, h.injective⟩
  by_cases hpt : j / 2 = t
  · rw [slot_child (by omega), hpt, adopt_child, hchildren j hpt]
  · rw [adopt_of_ne (fun _ => slot_ne_child h.injective ht hj hjn hpt)]
    exact h.cells j hj hjn hpt

/-- A thread that is out of the heap may be left bare. -/
theorem Linked.bare (h : Linked q a n) (hx : ∀ i, 1 ≤ i → i ≤ n → a i ≠ x) :
    Linked (q.bare x) a n := by
  refine ⟨fun j hj hjn => ?_, h.index, h.injective⟩
  rw [bare_of_ne (fun _ => slot_ne_outside hx hj hjn)]
  exact h.cells j hj hjn

/-- The insertion of the last element goes its way from the root to the place of the thread
that goes. -/
theorem heapInsert_replaces (h : Linked q a n) (hord : Ordered q.due a (n + 1))
    (ht : 1 ≤ t ∧ t ≤ n) (hlast : ∀ i, 1 ≤ i → i ≤ n → a i ≠ a (n + 1)) :
    ∃ q' a', heapInsert (q.setIndex (a (n + 1)) t) (a (n + 1)) = some (slot a' t, q') ∧
      Placed q' a' n t ∧ DownOrdered q'.due a' n t ∧
      Rearranged n (q.setIndex (a (n + 1)) t) (swap a t (n + 1)) q' a' ∧
      ∀ j, t < j → j ≤ n → a' j = a j := by
  have hroot : t >>> (bits t - 1) = 1 := shiftRight_bits ht.1
  obtain ⟨q', a', hrun, hplaced, hdown, hmoved, hafter⟩ :=
    insertFrom_placed ht (bits t - 1) _ _ (by omega) (h.lastWaits hlast)
      (hord.path_removed ht.1 ht.2 (by omega))
  rw [hroot, slot_one, swap_left] at hrun
  refine ⟨q', a', ?_, hplaced, hdown, hmoved, fun j hj hjn => ?_⟩
  · rw [heapInsert, setIndex_self, hrun]
  · rw [hafter j hj, swap_of_ne _ _ _ (by omega) (by omega)]

/-- `heap_delete` of the thread at position `t`: the others are linked and in order without
it. -/
theorem heapDelete_linked (h : Linked q a (n + 1)) (hord : Ordered q.due a (n + 1))
    (hsize : q.size = n + 1) (ht : 1 ≤ t ∧ t ≤ n + 1) :
    ∃ q' a', heapDelete q (a t) = some q' ∧ Linked q' a' n ∧ Ordered q'.due a' n ∧
      q'.due = q.due ∧ q'.size = n ∧
      ∀ x, (∃ k, (1 ≤ k ∧ k ≤ n) ∧ a' k = x) ↔ x ≠ a t ∧ ∃ k, (1 ≤ k ∧ k ≤ n + 1) ∧ a k = x := by
  have hwalk : lastCell q (bits q.size - 1) .sleepq = some (slot a (n + 1)) := by
    have hroot : (n + 1) >>> (bits (n + 1) - 1) = 1 := shiftRight_bits (by omega)
    have hend := lastCell_slot h hsize (bits (n + 1) - 1) (by omega)
    rw [hroot, slot_one] at hend
    rw [hsize, hend]
  have hlast : q.cell (slot a (n + 1)) = some (a (n + 1)) := by
    rw [h.cells _ (by omega) (by omega), sits_of_le (le_refl _)]
  have hunlinked := h.unlinkLast
  have hfresh : ∀ i, 1 ≤ i → i ≤ n → a i ≠ a (n + 1) :=
    fun i hi hin => h.injective.ne ⟨hi, by omega⟩ (by omega) (by omega)
  have hindex : (q.unlink (slot a (n + 1))).heapIndex (a t) = t := h.index t ht.1 ht.2
  have hsize' : (q.unlink (slot a (n + 1))).size = n := by
    rw [Sleepq.unlink, hsize, Nat.add_sub_cancel]
  have hdue : (q.unlink (slot a (n + 1))).due = q.due := rfl
  rw [heapDelete, hwalk]
  simp only [Option.bind_eq_bind, Option.bind_some, hlast, hindex]
  generalize q.unlink (slot a (n + 1)) = q₀ at hunlinked hsize' hdue ⊢
  by_cases hcase : t = n + 1
  · rw [hcase, if_neg (not_not.mpr rfl)]
    exact ⟨_, a, rfl, hunlinked.bare hfresh, hdue.symm ▸ hord.shrink (by omega), hdue, hsize',
      h.injective.exists_init⟩
  · have htn : 1 ≤ t ∧ t ≤ n := by omega
    obtain ⟨q₁, a₁, hrun, hplaced, hdown, hmoved, hafter⟩ :=
      heapInsert_replaces hunlinked (hdue.symm ▸ hord) htn hfresh
    have hthreads : ∀ x, (∃ k, (1 ≤ k ∧ k ≤ n) ∧ a₁ k = x) ↔
        x ≠ a t ∧ ∃ k, (1 ≤ k ∧ k ≤ n + 1) ∧ a k = x := by
      intro x
      have hinit := (h.injective.swap (i := t) (j := n + 1) ht (by omega)).exists_init x
      rw [swap_right] at hinit
      exact (hmoved.threads x).trans (hinit.trans (and_congr Iff.rfl (exists_swap ht (by omega) x)))
    have hthere : q₁.cell (slot a₁ t) = some (a₁ t) := by
      rw [hplaced.cells t htn.1 (by omega) (by omega), sits_of_le htn.2]
    -- the pointers of the thread that is deleted still are those of its place
    have hchildren : ∀ j, j / 2 = t → q₁.cell (childCell (a t) j) = sits a₁ n j := by
      intro j hj
      have hout : ∀ k, 1 ≤ k → k ≤ n → swap a t (n + 1) k ≠ a t := by
        intro k hk hkn heq
        have := (h.injective.swap (i := t) (j := n + 1) ht (by omega)) k (n + 1) hk (by omega)
          (by omega) (by omega) (heq.trans (swap_right a t (n + 1)).symm)
        omega
      rw [(hmoved.outside (a t) hout).1 j, setIndex_cell, ← hj, ← slot_child (by omega),
        hunlinked.cells j (by omega) (by omega)]
      unfold sits
      split
      · rw [hafter j (by omega) (by assumption)]
      · rfl
    obtain ⟨q₂, a₂, hrun', hlinked, hord', hmoved'⟩ := reestablish_ordered (n + 1) _ a₁ t (by omega)
      htn.1 htn.2 (hplaced.adopt htn hchildren) hdown
    rw [if_pos (hfresh t htn.1 htn.2).symm, hrun]
    simp only [Option.bind_some, hthere]
    have hsize₁ : q₁.size = n := hmoved.size.trans hsize'
    rw [hsize₁, hrun']
    have hthreads' := fun x => (hmoved'.threads x).trans (hthreads x)
    refine ⟨_, a₂, rfl, hlinked.bare (fun k hk hkn heq => ?_), hord',
      hmoved'.due.trans (hmoved.due.trans hdue), hmoved'.size.trans hsize₁, hthreads'⟩
    exact ((hthreads' (a t)).mp ⟨k, ⟨hk, hkn⟩, heq⟩).1 rfl

/-! ## The heap as a set of threads -/

/-- The heap is linked and in order, and `s` are the threads in it. -/
def Sleepq.Holds (q : Sleepq Tid) (s : Set Tid) : Prop :=
  ∃ a, Linked q a q.size ∧ Ordered q.due a q.size ∧
    ∀ x, (∃ k, (1 ≤ k ∧ k ≤ q.size) ∧ a k = x) ↔ x ∈ s

omit [DecidableEq Tid] in
/-- The root is `NULL` if nobody waits, and otherwise the thread that is due first. -/
theorem Sleepq.Holds.root {s : Set Tid} (h : q.Holds s) : (q.cell .sleepq = none ∧ s = ∅) ∨
    ∃ t ∈ s, q.cell .sleepq = some t ∧ ∀ x ∈ s, q.due t ≤ q.due x := by
  obtain ⟨a, hlinked, hord, hs⟩ := h
  have hroot : q.cell .sleepq = sits a q.size 1 := by
    rw [← hlinked.cells 1 (le_refl _) (Nat.zero_le _), slot_one]
  rcases Nat.eq_zero_or_pos q.size with hzero | hpos
  · refine Or.inl ⟨by rw [hroot, hzero, sits_of_lt Nat.one_pos], Set.eq_empty_of_forall_notMem ?_⟩
    intro x hx
    obtain ⟨k, hk, -⟩ := (hs x).mpr hx
    omega
  · refine Or.inr ⟨a 1, (hs _).mp ⟨1, by omega, rfl⟩, by rw [hroot, sits_of_le hpos], ?_⟩
    intro x hx
    obtain ⟨k, hk, rfl⟩ := (hs x).mpr hx
    exact hord.root_le k hk.1 hk.2

omit [DecidableEq Tid] in
/-- A heap without an element, as `st_init` leaves it. -/
theorem holds_empty (x : Tid) (hroot : q.cell .sleepq = none) (hsize : q.size = 0) :
    q.Holds ∅ := by
  refine ⟨fun _ => x, ⟨fun j hj hjn => ?_, ?_, ?_⟩, ?_, ?_⟩
  · rw [show j = 1 by omega, slot_one, hroot, sits_of_lt (by omega)]
  · omega
  · intro i j hi hin
    omega
  · intro i hi hin
    omega
  · intro y
    simp only [hsize, Set.mem_empty_iff_false, iff_false]
    intro hk
    obtain ⟨k, hk, -⟩ := hk
    omega

/-- To insert a thread that is not there succeeds, and the heap then holds it as well, at
its due time. -/
theorem Sleepq.Holds.insert {s : Set Tid} (h : q.Holds s) (hx : x ∉ s) (due : Nat) :
    ∃ p q', heapInsert (q.enter x due) x = some (p, q') ∧ q'.Holds (insert x s) ∧
      q'.due = Function.update q.due x due ∧ q'.size = q.size + 1 := by
  obtain ⟨a, hlinked, hord, hs⟩ := h
  have hfresh : ∀ i, 1 ≤ i → i ≤ q.size → a i ≠ x :=
    fun i hi hin heq => hx ((hs x).mp ⟨i, ⟨hi, hin⟩, heq⟩)
  have hlinked' : Linked (q.enter x due) a q.size :=
    ⟨hlinked.cells, fun i hi hin => (setIndex_of_ne _ (hfresh i hi hin)).trans
      (hlinked.index i hi hin), hlinked.injective⟩
  have hord' : Ordered (q.enter x due).due a q.size :=
    hord.congr fun i hi hin =>
      show Function.update q.due x due (a i) = q.due (a i) from
        Function.update_of_ne (hfresh i hi hin) due q.due
  obtain ⟨q', a', hrun, hin, hordered, hmoved⟩ :=
    heapInsert_last hlinked' hord' hfresh (setIndex_self _)
  have hsize : q'.size = q.size + 1 := hmoved.size
  refine ⟨_, q', hrun, ⟨a', hsize ▸ hin, hsize ▸ hordered, fun y => ?_⟩, hmoved.due, hsize⟩
  rw [hsize, hmoved.threads y]
  -- the threads are those that were there, and the new one behind them
  constructor
  · intro hk
    obtain ⟨k, hk, hky⟩ := hk
    by_cases hlast : k = q.size + 1
    · rw [hlast, Function.update_self] at hky
      exact Or.inl hky.symm
    · rw [Function.update_of_ne hlast] at hky
      exact Or.inr ((hs y).mp ⟨k, by omega, hky⟩)
  · intro hy
    rcases hy with rfl | hy
    · exact ⟨q.size + 1, by omega, Function.update_self ..⟩
    · obtain ⟨k, hk, hky⟩ := (hs y).mpr hy
      exact ⟨k, by omega, by rw [Function.update_of_ne (by omega), hky]⟩

/-- To delete a thread that is there succeeds, and the heap then holds the others. -/
theorem Sleepq.Holds.delete {s : Set Tid} (h : q.Holds s) (hx : x ∈ s) :
    ∃ q', heapDelete q x = some q' ∧ q'.Holds (s \ {x}) ∧
      q'.due = q.due ∧ q'.size + 1 = q.size := by
  obtain ⟨a, hlinked, hord, hs⟩ := h
  obtain ⟨t, ht, rfl⟩ := (hs x).mpr hx
  obtain ⟨n, hn⟩ : ∃ n, q.size = n + 1 := ⟨q.size - 1, by omega⟩
  rw [hn] at hlinked hord hs ht
  obtain ⟨q', a', hrun, hin, hordered, hdue, hsize, hthreads⟩ :=
    heapDelete_linked hlinked hord hn ht
  refine ⟨q', hrun, ⟨a', hsize ▸ hin, hsize ▸ hordered, fun y => ?_⟩, hdue, by omega⟩
  rw [hsize, hthreads y, hs y]
  exact And.comm

end

end RtmpServer.Sched
