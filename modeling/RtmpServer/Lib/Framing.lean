/-!
# Cutting a payload into frames

`frame` writes a payload in pieces of at most `size` elements, the first
behind a header and every later one behind a separator. It is what a writer
of such frames has to produce.

`unframe` is what a reader of such frames makes of any input, the one it was
written for or not. `unframe_length` says how much a reader takes, whatever it
is given.
-/

namespace Framing

variable {α : Type}

/-- `hdr` and the first `size` elements, then `sep` and the next `size`, and
so on to the end of `payload`. -/
def frame (sep : List α) (size : Nat) (hdr payload : List α) : List α :=
  if _h : size = 0 ∨ payload.length ≤ size then hdr ++ payload
  else hdr ++ payload.take size ++ frame sep size sep (payload.drop size)
termination_by payload.length
decreasing_by
  have : size ≠ 0 ∧ size < payload.length := by omega
  simp only [List.length_drop]
  omega

/-- A payload that fits is one frame, and no separator is written. -/
theorem frame_short {sep hdr payload : List α} {size : Nat} (h : payload.length ≤ size) :
    frame sep size hdr payload = hdr ++ payload := by
  rw [frame, dif_pos (Or.inr h)]

/-- A payload that does not fit is a full frame and the frames of the rest. -/
theorem frame_long {sep hdr payload : List α} {size : Nat} (h0 : 0 < size)
    (h : size < payload.length) :
    frame sep size hdr payload
      = hdr ++ payload.take size ++ frame sep size sep (payload.drop size) := by
  rw [frame, dif_neg (by omega)]

/-- The header only stands in front: the frames behind it are those without a header. -/
theorem frame_hdr (sep : List α) (size : Nat) (hdr payload : List α) :
    frame sep size hdr payload = hdr ++ frame sep size [] payload := by
  rcases Nat.eq_zero_or_pos size with h0 | h0
  · rw [frame, dif_pos (Or.inl h0), frame, dif_pos (Or.inl h0)]
    rfl
  · rcases Nat.lt_or_ge size payload.length with h | h
    · rw [frame_long h0 h, frame_long h0 h]
      simp [List.append_assoc]
    · rw [frame_short h, frame_short h]
      rfl

/-- What is left of the frames when `k` elements of the payload are written. -/
def framesFrom (sep : List α) (size : Nat) (hdr payload : List α) (k : Nat) : List α :=
  if k = 0 then frame sep size hdr payload
  else if payload.length ≤ k then []
  else frame sep size sep (payload.drop k)

/-- Before anything is written all the frames are left, the header with them. -/
theorem framesFrom_zero (sep : List α) (size : Nat) (hdr payload : List α) :
    framesFrom sep size hdr payload 0 = frame sep size hdr payload :=
  if_pos rfl

/-- Once the whole payload is written, nothing of the frames is left. -/
theorem framesFrom_end {sep hdr payload : List α} {size k : Nat} (h0 : 0 < k)
    (h : payload.length ≤ k) : framesFrom sep size hdr payload k = [] := by
  rw [framesFrom, if_neg (by omega), if_pos h]

/-- The next frame, cut where the payload ends or the frame is full, and what is left behind
it. -/
theorem framesFrom_step {sep hdr payload : List α} {size k : Nat} (h0 : 0 < size)
    (hk : k < payload.length) :
    framesFrom sep size hdr payload k
      = (if k = 0 then hdr else sep) ++ ((payload.drop k).take size
        ++ framesFrom sep size hdr payload (k + min (payload.length - k) size)) := by
  -- one frame from position `k`, whatever stands in front of it
  have hstep : ∀ front, frame sep size front (payload.drop k) = front ++ ((payload.drop k).take size
      ++ framesFrom sep size hdr payload (k + min (payload.length - k) size)) := by
    intro front
    have hlen : (payload.drop k).length = payload.length - k := List.length_drop
    rcases Nat.lt_or_ge size (payload.length - k) with h | h
    · rw [frame_long h0 (by omega), framesFrom, if_neg (by omega), if_neg (by omega),
        List.drop_drop, List.append_assoc, Nat.min_eq_right (by omega)]
    · rw [frame_short (by omega), framesFrom_end (by omega) (by omega), List.append_nil,
        List.take_of_length_le (by omega)]
  rcases Nat.eq_zero_or_pos k with hzero | hpos
  · subst hzero
    rw [framesFrom_zero, if_pos rfl]
    exact hstep hdr
  · rw [framesFrom, if_neg (by omega), if_neg (by omega), if_neg (by omega)]
    exact hstep sep

/-! ## The payload parts of the frames -/

/-- The pieces of at most `size` elements that a payload is cut into. -/
def pieces (size : Nat) (payload : List α) : List (List α) :=
  if _h : size = 0 ∨ payload = [] then []
  else payload.take size :: pieces size (payload.drop size)
termination_by payload.length
decreasing_by
  have hpos : 0 < payload.length := List.length_pos_iff.mpr fun h => _h (Or.inr h)
  have hsize : size ≠ 0 := fun h => _h (Or.inl h)
  rw [List.length_drop]
  omega

/-- An empty payload has no pieces at all, though it has a frame. -/
theorem pieces_nil (size : Nat) : pieces size ([] : List α) = [] := by
  rw [pieces, dif_pos (Or.inr rfl)]

/-- The first piece of a payload, as long as the size takes it, and the pieces of the rest. -/
theorem pieces_step {size : Nat} {payload : List α} (h0 : 0 < size) (hne : payload ≠ []) :
    pieces size payload = payload.take size :: pieces size (payload.drop size) := by
  rw [pieces, dif_neg]
  intro h
  rcases h with h | h
  · omega
  · exact hne h

/-- Every element is in one piece, and the pieces are in the order of the payload. -/
theorem pieces_flatten {size : Nat} (h0 : 0 < size) (payload : List α) :
    (pieces size payload).flatten = payload := by
  induction hn : payload.length using Nat.strongRecOn generalizing payload with
  | ind n ih =>
    by_cases hne : payload = []
    · rw [hne, pieces_nil, List.flatten_nil]
    · have hpos : 0 < payload.length := List.length_pos_iff.mpr hne
      have hlt : (payload.drop size).length < n := by
        rw [List.length_drop]
        omega
      rw [pieces_step h0 hne, List.flatten_cons, ih _ hlt _ rfl, List.take_append_drop]

/-- A frame is a header with the first piece, and the other pieces, each behind
a separator. -/
theorem frame_eq_pieces {sep : List α} {size : Nat} (h0 : 0 < size) (hdr payload : List α) :
    frame sep size hdr payload = hdr ++ payload.take size
      ++ ((pieces size (payload.drop size)).map (sep ++ ·)).flatten := by
  induction hn : payload.length using Nat.strongRecOn generalizing hdr payload with
  | ind n ih =>
    rcases Nat.lt_or_ge size payload.length with hlong | hshort
    · have hne : payload.drop size ≠ [] := by
        intro h
        have hlen := List.drop_eq_nil_iff.mp h
        omega
      have hlt : (payload.drop size).length < n := by
        rw [List.length_drop]
        omega
      rw [frame_long h0 hlong, pieces_step h0 hne, ih _ hlt _ _ rfl, List.map_cons,
        List.flatten_cons]
    · rw [frame_short hshort, List.drop_eq_nil_of_le hshort, pieces_nil,
        List.take_of_length_le hshort]
      simp

/-! ## How long they are -/

/-- The number of pieces: one for each full size, and one more for what is left. -/
theorem pieces_length {size : Nat} (h0 : 0 < size) (payload : List α) :
    (pieces size payload).length = (payload.length + (size - 1)) / size := by
  induction hn : payload.length using Nat.strongRecOn generalizing payload with
  | ind n ih =>
    by_cases hne : payload = []
    · have hzero : n = 0 := by rw [← hn, hne, List.length_nil]
      rw [hne, pieces_nil, List.length_nil, hzero, Nat.zero_add,
        Nat.div_eq_of_lt (Nat.sub_one_lt_of_lt h0)]
    · have hpos : 0 < payload.length := List.length_pos_iff.mpr hne
      have hdrop : (payload.drop size).length = n - size := by rw [List.length_drop, hn]
      rw [pieces_step h0 hne, List.length_cons, ih _ (by omega) _ hdrop]
      rcases Nat.lt_or_ge n size with hlt | hge
      · have hzero : n - size = 0 := by omega
        have hone : n + (size - 1) = size + (n - 1) := by omega
        rw [hzero, Nat.zero_add, Nat.div_eq_of_lt (Nat.sub_one_lt_of_lt h0), hone,
          Nat.add_div_left _ h0, Nat.div_eq_of_lt (by omega)]
      · have hmore : n + (size - 1) = n - size + (size - 1) + size := by omega
        rw [hmore, Nat.add_div_right _ h0]

/-- Every piece comes with one separator, so their bytes are those of the pieces and one
separator's each. -/
theorem separated_length (sep : List α) (ls : List (List α)) :
    ((ls.map (sep ++ ·)).flatten).length = ls.flatten.length + sep.length * ls.length := by
  induction ls with
  | nil => rfl
  | cons l ls ih =>
    simp only [List.map_cons, List.flatten_cons, List.length_append, List.length_cons, ih,
      Nat.mul_succ]
    omega

/-- Behind the header, a payload takes its own length and a separator for each
piece but the first. -/
theorem frame_length {sep : List α} {size : Nat} (h0 : 0 < size) (hdr payload : List α) :
    (frame sep size hdr payload).length = hdr.length + payload.length
      + sep.length * ((payload.length - size + (size - 1)) / size) := by
  rw [frame_eq_pieces h0, List.length_append, separated_length, pieces_flatten h0,
    pieces_length h0, List.length_append, List.length_take, List.length_drop]
  omega

/-! ## Reading frames -/

/-- The `n` elements of a payload in frames of `size`, and what is left of the
input: every later frame loses its first element, whatever it is. -/
def unframe (size n : Nat) (input : List α) : Option (List α × List α) :=
  if _h : size = 0 ∨ n ≤ size then
    if n ≤ input.length then some (input.take n, input.drop n) else none
  else
    (unframe size (n - size) (input.drop (size + 1))).map fun r => (input.take size ++ r.1, r.2)
termination_by n

/-- What a reader does when `n` elements are still to come and `input` starts
with the next frame's separator. -/
def unframeNext (size n : Nat) (input : List α) : Option (List α × List α) :=
  if n = 0 then some ([], input) else unframe size n (input.drop 1)

/-- One frame, and the next one, whose separator is skipped before it is read. -/
theorem unframe_step {size n : Nat} (h0 : 0 < size) {piece input : List α}
    (hpiece : piece.length = min n size) :
    unframe size n (piece ++ input)
      = (unframeNext size (n - piece.length) input).map fun r => (piece ++ r.1, r.2) := by
  rcases Nat.lt_or_ge size n with hlong | hshort
  · have hsize : piece.length = size := by omega
    have hdrop : (piece ++ input).drop (size + 1) = input.drop 1 := by
      rw [← List.drop_drop, List.drop_left' hsize]
    rw [unframe, dif_neg (by omega), hdrop, List.take_left' hsize, unframeNext, if_neg (by omega),
      hsize]
  · have hsize : piece.length = n := by omega
    rw [unframe, dif_pos (Or.inr hshort), if_pos (by rw [List.length_append]; omega),
      List.take_left' hsize, List.drop_left' hsize, unframeNext, if_pos (by omega)]
    simp

/-- A reader gets what it asked for, and takes a separator with every frame but
the first. -/
theorem unframe_length {size : Nat} (h0 : 0 < size) :
    ∀ {n : Nat} {input payload rest : List α}, unframe size n input = some (payload, rest) →
      payload.length = n ∧ input.length = n + (n - size + (size - 1)) / size + rest.length := by
  intro n
  induction n using Nat.strongRecOn with
  | ind n ih =>
    intro input payload rest h
    rw [unframe] at h
    by_cases hshort : n ≤ size
    · -- one chunk: there is no continuation, and the count of them is 0
      rw [dif_pos (Or.inr hshort)] at h
      by_cases hle : n ≤ input.length
      · rw [if_pos hle, Option.some.injEq, Prod.mk.injEq] at h
        obtain ⟨rfl, rfl⟩ := h
        have hzero : (n - size + (size - 1)) / size = 0 := Nat.div_eq_of_lt (by omega)
        rw [hzero, List.length_take, List.length_drop]
        omega
      · rw [if_neg hle] at h
        cases h
    · rw [dif_neg (by omega)] at h
      obtain ⟨⟨payload', rest'⟩, hrec, heq⟩ := Option.map_eq_some_iff.mp h
      rw [Prod.mk.injEq] at heq
      obtain ⟨rfl, rfl⟩ := heq
      obtain ⟨hlen, hinput⟩ := ih (n - size) (by omega) hrec
      rw [List.length_drop] at hinput
      -- the first chunk goes off, and one continuation header with it
      have hmore : n - size + (size - 1) = n - size - size + (size - 1) + size ∨
          n - size ≤ size := by omega
      have hdiv : (n - size + (size - 1)) / size
          = (n - size - size + (size - 1)) / size + 1 := by
        rcases hmore with hmore | hlast
        · rw [hmore, Nat.add_div_right _ h0]
        · have hone : n - size + (size - 1) = (n - size - 1) + size := by omega
          have hzero : n - size - size = 0 := by omega
          rw [hone, Nat.add_div_right _ h0, hzero, Nat.zero_add,
            Nat.div_eq_of_lt (Nat.sub_one_lt_of_lt h0), Nat.div_eq_of_lt (by omega)]
      dsimp only at hinput ⊢
      rw [hdiv]
      generalize (n - size - size + (size - 1)) / size = k at hinput
      have hlong : size + 1 ≤ input.length := by omega
      refine ⟨?_, by omega⟩
      rw [List.length_append, List.length_take, hlen]
      omega

/-- What a reader gets is as long as it was told, also where the frames have no size. -/
theorem unframe_payload_length {size n : Nat} {input payload rest : List α}
    (h : unframe size n input = some (payload, rest)) : payload.length = n := by
  rcases Nat.eq_zero_or_pos size with h0 | h0
  · -- without a frame size the payload is one frame
    rw [unframe, dif_pos (Or.inl h0)] at h
    by_cases hle : n ≤ input.length
    · rw [if_pos hle] at h
      cases h
      rw [List.length_take, Nat.min_eq_left hle]
    · rw [if_neg hle] at h
      cases h
  · exact (unframe_length h0 h).1

/-- Too short an input gives nothing: the reader still waits for more. -/
theorem unframe_short {size n : Nat} (h0 : 0 < size) {input : List α} (h : input.length < n) :
    unframe size n input = none := by
  cases hr : unframe size n input with
  | none => rfl
  | some r =>
    have hlen := (unframe_length h0 hr).2
    rw [hlen, Nat.add_assoc] at h
    exact absurd (Nat.le_add_right ..) (Nat.not_le.mpr h)

/-- The first frame has no separator in front of it: what an input of nothing but
frames begins with is what its payload begins with, as far as the frame goes. -/
theorem unframe_prefix {size n : Nat} {input payload front : List α}
    (h : unframe size n input = some (payload, [])) (hle : front.length ≤ size)
    (hfront : front <+: input) : front <+: payload := by
  rw [unframe] at h
  split at h
  · split at h
    · -- one frame is the whole input
      obtain ⟨hpayload, hrest⟩ := Prod.mk.inj (Option.some.inj h)
      rw [← List.take_append_drop n input, hpayload, hrest, List.append_nil] at hfront
      exact hfront
    · cases h
  · obtain ⟨r, -, heq⟩ := Option.map_eq_some_iff.mp h
    obtain ⟨hpayload, -⟩ := Prod.mk.inj heq
    rw [← hpayload]
    exact (List.prefix_take_iff.mpr ⟨hfront, hle⟩).trans (List.prefix_append ..)

/-- And so it is behind anything that stands in front of both, such as the header of the
first frame. -/
theorem unframe_prefix_append {size n : Nat} {input payload front behind : List α}
    (h : unframe size n input = some (payload, [])) (hle : front.length ≤ size)
    (hfront : front <+: behind ++ input) : front <+: behind ++ payload := by
  rcases List.prefix_or_prefix_of_prefix hfront (List.prefix_append behind input) with
    hshort | ⟨tail, htail⟩
  · exact hshort.trans (List.prefix_append ..)
  · subst htail
    rw [List.length_append] at hle
    rw [List.prefix_append_right_inj] at hfront ⊢
    exact unframe_prefix h (Nat.le_trans (Nat.le_add_left ..) hle) hfront

/-- Where an element of the payload stands in the input: each frame before its
own has put one separator in front of it. -/
theorem unframe_getElem? {size : Nat} (h0 : 0 < size) :
    ∀ {n : Nat} {input payload rest : List α}, unframe size n input = some (payload, rest) →
      ∀ {i : Nat}, i < n → payload[i]? = input[i + i / size]? := by
  intro n
  induction n using Nat.strongRecOn with
  | ind n ih =>
    intro input payload rest h i hi
    have hlen : n ≤ input.length := by
      rw [(unframe_length h0 h).2, Nat.add_assoc]
      exact Nat.le_add_right ..
    rw [unframe] at h
    by_cases hshort : n ≤ size
    · rw [dif_pos (Or.inr hshort), if_pos hlen, Option.some.injEq, Prod.mk.injEq] at h
      obtain ⟨rfl, rfl⟩ := h
      rw [List.getElem?_take_of_lt hi, Nat.div_eq_of_lt (by omega), Nat.add_zero]
    · rw [dif_neg (by omega)] at h
      obtain ⟨⟨payload', rest'⟩, hrec, heq⟩ := Option.map_eq_some_iff.mp h
      rw [Prod.mk.injEq] at heq
      obtain ⟨rfl, rfl⟩ := heq
      have hpiece : (input.take size).length = size := by
        rw [List.length_take]
        omega
      dsimp only
      -- the first chunk lies before every continuation header, the later ones behind one more
      rcases Nat.lt_or_ge i size with hfirst | hlater
      · rw [List.getElem?_append_left (by omega), List.getElem?_take_of_lt hfirst,
          Nat.div_eq_of_lt hfirst, Nat.add_zero]
      · have hdiv : i / size = (i - size) / size + 1 := by
          rw [← Nat.add_div_right _ h0, Nat.sub_add_cancel hlater]
        rw [List.getElem?_append_right (by omega), hpiece,
          ih (n - size) (by omega) hrec (by omega), List.getElem?_drop, hdiv]
        congr 1
        omega

/-- The elements that a reader of `n` skips between the frames, as far as the
input goes. -/
def separators (size n : Nat) (input : List α) : List α :=
  if _h : size = 0 ∨ n ≤ size then []
  else (input.drop size).take 1 ++ separators size (n - size) (input.drop (size + 1))
termination_by n

/-- Nothing is skipped where the payload comes in one frame. -/
theorem separators_short {size n : Nat} {input : List α} (h : size = 0 ∨ n ≤ size) :
    separators size n input = [] := by
  rw [separators, dif_pos h]

/-- A payload with these elements between its frames, one in front of every frame but the
first. -/
def weave (size : Nat) (payload : List α) : List α → List α
  | [] => payload
  | c :: cs => payload.take size ++ c :: weave size (payload.drop size) cs

/-- An input that is read is the payload with what is skipped, and the rest. -/
theorem unframe_weave {size : Nat} : ∀ {n : Nat} {input payload rest : List α},
    unframe size n input = some (payload, rest) →
      input = weave size payload (separators size n input) ++ rest := by
  intro n
  induction n using Nat.strongRecOn with
  | ind n ih =>
    intro input payload rest h
    have hpayload := unframe_payload_length h
    rw [unframe] at h
    by_cases hshort : size = 0 ∨ n ≤ size
    · rw [dif_pos hshort] at h
      by_cases hle : n ≤ input.length
      · rw [if_pos hle] at h
        cases h
        rw [separators_short hshort]
        exact (List.take_append_drop n input).symm
      · rw [if_neg hle] at h
        cases h
    · rw [dif_neg hshort] at h
      obtain ⟨⟨payload', rest'⟩, hrec, heq⟩ := Option.map_eq_some_iff.mp h
      cases heq
      have hmore := ih (n - size) (by omega) hrec
      have hpayload' := unframe_payload_length hrec
      have hpiece : (input.take size).length = size := by
        rw [List.length_append, hpayload'] at hpayload
        omega
      -- there is a separator, or no more would have been read
      have hsep : size < input.length := by
        refine Nat.lt_of_not_le fun hend => ?_
        have hnone : input.drop (size + 1) = [] := List.drop_eq_nil_of_le (by omega)
        rw [hnone, unframe_short (by omega) (by rw [List.length_nil]; omega)] at hrec
        cases hrec
      have hcons : input.drop size = input[size] :: input.drop (size + 1) :=
        List.drop_eq_getElem_cons hsep
      have hseparators : separators size n input
          = input[size] :: separators size (n - size) (input.drop (size + 1)) := by
        rw [separators, dif_neg hshort, hcons]
        rfl
      calc input = input.take size ++ input.drop size := (List.take_append_drop size input).symm
        _ = input.take size ++ input[size] :: (weave size payload'
              (separators size (n - size) (input.drop (size + 1))) ++ rest') := by
          rw [hcons, ← hmore]
        _ = weave size (input.take size ++ payload') (separators size n input) ++ rest' := by
          rw [hseparators, weave, List.take_left' hpiece, List.drop_left' hpiece,
            List.append_assoc, List.cons_append]

/-! ## Frames read in another size -/

/-- The first frame is the payload's own beginning, up to the size of a frame. -/
theorem frame_getElem?_first {sep : List α} {size i : Nat} {payload rest : List α} (h0 : 0 < size)
    (hi : i < size) (hlt : i < payload.length) :
    (frame sep size [] payload ++ rest)[i]? = payload[i]? := by
  rcases Nat.lt_or_ge size payload.length with hlong | hshort
  · have hpiece : (payload.take size).length = size := by
      rw [List.length_take]
      omega
    rw [frame_long h0 hlong, List.nil_append, List.append_assoc,
      List.getElem?_append_left (by omega), List.getElem?_take_of_lt hi]
  · rw [frame_short hshort, List.nil_append, List.getElem?_append_left hlt]

/-- Behind the first frame comes the separator, where the payload does not fit into that
frame. -/
theorem frame_getElem?_sep {c : α} {sep : List α} {size : Nat} {payload rest : List α}
    (h0 : 0 < size) (hlong : size < payload.length) :
    (frame (c :: sep) size [] payload ++ rest)[size]? = some c := by
  have hpiece : (payload.take size).length = size := by
    rw [List.length_take]
    omega
  rw [frame_long h0 hlong, List.nil_append, frame_hdr, List.append_assoc,
    List.getElem?_append_right (by omega), hpiece, Nat.sub_self]
  rfl

/-- The reader has skipped as much as the writer has put between the frames. -/
theorem separators_eq {sep : List α} {size size' : Nat} (h0 : 0 < size) (h0' : 0 < size')
    {payload rest : List α}
    (h : unframe size payload.length (frame sep size' [] payload ++ rest) = some (payload, rest)) :
    sep.length * ((payload.length - size' + (size' - 1)) / size')
      = (payload.length - size + (size - 1)) / size := by
  have hread := (unframe_length h0 h).2
  rw [List.length_append, frame_length h0', List.length_nil] at hread
  omega

/-- No separator is needed exactly when the payload fits into one frame. -/
theorem separators_zero {size n : Nat} (h0 : 0 < size) :
    (n - size + (size - 1)) / size = 0 ↔ n ≤ size := by
  constructor
  · intro h
    have hlt := Nat.lt_of_div_eq_zero h0 h
    omega
  · intro h
    exact Nat.div_eq_of_lt (by omega)

/-- Unless the sizes agree and the separators are of one element, or both sizes
take the payload in one frame, some payload of the length is not read as it was
written. -/
theorem exists_unframe_ne {c d d' : α} {sep : List α} {size size' n : Nat} (h0 : 0 < size)
    (h0' : 0 < size') (hne : ¬ (size' = size ∧ sep = [])) (hn : min size' size < n) (hd : d ≠ c)
    (hd' : d' ≠ c) (hdd : d' ≠ d) :
    ∃ payload : List α, payload.length = n ∧ ∀ rest,
      unframe size n (frame (c :: sep) size' [] payload ++ rest) ≠ some (payload, rest) := by
  -- one element stands out, where the receiver expects its first separator
  have hlen : ((List.replicate n d).set size d').length = n := by
    rw [List.length_set, List.length_replicate]
  have hother : ∀ {i}, i < n → i ≠ size → ((List.replicate n d).set size d')[i]? = some d := by
    intro i hi hisize
    rw [List.getElem?_set_ne (Ne.symm hisize), List.getElem?_replicate, if_pos hi]
  refine ⟨(List.replicate n d).set size d', hlen, fun rest h => ?_⟩
  generalize hpayload : (List.replicate n d).set size d' = payload at h hlen hother
  have hcount := separators_eq h0 h0' (hlen.symm ▸ h)
  rw [hlen, List.length_cons] at hcount
  by_cases hle : n ≤ size
  · rw [(separators_zero h0).mpr hle, Nat.mul_eq_zero, separators_zero h0'] at hcount
    omega
  by_cases hle' : n ≤ size'
  · rw [(separators_zero h0').mpr hle', Nat.mul_zero, eq_comm, separators_zero h0] at hcount
    exact hle hcount
  rcases Nat.lt_trichotomy size' size with hlt | heq | hgt
  · have hat := unframe_getElem? h0 h (i := size') (by omega)
    rw [Nat.div_eq_of_lt hlt, Nat.add_zero, frame_getElem?_sep h0' (by omega),
      hother (by omega) (by omega)] at hat
    exact hd (Option.some.inj hat)
  · -- the longer separators are counted
    subst heq
    have hmore : 0 < sep.length := List.length_pos_iff.mpr fun hnil => hne ⟨rfl, hnil⟩
    have hzero : (n - size' + (size' - 1)) / size' ≠ 0 := fun h => hle ((separators_zero h0).mp h)
    have htwice := Nat.mul_le_mul_right ((n - size' + (size' - 1)) / size') hmore
    rw [Nat.succ_mul] at hcount
    generalize (n - size' + (size' - 1)) / size' = k at hcount hzero htwice
    omega
  · have hat := unframe_getElem? h0 h (i := size) (by omega)
    have hout : payload[size]? = some d' := by
      rw [← hpayload, List.getElem?_set_self (by rw [List.length_replicate]; omega)]
    rw [Nat.div_self h0, hout] at hat
    rcases Nat.lt_or_ge (size + 1) size' with hmore | hend
    · rw [frame_getElem?_first h0' hmore (by omega), hother (by omega) (by omega)] at hat
      exact hdd (Option.some.inj hat)
    · have hsize : size + 1 = size' := by omega
      rw [hsize, frame_getElem?_sep h0' (by omega)] at hat
      exact hd' (Option.some.inj hat)

end Framing
