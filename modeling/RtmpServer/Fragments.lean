import RtmpServer.IoSocket

/-!
# Exact reads and the way the stream is split

What `readNbytesCycle` and `readNbytesCycleAv` do with the results of
`st_read_fully`, given as a list that is played back. As long as the counts add
up to what is missing, it does not matter how the bytes are split over the
calls; and a `-1` on the way leaves the buffer alone. The header and payload
readers get all their bytes through these loops.
-/

namespace RtmpServer

open Coroutine Coroutine.Prog

/-- One round of the loop of an exact read, which asks for what is missing and keeps what
comes. -/
def readRound (missing : Nat) (buffer : Bytes) : Routine (Bytes ⊕ (Int × Bytes)) :=
  if buffer.length < missing then do
    match ← stReadFully (missing - buffer.length) with
    | .error => return .inr (-1, buffer)
    | .data bytes _ =>
      if buffer.length + bytes.length < missing then return .inl (buffer ++ bytes)
      else return .inr (0, buffer ++ bytes)
  else return .inr (0, buffer)

theorem readCycle_eq_iter (missing : Nat) : readCycle missing = .iter (readRound missing) [] := rfl

/-- What the calls gave, one after the other, and what is recorded of them. -/
abbrev Results := List Answer × List (st.Call × Answer)

section

variable {s : State} {missing : Nat} {more : List Answer} {tr : List (st.Call × Answer)}

theorem wp_stReadFully_bytes {nbyte : Nat} {bytes : Bytes}
    {Q : ReadResult nbyte → State → Results → Prop} (h : bytes.length ≤ nbyte) :
    wp (replay answer) (stReadFully nbyte) Q s (.bytes bytes :: more, tr) ↔
      Q (.data bytes h) s (more, tr ++ [(.stReadFully nbyte, .bytes bytes)]) := by
  have hreplay : replay answer (Call.stReadFully nbyte) (.bytes bytes :: more, tr)
      = some (.data bytes h, more, tr ++ [(.stReadFully nbyte, .bytes bytes)]) := by
    simp [replay, answer, h]
  rw [wp_stReadFully, hreplay]
  refine ⟨fun hread => ?_, fun hq => ⟨_, _, rfl, hq⟩⟩
  obtain ⟨_, _, h, hq⟩ := hread
  cases h
  exact hq

theorem wp_stReadFully_error {nbyte : Nat} {Q : ReadResult nbyte → State → Results → Prop} :
    wp (replay answer) (stReadFully nbyte) Q s (.error :: more, tr) ↔
      Q .error s (more, tr ++ [(.stReadFully nbyte, .error)]) := by
  rw [wp_stReadFully]
  refine ⟨fun hread => ?_, fun hq => ⟨_, _, rfl, hq⟩⟩
  obtain ⟨_, _, h, hq⟩ := hread
  cases h
  exact hq

/-- A round that gets `bytes`, no more than it has asked for: it keeps them, and is done if
they are enough. -/
theorem wp_readRound_bytes {buffer bytes : Bytes}
    {Q : Bytes ⊕ (Int × Bytes) → State → Results → Prop} (hlt : buffer.length < missing)
    (hle : buffer.length + bytes.length ≤ missing) :
    wp (replay answer) (readRound missing buffer) Q s (.bytes bytes :: more, tr) ↔
      Q (if buffer.length + bytes.length < missing then .inl (buffer ++ bytes)
          else .inr (0, buffer ++ bytes)) s
        (more, tr ++ [(.stReadFully (missing - buffer.length), .bytes bytes)]) := by
  have hasked : bytes.length ≤ missing - buffer.length := by omega
  unfold readRound
  rw [if_pos hlt, bind_eq, wp_bind, wp_stReadFully_bytes hasked]
  by_cases hmore : buffer.length + bytes.length < missing
  · simp only [if_pos hmore, pure_eq, wp_ret]
  · simp only [if_neg hmore, pure_eq, wp_ret]

/-- A round that gets `-1`, which ends the read. -/
theorem wp_readRound_error {buffer : Bytes}
    {Q : Bytes ⊕ (Int × Bytes) → State → Results → Prop} (hlt : buffer.length < missing) :
    wp (replay answer) (readRound missing buffer) Q s (.error :: more, tr) ↔
      Q (.inr (-1, buffer)) s
        (more, tr ++ [(.stReadFully (missing - buffer.length), .error)]) := by
  unfold readRound
  rw [if_pos hlt, bind_eq, wp_bind, wp_stReadFully_error, pure_eq, wp_ret]

/-- The rounds from `buffer` on, when the counts add up to what is missing. -/
theorem wp_readRounds (fragments : List Bytes) :
    ∀ {buffer : Bytes} {tr : List (st.Call × Answer)}, buffer.length < missing →
      buffer.length + fragments.flatten.length = missing →
      wp (replay answer) (.iter (readRound missing) buffer)
        (fun r s' _ => r = (0, buffer ++ fragments.flatten) ∧ s' = s) s
        (fragments.map .bytes ++ more, tr) := by
  induction fragments with
  | nil =>
    intro buffer tr hlt hsum
    rw [List.flatten_nil, List.length_nil] at hsum
    omega
  | cons bytes fragments ih =>
    intro buffer tr hlt hsum
    rw [List.flatten_cons, List.length_append] at hsum
    rw [wp_iter, List.map_cons, List.cons_append, wp_readRound_bytes hlt (by omega)]
    by_cases hmore : buffer.length + bytes.length < missing
    · rw [if_pos hmore, List.flatten_cons, ← List.append_assoc]
      exact ih (by rwa [List.length_append]) (by rw [List.length_append]; omega)
    · -- nothing is missing any more, so nothing comes behind
      have hnil : fragments.flatten = [] := List.eq_nil_of_length_eq_zero (by omega)
      rw [if_neg hmore, List.flatten_cons, hnil, List.append_nil]
      exact wp_ret.mpr ⟨rfl, rfl⟩

/-- And when there is a `-1` before that, the read ends with it and has appended nothing. -/
theorem wp_readRounds_error (fragments : List Bytes) :
    ∀ {buffer : Bytes} {tr : List (st.Call × Answer)},
      buffer.length + fragments.flatten.length < missing →
      wp (replay answer) (.iter (readRound missing) buffer)
        (fun r s' _ => r = (-1, buffer ++ fragments.flatten) ∧ s' = s) s
        (fragments.map .bytes ++ .error :: more, tr) := by
  induction fragments with
  | nil =>
    intro buffer tr hsum
    rw [List.flatten_nil, List.length_nil] at hsum
    rw [wp_iter, List.map_nil, List.nil_append, wp_readRound_error hsum, List.flatten_nil,
      List.append_nil]
    exact wp_ret.mpr ⟨rfl, rfl⟩
  | cons bytes fragments ih =>
    intro buffer tr hsum
    rw [List.flatten_cons, List.length_append] at hsum
    rw [wp_iter, List.map_cons, List.cons_append, wp_readRound_bytes (by omega) (by omega),
      if_pos (by omega), List.flatten_cons, ← List.append_assoc]
    exact ih (by rw [List.length_append]; omega)

end

/-- An exact read of `nbytes` in all that is given `fragments`: if they add up to
what is missing, it appends them and says how many bytes that are; if a `-1` comes
before, it returns `-1` and the buffer is what it was. -/
structure ReadsExactly (b : Buffer) (cycle : Routine (Int × Nat)) (nbytes : Nat)
    (fragments : List Bytes) (s : State) : Prop where
  whole : (s.buffer b).length + fragments.flatten.length = nbytes → ∀ (more : List Answer)
    (tr : List (st.Call × Answer)), wp (replay answer) cycle (fun r s' _ =>
      r = (0, nbytes - (s.buffer b).length) ∧ s' = s.append b fragments.flatten) s
      (fragments.map .bytes ++ more, tr)
  failed : (s.buffer b).length + fragments.flatten.length < nbytes → ∀ (more : List Answer)
    (tr : List (st.Call × Answer)), wp (replay answer) cycle (fun r s' _ => r.1 = -1 ∧ s' = s) s
      (fragments.map .bytes ++ .error :: more, tr)

theorem readNbytesCycleOn_fragments (b : Buffer) {nbytes : Nat} (fragments : List Bytes) {s : State}
    (hlt : (s.buffer b).length < nbytes) :
    ReadsExactly b (readNbytesCycleOn b nbytes) nbytes fragments s := by
  constructor
  · intro hsum more tr
    have hcount : fragments.flatten.length = nbytes - (s.buffer b).length := by omega
    unfold readNbytesCycleOn
    rw [bind_eq, wp_bind, wp_gets, if_pos hlt, bind_eq, wp_bind, readCycle_eq_iter]
    refine wp_mono (wp_readRounds fragments (by rw [List.length_nil]; omega)
      (by rw [List.length_nil]; omega)) fun r s' e' ⟨hr, hs⟩ => ?_
    rw [hr, hs, List.nil_append, ← hcount]
    simp
  · intro hsum more tr
    unfold readNbytesCycleOn
    rw [bind_eq, wp_bind, wp_gets, if_pos hlt, bind_eq, wp_bind, readCycle_eq_iter]
    refine wp_mono (wp_readRounds_error fragments (by rw [List.length_nil]; omega))
      fun r s' e' ⟨hr, hs⟩ => ?_
    rw [hr, hs]
    simp

/-- Both exact reads do not depend on how the stream is split: what they append is what
came, in order, however many calls it took. -/
theorem readNbytesCycle_fragments (nbytes : Nat) (fragments : List Bytes) (s : State) :
    (s.client.ioBuffer.length < nbytes →
        ReadsExactly .ioBuffer (readNbytesCycle nbytes) nbytes fragments s) ∧
      (s.globals.audioVideoBuffer.length < nbytes →
        ReadsExactly .audioVideoBuffer (readNbytesCycleAv nbytes) nbytes fragments s) :=
  ⟨readNbytesCycleOn_fragments .ioBuffer fragments,
    readNbytesCycleOn_fragments .audioVideoBuffer fragments⟩

/-- Four bytes behind one, in three pieces, one of them empty; and the same read of
the other buffer when the last piece does not come. -/
theorem readNbytesCycle_fragments_three :
    wp (replay answer) (readNbytesCycle 5) (fun r s' _ => r = (0, 4) ∧
        s' = State.append { client := { ioBuffer := [1] } } .ioBuffer [2, 3, 4, 5])
      { client := { ioBuffer := [1] } } ([.bytes [2], .bytes [], .bytes [3, 4, 5]], []) ∧
    wp (replay answer) (readNbytesCycleAv 5) (fun r s' _ => r.1 = -1 ∧
        s' = { client := { ioBuffer := [1] } })
      { client := { ioBuffer := [1] } } ([.bytes [2], .bytes [], .error], []) :=
  ⟨((readNbytesCycle_fragments 5 [[2], [], [3, 4, 5]] _).1 (by decide)).whole rfl [] [],
    ((readNbytesCycle_fragments 5 [[2], []] _).2 (by decide)).failed (by decide) [] []⟩

end RtmpServer
