import RtmpServer.State

/-!
# `io_socket.cpp`: exact reads and gathered writes

The two exact-read loops are one text over two buffers, so they are one
definition here (`readNbytesCycleOn`), and so are the two single-shot reads.
Besides the specs the readers and writers are built on, this file settles how
the loops end: `readNbytesCycle_ends_iff`. A short count from
`st_read_fully` is the end of the peer's stream, after which every call gives
zero bytes, and zero bytes neither end the loop nor fall through it.
-/

namespace RtmpServer

open Coroutine Coroutine.Prog

/-! ## Reads -/

/-- The body of `IO_Socket::read_nbytes` and `read_nbytes_av`: one request, and whatever is
short of it fails. -/
def readNbytesOn (b : Buffer) (nbytes : Nat) : Routine Int := do
  let size ← gets fun s => (s.buffer b).length
  if nbytes > size then
    match ← stReadFully (nbytes - size) with
    | .error => return -1
    | .data buffer _ =>
      if buffer.length ≠ nbytes - size then return -1
      else
        modify fun s => s.append b buffer
        return 0
  else return 0

/-- The `while` of the exact-read loops, `missing` bytes to go at its start.
The state is what stands in the local `buffer` before `p`; its length is
`*nread`. The loop gives the code's return value and that buffer. -/
def readCycle (missing : Nat) : Routine (Int × Bytes) :=
  .iter (fun buffer : Bytes =>
    if buffer.length < missing then do
      match ← stReadFully (missing - buffer.length) with
      | .error => return .inr (-1, buffer)
      | .data bytes _ =>
        if buffer.length + bytes.length < missing then return .inl (buffer ++ bytes)
        else return .inr (0, buffer ++ bytes)
    else return .inr (0, buffer)) []

/-- The body of `IO_Socket::read_nbytes_cycle` and `read_nbytes_cycle_av`:
the return value and `*nread`, which every caller sets to 0 before. -/
def readNbytesCycleOn (b : Buffer) (nbytes : Nat) : Routine (Int × Nat) := do
  let size ← gets fun s => (s.buffer b).length
  if nbytes > size then
    let (rc, buffer) ← readCycle (nbytes - size)
    if rc = -1 then return (-1, buffer.length)
    else
      modify fun s => s.append b buffer
      return (0, buffer.length)
  else return (0, 0)

/-- `IO_Socket::read_nbytes`, into the session's own buffer. -/
def readNbytes : Nat → Routine Int := readNbytesOn .ioBuffer

/-- `IO_Socket::read_nbytes_av`, into the audio/video buffer. -/
def readNbytesAv : Nat → Routine Int := readNbytesOn .audioVideoBuffer

/-- `IO_Socket::read_nbytes_cycle`, into the session's own buffer. -/
def readNbytesCycle : Nat → Routine (Int × Nat) := readNbytesCycleOn .ioBuffer

/-- `IO_Socket::read_nbytes_cycle_av`, into the audio/video buffer. -/
def readNbytesCycleAv : Nat → Routine (Int × Nat) := readNbytesCycleOn .audioVideoBuffer

/-! ## Writes -/

/-- `st_writev` (`io.c`): `nbyte` is the sum of the lengths, and `iov` reads the
bytes of the vector from memory. They are read anew for every `writev`, and
the coroutine may be switched after each of them. -/
def stWritev (iov : State → Option Bytes) (nbyte : Nat) : Routine (Option Nat) :=
  .iter (fun written : Nat =>
    if written < nbyte then do
      let memory ← read iov
      match ← writevOnce (memory.drop written) with
      | .error => return .inr none
      | .wrote n _ => return .inl (written + n)
    else return .inr (some nbyte)) 0

/-- `IO_Socket::writev`: the return value and `*nwrite`, which a failed write leaves at 0. -/
def writev (iov : State → Option Bytes) (nbyte : Nat) : Routine (Int × Nat) := do
  match ← stWritev iov nbyte with
  | none => return (-1, 0)
  | some nwrite => return (0, nwrite)

/-- `IO_Socket::write`, of a local buffer, so that what it sends does not depend on the
state. -/
def write (buffer : Bytes) : Routine Int := do
  match ← stWritev (fun _ => some buffer) buffer.length with
  | none => return -1
  | some nwrite => if nwrite ≠ buffer.length then return -1 else return 0

/-- An exact read does nothing but append to its buffer, once and at its end. -/
theorem readNbytesCycleOn_keeps {R : State → State → Prop} {b : Buffer} {nbytes : Nat}
    (hrefl : ∀ s, R s s) (happend : ∀ s bytes, R s (s.append b bytes)) :
    (readNbytesCycleOn b nbytes).Keeps R := by
  refine ⟨keeps_gets hrefl, fun size => keeps_ite ⟨?_, fun r => ?_⟩ trivial⟩
  · intro buffer
    refine keeps_ite ⟨fun _ => trivial, fun r => ?_⟩ trivial
    cases r with
    | error => exact trivial
    | data bytes _ => exact keeps_ite trivial trivial
  · exact keeps_ite trivial ⟨keeps_modify fun s => happend s r.2, fun _ => trivial⟩

/-- A single read appends to its buffer as well, and does nothing else. -/
theorem readNbytesOn_keeps {R : State → State → Prop} {b : Buffer} {nbytes : Nat}
    (hrefl : ∀ s, R s s) (happend : ∀ s bytes, R s (s.append b bytes)) :
    (readNbytesOn b nbytes).Keeps R := by
  refine ⟨keeps_gets hrefl, fun size => keeps_ite ⟨fun _ => trivial, fun r => ?_⟩ trivial⟩
  cases r with
  | error => exact trivial
  | data bytes _ => exact keeps_ite trivial ⟨keeps_modify fun s => happend s bytes,
    fun _ => trivial⟩

/-- A gathered write only reads the state, to have its bytes at each attempt. -/
theorem stWritev_keeps {R : State → State → Prop} (hrefl : ∀ s, R s s)
    (iov : State → Option Bytes) (nbyte : Nat) : (stWritev iov nbyte).Keeps R := by
  refine fun written => keeps_ite ⟨keeps_read hrefl, fun memory => ⟨fun _ => trivial, ?_⟩⟩ trivial
  intro r
  cases r with
  | error => exact trivial
  | wrote n _ => exact trivial

theorem writev_keeps {R : State → State → Prop} (hrefl : ∀ s, R s s)
    (iov : State → Option Bytes) (nbyte : Nat) : (writev iov nbyte).Keeps R := by
  refine ⟨stWritev_keeps hrefl iov nbyte, fun r => ?_⟩
  cases r with
  | none => exact trivial
  | some n => exact trivial

/-! ## The calls under the two preconditions -/

section

variable {ε : Type} {env : Env st ε} {s : State} {e : ε}

theorem wp_stReadFully {n : Nat} {Q : ReadResult n → State → ε → Prop} :
    wp env (stReadFully n) Q s e ↔ ∃ r e1, env (.stReadFully n) e = some (r, e1) ∧ Q r s e1 := by
  simp [stReadFully]

theorem wlp_stReadFully {n : Nat} {Q : ReadResult n → State → ε → Prop} :
    wlp env (stReadFully n) Q s e ↔ ∀ r e1, env (.stReadFully n) e = some (r, e1) → Q r s e1 := by
  simp [stReadFully]

theorem wp_writevOnce {bytes : Bytes} {Q : WriteResult bytes.length → State → ε → Prop} :
    wp env (writevOnce bytes) Q s e ↔ ∃ r e1, env (.writev bytes) e = some (r, e1) ∧ Q r s e1 := by
  simp [writevOnce]

theorem wlp_writevOnce {bytes : Bytes} {Q : WriteResult bytes.length → State → ε → Prop} :
    wlp env (writevOnce bytes) Q s e ↔ ∀ r e1, env (.writev bytes) e = some (r, e1) → Q r s e1 := by
  simp [writevOnce]

/-- `inp` is what the peer has sent: what each `st_read_fully` gave, and nothing by any
other call. -/
structure Reads (env : Env st ε) (inp : ε → Bytes) : Prop where
  data : ∀ n bytes h e e', env (.stReadFully n) e = some (.data bytes h, e') →
    inp e' = inp e ++ bytes
  error : ∀ n e e', env (.stReadFully n) e = some (.error, e') → inp e' = inp e

/-- `p` is what came in between two states of the environment, whatever the count of it is. -/
def Came (env : Env st ε) (e : ε) (p : Bytes) (e' : ε) : Prop :=
  ∀ inp, Reads env inp → inp e' = inp e ++ p

theorem Came.nil : Came env e [] e := fun _ _ => (List.append_nil _).symm

theorem Came.append {p q : Bytes} {e1 e2 : ε} (h : Came env e p e1) (h' : Came env e1 q e2) :
    Came env e (p ++ q) e2 := by
  intro inp hin
  rw [h' inp hin, h inp hin, List.append_assoc]

theorem Came.unique {p q : Bytes} {e' : ε} {inp : ε → Bytes} (hin : Reads env inp)
    (h : Came env e p e') (hq : inp e' = inp e ++ q) : p = q := by
  rw [h inp hin] at hq
  exact List.append_cancel_left hq

/-- An account of what came in: `took e p e'` says that it was `p`. -/
structure Account (env : Env st ε) (took : ε → Bytes → ε → Prop) : Prop where
  nil : ∀ e, took e [] e
  append : ∀ {e e1 e2 p q}, took e p e1 → took e1 q e2 → took e (p ++ q) e2
  data : ∀ {n bytes h e e'}, env (.stReadFully n) e = some (.data bytes h, e') → took e bytes e'
  error : ∀ {n e e'}, env (.stReadFully n) e = some (.error, e') → took e [] e'

theorem account_came : Account env (Came env) where
  nil _ := .nil
  append h h' := h.append h'
  data h _ hin := hin.data _ _ _ _ _ h
  error h inp hin := by rw [hin.error _ _ _ h, List.append_nil]

/-- The bytes that an answer of `st_read_fully` brings; other answers bring none. -/
def readBytes : Call × Answer → Bytes
  | (.stReadFully _, .bytes bs) => bs
  | _ => []

/-- What a recording says was read is what its reads were answered with. -/
theorem reads_replay : Reads (replay answer) fun e => e.2.flatMap readBytes where
  data := by
    intro n bytes h e e' he
    obtain ⟨x, hx, htr⟩ := replay_eq_some he
    cases x with
    | bytes bs =>
      simp only [answer] at hx
      split at hx
      · cases hx
        simp [htr, readBytes]
      · cases hx
    | error => cases hx
    | wrote n' => cases hx
    | wake => cases hx
  error := by
    intro n e e' he
    obtain ⟨x, hx, htr⟩ := replay_eq_some he
    cases x with
    | error => simp [htr, readBytes]
    | bytes bs =>
      simp only [answer] at hx
      split at hx
      · cases hx
      · cases hx
    | wrote n' => cases hx
    | wake => cases hx

variable {took : ε → Bytes → ε → Prop}

/-- The loop of an exact read: what came in, all that was missing or less. -/
theorem wlp_readCycle (hacc : Account env took) {missing : Nat} :
    wlp env (readCycle missing) (fun r s' e' => s' = s ∧ ∃ p, took e p e' ∧
      (r.1 = -1 ∧ p.length < missing ∨ r = (0, p) ∧ p.length = missing)) s e := by
  refine wlp_iter_of_inv (fun buffer s' e' => s' = s ∧ buffer.length ≤ missing ∧
    took e buffer e') ?_ ⟨rfl, Nat.zero_le _, hacc.nil e⟩
  intro buffer s' e' ⟨hs, hle, hinp⟩
  by_cases hlt : buffer.length < missing
  · simp only [if_pos hlt, bind_eq, pure_eq, wlp_bind]
    refine wlp_stReadFully.mpr fun r e1 hread => ?_
    cases r with
    | error =>
      have hinp' : took e (buffer ++ []) e1 := hacc.append hinp (hacc.error hread)
      rw [List.append_nil] at hinp'
      exact wlp_ret.mpr ⟨hs, buffer, hinp', Or.inl ⟨rfl, hlt⟩⟩
    | data bytes hbytes =>
      have hinp' : took e (buffer ++ bytes) e1 := hacc.append hinp (hacc.data hread)
      by_cases hmore : buffer.length + bytes.length < missing
      · simp only [if_pos hmore, wlp_ret]
        refine ⟨hs, ?_, hinp'⟩
        rw [List.length_append]
        omega
      · simp only [if_neg hmore, wlp_ret]
        refine ⟨hs, _, hinp', Or.inr ⟨rfl, ?_⟩⟩
        rw [List.length_append]
        omega
  · rw [if_neg hlt, pure_eq, wlp_ret]
    exact ⟨hs, _, hinp, Or.inr ⟨rfl, Nat.le_antisymm hle (Nat.not_lt.mp hlt)⟩⟩

/-- An exact read, whatever the answers: it appends what was missing, or fails
with less than that received. -/
theorem wlp_readNbytesCycleOn_received (hacc : Account env took) {b : Buffer} {nbytes : Nat} :
    wlp env (readNbytesCycleOn b nbytes) (fun r s' e' => ∃ p, took e p e' ∧
      (r.1 = -1 ∧ s' = s ∧ p.length < nbytes - (s.buffer b).length ∨
        r = (0, p.length) ∧ s' = s.append b p ∧ p.length = nbytes - (s.buffer b).length)) s e := by
  unfold readNbytesCycleOn
  rw [bind_eq, wlp_bind, wlp_gets]
  by_cases hn : nbytes > (s.buffer b).length
  · rw [if_pos hn, bind_eq, wlp_bind]
    refine wlp_mono (wlp_readCycle hacc) fun r s' e' hr => ?_
    obtain ⟨hs, p, hinp, ⟨hrc, hlt⟩ | ⟨hr, hlen⟩⟩ := hr
    · subst hs
      simp only [if_pos hrc, pure_eq, wlp_ret]
      exact ⟨p, hinp, Or.inl ⟨trivial, trivial, hlt⟩⟩
    · subst hs hr
      simp only [if_neg (show ¬ ((0 : Int) = -1) by decide), pure_eq, bind_eq, wlp_bind,
        wlp_modify, wlp_ret]
      exact ⟨p, hinp, Or.inr ⟨rfl, rfl, hlen⟩⟩
  · rw [if_neg hn, pure_eq, wlp_ret]
    have hzero : nbytes - (s.buffer b).length = 0 := by omega
    exact ⟨[], hacc.nil e, Or.inr ⟨rfl, by simp, hzero.symm⟩⟩

/-- A single read has received what it appends as well, or fails with what came. -/
theorem wlp_readNbytesOn_received (hacc : Account env took) {b : Buffer} {nbytes : Nat} :
    wlp env (readNbytesOn b nbytes) (fun rc s' e' => ∃ p, took e p e' ∧
      (rc = -1 ∧ s' = s ∧ p.length < nbytes - (s.buffer b).length ∨
        rc = 0 ∧ s' = s.append b p ∧ p.length = nbytes - (s.buffer b).length)) s e := by
  unfold readNbytesOn
  rw [bind_eq, wlp_bind, wlp_gets]
  by_cases hn : nbytes > (s.buffer b).length
  · rw [if_pos hn, bind_eq, wlp_bind]
    refine wlp_stReadFully.mpr fun r e1 hread => ?_
    cases r with
    | error =>
      refine wlp_ret.mpr ⟨[], hacc.error hread, Or.inl ⟨rfl, rfl, ?_⟩⟩
      rw [List.length_nil]
      omega
    | data bytes hbytes =>
      by_cases hlen : bytes.length = nbytes - (s.buffer b).length
      · simp only [if_neg (not_not_intro hlen), pure_eq, bind_eq, wlp_bind, wlp_modify, wlp_ret]
        exact ⟨bytes, hacc.data hread, Or.inr ⟨trivial, rfl, hlen⟩⟩
      · simp only [if_pos hlen, pure_eq, wlp_ret]
        exact ⟨bytes, hacc.data hread, Or.inl ⟨trivial, trivial, by omega⟩⟩
  · rw [if_neg hn, pure_eq, wlp_ret]
    have hzero : nbytes - (s.buffer b).length = 0 := by omega
    exact ⟨[], hacc.nil e, Or.inr ⟨rfl, by simp, hzero.symm⟩⟩

end

/-! ## Against a peer that delivers its stream -/

theorem streamEnv_read {n : Nat} {e : Stream} (h : n ≤ e.inp.length) :
    streamEnv (.stReadFully n) e
      = some (.data (e.inp.take n) (List.length_take_le _ _), { e with inp := e.inp.drop n }) := by
  simp [streamEnv, h]

theorem wp_stReadFully_stream {n : Nat} {Q : ReadResult n → State → Stream → Prop} {s : State}
    {e : Stream} (h : n ≤ e.inp.length) :
    wp streamEnv (stReadFully n) Q s e
      ↔ Q (.data (e.inp.take n) (List.length_take_le _ _)) s { e with inp := e.inp.drop n } := by
  rw [wp_stReadFully, streamEnv_read h]
  refine ⟨fun ⟨_, _, h, hq⟩ => ?_, fun hq => ⟨_, _, rfl, hq⟩⟩
  cases h
  exact hq

/-- One request is enough when the peer has sent all of it. -/
theorem wp_readCycle_stream {missing : Nat} {Q : Int × Bytes → State → Stream → Prop} {s : State}
    {e : Stream} (h0 : 0 < missing) (h : missing ≤ e.inp.length) :
    wp streamEnv (readCycle missing) Q s e
      ↔ Q (0, e.inp.take missing) s { e with inp := e.inp.drop missing } := by
  have hmin : min missing e.inp.length = missing := Nat.min_eq_left h
  rw [readCycle, wp_iter]
  simp only [List.length_nil, if_pos h0, Nat.sub_zero, bind_eq, pure_eq, wp_bind]
  rw [wp_stReadFully_stream h]
  simp [hmin]

theorem wp_readNbytesCycleOn_stream {b : Buffer} {n : Nat} {Q : Int × Nat → State → Stream → Prop}
    {s : State} {e : Stream} (h : n - (s.buffer b).length ≤ e.inp.length) :
    wp streamEnv (readNbytesCycleOn b n) Q s e ↔
      Q (0, n - (s.buffer b).length)
        (s.append b (e.inp.take (n - (s.buffer b).length)))
        { e with inp := e.inp.drop (n - (s.buffer b).length) } := by
  by_cases hn : n > (s.buffer b).length
  · have hmin : min (n - (s.buffer b).length) e.inp.length = n - (s.buffer b).length :=
      Nat.min_eq_left h
    simp only [readNbytesCycleOn, bind_eq, pure_eq, wp_bind, wp_gets, if_pos hn]
    rw [wp_readCycle_stream (by omega) h]
    simp [hmin]
  · have h0 : n - (s.buffer b).length = 0 := by omega
    simp [readNbytesCycleOn, hn, h0]

/-- The same, with the requested bytes in front of the stream, which is left with the rest. -/
theorem wp_readNbytesCycleOn_append {b : Buffer} {n : Nat} {Q : Int × Nat → State → Stream → Prop}
    {s : State} {x rest out : Bytes} (h : n = (s.buffer b).length + x.length) :
    wp streamEnv (readNbytesCycleOn b n) Q s ⟨x ++ rest, out⟩
      ↔ Q (0, x.length) (s.append b x) ⟨rest, out⟩ := by
  have hn : n - (s.buffer b).length = x.length := by omega
  have hle : x.length ≤ (x ++ rest).length := by
    rw [List.length_append]
    omega
  rw [wp_readNbytesCycleOn_stream (hn ▸ hle), hn]
  simp

/-- A single read takes them from the front as well. -/
theorem wp_readNbytesOn_append {b : Buffer} {n : Nat} {Q : Int → State → Stream → Prop}
    {s : State} {x rest out : Bytes} (h : n = (s.buffer b).length + x.length) :
    wp streamEnv (readNbytesOn b n) Q s ⟨x ++ rest, out⟩ ↔ Q 0 (s.append b x) ⟨rest, out⟩ := by
  have hn : n - (s.buffer b).length = x.length := by omega
  simp only [readNbytesOn, bind_eq, pure_eq, wp_bind, wp_gets]
  by_cases h0 : n > (s.buffer b).length
  · have hle : n - (s.buffer b).length ≤ (x ++ rest).length := by
      rw [hn, List.length_append]
      omega
    rw [if_pos h0, wp_bind, wp_stReadFully_stream (by exact hle)]
    simp [hn]
  · have hnil : x = [] := List.eq_nil_of_length_eq_zero (by omega)
    rw [if_neg h0, wp_ret, hnil]
    simp

/-- A read that returns has taken the next bytes of the stream, and left the others there. -/
def TookFrom (e : Stream) (x : Bytes) (e' : Stream) : Prop := e.inp = x ++ e'.inp

theorem account_tookFrom : Account streamEnv TookFrom where
  nil _ := rfl
  append h h' := by rw [TookFrom, List.append_assoc, ← h', ← h]
  data := by
    intro n bytes h e e' he
    simp only [streamEnv] at he
    split at he
    · cases he
      exact (List.take_append_drop n e.inp).symm
    · cases he
  error := by
    intro n e e' he
    simp only [streamEnv] at he
    split at he
    · cases he
    · cases he

/-! ## How the exact reads end -/

/-- A socket by what its `st_read_fully` calls give, in order, whatever is
asked for. A count below the request is the end of the peer's stream. -/
structure Peer where
  result : Nat → (nbyte : Nat) → ReadResult nbyte
  eof : ∀ {i nbyte bytes h}, result i nbyte = .data bytes h → bytes.length < nbyte →
    ∀ j, i < j → ∀ n, result j n = .data [] (Nat.zero_le n)

namespace Peer

/-- The environment's state is the number of calls so far, by which the peer answers. -/
def env (p : Peer) : Env st Nat
  | .stReadFully nbyte, k => some (p.result k nbyte, k + 1)
  | .writev bytes, k => some (.wrote bytes.length (WriteResult.all_le bytes), k)
  | .stUsleep, k => some ((), k)

/-- The peer has closed before `missing` more bytes arrived: the request for
them, after `k` calls, comes back short. -/
def ClosedBefore (p : Peer) (k missing : Nat) : Prop :=
  ∃ bytes h, p.result k missing = .data bytes h ∧ bytes.length < missing

/-- What is asked of an exact read that lacks `missing` bytes: it ends, and
with `-1` if the peer had closed. -/
def Ends (p : Peer) (cycle : Routine (Int × Nat)) (missing : Nat) (s : State) (k : Nat) : Prop :=
  wp p.env cycle (fun r _ _ => p.ClosedBefore k missing → r.1 = -1) s k

theorem wp_stReadFully_peer {p : Peer} {n : Nat} {Q : ReadResult n → State → Nat → Prop}
    {s : State} {k : Nat} :
    wp p.env (stReadFully n) Q s k ↔ Q (p.result k n) s (k + 1) := by
  rw [wp_stReadFully]
  refine ⟨fun ⟨_, _, h, hq⟩ => ?_, fun hq => ⟨_, _, rfl, hq⟩⟩
  cases h
  exact hq

theorem wlp_stReadFully_peer {p : Peer} {n : Nat} {Q : ReadResult n → State → Nat → Prop}
    {s : State} {k : Nat} :
    wlp p.env (stReadFully n) Q s k ↔ Q (p.result k n) s (k + 1) := by
  rw [wlp_stReadFully]
  refine ⟨fun h => h _ _ rfl, fun hq _ _ h => ?_⟩
  cases h
  exact hq

/-- A full answer or an error ends the loop in its first round. -/
theorem readCycle_ends {p : Peer} {missing : Nat} {s : State} {k : Nat} (h0 : 0 < missing)
    (hopen : ¬ p.ClosedBefore k missing) :
    wp p.env (readCycle missing) (fun _ _ _ => True) s k := by
  rw [readCycle, wp_iter]
  simp only [if_pos h0, List.length_nil, Nat.sub_zero, bind_eq, pure_eq, wp_bind]
  rw [wp_stReadFully_peer]
  cases hr : p.result k missing with
  | error => simp
  | data bytes h =>
    have hfull : ¬ bytes.length < missing := fun hs => hopen ⟨bytes, h, hr, hs⟩
    simp [hfull]

/-- After the end of the stream no answer brings the loop any further: it
keeps lacking bytes, and every call gives none. -/
theorem readCycle_spins {p : Peer} {missing : Nat} {s : State} {k : Nat}
    (hclosed : p.ClosedBefore k missing) :
    wlp p.env (readCycle missing) (fun _ _ _ => False) s k := by
  obtain ⟨bytes, hlen, hr, hshort⟩ := hclosed
  -- what holds at the start of a round: the first one, or one after the short answer
  refine wlp_iter_of_inv (fun buffer _ j => buffer = [] ∧ j = k ∨ buffer.length < missing ∧ k < j)
    ?_ (Or.inl ⟨rfl, rfl⟩)
  intro buffer s j hinv
  rcases hinv with ⟨rfl, rfl⟩ | ⟨hlt, hj⟩
  · have h0 : 0 < missing := by omega
    simp only [if_pos h0, List.length_nil, Nat.sub_zero, bind_eq, pure_eq, wlp_bind]
    rw [wlp_stReadFully_peer, hr]
    simp [hshort]
  · simp only [if_pos hlt, bind_eq, pure_eq, wlp_bind]
    rw [wlp_stReadFully_peer, p.eof hr hshort j hj]
    simp only [List.length_nil, Nat.add_zero, if_pos hlt, List.append_nil, wlp_ret]
    exact Or.inr ⟨hlt, by omega⟩

theorem readNbytesCycleOn_ends_iff (p : Peer) (b : Buffer) (nbytes : Nat) (s : State) (k : Nat) :
    p.Ends (readNbytesCycleOn b nbytes) (nbytes - (s.buffer b).length) s k
      ↔ ¬ p.ClosedBefore k (nbytes - (s.buffer b).length) := by
  unfold Ends readNbytesCycleOn
  simp only [bind_eq, pure_eq, wp_bind, wp_gets]
  by_cases hn : nbytes > (s.buffer b).length
  · rw [if_pos hn]
    constructor
    · intro h hclosed
      obtain ⟨_, _, _, hrun, -⟩ := wp_bind.mp h
      exact readCycle_spins hclosed _ _ _ hrun
    · intro hopen
      refine wp_bind.mpr (wp_mono (readCycle_ends (by omega) hopen) fun r s' k' _ => ?_)
      by_cases hr : r.1 = -1
      · simp [hr]
      · simp [hr, hopen]
  · -- nothing is missing: no call is made, and no request can be short
    have hopen : ¬ p.ClosedBefore k (nbytes - (s.buffer b).length) := by
      intro hclosed
      obtain ⟨bytes, _, _, hlt⟩ := hclosed
      omega
    rw [if_neg hn, wp_ret]
    exact ⟨fun _ => hopen, fun h hc => absurd hc h⟩

/-- An exact read of either kind ends as it should if and only if the peer did
not close before the bytes arrived. Where it did close, the read goes round
for ever. -/
theorem readNbytesCycle_ends_iff (p : Peer) (nbytes : Nat) (s : State) (k : Nat) :
    (p.Ends (readNbytesCycle nbytes) (nbytes - s.client.ioBuffer.length) s k
        ↔ ¬ p.ClosedBefore k (nbytes - s.client.ioBuffer.length)) ∧
      (p.Ends (readNbytesCycleAv nbytes) (nbytes - s.globals.audioVideoBuffer.length) s k
        ↔ ¬ p.ClosedBefore k (nbytes - s.globals.audioVideoBuffer.length)) :=
  ⟨readNbytesCycleOn_ends_iff p .ioBuffer nbytes s k,
    readNbytesCycleOn_ends_iff p .audioVideoBuffer nbytes s k⟩

/-- A peer that has sent nothing and closed, so that every request gets a count of 0. -/
def closed : Peer where
  result _ _ := .data [] (Nat.zero_le _)
  eof _ _ _ _ _ := rfl

/-- One byte asked of it is asked for ever, by both reads, as neither of them ends. -/
theorem readNbytesCycle_closed_spins :
    ¬ closed.Ends (readNbytesCycle 1) 1 {} 0 ∧ ¬ closed.Ends (readNbytesCycleAv 1) 1 {} 0 := by
  have hclosed : closed.ClosedBefore 0 1 := ⟨[], Nat.zero_le _, rfl, Nat.zero_lt_one⟩
  have hio := readNbytesCycleOn_ends_iff closed .ioBuffer 1 {} 0
  have hav := readNbytesCycleOn_ends_iff closed .audioVideoBuffer 1 {} 0
  exact ⟨fun h => hio.mp h hclosed, fun h => hav.mp h hclosed⟩

end Peer

end RtmpServer
