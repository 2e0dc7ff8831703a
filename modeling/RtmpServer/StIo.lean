import RtmpServer.IoSocket
import RtmpServer.Lib.Linking

/-!
# `io.c`: exact reads and gathered writes over the system calls

The model of the server calls `st_read_fully`, and takes a gathered write round
by round; both are code of the thread library, which is here, over `read`,
`write`, `writev` and the wait for the descriptor. A call that was interrupted
is made again, one that would block waits and is made again, and what was
written or read in part moves the vectors on.

`deliver` says what the writes are for: the bytes at a list of addresses, in
their order, each of them once. The vectors that `st_writev` copies, and its
search for the first unwritten one, are one way to keep that list.
-/

namespace RtmpServer.StIo

open Coroutine Coroutine.Prog

/-! ## The system calls -/

/-- `errno` after a call that failed: `EINTR`, `_IO_NOT_READY_ERROR`, or another, which the
loops give up on. -/
inductive Errno where
  | eintr
  | notReady
  | other
  deriving DecidableEq

/-- What `read` or `readv` gives for `nbyte` bytes: `-1`, or what it read. -/
inductive ReadReply (nbyte : Nat) where
  | failed (errno : Errno)
  | gave (bytes : Bytes) (_h : bytes.length ≤ nbyte)

/-- What `write` or `writev` gives for `nbyte` bytes: `-1`, or how many it took. -/
inductive WriteReply (nbyte : Nat) where
  | failed (errno : Errno)
  | took (n : Nat) (_h : n ≤ nbyte)

/-- `read` and `readv`, `write` and `writev` differ in how the buffer is given,
and are one call here. `st_netfd_poll` is where other threads come in. -/
inductive OsCall where
  | read (nbyte : Nat)
  | write (bytes : Bytes)
  | netfdPoll
  | calloc
  | usleep

@[reducible] def OsCall.Reply : OsCall → Type
  | .read nbyte => ReadReply nbyte
  | .write bytes => WriteReply bytes.length
  | .netfdPoll => Bool
  | .calloc => Bool
  | .usleep => Unit

abbrev os : Sig := ⟨OsCall, OsCall.Reply⟩

variable {σ : Type}

def sysRead (nbyte : Nat) : Prog os σ (ReadReply nbyte) := .call (OsCall.read nbyte) .ret

def sysWrite (bytes : Bytes) : Prog os σ (WriteReply bytes.length) :=
  .call (OsCall.write bytes) .ret

/-- `st_netfd_poll`: the descriptor is ready, or the wait failed, by its timeout or an
interrupt or an error. -/
def stNetfdPoll : Prog os σ Bool := .call OsCall.netfdPoll .ret

def calloc : Prog os σ Bool := .call OsCall.calloc .ret

/-! ## Vectors -/

/-- `struct iovec`: a cell of a vector, by its address and its length. -/
structure Iovec where
  base : Nat
  len : Nat

/-- The addresses that a vector covers, in its order, cell by cell. -/
def addresses (iov : List Iovec) : List Nat := iov.flatMap fun v => List.range' v.base v.len

/-- The number of bytes in a vector, which the loops count down from. -/
def total (iov : List Iovec) : Nat := (iov.map Iovec.len).sum

/-- The inner loop of `st_readv_resid` and `st_writev_resid`: the vector moved on
by `n` bytes. It is undefined where it would run off the end. -/
def advanceIov : Nat → List Iovec → Option (List Iovec)
  | _, [] => none
  | n, v :: iov =>
    if v.len ≤ n then
      if n - v.len = 0 then some iov else advanceIov (n - v.len) iov
    else some (⟨v.base + n, v.len - n⟩ :: iov)

/-- The search of `st_writev` for the first vector not written when `n` bytes
are, and the copy it makes from there. -/
def unwritten : Nat → List Iovec → Option (List Iovec)
  | _, [] => none
  | n, v :: iov =>
    if v.len ≤ n then unwritten (n - v.len) iov else some (⟨v.base + n, v.len - n⟩ :: iov)

/-! ## Reads -/

/-- The end of a round: wait for the descriptor, and go on with the next round or give up. -/
def polled {α β : Type} (next : β) (stop : α) : Prog os σ (β ⊕ α) := do
  if ← stNetfdPoll then return .inl next else return .inr stop

/-- One `read` of a loop that is told how to go on once some was read. -/
def readRound {α β : Type} (nbyte : Nat) (again : β) (failed : α)
    (gave : Bytes → Prog os σ (β ⊕ α)) : Prog os σ (β ⊕ α) := do
  match ← sysRead nbyte with
  | .failed .eintr => return .inl again
  | .failed .other => return .inr failed
  | .failed .notReady => polled again failed
  | .gave bytes _ => gave bytes

/-- The body of `st_readv_resid` after a `read` that gave `bytes`: none of them is the end
of the stream. -/
def gaveOf (r : List Iovec × Bytes) (bytes : Bytes) :
    Prog os σ ((List Iovec × Bytes) ⊕ (Int × List Iovec × Bytes)) :=
  if bytes.length = 0 then return .inr (0, r)
  else do
    let iov ← read fun _ => advanceIov bytes.length r.1
    if iov.length = 0 then return .inr (0, iov, r.2 ++ bytes)
    else polled (iov, r.2 ++ bytes) (-1, iov, r.2 ++ bytes)

/-- The body of `st_readv_resid`: as long as there is a cell left, a `read` for all that is
missing. -/
def readvRound (r : List Iovec × Bytes) :
    Prog os σ ((List Iovec × Bytes) ⊕ (Int × List Iovec × Bytes)) :=
  if 0 < r.1.length then readRound (total r.1) r (-1, r) (gaveOf r) else return .inr (0, r)

/-- `st_readv_resid`: the return value, the vector that is left, and what stands
in the part of it that is not. -/
def stReadvResid (iov : List Iovec) : Prog os σ (Int × List Iovec × Bytes) :=
  .iter readvRound (iov, [])

/-- `iov.iov_len` of the local vector of one, after the call: what is missing of its cell. -/
def residOf : List Iovec → Nat
  | [] => 0
  | v :: _ => v.len

/-- `st_read_resid`: the return value, `*resid`, and what the buffer has in it. -/
def stReadResid (buf resid : Nat) : Prog os σ (Int × Nat × Bytes) := do
  let (rv, iov, got) ← stReadvResid [⟨buf, resid⟩]
  return (rv, residOf iov, got)

/-- `st_read_fully`: how many bytes came, fewer only at the end of the stream, or `-1`; and
the buffer. -/
def stReadFully (buf nbyte : Nat) : Prog os σ (Int × Bytes) := do
  let (rv, resid, got) ← stReadResid buf nbyte
  if rv = 0 then return ((nbyte - resid : Nat), got) else return (-1, got)

/-! ## Writes -/

section

variable (mem : σ → Nat → Option UInt8)

/-- One `write` of a loop that is told how to go on once some was taken. -/
def writeRound {α β : Type} (bytes : Bytes) (again : β) (failed : α)
    (took : Nat → Prog os σ (β ⊕ α)) : Prog os σ (β ⊕ α) := do
  match ← sysWrite bytes with
  | .failed .eintr => return .inl again
  | .failed .other => return .inr failed
  | .failed .notReady => polled again failed
  | .took n _ => took n

/-- The body of `st_writev_resid`: as long as there is a cell left, a `write` of all that is
not written. -/
def residRound (iov : List Iovec) : Prog os σ (List Iovec ⊕ (Int × List Iovec)) :=
  if 0 < iov.length then do
    let bytes ← read fun s => (addresses iov).mapM (mem s)
    writeRound bytes iov (-1, iov) fun n => do
      let iov ← read fun _ => advanceIov n iov
      if iov.length = 0 then return .inr (0, iov) else polled iov (-1, iov)
  else return .inr (0, iov)

/-- `st_writev_resid`: the return value and the vector that is left, which the caller sees. -/
def stWritevResid (iov : List Iovec) : Prog os σ (Int × List Iovec) := .iter (residRound mem) iov

/-- `st_write_resid`: the return value and `*resid`, by a vector of one cell. -/
def stWriteResid (buf resid : Nat) : Prog os σ (Int × Nat) := do
  let (rv, iov) ← stWritevResid mem [⟨buf, resid⟩]
  return (rv, residOf iov)

/-- `st_write`: how many bytes it wrote, or `none` for its `-1`. -/
def stWrite (buf nbyte : Nat) : Prog os σ (Option Nat) := do
  let (rv, resid) ← stWriteResid mem buf nbyte
  if rv = 0 then return some (nbyte - resid) else return none

/-- `_LOCAL_MAXIOV`, the number of cells that `st_writev` has on its stack to copy to. -/
def localMaxiov : Nat := 16

/-- Where `st_writev` is: `nleft`, and the cells of `tmp_iov` that are in use. As
long as `tmp_iov` is the caller's own vector there is no `room` to copy to. -/
structure Tmp where
  nleft : Nat
  room : Option Nat
  cells : List Iovec

/-- The cells to copy `count` vectors to: those there are, the local ones, or
as many as `calloc` gives. -/
def copyRoom : Option Nat → Nat → Prog os σ (Option Nat)
  | some room, _ => return some room
  | none, count =>
    if count ≤ localMaxiov then return some localMaxiov
    else do if ← calloc then return some count else return none

/-- The body of `st_writev` after a `writev` that took `n` bytes: if some are left, the
unwritten cells are copied. -/
def tookOf (iov : List Iovec) (t : Tmp) (n : Nat) : Prog os σ (Tmp ⊕ Option Nat) :=
  if n = t.nleft then return .inr (some (total iov))
  else do
    let cells ← read fun _ => unwritten (total iov - (t.nleft - n)) iov
    match ← copyRoom t.room cells.length with
    | none => return .inr none
    | some room =>
      -- a cell behind the last one of `tmp_iov` is not there to be written
      let cells ← read fun _ => if cells.length ≤ room then some cells else none
      polled ⟨t.nleft - n, some room, cells⟩ none

/-- The body of `st_writev`: the last cell goes to `st_write`, several go out in one
`writev`. -/
def writevRound (iov : List Iovec) (t : Tmp) : Prog os σ (Tmp ⊕ Option Nat) :=
  if 0 < t.nleft then
    if t.cells.length = 1 then do
      let base ← read fun _ => t.cells.head?.map Iovec.base
      let rv ← stWrite mem base t.nleft
      if rv ≠ some t.nleft then return .inr none else return .inr (some (total iov))
    else do
      let bytes ← read fun s => (addresses t.cells).mapM (mem s)
      writeRound bytes t none (tookOf iov t)
  else return .inr (some (total iov))

/-- `st_writev`: the number of all bytes, or `none` for its `-1`. There is nothing in
between. -/
def stWritev (iov : List Iovec) : Prog os σ (Option Nat) :=
  .iter (writevRound mem iov) ⟨total iov, none, iov⟩

/-- One round of `deliver`: a `write` of all that is left, and what was taken comes off the
list. -/
def deliverRound (l : List Nat) : Prog os σ (List Nat ⊕ Bool) :=
  if l = [] then return .inr true
  else do
    let bytes ← read fun s => l.mapM (mem s)
    writeRound bytes l false fun n =>
      if n = l.length then return .inr true else polled (l.drop n) false

/-- What the writes are for: to write what stands at `l`, and say if it came off. -/
def deliver (l : List Nat) : Prog os σ Bool := .iter (deliverRound mem) l

/-- The wait after a `write` that took `n` of `nbyte` bytes: only a part makes it necessary. -/
def afterTook {nbyte : Nat} (n : Nat) (h : n ≤ nbyte) : Prog os σ (WriteResult nbyte) := do
  if n = nbyte then return .wrote n h
  else if ← stNetfdPoll then return .wrote n h else return .error

/-- One `write` with the wait that follows it unless all was taken, which is a
call of its own for the server. -/
def writevWait (bytes : Bytes) : Prog os σ (WriteResult bytes.length) := do
  match ← sysWrite bytes with
  | .failed .eintr => return .wrote 0 (Nat.zero_le _)
  | .failed .other => return .error
  | .failed .notReady =>
    if ← stNetfdPoll then return .wrote 0 (Nat.zero_le _) else return .error
  | .took n h => afterTook n h

/-- The calls of the server, made of system calls: an exact read, one round of a gathered
write, a sleep. -/
def ioImpl : Impl st os
  | .stReadFully nbyte => do
    let (rv, got) ← stReadFully 0 nbyte
    if rv = -1 then return .error
    else if h : got.length ≤ nbyte then return .data got h else return .error
  | .writev bytes => writevWait bytes
  | .stUsleep => .call OsCall.usleep .ret

end

/-! ## Moving on in a vector -/

theorem addresses_cons (v : Iovec) (iov : List Iovec) :
    addresses (v :: iov) = List.range' v.base v.len ++ addresses iov := List.flatMap_cons

theorem total_cons (v : Iovec) (iov : List Iovec) : total (v :: iov) = v.len + total iov :=
  List.sum_cons

theorem length_addresses (iov : List Iovec) : (addresses iov).length = total iov := by
  induction iov with
  | nil => rfl
  | cons v iov ih => rw [addresses_cons, List.length_append, List.length_range', ih, total_cons]

/-- The cell that a loop stops in, and those behind it, cover what is left of the addresses. -/
theorem addresses_partway {v : Iovec} {n : Nat} (hn : n < v.len) (iov : List Iovec) :
    addresses (⟨v.base + n, v.len - n⟩ :: iov) = (addresses (v :: iov)).drop n := by
  simp only [addresses_cons]
  rw [List.drop_append_of_le_length (by rw [List.length_range']; omega), List.drop_range', mul_one]

/-- Past a whole cell the others are left to drop from, by what remains of the count. -/
theorem drop_addresses_cons {v : Iovec} {n : Nat} (hn : v.len ≤ n) (iov : List Iovec) :
    (addresses (v :: iov)).drop n = (addresses iov).drop (n - v.len) := by
  have hlen : (List.range' v.base v.len).length ≤ n := by rwa [List.length_range']
  rw [addresses_cons, List.drop_append, List.drop_eq_nil_of_le hlen, List.nil_append,
    List.length_range']

/-- As long as there are bytes left, the search ends in the vector. -/
theorem unwritten_eq_some : ∀ {iov : List Iovec} {n : Nat}, n < total iov → ∃ cells,
    unwritten n iov = some cells ∧ addresses cells = (addresses iov).drop n ∧
      cells.length ≤ iov.length := by
  intro iov
  induction iov with
  | nil =>
    intro n hn
    exact absurd hn (Nat.not_lt_zero n)
  | cons v iov ih =>
    intro n hn
    rw [total_cons] at hn
    by_cases hle : v.len ≤ n
    · obtain ⟨cells, hcells, haddr, hlen⟩ := ih (n := n - v.len) (by omega)
      refine ⟨cells, ?_, ?_, Nat.le_succ_of_le hlen⟩
      · rw [unwritten, if_pos hle, hcells]
      · rw [haddr, drop_addresses_cons hle]
    · refine ⟨_, by rw [unwritten, if_neg hle], addresses_partway (by omega) iov, ?_⟩
      exact Nat.le_refl _

/-- No cell of the vector is empty, so that something left means something to write. -/
def Positive (iov : List Iovec) : Prop := ∀ v ∈ iov, 0 < v.len

/-- What a read or a write can have moved is in the vector; where no cell is
empty, nothing is left of it only when all of it was moved. -/
theorem advanceIov_eq_some : ∀ {iov : List Iovec} {n : Nat}, Positive iov → iov ≠ [] →
    n ≤ total iov → ∃ left, advanceIov n iov = some left ∧ Positive left ∧
      addresses left = (addresses iov).drop n ∧ (left = [] ↔ n = total iov) := by
  intro iov
  induction iov with
  | nil =>
    intro n _ hne
    exact absurd rfl hne
  | cons v iov ih =>
    intro n hpos _ hn
    have hv : 0 < v.len := hpos v (List.mem_cons_self ..)
    have hiov : Positive iov := fun w hw => hpos w (List.mem_cons_of_mem _ hw)
    rw [total_cons] at hn ⊢
    by_cases hle : v.len ≤ n
    · by_cases hzero : n - v.len = 0
      · refine ⟨iov, by rw [advanceIov, if_pos hle, if_pos hzero], hiov, ?_, ?_⟩
        · rw [drop_addresses_cons hle, hzero, List.drop_zero]
        · -- only the empty vector has no bytes
          have hempty : iov = [] ↔ total iov = 0 := by
            cases iov with
            | nil => exact iff_of_true rfl rfl
            | cons w iov =>
              have hw : 0 < w.len := hiov w (List.mem_cons_self ..)
              rw [total_cons]
              exact iff_of_false (List.cons_ne_nil _ _) (by omega)
          rw [hempty]
          omega
      · have hne : iov ≠ [] := by
          intro heq
          rw [heq] at hn
          have : total [] = 0 := rfl
          omega
        obtain ⟨left, hleft, hpleft, haddr, hnil⟩ := ih (n := n - v.len) hiov hne (by omega)
        refine ⟨left, by rw [advanceIov, if_pos hle, if_neg hzero, hleft], hpleft, ?_, ?_⟩
        · rw [haddr, drop_addresses_cons hle]
        · rw [hnil]
          omega
    · refine ⟨_, by rw [advanceIov, if_neg hle], ?_, addresses_partway (by omega) iov, ?_⟩
      · intro w hw
        rcases List.mem_cons.mp hw with rfl | hw
        · show 0 < v.len - n
          omega
        · exact hiov w hw
      · exact iff_of_false (List.cons_ne_nil _ _) (by omega)

theorem mapM_length {mem : Nat → Option UInt8} : ∀ {l : List Nat} {bytes : Bytes},
    l.mapM mem = some bytes → bytes.length = l.length := by
  intro l
  induction l with
  | nil =>
    intro bytes h
    cases h
    rfl
  | cons a l ih =>
    intro bytes h
    rw [List.mapM_cons] at h
    obtain ⟨b, -, h⟩ := Option.bind_eq_some_iff.mp h
    obtain ⟨bs, hbs, h⟩ := Option.bind_eq_some_iff.mp h
    cases h
    rw [List.length_cons, List.length_cons, ih hbs]

theorem mapM_drop {mem : Nat → Option UInt8} {l : List Nat} {bytes : Bytes}
    (h : l.mapM mem = some bytes) (n : Nat) : (l.drop n).mapM mem = some (bytes.drop n) := by
  induction n generalizing l bytes with
  | zero => exact h
  | succ n ih =>
    cases l with
    | nil =>
      cases h
      rfl
    | cons a l =>
      rw [List.mapM_cons] at h
      obtain ⟨b, -, h⟩ := Option.bind_eq_some_iff.mp h
      obtain ⟨bs, hbs, h⟩ := Option.bind_eq_some_iff.mp h
      cases h
      exact ih hbs

/-! ## One round among other threads -/

section

variable {α β O ε : Type} {others : O → σ → σ} {env : Env (os.amid O) ε} {s s' : σ} {e e' : ε}

/-- A call and what is done with its answer, while the others have had their turn. -/
theorem runs_ask {c : OsCall} {k : OsCall.Reply c → Prog os σ α} {a : α} :
    Runs env ((Prog.bind (.call (S := os) c .ret) k).amid others) s e a s' e' ↔
      ∃ r o e₁, env c e = some ((r, o), e₁) ∧
        Runs env ((k r).amid others) (others o s) e₁ a s' e' := by
  rw [amid_bind, runs_bind]
  constructor
  · intro h
    obtain ⟨r, s₁, e₁, hcall, hk⟩ := h
    obtain ⟨r', o, e₂, hr, hret⟩ := (runs_amid_call others).mp hcall
    obtain ⟨rfl, rfl, rfl⟩ := runs_ret.mp hret
    exact ⟨r', o, e₂, hr, hk⟩
  · intro h
    obtain ⟨r, o, e₁, hr, hk⟩ := h
    refine ⟨r, others o s, e₁, (runs_amid_call others).mpr ⟨r, o, e₁, hr, ?_⟩, hk⟩
    exact runs_ret.mpr ⟨rfl, rfl, rfl⟩

variable (env others)

/-- A wait for the descriptor ends, and says if it is ready; the others have run meanwhile. -/
def Polled (s : σ) (e : ε) (ready : Bool) (s' : σ) (e' : ε) : Prop :=
  ∃ o, env .netfdPoll e = some ((ready, o), e') ∧ others o s = s'

/-- What comes of one `write`: it is to be made again, it has failed for good,
or it took `n` bytes. -/
inductive Outcome where
  | again
  | failed
  | took (n : Nat)

/-- A `write` of `bytes`, with the wait where it would block: it is to be made again, it has
failed, or it took some. -/
inductive Attempt (bytes : Bytes) (s : σ) (e : ε) : Outcome → σ → ε → Prop where
  | interrupted {o : O} {e₁ : ε} (h : env (.write bytes) e = some ((.failed .eintr, o), e₁)) :
      Attempt bytes s e .again (others o s) e₁
  | broken {o : O} {e₁ : ε} (h : env (.write bytes) e = some ((.failed .other, o), e₁)) :
      Attempt bytes s e .failed (others o s) e₁
  | waited {o : O} {e₁ : ε} {s₂ : σ} {e₂ : ε}
      (h : env (.write bytes) e = some ((.failed .notReady, o), e₁))
      (hpoll : Polled others env (others o s) e₁ true s₂ e₂) : Attempt bytes s e .again s₂ e₂
  | gaveUp {o : O} {e₁ : ε} {s₂ : σ} {e₂ : ε}
      (h : env (.write bytes) e = some ((.failed .notReady, o), e₁))
      (hpoll : Polled others env (others o s) e₁ false s₂ e₂) : Attempt bytes s e .failed s₂ e₂
  | took {n : Nat} {hn : n ≤ bytes.length} {o : O} {e₁ : ε}
      (h : env (.write bytes) e = some ((.took n hn, o), e₁)) :
      Attempt bytes s e (.took n) (others o s) e₁

variable {env others}

theorem Attempt.le {bytes : Bytes} {n : Nat} (h : Attempt others env bytes s e (.took n) s' e') :
    n ≤ bytes.length := by
  cases h with
  | @took _ hn _ _ _ => exact hn

theorem runs_polled {next : β} {stop : α} {x : β ⊕ α} :
    Runs env ((polled next stop).amid others) s e x s' e' ↔
      Polled others env s e true s' e' ∧ x = .inl next ∨
        Polled others env s e false s' e' ∧ x = .inr stop := by
  refine runs_ask.trans ?_
  constructor
  · intro h
    obtain ⟨ready, o, e₁, hr, hk⟩ := h
    cases ready with
    | true =>
      obtain ⟨rfl, rfl, rfl⟩ := runs_ret.mp hk
      exact Or.inl ⟨⟨o, hr, rfl⟩, rfl⟩
    | false =>
      obtain ⟨rfl, rfl, rfl⟩ := runs_ret.mp hk
      exact Or.inr ⟨⟨o, hr, rfl⟩, rfl⟩
  · intro h
    rcases h with ⟨⟨o, hr, hs⟩, rfl⟩ | ⟨⟨o, hr, hs⟩, rfl⟩
    · exact ⟨true, o, e', hr, runs_ret.mpr ⟨rfl, hs, rfl⟩⟩
    · exact ⟨false, o, e', hr, runs_ret.mpr ⟨rfl, hs, rfl⟩⟩

theorem runs_writeRound {bytes : Bytes} {again : β} {failed : α}
    {took : Nat → Prog os σ (β ⊕ α)} {x : β ⊕ α} :
    Runs env ((writeRound bytes again failed took).amid others) s e x s' e' ↔
      Attempt others env bytes s e .again s' e' ∧ x = .inl again ∨
      Attempt others env bytes s e .failed s' e' ∧ x = .inr failed ∨
      ∃ n s₁ e₁, Attempt others env bytes s e (.took n) s₁ e₁ ∧
        Runs env ((took n).amid others) s₁ e₁ x s' e' := by
  refine runs_ask.trans ?_
  constructor
  · intro h
    obtain ⟨r, o, e₁, hr, hk⟩ := h
    cases r with
    | failed errno =>
      cases errno with
      | eintr =>
        obtain ⟨rfl, rfl, rfl⟩ := runs_ret.mp hk
        exact Or.inl ⟨.interrupted hr, rfl⟩
      | other =>
        obtain ⟨rfl, rfl, rfl⟩ := runs_ret.mp hk
        exact Or.inr (Or.inl ⟨.broken hr, rfl⟩)
      | notReady =>
        rcases runs_polled.mp hk with ⟨hpoll, hx⟩ | ⟨hpoll, hx⟩
        · exact Or.inl ⟨.waited hr hpoll, hx⟩
        · exact Or.inr (Or.inl ⟨.gaveUp hr hpoll, hx⟩)
    -- something was taken, and how much decides what comes next
    | took n hn => exact Or.inr (Or.inr ⟨n, _, e₁, .took hr, hk⟩)
  · intro h
    rcases h with ⟨hatt, rfl⟩ | ⟨hatt, rfl⟩ | ⟨n, s₁, e₁, hatt, hk⟩
    · cases hatt with
      | interrupted h => exact ⟨_, _, _, h, runs_ret.mpr ⟨rfl, rfl, rfl⟩⟩
      | waited h hpoll => exact ⟨_, _, _, h, runs_polled.mpr (Or.inl ⟨hpoll, rfl⟩)⟩
    · cases hatt with
      | broken h => exact ⟨_, _, _, h, runs_ret.mpr ⟨rfl, rfl, rfl⟩⟩
      | gaveUp h hpoll => exact ⟨_, _, _, h, runs_polled.mpr (Or.inr ⟨hpoll, rfl⟩)⟩
    · cases hatt with
      | took h => exact ⟨_, _, _, h, hk⟩

/-! ## The rounds of a delivery -/

variable (others env) in
/-- One round that writes what stands at `l`: it leaves less to write, or it is
the last one. -/
inductive Progress (mem : σ → Nat → Option UInt8) (l : List Nat) (s : σ) (e : ε) :
    List Nat ⊕ Bool → σ → ε → Prop where
  | again {bytes : Bytes} {s₁ : σ} {e₁ : ε} (hmem : l.mapM (mem s) = some bytes)
      (h : Attempt others env bytes s e .again s₁ e₁) : Progress mem l s e (.inl l) s₁ e₁
  | failed {bytes : Bytes} {s₁ : σ} {e₁ : ε} (hmem : l.mapM (mem s) = some bytes)
      (h : Attempt others env bytes s e .failed s₁ e₁) : Progress mem l s e (.inr false) s₁ e₁
  | whole {bytes : Bytes} {s₁ : σ} {e₁ : ε} (hmem : l.mapM (mem s) = some bytes)
      (h : Attempt others env bytes s e (.took l.length) s₁ e₁) :
      Progress mem l s e (.inr true) s₁ e₁
  | part {bytes : Bytes} {n : Nat} {s₁ s₂ : σ} {e₁ e₂ : ε} (hmem : l.mapM (mem s) = some bytes)
      (h : Attempt others env bytes s e (.took n) s₁ e₁) (hn : n < l.length)
      (hpoll : Polled others env s₁ e₁ true s₂ e₂) : Progress mem l s e (.inl (l.drop n)) s₂ e₂
  | stuck {bytes : Bytes} {n : Nat} {s₁ s₂ : σ} {e₁ e₂ : ε} (hmem : l.mapM (mem s) = some bytes)
      (h : Attempt others env bytes s e (.took n) s₁ e₁) (hn : n < l.length)
      (hpoll : Polled others env s₁ e₁ false s₂ e₂) : Progress mem l s e (.inr false) s₂ e₂

variable {mem : σ → Nat → Option UInt8}

/-- What a `write` takes is no more than there is, so that it is a part or all of it. -/
theorem Attempt.lt_or_eq {l : List Nat} {bytes : Bytes} {n : Nat}
    (hmem : l.mapM (mem s) = some bytes) (h : Attempt others env bytes s e (.took n) s' e') :
    n < l.length ∨ n = l.length := by
  have hle := h.le
  rw [mapM_length hmem] at hle
  exact Nat.lt_or_eq_of_le hle

theorem runs_readThen {f : σ → Option α} {k : α → Prog os σ β} {b : β} :
    Runs env ((Prog.bind (read f) k).amid others) s e b s' e' ↔
      ∃ a, f s = some a ∧ Runs env ((k a).amid others) s e b s' e' := by
  rw [amid_bind, runs_bind]
  constructor
  · intro h
    obtain ⟨a, s₁, e₁, hread, hk⟩ := h
    obtain ⟨hf, rfl⟩ := runs_act.mp hread
    obtain ⟨a', ha', heq⟩ := Option.map_eq_some_iff.mp hf
    cases heq
    exact ⟨_, ha', hk⟩
  · intro h
    obtain ⟨a, ha, hk⟩ := h
    exact ⟨a, s, e, runs_act.mpr ⟨by rw [ha]; rfl, rfl⟩, hk⟩

theorem runs_deliverRound {l : List Nat} (hl : l ≠ []) {x : List Nat ⊕ Bool} :
    Runs env ((deliverRound mem l).amid others) s e x s' e' ↔
      Progress others env mem l s e x s' e' := by
  -- there is something left to write, so that the round makes a call
  rw [deliverRound, if_neg hl]
  refine runs_readThen.trans ?_
  simp only [runs_writeRound]
  constructor
  · intro h
    obtain ⟨bytes, hmem, h⟩ := h
    rcases h with ⟨hatt, rfl⟩ | ⟨hatt, rfl⟩ | ⟨n, s₁, e₁, hatt, hk⟩
    · exact .again hmem hatt
    · exact .failed hmem hatt
    · -- not all of it was taken: the wait for the descriptor comes before the next round
      rcases hatt.lt_or_eq hmem with hlt | rfl
      · rw [if_neg (Nat.ne_of_lt hlt)] at hk
        rcases runs_polled.mp hk with ⟨hpoll, rfl⟩ | ⟨hpoll, rfl⟩
        · exact .part hmem hatt hlt hpoll
        · exact .stuck hmem hatt hlt hpoll
      · rw [if_pos rfl] at hk
        obtain ⟨rfl, rfl, rfl⟩ := runs_ret.mp hk
        exact .whole hmem hatt
  · intro h
    cases h with
    | again hmem h => exact ⟨_, hmem, Or.inl ⟨h, rfl⟩⟩
    | failed hmem h => exact ⟨_, hmem, Or.inr (Or.inl ⟨h, rfl⟩)⟩
    | whole hmem h =>
      refine ⟨_, hmem, Or.inr (Or.inr ⟨_, _, _, h, ?_⟩)⟩
      rw [if_pos rfl]
      exact runs_ret.mpr ⟨rfl, rfl, rfl⟩
    | part hmem h hn hpoll =>
      refine ⟨_, hmem, Or.inr (Or.inr ⟨_, _, _, h, ?_⟩)⟩
      rw [if_neg (Nat.ne_of_lt hn)]
      exact runs_polled.mpr (Or.inl ⟨hpoll, rfl⟩)
    | stuck hmem h hn hpoll =>
      refine ⟨_, hmem, Or.inr (Or.inr ⟨_, _, _, h, ?_⟩)⟩
      rw [if_neg (Nat.ne_of_lt hn)]
      exact runs_polled.mpr (Or.inr ⟨hpoll, rfl⟩)

/-! ## `st_write` delivers -/

/-- The vector covers what is left to deliver: its cells have just these addresses, and
there is something left. -/
def Covers (iov : List Iovec) (l : List Nat) : Prop :=
  Positive iov ∧ iov ≠ [] ∧ addresses iov = l

/-- What `st_writev_resid` gives, and what came of the delivery: nothing is left, or the
call failed. -/
def ResidResult (r : Int × List Iovec) (ok : Bool) : Prop :=
  ok = true ∧ r = (0, []) ∨ ok = false ∧ r.1 = -1

theorem Covers.ne_nil {iov : List Iovec} {l : List Nat} (h : Covers iov l) : l ≠ [] := by
  obtain ⟨hpos, hne, rfl⟩ := h
  cases iov with
  | nil => exact absurd rfl hne
  | cons v iov =>
    have hv : 0 < v.len := hpos v (List.mem_cons_self ..)
    apply List.ne_nil_of_length_pos
    rw [length_addresses, total_cons]
    omega

/-- After a part of the bytes the rest of the vector covers the others. -/
theorem Covers.advance {iov : List Iovec} {l : List Nat} (h : Covers iov l) {n : Nat}
    (hn : n < l.length) :
    ∃ left, advanceIov n iov = some left ∧ left.length ≠ 0 ∧ Covers left (l.drop n) := by
  obtain ⟨hpos, hne, rfl⟩ := h
  rw [length_addresses] at hn
  obtain ⟨left, hleft, hpleft, haddr, hnil⟩ := advanceIov_eq_some hpos hne (Nat.le_of_lt hn)
  have hnleft : left ≠ [] := fun heq => Nat.ne_of_lt hn (hnil.mp heq)
  exact ⟨left, hleft, fun h0 => hnleft (List.eq_nil_of_length_eq_zero h0), hpleft, hnleft, haddr⟩

/-- After all of the bytes nothing is left of the vector. -/
theorem Covers.advance_whole {iov : List Iovec} {l : List Nat} (h : Covers iov l) :
    advanceIov l.length iov = some [] := by
  obtain ⟨hpos, hne, rfl⟩ := h
  rw [length_addresses]
  obtain ⟨left, hleft, -, -, hnil⟩ := advanceIov_eq_some hpos hne (Nat.le_refl (total iov))
  rw [hleft, hnil.mpr rfl]

/-- A round of `st_writev_resid` is a round of a delivery of the same addresses. -/
theorem progress_of_residRound {iov : List Iovec} {l : List Nat} (hcov : Covers iov l)
    {x : List Iovec ⊕ (Int × List Iovec)}
    (h : Runs env ((residRound mem iov).amid others) s e x s' e') :
    ∃ y, Sum.LiftRel Covers ResidResult x y ∧ Progress others env mem l s e y s' e' := by
  have haddr : addresses iov = l := hcov.2.2
  rw [residRound, if_pos (List.length_pos_iff.mpr hcov.2.1)] at h
  obtain ⟨bytes, hmem, h⟩ := runs_readThen.mp h
  rw [haddr] at hmem
  rcases runs_writeRound.mp h with ⟨hatt, rfl⟩ | ⟨hatt, rfl⟩ | ⟨n, s₁, e₁, hatt, hk⟩
  · exact ⟨_, .inl hcov, .again hmem hatt⟩
  · exact ⟨_, .inr (Or.inr ⟨rfl, rfl⟩), .failed hmem hatt⟩
  · obtain ⟨left, hleft, hk⟩ := runs_readThen.mp hk
    rcases hatt.lt_or_eq hmem with hlt | rfl
    · obtain ⟨left', hleft', hne, hcov'⟩ := hcov.advance hlt
      cases hleft.symm.trans hleft'
      rw [if_neg hne] at hk
      rcases runs_polled.mp hk with ⟨hpoll, rfl⟩ | ⟨hpoll, rfl⟩
      · exact ⟨_, .inl hcov', .part hmem hatt hlt hpoll⟩
      · exact ⟨_, .inr (Or.inr ⟨rfl, rfl⟩), .stuck hmem hatt hlt hpoll⟩
    · cases hleft.symm.trans hcov.advance_whole
      rw [if_pos List.length_nil] at hk
      obtain ⟨rfl, rfl, rfl⟩ := runs_ret.mp hk
      exact ⟨_, .inr (Or.inl ⟨rfl, rfl⟩), .whole hmem hatt⟩

/-- And the other way round: whatever a round of the delivery does, one of `st_writev_resid`
does too. -/
theorem residRound_of_progress {iov : List Iovec} {l : List Nat} (hcov : Covers iov l)
    {y : List Nat ⊕ Bool} (h : Progress others env mem l s e y s' e') :
    ∃ x, Sum.LiftRel (flip Covers) (flip ResidResult) y x ∧
      Runs env ((residRound mem iov).amid others) s e x s' e' := by
  have haddr : addresses iov = l := hcov.2.2
  -- the first of the two rounds is a call on the same bytes, whatever it gives
  rw [residRound, if_pos (List.length_pos_iff.mpr hcov.2.1)]
  simp only [bind_eq, runs_readThen, haddr]
  cases h with
  | again hmem h => exact ⟨_, .inl hcov, _, hmem, runs_writeRound.mpr (Or.inl ⟨h, rfl⟩)⟩
  | failed hmem h =>
    exact ⟨_, .inr (Or.inr ⟨rfl, rfl⟩), _, hmem, runs_writeRound.mpr (Or.inr (Or.inl ⟨h, rfl⟩))⟩
  | whole hmem h =>
    refine ⟨.inr (0, []), .inr (Or.inl ⟨rfl, rfl⟩), _, hmem, ?_⟩
    refine runs_writeRound.mpr (Or.inr (Or.inr ⟨_, _, _, h, ?_⟩))
    refine runs_readThen.mpr ⟨[], hcov.advance_whole, ?_⟩
    exact runs_ret.mpr ⟨rfl, rfl, rfl⟩
  | part hmem h hn hpoll =>
    -- some of it: the vector moves on by as much as the list does
    obtain ⟨left, hleft, hne, hcov'⟩ := hcov.advance hn
    refine ⟨.inl left, .inl hcov', _, hmem, ?_⟩
    refine runs_writeRound.mpr (Or.inr (Or.inr ⟨_, _, _, h, ?_⟩))
    refine runs_readThen.mpr ⟨left, hleft, ?_⟩
    rw [if_neg hne]
    exact runs_polled.mpr (Or.inl ⟨hpoll, rfl⟩)
  | stuck hmem h hn hpoll =>
    obtain ⟨left, hleft, hne, -⟩ := hcov.advance hn
    refine ⟨.inr (-1, left), .inr (Or.inr ⟨rfl, rfl⟩), _, hmem, ?_⟩
    refine runs_writeRound.mpr (Or.inr (Or.inr ⟨_, _, _, h, ?_⟩))
    refine runs_readThen.mpr ⟨left, hleft, ?_⟩
    rw [if_neg hne]
    exact runs_polled.mpr (Or.inr ⟨hpoll, rfl⟩)

theorem deliver_of_stWritevResid {iov : List Iovec} {l : List Nat} (hcov : Covers iov l)
    {r : Int × List Iovec} (h : Runs env ((stWritevResid mem iov).amid others) s e r s' e') :
    ∃ ok, ResidResult r ok ∧ Runs env ((deliver mem l).amid others) s e ok s' e' := by
  refine Runs.iter_rel (fun iov l s e x s₁ e₁ hcov hx => ?_) hcov h
  obtain ⟨y, hy, hprog⟩ := progress_of_residRound hcov hx
  exact ⟨y, hy, (runs_deliverRound hcov.ne_nil).mpr hprog⟩

theorem stWritevResid_of_deliver {iov : List Iovec} {l : List Nat} (hcov : Covers iov l)
    {ok : Bool} (h : Runs env ((deliver mem l).amid others) s e ok s' e') :
    ∃ r, ResidResult r ok ∧ Runs env ((stWritevResid mem iov).amid others) s e r s' e' := by
  refine Runs.iter_rel (R := flip Covers) (Q := flip ResidResult)
    (fun l iov s e y s₁ e₁ hcov hy => ?_) hcov h
  exact residRound_of_progress hcov ((runs_deliverRound hcov.ne_nil).mp hy)

/-- The return value for all of `nbyte` bytes, or `-1`: a part is never reported. -/
def writeResult (nbyte : Nat) (ok : Bool) : Option Nat := if ok then some nbyte else none

/-- `st_write` makes its value of what `st_writev_resid` leaves of the one cell. -/
theorem runs_stWrite_resid {buf nbyte : Nat} {rv : Option Nat} :
    Runs env ((stWrite mem buf nbyte).amid others) s e rv s' e' ↔
      ∃ r : Int × List Iovec, rv = (if r.1 = 0 then some (nbyte - residOf r.2) else none) ∧
        Runs env ((stWritevResid mem [⟨buf, nbyte⟩]).amid others) s e r s' e' := by
  simp only [stWrite, stWriteResid, bind_eq, pure_eq, amid_bind, runs_bind, amid_ret, runs_ret]
  constructor
  · intro h
    obtain ⟨b, s₁, e₁, ⟨r, s₂, e₂, hr, rfl, rfl, rfl⟩, hk⟩ := h
    refine ⟨r, ?_⟩
    by_cases h0 : r.1 = 0
    · rw [if_pos h0] at hk ⊢
      obtain ⟨rfl, rfl, rfl⟩ := runs_ret.mp hk
      exact ⟨rfl, hr⟩
    · rw [if_neg h0] at hk ⊢
      obtain ⟨rfl, rfl, rfl⟩ := runs_ret.mp hk
      exact ⟨rfl, hr⟩
  · intro h
    obtain ⟨r, rfl, hr⟩ := h
    refine ⟨_, s', e', ⟨r, s', e', hr, rfl, rfl, rfl⟩, ?_⟩
    by_cases h0 : r.1 = 0
    · rw [if_pos h0, if_pos h0]
      exact runs_ret.mpr ⟨rfl, rfl, rfl⟩
    · rw [if_neg h0, if_neg h0]
      exact runs_ret.mpr ⟨rfl, rfl, rfl⟩

/-- Nothing is left of the vector exactly if the call came off, so the value is all or `-1`. -/
theorem ResidResult.value {r : Int × List Iovec} {ok : Bool} (h : ResidResult r ok) (nbyte : Nat) :
    (if r.1 = 0 then some (nbyte - residOf r.2) else none) = writeResult nbyte ok := by
  rcases h with ⟨rfl, rfl⟩ | ⟨rfl, hr⟩
  · rfl
  · rw [hr]
    rfl

/-- `st_write` writes its buffer: it is a delivery of the buffer's addresses. -/
theorem runs_stWrite {buf nbyte : Nat} (hn : 0 < nbyte) {rv : Option Nat} :
    Runs env ((stWrite mem buf nbyte).amid others) s e rv s' e' ↔ ∃ ok, rv = writeResult nbyte ok ∧
      Runs env ((deliver mem (List.range' buf nbyte)).amid others) s e ok s' e' := by
  have hcov : Covers [⟨buf, nbyte⟩] (List.range' buf nbyte) := by
    refine ⟨fun v hv => ?_, List.cons_ne_nil _ _, List.append_nil _⟩
    cases List.mem_singleton.mp hv
    exact hn
  rw [runs_stWrite_resid]
  constructor
  · intro h
    obtain ⟨r, rfl, hr⟩ := h
    obtain ⟨ok, hres, hdel⟩ := deliver_of_stWritevResid hcov hr
    exact ⟨ok, hres.value nbyte, hdel⟩
  · intro h
    obtain ⟨ok, rfl, hdel⟩ := h
    obtain ⟨r, hres, hr⟩ := stWritevResid_of_deliver hcov hdel
    exact ⟨r, (hres.value nbyte).symm, hr⟩

/-! ## `st_writev` delivers -/

/-- `tmp_iov` covers what is left of `iov` to deliver, and has room for more
than that. -/
structure Stands (iov : List Iovec) (t : Tmp) (l : List Nat) : Prop where
  rest : l = (addresses iov).drop (total iov - t.nleft)
  nleft : t.nleft ≤ total iov
  cells : addresses t.cells = l
  room : ∀ room, t.room = some room → iov.length ≤ room

section

variable {iov : List Iovec} {t : Tmp} {l : List Nat}

theorem Stands.length (h : Stands iov t l) : l.length = t.nleft := by
  have hle := h.nleft
  rw [h.rest, List.length_drop, length_addresses]
  omega

theorem stands_start (iov : List Iovec) : Stands iov ⟨total iov, none, iov⟩ (addresses iov) where
  rest := by rw [Nat.sub_self, List.drop_zero]
  nleft := Nat.le_refl _
  cells := rfl
  room _ h := by cases h

/-- A short vector is copied to the local cells, or to those copied to before. -/
theorem Stands.copyRoom (h : Stands iov t l) (hiov : iov.length ≤ localMaxiov) {count : Nat}
    (hcount : count ≤ iov.length) :
    ∃ room, (copyRoom t.room count : Prog os σ (Option Nat)) = .ret (some room) ∧
      iov.length ≤ room := by
  cases hroom : t.room with
  | some room => exact ⟨room, rfl, h.room room hroom⟩
  | none =>
    refine ⟨localMaxiov, ?_, hiov⟩
    rw [StIo.copyRoom, if_pos (Nat.le_trans hcount hiov)]
    rfl

/-- What is done about `n` bytes that are not all there were: the rest is found, copied, and
waited for. -/
theorem Stands.tookOf (h : Stands iov t l) (hiov : iov.length ≤ localMaxiov) {n : Nat}
    (hn : n < l.length) : ∃ t', Stands iov t' (l.drop n) ∧ ∀ x, Runs env
      ((StIo.tookOf iov t n).amid others) s e x s' e' ↔
        Runs env ((polled t' none : Prog os σ (Tmp ⊕ Option Nat)).amid others) s e x s' e' := by
  have hlen := h.length
  have hle := h.nleft
  -- the cells that are not written yet, and room enough for them
  obtain ⟨cells, hcells, haddr, hshort⟩ :=
    unwritten_eq_some (show total iov - (t.nleft - n) < total iov by omega)
  obtain ⟨room, hroom, hfits⟩ : ∃ room,
      (StIo.copyRoom t.room cells.length : Prog os σ (Option Nat)) = .ret (some room) ∧
        iov.length ≤ room := h.copyRoom hiov hshort
  refine ⟨⟨t.nleft - n, some room, cells⟩, ⟨?_, ?_, ?_, ?_⟩, fun x => ?_⟩
  · rw [h.rest, List.drop_drop]
    congr 1
    show _ = total iov - (t.nleft - n)
    omega
  · show t.nleft - n ≤ total iov
    omega
  · rw [haddr, h.rest, List.drop_drop]
    congr 1
    omega
  · intro room' heq
    cases heq
    exact hfits
  · have hne : n ≠ t.nleft := by omega
    rw [StIo.tookOf, if_neg hne]
    refine runs_readThen.trans ?_
    simp only [hcells, Option.some.injEq, exists_eq_left', hroom, bind_eq, amid_bind, amid_ret]
    rw [runs_bind]
    constructor
    · intro hrun
      obtain ⟨_, _, _, hret, hrun⟩ := hrun
      obtain ⟨rfl, rfl, rfl⟩ := runs_ret.mp hret
      obtain ⟨cells', hcells', hrun⟩ := runs_readThen.mp hrun
      rw [if_pos (Nat.le_trans hshort hfits)] at hcells'
      cases hcells'
      exact hrun
    · intro hrun
      refine ⟨_, _, _, runs_ret.mpr ⟨rfl, rfl, rfl⟩, ?_⟩
      exact runs_readThen.mpr ⟨cells, if_pos (Nat.le_trans hshort hfits), hrun⟩

/-- The whole of what was left was taken: `st_writev` says how many bytes there were at
first. -/
theorem Stands.tookOf_whole (h : Stands iov t l) :
    (StIo.tookOf iov t l.length : Prog os σ (Tmp ⊕ Option Nat)) = .ret (.inr (some (total iov))) :=
  if_pos h.length

/-- The check of what `st_write` returned tells if it came off, and makes the value of the
whole vector. -/
theorem writeResult_checked {nleft nbyte : Nat} {ok : Bool} :
    (if writeResult nleft ok ≠ some nleft then pure (.inr none)
      else pure (.inr (some nbyte)) : Prog os σ (Tmp ⊕ Option Nat))
        = .ret (.inr (writeResult nbyte ok)) := by
  cases ok with
  | true => exact if_neg (not_not_intro rfl)
  | false => exact if_pos (Option.some_ne_none _).symm

/-- With one cell left `st_writev` leaves the rest to `st_write`, and so delivers it. -/
theorem Stands.runs_one (h : Stands iov t l) (hpos : 0 < t.nleft) (hone : t.cells.length = 1)
    {x : Tmp ⊕ Option Nat} :
    Runs env ((writevRound mem iov t).amid others) s e x s' e' ↔
      ∃ ok, x = .inr (writeResult (total iov) ok) ∧
        Runs env ((deliver mem l).amid others) s e ok s' e' := by
  obtain ⟨v, hv⟩ := List.length_eq_one_iff.mp hone
  have haddr : List.range' v.base v.len = l := by
    rw [← h.cells, hv]
    exact (List.append_nil _).symm
  have hlen : v.len = t.nleft := by rw [← h.length, ← haddr, List.length_range']
  -- one cell is `st_write`, which delivers its bytes by itself
  have hwrite : ∀ {rv : Option Nat} {s' : σ} {e' : ε},
      Runs env ((stWrite mem v.base t.nleft).amid others) s e rv s' e' ↔
        ∃ ok, rv = writeResult t.nleft ok ∧
          Runs env ((deliver mem l).amid others) s e ok s' e' := by
    intro rv s' e'
    rw [runs_stWrite hpos, ← haddr, ← hlen]
  rw [writevRound, if_pos hpos, if_pos hone]
  refine runs_readThen.trans ?_
  simp only [hv, List.head?_cons, Option.map_some, Option.some.injEq, exists_eq_left', bind_eq,
    amid_bind, runs_bind, hwrite]
  constructor
  · intro hrun
    obtain ⟨_, s₁, e₁, ⟨ok, rfl, hdel⟩, hret⟩ := hrun
    rw [writeResult_checked] at hret
    obtain ⟨rfl, rfl, rfl⟩ := runs_ret.mp hret
    exact ⟨ok, rfl, hdel⟩
  · intro hrun
    obtain ⟨ok, rfl, hdel⟩ := hrun
    refine ⟨_, s', e', ⟨ok, rfl, hdel⟩, ?_⟩
    rw [writeResult_checked]
    exact runs_ret.mpr ⟨rfl, rfl, rfl⟩

/-- With several cells left its round is a round of a delivery of what they cover. -/
theorem Stands.runs_many (h : Stands iov t l) (hiov : iov.length ≤ localMaxiov)
    (hpos : 0 < t.nleft) (hmany : t.cells.length ≠ 1) {x : Tmp ⊕ Option Nat}
    (hx : Runs env ((writevRound mem iov t).amid others) s e x s' e') :
    ∃ y, Sum.LiftRel (Stands iov) (fun rv ok => rv = writeResult (total iov) ok) x y ∧
      Progress others env mem l s e y s' e' := by
  rw [writevRound, if_pos hpos, if_neg hmany] at hx
  obtain ⟨bytes, hmem, hx⟩ := runs_readThen.mp hx
  rw [h.cells] at hmem
  rcases runs_writeRound.mp hx with ⟨hatt, rfl⟩ | ⟨hatt, rfl⟩ | ⟨n, s₁, e₁, hatt, hk⟩
  · exact ⟨_, .inl h, .again hmem hatt⟩
  · exact ⟨_, .inr rfl, .failed hmem hatt⟩
  · rcases hatt.lt_or_eq hmem with hlt | rfl
    · obtain ⟨t', h', htook⟩ := h.tookOf hiov hlt
      rcases runs_polled.mp ((htook x).mp hk) with ⟨hpoll, rfl⟩ | ⟨hpoll, rfl⟩
      · exact ⟨_, .inl h', .part hmem hatt hlt hpoll⟩
      · exact ⟨_, .inr rfl, .stuck hmem hatt hlt hpoll⟩
    · rw [h.tookOf_whole] at hk
      obtain ⟨rfl, rfl, rfl⟩ := runs_ret.mp hk
      exact ⟨_, .inr rfl, .whole hmem hatt⟩

/-- And the other way round: whatever a round of the delivery does, its round does too. -/
theorem Stands.many_runs (h : Stands iov t l) (hiov : iov.length ≤ localMaxiov)
    (hpos : 0 < t.nleft) (hmany : t.cells.length ≠ 1) {y : List Nat ⊕ Bool}
    (hy : Progress others env mem l s e y s' e') :
    ∃ x, Sum.LiftRel (Stands iov) (fun rv ok => rv = writeResult (total iov) ok) x y ∧
      Runs env ((writevRound mem iov t).amid others) s e x s' e' := by
  rw [writevRound, if_pos hpos, if_neg hmany]
  -- the cells cover the list, so the call is made on the same bytes
  simp only [bind_eq, runs_readThen, h.cells]
  cases hy with
  | again hmem hatt => exact ⟨_, .inl h, _, hmem, runs_writeRound.mpr (Or.inl ⟨hatt, rfl⟩)⟩
  | failed hmem hatt =>
    exact ⟨_, .inr rfl, _, hmem, runs_writeRound.mpr (Or.inr (Or.inl ⟨hatt, rfl⟩))⟩
  | whole hmem hatt =>
    refine ⟨.inr (some (total iov)), .inr rfl, _, hmem, ?_⟩
    refine runs_writeRound.mpr (Or.inr (Or.inr ⟨_, _, _, hatt, ?_⟩))
    rw [h.tookOf_whole]
    exact runs_ret.mpr ⟨rfl, rfl, rfl⟩
  | part hmem hatt hn hpoll =>
    obtain ⟨t', h', htook⟩ := h.tookOf hiov hn
    refine ⟨.inl t', .inl h', _, hmem, ?_⟩
    refine runs_writeRound.mpr (Or.inr (Or.inr ⟨_, _, _, hatt, ?_⟩))
    exact (htook _).mpr (runs_polled.mpr (Or.inl ⟨hpoll, rfl⟩))
  | stuck hmem hatt hn hpoll =>
    obtain ⟨t', -, htook⟩ := h.tookOf hiov hn
    refine ⟨.inr none, .inr rfl, _, hmem, ?_⟩
    refine runs_writeRound.mpr (Or.inr (Or.inr ⟨_, _, _, hatt, ?_⟩))
    exact (htook _).mpr (runs_polled.mpr (Or.inr ⟨hpoll, rfl⟩))

/-- Once nothing is left `st_writev` ends with all, and so does the delivery. -/
theorem runs_writevRound_last (hzero : ¬ 0 < t.nleft) {x : Tmp ⊕ Option Nat} :
    Runs env ((writevRound mem iov t).amid others) s e x s' e' ↔
      x = .inr (some (total iov)) ∧ s = s' ∧ e = e' := by
  rw [writevRound, if_neg hzero]
  refine runs_ret.trans ?_
  rw [eq_comm]

theorem deliverRound_nil : (deliverRound mem [] : Prog os σ (List Nat ⊕ Bool)) = .ret (.inr true) :=
  if_pos rfl

theorem runs_deliver_nil {ok : Bool} :
    Runs env ((deliver mem []).amid others) s e ok s' e' ↔ true = ok ∧ s = s' ∧ e = e' := by
  refine runs_iter.trans ?_
  rw [deliverRound_nil]
  constructor
  · intro h
    obtain ⟨x, s₁, e₁, hx, hk⟩ := h
    obtain ⟨rfl, rfl, rfl⟩ := runs_ret.mp hx
    exact runs_ret.mp hk
  · intro h
    exact ⟨.inr true, s, e, runs_ret.mpr ⟨rfl, rfl, rfl⟩, runs_ret.mpr h⟩

theorem deliver_of_stWritev (hiov : iov.length ≤ localMaxiov) {rv : Option Nat}
    (h : Runs env ((stWritev mem iov).amid others) s e rv s' e') :
    ∃ ok, rv = writeResult (total iov) ok ∧
      Runs env ((deliver mem (addresses iov)).amid others) s e ok s' e' := by
  refine Runs.rounds (Q := fun rv ok => rv = writeResult (total iov) ok)
    (R := fun t p => ∃ l, Stands iov t l ∧ p = (deliver mem l).amid others) ?_
    ⟨_, stands_start iov, rfl⟩ h
  -- the loop over the vectors and the loop over the list take the same rounds, until one cell
  -- is left
  intro t p s e x s₁ e₁ hp hx
  obtain ⟨l, hstands, rfl⟩ := hp
  by_cases hpos : 0 < t.nleft
  · by_cases hone : t.cells.length = 1
    · obtain ⟨ok, rfl, hdel⟩ := (hstands.runs_one hpos hone).mp hx
      exact ⟨ok, rfl, hdel⟩
    · obtain ⟨y, hy, hprog⟩ := hstands.runs_many hiov hpos hone hx
      have hl : l ≠ [] := List.ne_nil_of_length_pos (by rw [hstands.length]; exact hpos)
      have hround := (runs_deliverRound hl).mpr hprog
      cases hy with
      | inl h' =>
        exact ⟨_, ⟨_, h', rfl⟩, fun c s' e' hrest => runs_iter.mpr ⟨_, s₁, e₁, hround, hrest⟩⟩
      | inr hrv =>
        exact ⟨_, hrv, runs_iter.mpr ⟨_, s₁, e₁, hround, runs_ret.mpr ⟨rfl, rfl, rfl⟩⟩⟩
  · -- nothing is left, and `st_writev` says that all was written
    obtain ⟨rfl, rfl, rfl⟩ := (runs_writevRound_last hpos).mp hx
    have hl : l = [] := by
      apply List.eq_nil_of_length_eq_zero
      rw [hstands.length]
      omega
    rw [hl]
    exact ⟨true, rfl, runs_deliver_nil.mpr ⟨rfl, rfl, rfl⟩⟩

/-- From wherever `st_writev` stands it makes the rest of the delivery, by induction on its
rounds. -/
theorem Stands.runs_of_deliver (hiov : iov.length ≤ localMaxiov) {ok : Bool}
    (h : Runs env ((deliver mem l).amid others) s e ok s' e') : ∀ t, Stands iov t l →
      Runs env (.iter (fun t => (writevRound mem iov t).amid others) t) s e
        (writeResult (total iov) ok) s' e' := by
  refine Runs.iter_induct (P := fun l s e => ∀ t, Stands iov t l → Runs env (.iter _ t) s e
    (writeResult (total iov) ok) s' e') ?_ ?_ h
  · -- the last round of the list
    intro l s e hlast t hstands
    have hdel : Runs env ((deliver mem l).amid others) s e ok s' e' :=
      runs_iter.mpr ⟨_, s', e', hlast, runs_ret.mpr ⟨rfl, rfl, rfl⟩⟩
    by_cases hpos : 0 < t.nleft
    · by_cases hone : t.cells.length = 1
      · refine runs_iter.mpr ⟨_, s', e', (hstands.runs_one hpos hone).mpr ⟨ok, rfl, hdel⟩, ?_⟩
        exact runs_ret.mpr ⟨rfl, rfl, rfl⟩
      · have hl : l ≠ [] := List.ne_nil_of_length_pos (by rw [hstands.length]; exact hpos)
        obtain ⟨x, hx, hrun⟩ := hstands.many_runs hiov hpos hone ((runs_deliverRound hl).mp hlast)
        cases hx with
        | inr hrv =>
          refine runs_iter.mpr ⟨_, s', e', hrun, ?_⟩
          rw [hrv]
          exact runs_ret.mpr ⟨rfl, rfl, rfl⟩
    · have hl : l = [] := by
        apply List.eq_nil_of_length_eq_zero
        rw [hstands.length]
        omega
      rw [hl] at hdel
      obtain ⟨rfl, rfl, rfl⟩ := runs_deliver_nil.mp hdel
      refine runs_iter.mpr ⟨_, s, e, (runs_writevRound_last hpos).mpr ⟨rfl, rfl, rfl⟩, ?_⟩
      exact runs_ret.mpr ⟨rfl, rfl, rfl⟩
  · -- a round that leaves something, and the rest by induction
    intro l s e l₁ s₁ e₁ hround hrest ih t hstands
    have hdel : Runs env ((deliver mem l).amid others) s e ok s' e' :=
      runs_iter.mpr ⟨_, s₁, e₁, hround, hrest⟩
    have hl : l ≠ [] := by
      rintro rfl
      have hret : Runs env ((deliverRound mem []).amid others) s e (.inl l₁) s₁ e₁ := hround
      rw [deliverRound_nil] at hret
      obtain ⟨heq, -⟩ := runs_ret.mp hret
      cases heq
    have hpos : 0 < t.nleft := by
      rw [← hstands.length]
      exact List.length_pos_iff.mpr hl
    by_cases hone : t.cells.length = 1
    · refine runs_iter.mpr ⟨_, s', e', (hstands.runs_one hpos hone).mpr ⟨ok, rfl, hdel⟩, ?_⟩
      exact runs_ret.mpr ⟨rfl, rfl, rfl⟩
    · obtain ⟨x, hx, hrun⟩ := hstands.many_runs hiov hpos hone ((runs_deliverRound hl).mp hround)
      cases hx with
      | inl h' => exact runs_iter.mpr ⟨_, s₁, e₁, hrun, ih _ h'⟩

/-- Searching and copying make no difference: `st_writev` delivers its vector, all of it or
up to a failure. -/
theorem runs_stWritev (hiov : iov.length ≤ localMaxiov) {rv : Option Nat} :
    Runs env ((stWritev mem iov).amid others) s e rv s' e' ↔
      ∃ ok, rv = writeResult (total iov) ok ∧
        Runs env ((deliver mem (addresses iov)).amid others) s e ok s' e' := by
  constructor
  · exact deliver_of_stWritev hiov
  · intro h
    obtain ⟨ok, rfl, hdel⟩ := h
    exact Stands.runs_of_deliver hiov hdel _ (stands_start iov)

end

end

end RtmpServer.StIo
