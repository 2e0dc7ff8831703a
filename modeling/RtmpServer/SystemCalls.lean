import RtmpServer.StIo
import RtmpServer.Transcript

/-!
# The server over the system calls

The sessions of the other files ask for whole reads and for one `writev` at a
time. Here these calls are the code of `io.c`: what a session asks for is
`provided` by the system calls, the loop that the model has for `st_writev` is
what `st_writev` does (`stWritev_eq_contract`), and what the kernel has taken of a
session is what the session says it wrote (`hears_provided`).
-/

namespace RtmpServer.StIo

open Coroutine Coroutine.Prog

section

variable {σ O ε : Type} {others : O → σ → σ} {env : Env (os.amid O) ε} {s s' : σ} {e e' : ε}

/-! ## One `writev` of the contract -/

/-- What a `write` with its wait gives: a count, or an error, where the wait after a part of
the bytes may fail, too. -/
inductive Waited (others : O → σ → σ) (env : Env (os.amid O) ε) (bytes : Bytes) (s : σ) (e : ε) :
    WriteResult bytes.length → σ → ε → Prop where
  | again {h : 0 ≤ bytes.length} {s₁ : σ} {e₁ : ε}
      (hatt : Attempt others env bytes s e .again s₁ e₁) :
      Waited others env bytes s e (.wrote 0 h) s₁ e₁
  | failed {s₁ : σ} {e₁ : ε} (hatt : Attempt others env bytes s e .failed s₁ e₁) :
      Waited others env bytes s e .error s₁ e₁
  | whole {h : bytes.length ≤ bytes.length} {s₁ : σ} {e₁ : ε}
      (hatt : Attempt others env bytes s e (.took bytes.length) s₁ e₁) :
      Waited others env bytes s e (.wrote bytes.length h) s₁ e₁
  | part {n : Nat} {h : n ≤ bytes.length} {s₁ s₂ : σ} {e₁ e₂ : ε}
      (hatt : Attempt others env bytes s e (.took n) s₁ e₁) (hn : n < bytes.length)
      (hpoll : Polled others env s₁ e₁ true s₂ e₂) : Waited others env bytes s e (.wrote n h) s₂ e₂
  | stuck {n : Nat} {s₁ s₂ : σ} {e₁ e₂ : ε}
      (hatt : Attempt others env bytes s e (.took n) s₁ e₁) (hn : n < bytes.length)
      (hpoll : Polled others env s₁ e₁ false s₂ e₂) : Waited others env bytes s e .error s₂ e₂

/-- The wait of a round, with what follows it: a run first waits, and then goes on as the
descriptor is ready or not. -/
theorem runs_pollThen {α : Type} {p q : Prog os σ α} {a : α} :
    Runs env ((Prog.bind (stNetfdPoll : Prog os σ Bool) fun ready =>
      if ready = true then p else q).amid others) s e a s' e' ↔
      ∃ ready s₁ e₁, Polled others env s e ready s₁ e₁ ∧
        Runs env ((if ready = true then p else q).amid others) s₁ e₁ a s' e' := by
  refine runs_ask.trans ?_
  constructor
  · intro h
    obtain ⟨ready, o, e₁, hr, hk⟩ := h
    exact ⟨ready, _, e₁, ⟨o, hr, rfl⟩, hk⟩
  · intro h
    obtain ⟨ready, _, e₁, ⟨o, hr, rfl⟩, hk⟩ := h
    exact ⟨ready, o, e₁, hr, hk⟩

theorem runs_afterTook {nbyte n : Nat} {h : n ≤ nbyte} {r : WriteResult nbyte} :
    Runs env ((afterTook n h).amid others) s e r s' e' ↔
      n = nbyte ∧ r = .wrote n h ∧ s = s' ∧ e = e' ∨
        n < nbyte ∧ (Polled others env s e true s' e' ∧ r = .wrote n h ∨
          Polled others env s e false s' e' ∧ r = .error) := by
  unfold afterTook
  by_cases heq : n = nbyte
  · rw [if_pos heq]
    refine runs_ret.trans ⟨fun hret => Or.inl ⟨heq, hret.1.symm, hret.2⟩, fun hrun => ?_⟩
    rcases hrun with ⟨-, rfl, hret⟩ | ⟨hlt, -⟩
    · exact ⟨rfl, hret⟩
    · exact absurd heq (Nat.ne_of_lt hlt)
  · rw [if_neg heq]
    refine runs_pollThen.trans ?_
    simp only [heq, false_and, false_or, Nat.lt_of_le_of_ne h heq, true_and]
    constructor
    · intro hrun
      obtain ⟨ready, s₁, e₁, hpoll, hk⟩ := hrun
      cases ready with
      | true =>
        obtain ⟨rfl, rfl, rfl⟩ := runs_ret.mp hk
        exact Or.inl ⟨hpoll, rfl⟩
      | false =>
        obtain ⟨rfl, rfl, rfl⟩ := runs_ret.mp hk
        exact Or.inr ⟨hpoll, rfl⟩
    · intro hrun
      rcases hrun with ⟨hpoll, rfl⟩ | ⟨hpoll, rfl⟩
      · exact ⟨true, s', e', hpoll, runs_ret.mpr ⟨rfl, rfl, rfl⟩⟩
      · exact ⟨false, s', e', hpoll, runs_ret.mpr ⟨rfl, rfl, rfl⟩⟩

theorem runs_writevWait {bytes : Bytes} {r : WriteResult bytes.length} :
    Runs env ((writevWait bytes).amid others) s e r s' e' ↔
      Waited others env bytes s e r s' e' := by
  refine runs_ask.trans ?_
  constructor
  · intro h
    obtain ⟨reply, o, e₁, hr, hk⟩ := h
    cases reply with
    | failed errno =>
      cases errno with
      | eintr =>
        obtain ⟨rfl, rfl, rfl⟩ := runs_ret.mp hk
        exact .again (.interrupted hr)
      | other =>
        obtain ⟨rfl, rfl, rfl⟩ := runs_ret.mp hk
        exact .failed (.broken hr)
      | notReady =>
        obtain ⟨ready, s₂, e₂, hpoll, hk⟩ := runs_pollThen.mp hk
        cases ready with
        | true =>
          obtain ⟨rfl, rfl, rfl⟩ := runs_ret.mp hk
          exact .again (.waited hr hpoll)
        | false =>
          obtain ⟨rfl, rfl, rfl⟩ := runs_ret.mp hk
          exact .failed (.gaveUp hr hpoll)
    | took n hn =>
      rcases runs_afterTook.mp hk with ⟨rfl, rfl, rfl, rfl⟩ | ⟨hlt, hpoll⟩
      · exact .whole (.took hr)
      · rcases hpoll with ⟨hpoll, rfl⟩ | ⟨hpoll, rfl⟩
        · exact .part (.took hr) hlt hpoll
        · exact .stuck (.took hr) hlt hpoll
  · intro h
    cases h with
    | again hatt =>
      cases hatt with
      | interrupted h => exact ⟨_, _, _, h, runs_ret.mpr ⟨rfl, rfl, rfl⟩⟩
      | waited h hpoll =>
        exact ⟨_, _, _, h, runs_pollThen.mpr ⟨true, _, _, hpoll, runs_ret.mpr ⟨rfl, rfl, rfl⟩⟩⟩
    | failed hatt =>
      cases hatt with
      | broken h => exact ⟨_, _, _, h, runs_ret.mpr ⟨rfl, rfl, rfl⟩⟩
      | gaveUp h hpoll =>
        exact ⟨_, _, _, h, runs_pollThen.mpr ⟨false, _, _, hpoll, runs_ret.mpr ⟨rfl, rfl, rfl⟩⟩⟩
    | whole hatt =>
      cases hatt with
      | took h =>
        exact ⟨_, _, _, h, runs_afterTook.mpr (Or.inl ⟨rfl, rfl, rfl, rfl⟩)⟩
    | part hatt hn hpoll =>
      cases hatt with
      | took h => exact ⟨_, _, _, h, runs_afterTook.mpr (Or.inr ⟨hn, Or.inl ⟨hpoll, rfl⟩⟩)⟩
    | stuck hatt hn hpoll =>
      cases hatt with
      | took h => exact ⟨_, _, _, h, runs_afterTook.mpr (Or.inr ⟨hn, Or.inr ⟨hpoll, rfl⟩⟩)⟩

end

/-! ## The loop of the contract delivers as well -/

/-- An implementation runs in the state of a session as it does by itself. -/
theorem lift_writevWait {σ : Type} (bytes : Bytes) :
    (lift (writevWait bytes) : Prog os σ (WriteResult bytes.length)) = writevWait bytes := by
  unfold writevWait
  simp only [bind_eq, lift]
  congr 1
  funext reply
  cases reply with
  | failed errno =>
    cases errno with
    | eintr => rfl
    | other => rfl
    | notReady =>
      show Prog.bind _ _ = Prog.bind _ _
      congr 1
      funext ready
      cases ready with
      | true => rfl
      | false => rfl
  | took n h =>
    show lift (afterTook n h) = afterTook n h
    unfold afterTook
    by_cases heq : n = bytes.length
    · rw [if_pos heq, if_pos heq]
      rfl
    · rw [if_neg heq, if_neg heq]
      show Prog.bind _ _ = Prog.bind _ _
      congr 1
      funext ready
      cases ready with
      | true => rfl
      | false => rfl

section

variable {O ε : Type} {others : O → State → State} {env : Env (os.amid O) ε} {s s' : State}
  {e e' : ε} {mem : State → Nat → Option UInt8} {l : List Nat}

/-- The body of the contract's `st_writev`, which reads the bytes of all of `l`. -/
def contractRound (iov : State → Option Bytes) (nbyte written : Nat) : Routine (Nat ⊕ Option Nat) :=
  if written < nbyte then do
    let memory ← read iov
    match ← writevOnce (memory.drop written) with
    | .error => return .inr none
    | .wrote n _ => return .inl (written + n)
  else return .inr (some nbyte)

/-- What a round of the contract gives, by what its `writev` gave: the count is added up, an
error ends the loop. -/
def contractNext {nbyte : Nat} (written : Nat) : WriteResult nbyte → Nat ⊕ Option Nat
  | .error => .inr none
  | .wrote n _ => .inl (written + n)

theorem runs_contractRound {iov : State → Option Bytes} {nbyte written : Nat}
    (hlt : written < nbyte) {x : Nat ⊕ Option Nat} :
    Runs env (((contractRound iov nbyte written).link ioImpl).amid others) s e x s' e' ↔
      ∃ memory r, iov s = some memory ∧ x = contractNext written r ∧
        Waited others env (memory.drop written) s e r s' e' := by
  rw [contractRound, if_pos hlt]
  refine runs_readThen.trans (exists_congr fun memory => ?_)
  simp only [writevOnce, bind_eq, link, amid_bind, runs_bind, ioImpl, lift_writevWait,
    runs_writevWait, amid_ret, runs_ret]
  constructor
  · intro h
    obtain ⟨hmem, r, s₁, e₁, ⟨r', s₂, e₂, hr, rfl, rfl, rfl⟩, hk⟩ := h
    refine ⟨r', hmem, ?_⟩
    cases r' with
    | error =>
      obtain ⟨rfl, rfl, rfl⟩ := runs_ret.mp hk
      exact ⟨rfl, hr⟩
    | wrote n hn =>
      obtain ⟨rfl, rfl, rfl⟩ := runs_ret.mp hk
      exact ⟨rfl, hr⟩
  · intro h
    obtain ⟨r, hmem, rfl, hr⟩ := h
    refine ⟨hmem, r, s', e', ⟨r, s', e', hr, rfl, rfl, rfl⟩, ?_⟩
    cases r with
    | error => exact runs_ret.mpr ⟨rfl, rfl, rfl⟩
    | wrote n hn => exact runs_ret.mpr ⟨rfl, rfl, rfl⟩

theorem runs_contractRound_last {iov : State → Option Bytes} {nbyte written : Nat}
    (hle : ¬ written < nbyte) {x : Nat ⊕ Option Nat} :
    Runs env (((contractRound iov nbyte written).link ioImpl).amid others) s e x s' e' ↔
      .inr (some nbyte) = x ∧ s = s' ∧ e = e' := by
  rw [contractRound, if_neg hle]
  exact runs_ret

/-- What is behind a part of the bytes that was written: the same cells are left over, and
the same bytes. -/
theorem memory_drop {memory : Bytes} (hmem : l.mapM (mem s) = some memory) (written : Nat) :
    (l.drop written).mapM (mem s) = some (memory.drop written) ∧
      (memory.drop written).length = (l.drop written).length := by
  have hdrop := mapM_drop hmem written
  exact ⟨hdrop, mapM_length hdrop⟩

/-- The loop of the contract, from where it stands: `written` bytes have been taken already. -/
abbrev contractFrom (others : O → State → State) (l : List Nat)
    (mem : State → Nat → Option UInt8) (written : Nat) : Prog (os.amid O) State (Option Nat) :=
  .iter (fun written =>
    ((contractRound (fun s => l.mapM (mem s)) l.length written).link ioImpl).amid others) written

/-- As long as something is left a round of the contract is a round of a delivery. -/
theorem progress_of_contract {written : Nat} (hlt : written < l.length) {x : Nat ⊕ Option Nat}
    (h : Runs env (((contractRound (fun s => l.mapM (mem s)) l.length written).link ioImpl).amid
      others) s e x s' e') :
    (∃ n, written + n ≤ l.length ∧ x = .inl (written + n) ∧
      ∀ c t f, Runs env ((deliver mem (l.drop (written + n))).amid others) s' e' c t f →
        Runs env ((deliver mem (l.drop written)).amid others) s e c t f) ∨
      x = .inr none ∧ Runs env ((deliver mem (l.drop written)).amid others) s e false s' e' := by
  have hne : l.drop written ≠ [] := by
    apply List.ne_nil_of_length_pos
    rw [List.length_drop]
    omega
  have hround : ∀ {y : List Nat ⊕ Bool}, Progress others env mem (l.drop written) s e y s' e' →
      ∀ {c : Bool} {t : State} {f : ε}, Runs env (again _ y) s' e' c t f →
        Runs env ((deliver mem (l.drop written)).amid others) s e c t f :=
    fun hprog _ _ _ hrest => runs_iter.mpr ⟨_, s', e', (runs_deliverRound hne).mpr hprog, hrest⟩
  have hdone : ∀ ok, Runs env (again (fun l => (deliverRound mem l).amid others) (.inr ok)) s' e' ok
      s' e' := fun ok => runs_ret.mpr ⟨rfl, rfl, rfl⟩
  obtain ⟨memory, r, hmem, rfl, hr⟩ := (runs_contractRound hlt).mp h
  obtain ⟨hdrop, hlen⟩ := memory_drop hmem written
  have hleft : (l.drop written).length = l.length - written := List.length_drop
  cases hr with
  | again hatt =>
    refine Or.inl ⟨0, Nat.le_of_lt hlt, rfl, fun c t f hrest => ?_⟩
    exact hround (.again hdrop hatt) hrest
  | failed hatt => exact Or.inr ⟨rfl, hround (.failed hdrop hatt) (hdone false)⟩
  | whole hatt =>
    -- the contract looks once more and finds nothing left
    refine Or.inl ⟨_, ?_, rfl, fun c t f hrest => ?_⟩
    · omega
    · have hnil : l.drop (written + (memory.drop written).length) = [] := by
        apply List.drop_eq_nil_of_le
        omega
      rw [hnil] at hrest
      obtain ⟨rfl, rfl, rfl⟩ := runs_deliver_nil.mp hrest
      rw [hlen] at hatt
      exact hround (.whole hdrop hatt) (hdone true)
  | @part n _ _ _ _ _ hatt hn hpoll =>
    refine Or.inl ⟨n, by omega, rfl, fun c t f hrest => ?_⟩
    rw [← List.drop_drop] at hrest
    exact hround (.part hdrop hatt (by omega) hpoll) hrest
  | stuck hatt hn hpoll =>
    exact Or.inr ⟨rfl, hround (.stuck hdrop hatt (by omega) hpoll) (hdone false)⟩

theorem deliver_of_contract {rv : Option Nat}
    (h : Runs env (contractFrom others l mem 0) s e rv s' e') :
    ∃ ok, rv = writeResult l.length ok ∧
      Runs env ((deliver mem l).amid others) s e ok s' e' := by
  refine Runs.rounds (Q := fun rv ok => rv = writeResult l.length ok) (R := fun written p =>
    written ≤ l.length ∧ p = (deliver mem (l.drop written)).amid others) ?_ ⟨Nat.zero_le _, rfl⟩ h
  intro written p s e x s₁ e₁ hp hx
  obtain ⟨hle, rfl⟩ := hp
  by_cases hlt : written < l.length
  · rcases progress_of_contract hlt hx with ⟨n, hn, rfl, hmore⟩ | ⟨rfl, hdel⟩
    · exact ⟨_, ⟨hn, rfl⟩, hmore⟩
    · exact ⟨false, rfl, hdel⟩
  · obtain ⟨rfl, rfl, rfl⟩ := (runs_contractRound_last hlt).mp hx
    rw [List.drop_eq_nil_of_le (Nat.not_lt.mp hlt)]
    exact ⟨true, rfl, runs_deliver_nil.mpr ⟨rfl, rfl, rfl⟩⟩

/-- And the other way round, where the bytes can be read: the contract reads those
that are written already as well. -/
theorem contract_of_progress (hsome : ∀ s, (l.mapM (mem s)).isSome) {written : Nat}
    (hlt : written < l.length) {y : List Nat ⊕ Bool}
    (h : Progress others env mem (l.drop written) s e y s' e') :
    ∃ x, Runs env (((contractRound (fun s => l.mapM (mem s)) l.length written).link ioImpl).amid
        others) s e x s' e' ∧
      ((∃ n, written + n ≤ l.length ∧ x = .inl (written + n) ∧ y = .inl (l.drop (written + n))) ∨
        x = .inl l.length ∧ y = .inr true ∨ x = .inr none ∧ y = .inr false) := by
  obtain ⟨memory, hmem⟩ := Option.isSome_iff_exists.mp (hsome s)
  obtain ⟨hdrop, hlen⟩ := memory_drop hmem written
  have hleft : (l.drop written).length = l.length - written := List.length_drop
  have hround : ∀ r, Waited others env (memory.drop written) s e r s' e' →
      Runs env (((contractRound (fun s => l.mapM (mem s)) l.length written).link ioImpl).amid
        others) s e (contractNext written r) s' e' :=
    fun r hr => (runs_contractRound hlt).mpr ⟨memory, r, hmem, rfl, hr⟩
  cases h with
  | again hbytes hatt =>
    cases hbytes.symm.trans hdrop
    exact ⟨_, hround _ (.again (h := Nat.zero_le _) hatt), Or.inl ⟨0, Nat.le_of_lt hlt, rfl, rfl⟩⟩
  | failed hbytes hatt =>
    cases hbytes.symm.trans hdrop
    exact ⟨_, hround _ (.failed hatt), Or.inr (Or.inr ⟨rfl, rfl⟩)⟩
  | whole hbytes hatt =>
    cases hbytes.symm.trans hdrop
    rw [← hlen] at hatt
    refine ⟨_, hround _ (.whole (h := Nat.le_refl _) hatt), Or.inr (Or.inl ⟨?_, rfl⟩)⟩
    show Sum.inl (written + (memory.drop written).length) = _
    rw [hlen, hleft, Nat.add_sub_cancel' (Nat.le_of_lt hlt)]
  | @part _ n _ _ _ _ hbytes hatt hn hpoll =>
    cases hbytes.symm.trans hdrop
    refine ⟨_, hround _ (.part (h := by omega) hatt (by omega) hpoll),
      Or.inl ⟨n, by omega, rfl, ?_⟩⟩
    rw [List.drop_drop]
  | stuck hbytes hatt hn hpoll =>
    cases hbytes.symm.trans hdrop
    exact ⟨_, hround _ (.stuck hatt (by omega) hpoll), Or.inr (Or.inr ⟨rfl, rfl⟩)⟩

theorem contract_of_deliver (hsome : ∀ s, (l.mapM (mem s)).isSome) {ok : Bool}
    (h : Runs env ((deliver mem l).amid others) s e ok s' e') :
    Runs env (contractFrom others l mem 0) s e (writeResult l.length ok) s' e' := by
  have hend : ∀ {written : Nat} {s : State} {e : ε}, ¬ written < l.length →
      Runs env (contractFrom others l mem written) s e (some l.length) s e := fun hle =>
    runs_iter.mpr ⟨_, _, _, (runs_contractRound_last hle).mpr ⟨rfl, rfl, rfl⟩,
      runs_ret.mpr ⟨rfl, rfl, rfl⟩⟩
  have hrun : ∃ rv, rv = writeResult l.length ok ∧
      Runs env (contractFrom others l mem 0) s e rv s' e' := by
    refine Runs.rounds (Q := fun ok rv => rv = writeResult l.length ok)
      (R := fun left p => ∃ written, left = l.drop written ∧ p = contractFrom others l mem written)
      ?_ ⟨0, rfl, rfl⟩ h
    intro left p s e y s₁ e₁ hp hy
    obtain ⟨written, rfl, rfl⟩ := hp
    by_cases hlt : written < l.length
    · have hne : l.drop written ≠ [] := by
        apply List.ne_nil_of_length_pos
        rw [List.length_drop]
        omega
      obtain ⟨x, hx, hcases⟩ := contract_of_progress hsome hlt ((runs_deliverRound hne).mp hy)
      rcases hcases with ⟨n, -, rfl, rfl⟩ | ⟨rfl, rfl⟩ | ⟨rfl, rfl⟩
      · exact ⟨_, ⟨_, rfl, rfl⟩, fun c t f hrest => runs_iter.mpr ⟨_, s₁, e₁, hx, hrest⟩⟩
      · exact ⟨_, rfl, runs_iter.mpr ⟨_, s₁, e₁, hx, hend (Nat.lt_irrefl _)⟩⟩
      · exact ⟨_, rfl, runs_iter.mpr ⟨_, s₁, e₁, hx, runs_ret.mpr ⟨rfl, rfl, rfl⟩⟩⟩
    · have hret : Runs env ((deliverRound mem (l.drop written)).amid others) s e y s₁ e₁ := hy
      rw [List.drop_eq_nil_of_le (Nat.not_lt.mp hlt), deliverRound_nil] at hret
      obtain ⟨rfl, rfl, rfl⟩ := runs_ret.mp hret
      exact ⟨_, rfl, hend hlt⟩
  obtain ⟨rv, rfl, hrv⟩ := hrun
  exact hrv

/-- `st_writev` over the system calls has the runs that the loop of the contract
has on top of them: for vectors that fit the local cells, while the bytes can be
read, whatever the others do in the waits. -/
theorem stWritev_eq_contract [Monoid O] (hacts : Acts others) {iov : List Iovec}
    (hiov : iov.length ≤ localMaxiov) (hsome : ∀ s, ((addresses iov).mapM (mem s)).isSome)
    {rv : Option Nat} :
    Runs env ((stWritev mem iov).amid others) s e rv s' e' ↔
      Runs (provided env ioImpl) ((RtmpServer.stWritev (fun s => (addresses iov).mapM (mem s))
        (total iov)).amid others) s e rv s' e' := by
  rw [runs_stWritev hiov, ← runs_link hacts, ← length_addresses]
  constructor
  · intro h
    obtain ⟨ok, rfl, hdel⟩ := h
    exact contract_of_deliver hsome hdel
  · exact deliver_of_contract

end

/-! ## What the kernel has taken -/

/-- `out` is what the kernel has taken on a descriptor: it grows by what a `write` reports,
and by nothing else. -/
structure Taken {O ε : Type} (env : Env (os.amid O) ε) (out : ε → Bytes) : Prop where
  took : ∀ {bytes n h o e e'}, env (.write bytes) e = some ((.took n h, o), e') →
    out e' = out e ++ bytes.take n
  failed : ∀ {bytes errno o e e'}, env (.write bytes) e = some ((.failed errno, o), e') →
    out e' = out e
  quiet : ∀ {c r e e'}, (∀ bytes, c ≠ OsCall.write bytes) → env c e = some (r, e') → out e' = out e

section

variable {σ O ε : Type} {others : O → σ → σ} {env : Env (os.amid O) ε} {s s' : σ} {e e' : ε}
  {out : ε → Bytes} {bytes : Bytes}

theorem Polled.taken (hout : Taken env out) {ready : Bool}
    (h : Polled others env s e ready s' e') : out e' = out e := by
  obtain ⟨o, ho, -⟩ := h
  exact hout.quiet (fun _ heq => by cases heq) ho

/-- How many bytes an attempt got rid of: as many as the kernel took, and none in any other
case. -/
def Outcome.count : Outcome → Nat
  | .again => 0
  | .failed => 0
  | .took n => n

theorem Attempt.taken (hout : Taken env out) {x : Outcome}
    (h : Attempt others env bytes s e x s' e') : out e' = out e ++ bytes.take x.count := by
  cases h with
  | interrupted h => rw [hout.failed h, Outcome.count, List.take_zero, List.append_nil]
  | broken h => rw [hout.failed h, Outcome.count, List.take_zero, List.append_nil]
  | waited h hpoll =>
    rw [hpoll.taken hout, hout.failed h, Outcome.count, List.take_zero, List.append_nil]
  | gaveUp h hpoll =>
    rw [hpoll.taken hout, hout.failed h, Outcome.count, List.take_zero, List.append_nil]
  | took h => exact hout.took h

/-- A condition on the state that the others keep holds after a wait. -/
theorem Polled.keeps {K : σ → Prop} (hothers : ∀ o s, K s → K (others o s)) {ready : Bool}
    (h : Polled others env s e ready s' e') (hs : K s) : K s' := by
  obtain ⟨o, -, rfl⟩ := h
  exact hothers o s hs

theorem Attempt.keeps {K : σ → Prop} (hothers : ∀ o s, K s → K (others o s)) {x : Outcome}
    (h : Attempt others env bytes s e x s' e') (hs : K s) : K s' := by
  cases h with
  | interrupted h => exact hothers _ _ hs
  | broken h => exact hothers _ _ hs
  | waited h hpoll => exact hpoll.keeps hothers (hothers _ _ hs)
  | gaveUp h hpoll => exact hpoll.keeps hothers (hothers _ _ hs)
  | took h => exact hothers _ _ hs

variable {mem : σ → Nat → Option UInt8} {l : List Nat}

/-- What has come of a delivery after a round: the kernel has a front part of the bytes, and
the rest is still to be sent. -/
def Delivered (out : ε → Bytes) (K : σ → Prop) (bytes : Bytes) (l : List Nat) (e : ε)
    (y : List Nat ⊕ Bool) (s' : σ) (e' : ε) : Prop :=
  K s' ∧ ∃ n ≤ bytes.length, out e' = out e ++ bytes.take n ∧
    match y with
    | .inl left => left = l.drop n
    | .inr ok => ok = true ↔ n = bytes.length

/-- A delivery of bytes that stay where they are: the kernel has taken a front
part of them, and it came off exactly if that is all of them. -/
theorem wlp_deliver (hout : Taken env out) {K : σ → Prop}
    (hothers : ∀ o s, K s → K (others o s)) (hmem : ∀ s, K s → l.mapM (mem s) = some bytes)
    (hs : K s) :
    wlp env ((deliver mem l).amid others) (fun ok s' e' =>
      Delivered out K bytes l e (.inr ok) s' e') s e := by
  have hlen : bytes.length = l.length := mapM_length (hmem s hs)
  refine wlp_iter_of_inv (fun left s' e' => Delivered out K bytes l e (.inl left) s' e') ?_
    ⟨hs, 0, Nat.zero_le _, by rw [List.take_zero, List.append_nil], rfl⟩
  intro left s₁ e₁ hinv y s₂ e₂ hy
  obtain ⟨hs₁, n, hn, he₁, rfl⟩ := hinv
  have hdrop : (l.drop n).mapM (mem s₁) = some (bytes.drop n) := mapM_drop (hmem s₁ hs₁) n
  -- what an attempt on the rest takes comes behind what was taken before
  have hmore : ∀ {x : Outcome} {s₃ : σ} {e₃ : ε},
      Attempt others env (bytes.drop n) s₁ e₁ x s₃ e₃ →
        K s₃ ∧ out e₃ = out e ++ bytes.take (n + x.count) := by
    intro x s₃ e₃ hatt
    refine ⟨hatt.keeps hothers hs₁, ?_⟩
    rw [hatt.taken hout, he₁, List.append_assoc, List.take_add]
  by_cases hnil : l.drop n = []
  · have hret : Runs env ((deliverRound mem (l.drop n)).amid others) s₁ e₁ y s₂ e₂ := hy
    rw [hnil, deliverRound_nil] at hret
    obtain ⟨rfl, rfl, rfl⟩ := runs_ret.mp hret
    have hle := List.drop_eq_nil_iff.mp hnil
    exact ⟨hs₁, n, hn, he₁, iff_of_true rfl (by omega)⟩
  · have hlt : n < l.length := by
      by_contra hge
      exact hnil (List.drop_eq_nil_of_le (by omega))
    cases (runs_deliverRound hnil).mp hy with
    | again hbytes hatt =>
      cases hbytes.symm.trans hdrop
      obtain ⟨hs₂, he₂⟩ := hmore hatt
      exact ⟨hs₂, n, hn, he₂, rfl⟩
    | failed hbytes hatt =>
      cases hbytes.symm.trans hdrop
      obtain ⟨hs₂, he₂⟩ := hmore hatt
      exact ⟨hs₂, n, hn, he₂, iff_of_false Bool.false_ne_true (by omega)⟩
    | whole hbytes hatt =>
      cases hbytes.symm.trans hdrop
      obtain ⟨hs₂, he₂⟩ := hmore hatt
      have hall : n + (l.drop n).length = bytes.length := by
        rw [List.length_drop]
        omega
      exact ⟨hs₂, _, Nat.le_of_eq hall, he₂, iff_of_true rfl hall⟩
    | @part _ k _ _ _ _ hbytes hatt hk hpoll =>
      cases hbytes.symm.trans hdrop
      obtain ⟨hs₃, he₃⟩ := hmore hatt
      rw [List.length_drop] at hk
      refine ⟨hpoll.keeps hothers hs₃, n + k, by omega, ?_, List.drop_drop⟩
      rw [hpoll.taken hout, he₃, Outcome.count]
    | @stuck _ k _ _ _ _ hbytes hatt hk hpoll =>
      cases hbytes.symm.trans hdrop
      obtain ⟨hs₃, he₃⟩ := hmore hatt
      rw [List.length_drop] at hk
      refine ⟨hpoll.keeps hothers hs₃, n + k, by omega, ?_,
        iff_of_false Bool.false_ne_true (by omega)⟩
      rw [hpoll.taken hout, he₃, Outcome.count]

end

/-! ## What the kernel has given -/

/-- `inp` is what the kernel has given of a descriptor: it grows by what a `read` returns,
and by nothing else. -/
structure Given {O ε : Type} (env : Env (os.amid O) ε) (inp : ε → Bytes) : Prop where
  gave : ∀ {n bytes h o e e'}, env (.read n) e = some ((.gave bytes h, o), e') →
    inp e' = inp e ++ bytes
  failed : ∀ {n errno o e e'}, env (.read n) e = some ((.failed errno, o), e') → inp e' = inp e
  quiet : ∀ {c r e e'}, (∀ n, c ≠ OsCall.read n) → env c e = some (r, e') → inp e' = inp e

/-- The last call was a `read` that found the end of the peer's stream. -/
def Ended {O ε : Type} (env : Env (os.amid O) ε) (e' : ε) : Prop :=
  ∃ n e h o, 0 < n ∧ env (.read n) e = some ((.gave [] h, o), e')

section

variable {σ O ε : Type} {others : O → σ → σ} {env : Env (os.amid O) ε} {s s' : σ} {e e' : ε}
  {inp : ε → Bytes}

theorem Polled.given (hin : Given env inp) {ready : Bool}
    (h : Polled others env s e ready s' e') : inp e' = inp e := by
  obtain ⟨o, ho, -⟩ := h
  exact hin.quiet (fun _ heq => by cases heq) ho

/-- A round that gave nothing is made again, or is the last one. -/
theorem readRound_cases (hin : Given env inp) {α β : Type} {n : Nat} {again : β} {failed : α}
    {gave : Bytes → Prog os σ (β ⊕ α)} {x : β ⊕ α}
    (h : Runs env ((readRound n again failed gave).amid others) s e x s' e') :
    inp e' = inp e ∧ (x = .inl again ∨ x = .inr failed) ∨
      ∃ bytes hn o e₁, env (.read n) e = some ((.gave bytes hn, o), e₁) ∧
        Runs env ((gave bytes).amid others) (others o s) e₁ x s' e' := by
  obtain ⟨r, o, e₁, hr, hk⟩ := runs_ask.mp h
  cases r with
  | failed errno =>
    have hsame := hin.failed hr
    cases errno with
    | eintr =>
      obtain ⟨rfl, rfl, rfl⟩ := runs_ret.mp hk
      exact Or.inl ⟨hsame, Or.inl rfl⟩
    | other =>
      obtain ⟨rfl, rfl, rfl⟩ := runs_ret.mp hk
      exact Or.inl ⟨hsame, Or.inr rfl⟩
    | notReady =>
      rcases runs_polled.mp hk with ⟨hpoll, hx⟩ | ⟨hpoll, hx⟩
      · exact Or.inl ⟨(hpoll.given hin).trans hsame, Or.inl hx⟩
      · exact Or.inl ⟨(hpoll.given hin).trans hsame, Or.inr hx⟩
  | gave bytes hn => exact Or.inr ⟨bytes, hn, o, e₁, hr, hk⟩

/-- A vector that was moved on covers what is left of it, in no more cells. -/
theorem advanceIov_addresses : ∀ {iov : List Iovec} {n : Nat} {left : List Iovec},
    advanceIov n iov = some left →
      addresses left = (addresses iov).drop n ∧ left.length ≤ iov.length := by
  intro iov
  induction iov with
  | nil =>
    intro n left h
    cases h
  | cons v iov ih =>
    intro n left h
    rw [advanceIov] at h
    by_cases hle : v.len ≤ n
    · rw [if_pos hle] at h
      rw [drop_addresses_cons hle]
      by_cases hzero : n - v.len = 0
      · rw [if_pos hzero] at h
        cases h
        rw [hzero, List.drop_zero]
        exact ⟨rfl, Nat.le_succ _⟩
      · rw [if_neg hzero] at h
        obtain ⟨haddr, hlen⟩ := ih h
        exact ⟨haddr, Nat.le_succ_of_le hlen⟩
    · rw [if_neg hle] at h
      cases h
      exact ⟨addresses_partway (Nat.not_le.mp hle) iov, Nat.le_refl _⟩

/-- `got` came in since `e₀`, and the vector has moved on by as much. -/
structure Filling (inp : ε → Bytes) (iov : List Iovec) (e₀ : ε) (r : List Iovec × Bytes)
    (e : ε) : Prop where
  came : inp e = inp e₀ ++ r.2
  rest : addresses r.1 = (addresses iov).drop r.2.length
  le : r.2.length ≤ total iov
  cells : r.1.length ≤ iov.length

theorem Filling.total {iov : List Iovec} {r : List Iovec × Bytes} {e₀ : ε}
    (h : Filling inp iov e₀ r e) : total r.1 = total iov - r.2.length := by
  rw [← length_addresses, h.rest, List.length_drop, length_addresses]

theorem Filling.of_came {iov : List Iovec} {r : List Iovec × Bytes} {e₀ : ε}
    (h : Filling inp iov e₀ r e) (he : inp e' = inp e) : Filling inp iov e₀ r e' :=
  ⟨he.trans h.came, h.rest, h.le, h.cells⟩

/-- What a `read` gave fits in what is left of the vector, and is appended to what came
before. -/
theorem Filling.gave (hin : Given env inp) {iov : List Iovec} {r : List Iovec × Bytes} {e₀ : ε}
    (h : Filling inp iov e₀ r e) {bytes : Bytes} {hn : bytes.length ≤ StIo.total r.1} {o : O}
    (hr : env (.read (StIo.total r.1)) e = some ((.gave bytes hn, o), e')) {left : List Iovec}
    (hleft : advanceIov bytes.length r.1 = some left) :
    Filling inp iov e₀ (left, r.2 ++ bytes) e' := by
  obtain ⟨haddr, hcells⟩ := advanceIov_addresses hleft
  have htotal := h.total
  have hle := h.le
  refine ⟨?_, ?_, ?_, Nat.le_trans hcells h.cells⟩
  · rw [hin.gave hr, h.came, List.append_assoc]
  · rw [haddr, h.rest, List.drop_drop, List.length_append]
  · show (r.2 ++ bytes).length ≤ _
    rw [List.length_append]
    omega

/-- `st_readv_resid` has put into the vector what came in, in its order. It gives
0 once the vector is full or the peer's stream has ended. -/
theorem wlp_stReadvResid (hin : Given env inp) (iov : List Iovec) :
    wlp env ((stReadvResid iov).amid others) (fun r _ e' => Filling inp iov e r.2 e' ∧
      (r.1 = -1 ∨ r.1 = 0 ∧ (total r.2.1 = 0 ∨ Ended env e'))) s e := by
  refine wlp_iter_of_inv (fun r _ e₁ => Filling inp iov e r e₁) ?_
    ⟨(List.append_nil _).symm, rfl, Nat.zero_le _, Nat.le_refl _⟩
  intro r s₁ e₁ hfill x s₂ e₂ hx
  have hempty : ∀ {cells : List Iovec}, cells.length = 0 → total cells = 0 := by
    intro cells h0
    rw [List.eq_nil_of_length_eq_zero h0]
    rfl
  by_cases hpos : 0 < r.1.length
  · have hrun : Runs env ((readvRound r).amid others) s₁ e₁ x s₂ e₂ := hx
    rw [readvRound, if_pos hpos] at hrun
    rcases readRound_cases hin hrun with ⟨hsame, rfl | rfl⟩ | ⟨bytes, hn, o, e₃, hr, hk⟩
    · exact hfill.of_came hsame
    · exact ⟨hfill.of_came hsame, Or.inl rfl⟩
    · rw [gaveOf] at hk
      by_cases hzero : bytes.length = 0
      · rw [if_pos hzero] at hk
        obtain ⟨rfl, rfl, rfl⟩ := runs_ret.mp hk
        cases List.eq_nil_of_length_eq_zero hzero
        refine ⟨hfill.of_came (by rw [hin.gave hr, List.append_nil]), Or.inr ⟨rfl, ?_⟩⟩
        rcases Nat.eq_zero_or_pos (total r.1) with h0 | h0
        · exact Or.inl h0
        · exact Or.inr ⟨_, e₁, hn, o, h0, hr⟩
      · rw [if_neg hzero] at hk
        obtain ⟨left, hleft, hk⟩ := runs_readThen.mp hk
        have hfill' := hfill.gave hin hr hleft
        by_cases hnil : left.length = 0
        · rw [if_pos hnil] at hk
          obtain ⟨rfl, rfl, rfl⟩ := runs_ret.mp hk
          exact ⟨hfill', Or.inr ⟨rfl, Or.inl (hempty hnil)⟩⟩
        · rw [if_neg hnil] at hk
          rcases runs_polled.mp hk with ⟨hpoll, rfl⟩ | ⟨hpoll, rfl⟩
          · exact hfill'.of_came (hpoll.given hin)
          · exact ⟨hfill'.of_came (hpoll.given hin), Or.inl rfl⟩
  · have hrun : Runs env ((readvRound r).amid others) s₁ e₁ x s₂ e₂ := hx
    rw [readvRound, if_neg hpos] at hrun
    obtain ⟨rfl, rfl, rfl⟩ := runs_ret.mp hrun
    exact ⟨hfill, Or.inr ⟨rfl, Or.inl (hempty (Nat.eq_zero_of_not_pos hpos))⟩⟩

/-- `st_read_fully` returns the number of bytes it has read, which is what was
asked for unless the peer's stream has ended, or `-1`. -/
theorem wlp_stReadFully (hin : Given env inp) {buf nbyte : Nat} :
    wlp env ((stReadFully buf nbyte).amid others) (fun r _ e' =>
      inp e' = inp e ++ r.2 ∧ r.2.length ≤ nbyte ∧
        (r.1 = -1 ∨ r.1 = r.2.length ∧ (r.2.length = nbyte ∨ Ended env e'))) s e := by
  simp only [stReadFully, stReadResid, bind_eq, pure_eq, amid_bind, wlp_bind]
  refine wlp_mono (wlp_stReadvResid hin _) fun r s₁ e₁ hr => ?_
  obtain ⟨hfill, hrv⟩ := hr
  have htotal : StIo.total [⟨buf, nbyte⟩] = nbyte := List.sum_singleton
  have hle : r.2.2.length ≤ nbyte := htotal ▸ hfill.le
  -- one cell at most is left, and its length is what is missing
  have hresid : residOf r.2.1 = nbyte - r.2.2.length := by
    rw [← htotal, ← hfill.total]
    have hcells := hfill.cells
    cases hleft : r.2.1 with
    | nil => rfl
    | cons v left =>
      rw [hleft] at hcells
      have hnil : left = [] := List.eq_nil_of_length_eq_zero (by simpa using hcells)
      rw [hnil]
      exact (Nat.add_zero _).symm
  rw [amid_ret, wlp_ret]
  rcases hrv with hrv | ⟨hrv, hend⟩
  · rw [if_neg (by rw [hrv]; decide), amid_ret, wlp_ret]
    exact ⟨hfill.came, hle, Or.inl rfl⟩
  · rw [if_pos hrv, amid_ret, wlp_ret, hresid, Nat.sub_sub_self hle]
    refine ⟨hfill.came, hle, Or.inr ⟨rfl, ?_⟩⟩
    rcases hend with h0 | hend
    · rw [hfill.total, htotal] at h0
      exact Or.inl (Nat.le_antisymm hle (Nat.le_of_sub_eq_zero h0))
    · exact Or.inr hend

end

/-! ## The answers of the contract -/

section

variable {O ε : Type} {env : Env (os.amid O) ε} {e e' : ε} {o : O}

/-- What the contract's `st_read_fully` answers: bytes that came in, as many as
were asked for unless the peer's stream has ended. Of a call that fails the
bytes that it has read are lost. -/
theorem provided_stReadFully [Monoid O] {inp : ε → Bytes} (hin : Given env inp) {nbyte : Nat}
    {r : ReadResult nbyte} (h : provided env ioImpl (.stReadFully nbyte) e = some ((r, o), e')) :
    ∃ got, inp e' = inp e ++ got ∧ got.length ≤ nbyte ∧
      (r = .error ∨ ∃ hle, r = .data got hle ∧ (got.length = nbyte ∨ Ended env e')) := by
  have hrun := (provided_eq_some.mp h).unit
  obtain ⟨x, s₁, e₁, hx, hk⟩ := runs_bind.mp hrun
  obtain ⟨hcame, hle, hrv⟩ := wlp_stReadFully hin _ _ _ hx
  refine ⟨x.2, ?_⟩
  dsimp only at hk
  by_cases hfail : x.1 = -1
  · rw [if_pos hfail] at hk
    obtain ⟨rfl, rfl, rfl⟩ := runs_ret.mp hk
    exact ⟨hcame, hle, Or.inl rfl⟩
  · rw [if_neg hfail, dif_pos hle] at hk
    obtain ⟨rfl, rfl, rfl⟩ := runs_ret.mp hk
    obtain ⟨-, hend⟩ := hrv.resolve_left hfail
    exact ⟨hcame, hle, Or.inr ⟨hle, rfl, hend⟩⟩

/-- What the contract's `writev` answers, when it answers with a count, is what the kernel
has taken. -/
theorem Waited.taken {σ : Type} {others : O → σ → σ} {s s' : σ} {out : ε → Bytes}
    (hout : Taken env out) {bytes : Bytes} {r : WriteResult bytes.length}
    (h : Waited others env bytes s e r s' e') :
    ∃ n ≤ bytes.length, out e' = out e ++ bytes.take n ∧ ∀ k hk, r = .wrote k hk → k = n := by
  cases h with
  | again hatt =>
    refine ⟨0, Nat.zero_le _, hatt.taken hout, fun k hk heq => ?_⟩
    cases heq
    rfl
  | failed hatt =>
    refine ⟨0, Nat.zero_le _, hatt.taken hout, fun k hk heq => ?_⟩
    cases heq
  | whole hatt =>
    refine ⟨_, Nat.le_refl _, hatt.taken hout, fun k hk heq => ?_⟩
    cases heq
    rfl
  | @part n _ _ _ _ _ hatt hn hpoll =>
    refine ⟨n, Nat.le_of_lt hn, (hpoll.taken hout).trans (hatt.taken hout), fun k hk heq => ?_⟩
    cases heq
    rfl
  | @stuck n _ _ _ _ hatt hn hpoll =>
    refine ⟨n, Nat.le_of_lt hn, (hpoll.taken hout).trans (hatt.taken hout), fun k hk heq => ?_⟩
    cases heq

/-- The call writes nothing: it is any system call but a `write`. -/
def OsCall.Quiet (c : OsCall) : Prop := ∀ bytes, c ≠ OsCall.write bytes

theorem polled_quiet {σ α β : Type} (next : β) (stop : α) :
    (polled next stop : Prog os σ (β ⊕ α)).CallsOnly OsCall.Quiet :=
  ⟨⟨fun _ h => OsCall.noConfusion h, fun _ => trivial⟩, fun _ => callsOnly_ite trivial trivial⟩

/-- Reading writes nothing, however often `st_read_fully` comes back to its `read` and its
wait. -/
theorem stReadFully_quiet {σ : Type} (buf nbyte : Nat) :
    (stReadFully buf nbyte : Prog os σ (Int × Bytes)).CallsOnly OsCall.Quiet := by
  have hround : ∀ r, (readvRound r : Prog os σ _).CallsOnly OsCall.Quiet := by
    intro r
    refine callsOnly_ite ⟨⟨fun _ h => OsCall.noConfusion h, fun _ => trivial⟩,
      fun reply => ?_⟩ trivial
    cases reply with
    | failed errno =>
      cases errno with
      | notReady => exact polled_quiet _ _
      | _ => exact trivial
    | gave bytes hn =>
      exact callsOnly_ite trivial ⟨trivial, fun _ => callsOnly_ite trivial (polled_quiet _ _)⟩
  exact ⟨⟨hround, fun _ => trivial⟩, fun _ => callsOnly_ite trivial trivial⟩

theorem ioImpl_quiet {c : Call} (hc : c.Quiet) : (ioImpl c).CallsOnly OsCall.Quiet := by
  cases c with
  | writev bytes => exact hc.elim
  | stReadFully nbyte =>
    refine ⟨stReadFully_quiet 0 nbyte, fun r => callsOnly_ite trivial ?_⟩
    split
    · trivial
    · trivial
  | stUsleep => exact ⟨fun _ h => OsCall.noConfusion h, fun _ => trivial⟩

end

/-- Two changes of the other sessions one after the other are a change again, and to do
nothing is one. -/
instance : Monoid Others where
  mul o' o := ⟨o'.change ∘ o.change, fun g hg => o'.storable _ (o.storable g hg)⟩
  one := Others.idle
  mul_assoc _ _ _ := rfl
  one_mul _ := rfl
  mul_one _ := rfl

theorem acts_others : Acts Others.apply where
  one _ := rfl
  mul _ _ _ := rfl

/-- Over the system calls a session is heard as the contract says: what a failed
`writev` has sent all the same is a front part of its bytes. -/
theorem hears_provided {ε : Type} {env : Env (os.amid Others) ε} {out : ε → Bytes}
    (hout : Taken env out) : Hears (provided env ioImpl) out where
  wrote := by
    intro bytes n h o e e' hr
    have hrun : Runs env ((lift (writevWait bytes)).amid _) 1 e _ o e' := provided_eq_some.mp hr
    rw [lift_writevWait] at hrun
    obtain ⟨k, -, hk, hn⟩ := (runs_writevWait.mp hrun).taken hout
    rw [hk, hn n h rfl]
  failed := by
    intro bytes o e e' hr
    have hrun : Runs env ((lift (writevWait bytes)).amid _) 1 e _ o e' := provided_eq_some.mp hr
    rw [lift_writevWait] at hrun
    obtain ⟨k, -, hk, -⟩ := (runs_writevWait.mp hrun).taken hout
    exact ⟨_, List.take_prefix k bytes, hk⟩
  quiet := by
    intro c r e e' hc hr
    have hrun := (provided_eq_some.mp hr).unit
    have hquiet : (ioImpl c).CallsOnly OsCall.Quiet := ioImpl_quiet hc
    exact CallsOnly.wlp (R := fun e e' => out e' = out e) (fun _ => rfl)
      (fun _ _ _ h h' => h'.trans h) (fun _ _ _ _ hcall => hout.quiet hcall) _
      (hquiet.amid (fun (_ : Others) s => s) _) _ _ _ hrun

/-- What the kernel has taken of `st_writev`, as long as the bytes stay where they
are: a front part of them, and all of them exactly if it did not return `-1`. -/
theorem stWritev_taken {σ O ε : Type} {others : O → σ → σ} {env : Env (os.amid O) ε}
    {out : ε → Bytes} {mem : σ → Nat → Option UInt8} {iov : List Iovec} {bytes : Bytes}
    {K : σ → Prop} (hout : Taken env out) (hiov : iov.length ≤ localMaxiov)
    (hothers : ∀ o s, K s → K (others o s))
    (hmem : ∀ s, K s → (addresses iov).mapM (mem s) = some bytes) {s s' : σ} {e e' : ε}
    {rv : Option Nat} (hs : K s) (h : Runs env ((stWritev mem iov).amid others) s e rv s' e') :
    ∃ n ≤ bytes.length, out e' = out e ++ bytes.take n ∧
      (rv = some bytes.length ∧ n = bytes.length ∨ rv = none ∧ n < bytes.length) := by
  obtain ⟨ok, rfl, hdel⟩ := (runs_stWritev hiov).mp h
  obtain ⟨-, n, hn, he', hall⟩ := wlp_deliver hout hothers hmem hs _ _ _ hdel
  have hlen : bytes.length = total iov := by rw [mapM_length (hmem s hs), length_addresses]
  refine ⟨n, hn, he', ?_⟩
  cases ok with
  | true => exact Or.inl ⟨by rw [hlen]; rfl, hall.mp rfl⟩
  | false => exact Or.inr ⟨rfl, Nat.lt_of_le_of_ne hn fun heq => Bool.false_ne_true (hall.mpr heq)⟩

/-- A session whose calls are made of system calls: each of them is a run of the
server's code with the code of `io.c` in it, and what the kernel has taken is, call
by call, what the session says. -/
theorem session_over_os {order : Order} {ε : Type} {env : Env (os.amid Others) ε}
    {events : List (Event ε)} {lines : List Line} {s : State} {e : ε} {out : ε → Bytes}
    (hout : Taken env out) (h : Session order (provided env ioImpl) events lines s e) :
    (∀ ev ∈ events, Runs env (((ev.line.step.call order).link ioImpl).amid Others.apply) ev.before
      ev.socket ev.rc ev.after ev.socket') ∧
    ∃ xs : List Bytes, List.Forall₂ Event.Spoke events xs ∧
      out e = out (origin events e) ++ xs.flatten := by
  refine ⟨fun ev hev => ?_, h.hears (hears_provided hout)⟩
  exact (runs_link acts_others _).mpr (h.called ev hev).runs

section

variable {ε : Type} {env : Env (os.amid Others) ε} {s s' : State} {e e' : ε} {inp : ε → Bytes}

/-- The loop of an exact read over the system calls: all that was missing has come, or the
answer is `-1`. -/
theorem wlp_readCycle_over_os (hin : Given env inp) {missing : Nat} :
    wlp (provided env ioImpl) ((readCycle missing).amid Others.apply) (fun r s' e' =>
      s'.client = s.client ∧ ∃ p, inp e' = inp e ++ p ∧ p.length ≤ missing ∧
        (r.1 = -1 ∨ r = (0, p) ∧ p.length = missing)) s e := by
  refine wlp_iter_of_inv (fun buffer s' e' => s'.client = s.client ∧ inp e' = inp e ++ buffer ∧
    buffer.length ≤ missing) ?_ ⟨rfl, (List.append_nil _).symm, Nat.zero_le _⟩
  intro buffer s₁ e₁ hinv
  obtain ⟨hs₁, he₁, hle⟩ := hinv
  by_cases hlt : buffer.length < missing
  · simp only [if_pos hlt, bind_eq, amid_bind, wlp_bind]
    refine (wlp_amid_call Others.apply).mpr fun r o e₂ hr => wlp_ret.mpr ?_
    obtain ⟨got, he₂, hgot, hres⟩ := provided_stReadFully hin hr
    have hcame : inp e₂ = inp e ++ (buffer ++ got) := by rw [he₂, he₁, List.append_assoc]
    have hlen : (buffer ++ got).length = buffer.length + got.length := List.length_append
    rcases hres with rfl | ⟨hbytes, rfl, -⟩
    · simp only [pure_eq, amid_ret, wlp_ret]
      exact ⟨hs₁, buffer ++ got, hcame, by omega, Or.inl trivial⟩
    · simp only [pure_eq, amid_ite, amid_ret]
      by_cases hmore : buffer.length + got.length < missing
      · rw [if_pos hmore, wlp_ret]
        exact ⟨hs₁, hcame, by omega⟩
      · rw [if_neg hmore, wlp_ret]
        exact ⟨hs₁, _, hcame, by omega, Or.inr ⟨rfl, by omega⟩⟩
  · simp only [if_neg hlt, pure_eq, amid_ret, wlp_ret]
    exact ⟨hs₁, buffer, he₁, hle, Or.inr ⟨rfl, by omega⟩⟩

/-- `IO_Socket::read_nbytes_cycle` over the system calls, however they cut up what
the peer sends, and whatever the other sessions do in the waits: it appends to
`io_buffer` what came in, exactly what was missing. If it fails, the buffer is as
it was, and what came in is lost. -/
theorem readNbytesCycle_over_os (hin : Given env inp) {nbytes nread : Nat} {rc : Int}
    (h : Runs env (((readNbytesCycle nbytes).link ioImpl).amid Others.apply)
      s e (rc, nread) s' e') :
    ∃ p, inp e' = inp e ++ p ∧ p.length ≤ nbytes - (s.buffer .ioBuffer).length ∧
      (rc = -1 ∧ s'.client = s.client ∨
        rc = 0 ∧ nread = p.length ∧ p.length = nbytes - (s.buffer .ioBuffer).length ∧
          s'.client = (s.append .ioBuffer p).client) := by
  have hwlp : wlp (provided env ioImpl) ((readNbytesCycle nbytes).amid Others.apply) (fun r s' e' =>
      ∃ p, inp e' = inp e ++ p ∧ p.length ≤ nbytes - (s.buffer .ioBuffer).length ∧
        (r.1 = -1 ∧ s'.client = s.client ∨
          r.1 = 0 ∧ r.2 = p.length ∧ p.length = nbytes - (s.buffer .ioBuffer).length ∧
            s'.client = (s.append .ioBuffer p).client)) s e := by
    unfold readNbytesCycle readNbytesCycleOn
    simp only [bind_eq, pure_eq, amid_bind, amid_gets, wlp_bind, wlp_gets]
    by_cases hn : nbytes > (s.buffer .ioBuffer).length
    · simp only [if_pos hn, amid_bind, wlp_bind]
      refine wlp_mono (wlp_readCycle_over_os hin) fun r s₁ e₁ hread => ?_
      obtain ⟨hs₁, p, he₁, hle, hres⟩ := hread
      rcases hres with hrc | ⟨rfl, hlen⟩
      · rw [if_pos hrc, amid_ret, wlp_ret]
        exact ⟨p, he₁, hle, Or.inl ⟨rfl, hs₁⟩⟩
      · rw [if_neg (show ¬ ((0 : Int) = -1) by decide), amid_bind, wlp_bind,
          amid_modify, wlp_modify,
          amid_ret, wlp_ret]
        refine ⟨p, he₁, hle, Or.inr ⟨rfl, rfl, hlen, ?_⟩⟩
        show { s₁.client with ioBuffer := s₁.client.ioBuffer ++ p } = _
        rw [hs₁]
        rfl
    · simp only [if_neg hn, amid_ret, wlp_ret]
      refine ⟨[], (List.append_nil _).symm, Nat.zero_le _, Or.inr ⟨trivial, rfl, ?_, ?_⟩⟩
      · show 0 = _
        omega
      · show s.client = { s.client with ioBuffer := s.client.ioBuffer ++ [] }
        rw [List.append_nil]
  exact hwlp _ _ _ ((runs_link acts_others _).mp h)

end

/-! ## A kernel that does a little at a time -/

/-- What a peer has sent that is not read yet, and the two directions of its descriptor. -/
structure Descriptor where
  inp : Bytes
  given : Bytes := []
  out : Bytes := []

/-- It gives and takes `slice` bytes at most, and is always ready, so that no wait fails. -/
def kernel (slice : Nat) : Env os Descriptor
  | .read nbyte, d =>
    some (.gave ((d.inp.take slice).take nbyte) (List.length_take_le _ _),
      { d with
        inp := d.inp.drop (min nbyte slice)
        given := d.given ++ (d.inp.take slice).take nbyte })
  | .write bytes, d =>
    some (.took (min bytes.length slice) (Nat.min_le_left _ _),
      { d with out := d.out ++ bytes.take (min bytes.length slice) })
  | .netfdPoll, d => some (true, d)
  | .calloc, d => some (true, d)
  | .usleep, d => some ((), d)

theorem taken_kernel (slice : Nat) (o : Others) :
    Taken (alone o (kernel slice)) Descriptor.out where
  took := by
    intro bytes n h o e e' hr
    cases hr
    rfl
  failed := by
    intro bytes errno o e e' hr
    cases hr
  quiet := by
    intro c r e e' hc hr
    cases c with
    | write bytes => exact absurd rfl (hc bytes)
    | _ =>
      cases hr
      rfl

theorem given_kernel (slice : Nat) :
    Given (alone (1 : Others) (kernel slice)) Descriptor.given where
  gave := by
    intro n bytes h o e e' hr
    cases hr
    rfl
  failed := by
    intro n errno o e e' hr
    cases hr
  quiet := by
    intro c r e e' hc hr
    cases c with
    | read n => exact absurd rfl (hc n)
    | _ =>
      cases hr
      rfl

/-- Seven bytes that are missing, five of them at first: the loop comes back for the other
two. -/
theorem readNbytesCycle_over_os_slices : ∃ (p : Bytes) (s : State) (e : Descriptor),
    e.given = p ∧ p.length = 7 ∧ s.client = (({} : State).append .ioBuffer p).client := by
  have hexec : (exec (alone (1 : Others) (kernel 5)) 5
      (((readNbytesCycle 7).link ioImpl).amid Others.apply) {}
        ⟨[1, 2, 3, 4, 5, 6, 7, 8, 9], [], []⟩).map Prod.fst = some (0, 7) := by
    decide +kernel
  obtain ⟨⟨r, s, e⟩, hexec, heq⟩ := Option.map_eq_some_iff.mp hexec
  cases heq
  obtain ⟨p, hgiven, -, hres⟩ := readNbytesCycle_over_os (given_kernel 5) ⟨5, hexec⟩
  rcases hres with ⟨hrc, -⟩ | ⟨-, -, hlen, hs⟩
  · cases hrc
  · exact ⟨p, s, e, hgiven, hlen, hs⟩

/-- Twelve bytes and four, written five at a time, so that the third round takes bytes of
both cells. -/
theorem stWritev_slices : ∃ s e, e.out = [0, 1, 2, 3, 4, 5, 6, 7, 8, 9, 10, 11, 20, 21, 22, 23] ∧
    Runs (alone (1 : Others) (kernel 5)) ((stWritev (fun _ a => some (UInt8.ofNat a))
      [⟨0, 12⟩, ⟨20, 4⟩]).amid Others.apply) {} ⟨[], [], []⟩ (some 16) s e := by
  have hrun : (exec (alone (1 : Others) (kernel 5)) 5
      ((stWritev (fun _ a => some (UInt8.ofNat a)) [⟨0, 12⟩, ⟨20, 4⟩]).amid Others.apply) {}
        ⟨[], [], []⟩).map (fun R => (R.1, R.2.2.out))
      = some (some 16, [0, 1, 2, 3, 4, 5, 6, 7, 8, 9, 10, 11, 20, 21, 22, 23]) := by
    decide +kernel
  obtain ⟨⟨rv, s, e⟩, hexec, heq⟩ := Option.map_eq_some_iff.mp hrun
  obtain ⟨rfl, hout⟩ := Prod.mk.inj heq
  exact ⟨s, e, hout, 5, hexec⟩

theorem stWritev_eq_contract_slices : ∃ s e,
    e.out = [0, 1, 2, 3, 4, 5, 6, 7, 8, 9, 10, 11, 20, 21, 22, 23] ∧
    Runs (provided (alone (1 : Others) (kernel 5)) ioImpl)
      ((RtmpServer.stWritev (fun _ => (addresses [⟨0, 12⟩, ⟨20, 4⟩]).mapM fun a =>
        some (UInt8.ofNat a)) 16).amid Others.apply) {} ⟨[], [], []⟩ (some 16) s e := by
  obtain ⟨s, e, hout, hrun⟩ := stWritev_slices
  exact ⟨s, e, hout, (stWritev_eq_contract acts_others (by decide) (fun _ => by decide)).mp hrun⟩

theorem stWritev_taken_slices : ∃ (n : Nat) (s : State) (e : Descriptor), n ≤ 16 ∧
    Runs (alone (1 : Others) (kernel 5)) ((stWritev (fun _ a => some (UInt8.ofNat a))
      [⟨0, 12⟩, ⟨20, 4⟩]).amid Others.apply) {} ⟨[], [], []⟩ (some 16) s e ∧
    e.out = List.take n [0, 1, 2, 3, 4, 5, 6, 7, 8, 9, 10, 11, 20, 21, 22, 23] := by
  obtain ⟨s, e, -, hrun⟩ := stWritev_slices
  obtain ⟨n, hn, hout, -⟩ := stWritev_taken (K := fun _ => True) (taken_kernel 5 1) (by decide)
    (fun _ _ _ => trivial) (fun _ _ => rfl) trivial hrun
  exact ⟨n, s, e, hn, hrun, hout⟩

/-- The first calls of a session, one after the other, each of them with the code of
`io.c` in it. -/
def calls {ε : Type} (order : Order) (env : Env (os.amid Others) ε) (fuel : Nat) :
    Nat → List Line → State → ε → Option (List (Event ε) × List Line × State × ε)
  | 0, lines, s, e => some ([], lines, s, e)
  | _ + 1, [], _, _ => none
  | n + 1, line :: rest, s, e => do
    let (rc, s', e') ← exec env fuel (((line.step.call order).link ioImpl).amid Others.apply) s e
    let next ← line.follow rc rest
    let (events, stop) ← calls order env fuel n next (line.step.finish order rc s') e'
    return (⟨line, s, e, rc, s', e'⟩ :: events, stop)

/-- A session that they carry on is a session: the calls are appended to those that it had
made before. -/
theorem session_calls {order : Order} {ε : Type} {env : Env (os.amid Others) ε} {fuel n : Nat} :
    ∀ {events more : List (Event ε)} {lines lines' : List Line} {s s' : State} {e e' : ε},
      Session order (provided env ioImpl) events lines s e →
      calls order env fuel n lines s e = some (more, lines', s', e') →
      Session order (provided env ioImpl) (events ++ more) lines' s' e' := by
  induction n with
  | zero =>
    intro events more lines lines' s s' e e' h hcalls
    cases hcalls
    rw [List.append_nil]
    exact h
  | succ n ih =>
    intro events more lines lines' s s' e e' h hcalls
    cases lines with
    | nil => cases hcalls
    | cons line rest =>
      obtain ⟨⟨rc, s1, e1⟩, hexec, hcalls⟩ := Option.bind_eq_some_iff.mp hcalls
      obtain ⟨next, hfollow, hcalls⟩ := Option.bind_eq_some_iff.mp hcalls
      obtain ⟨⟨events1, stop⟩, hcalls, heq⟩ := Option.bind_eq_some_iff.mp hcalls
      cases heq
      have hrun := (runs_link acts_others _).mp ⟨fuel, hexec⟩
      rw [← List.singleton_append, ← List.append_assoc]
      exact ih (h.call hrun hfollow) hcalls

theorem origin_calls {order : Order} {ε : Type} {env : Env (os.amid Others) ε} {fuel n : Nat}
    {more : List (Event ε)} {lines lines' : List Line} {s s' : State} {e e' : ε}
    (hcalls : calls order env fuel n lines s e = some (more, lines', s', e')) :
    origin more e' = e := by
  cases n with
  | zero =>
    cases hcalls
    rfl
  | succ n =>
    cases lines with
    | nil => cases hcalls
    | cons line rest =>
      obtain ⟨_, -, hcalls⟩ := Option.bind_eq_some_iff.mp hcalls
      obtain ⟨_, -, hcalls⟩ := Option.bind_eq_some_iff.mp hcalls
      obtain ⟨⟨events, stop⟩, -, heq⟩ := Option.bind_eq_some_iff.mp hcalls
      cases heq
      rfl

/-- A client whose `connect` is answered, over a kernel that gives and takes 600
bytes at most, while another session is at work in every wait. -/
theorem session_over_os_connected :
    ∃ (events : List (Event Descriptor)) (xs : List Bytes) (s : State) (e : Descriptor),
      Session .front (provided (alone otherEntry (kernel 600)) ioImpl) events
        [.checkedCall .identify] s e ∧
      events.map Event.rc = [0, 0, 0, 0, 0, 0] ∧ List.Forall₂ Event.Spoke events xs ∧
      e.out = xs.flatten := by
  have hcalls : (calls .front (alone otherEntry (kernel 600)) 8 6 Line.negotiation {}
      ⟨hello ++ ([0x03, 0, 0, 0, 0, 0, 17, 20, 0, 0, 0, 0] ++ [0x02, 0, 1, 0x61, 0x00, 0, 0, 0,
        0, 0, 0, 0, 0, 0x03, 0, 0, 0x09]), [], []⟩).map
          (fun r => (r.1.map Event.rc, r.2.1)) =
            some ([0, 0, 0, 0, 0, 0], [.checkedCall .identify]) := by
    decide +kernel
  obtain ⟨⟨events, lines, s, e⟩, hcalls, heq⟩ := Option.map_eq_some_iff.mp hcalls
  obtain ⟨hrc, hlines⟩ := Prod.mk.inj heq
  dsimp only at hlines
  subst hlines
  have haccepted : ({} : State).Accepted := ⟨rfl, List.forall_mem_nil _⟩
  have hsession := session_calls (.start haccepted) hcalls
  rw [List.nil_append] at hsession
  obtain ⟨-, xs, hspoke, hout⟩ := session_over_os (taken_kernel 600 otherEntry) hsession
  rw [origin_calls hcalls, List.nil_append] at hout
  exact ⟨events, xs, s, e, hsession, hrc, hspoke, hout⟩

end RtmpServer.StIo
