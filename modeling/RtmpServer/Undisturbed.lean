import RtmpServer.Among
import RtmpServer.Clients

/-!
# Calls whose socket does not fail

What the calls of a session return among the others, when no read comes back
short or with an error and no write with an error. A write has then returned 0.
A receive has put what came in behind what stood in `io_buffer`, and has returned
0 if that is a message whose payload its parser accepts (`wlp_recv`). The payload
stands behind a header whose size is in its own bytes (`controlHeaderSize`), so
it is a function of what the client has sent.
-/

namespace RtmpServer

open Coroutine Coroutine.Prog Endian Framing
open Push

/-! ## Answers -/

/-- A read came back in full, a write without an error: what a socket gives that does not
fail. -/
def Call.Whole : (c : Call) → c.Reply → Prop
  | .stReadFully _, .error => False
  | .stReadFully nbyte, .data bytes _ => bytes.length = nbyte
  | .writev _, .error => False
  | .writev _, .wrote _ _ => True
  | .stUsleep, _ => True

/-- Which of the two an answer is can be seen from it. -/
instance (c : Call) (r : c.Reply) : Decidable (c.Whole r) :=
  match c, r with
  | .stReadFully _, .error => inferInstanceAs (Decidable False)
  | .stReadFully nbyte, .data bytes _ => inferInstanceAs (Decidable (bytes.length = nbyte))
  | .writev _, .error => inferInstanceAs (Decidable False)
  | .writev _, .wrote _ _ => inferInstanceAs (Decidable True)
  | .stUsleep, _ => inferInstanceAs (Decidable True)

/-- All its answers are of that kind, whatever the calls are and whatever the others do. -/
def Unfailing {ε : Type} (env : Env (st.amid Others) ε) : Prop :=
  ∀ c e r e', env c e = some (r, e') → c.Whole r.1

/-- The environment without its other answers: a call that would get one is never answered. -/
abbrev undisturbed {ε : Type} (env : Env (st.amid Others) ε) : Env (st.amid Others) ε :=
  env.only fun c r => c.Whole r.1

/-- What remains is an environment that does not fail. -/
theorem undisturbed_unfailing {ε : Type} (env : Env (st.amid Others) ε) :
    Unfailing (undisturbed env) :=
  fun _ _ _ _ h => (Env.only_eq_some.mp h).2

/-- What came in is what came in, if some answers are left out. -/
theorem account_undisturbed {ε : Type} {env : Env (st.amid Others) ε} {took : ε → Bytes → ε → Prop}
    (hacc : Account env.answers took) : Account (undisturbed env).answers took := by
  have hsub : ∀ {c e r e'}, (undisturbed env).answers c e = some (r, e') →
      env.answers c e = some (r, e') := by
    intro c e r e' h
    obtain ⟨⟨⟨r', o⟩, e1⟩, hr, heq⟩ := Option.map_eq_some_iff.mp h
    cases heq
    exact Env.answers_of_eq (Env.only_eq_some.mp hr).1
  exact ⟨hacc.nil, hacc.append, fun h => hacc.data (hsub h), fun h => hacc.error (hsub h)⟩

section

variable {ε : Type} {env : Env (st.amid Others) ε} {s : State} {e : ε}

/-! ## Reads -/

/-- A read that comes back comes back in full, with the others' changes. -/
theorem wlp_stReadFully_whole (henv : Unfailing env) {n : Nat}
    {Q : ReadResult n → State → ε → Prop}
    (hQ : ∀ bytes h (o : Others) e1, bytes.length = n → Q (.data bytes h) (o.apply s) e1) :
    wlp env ((stReadFully n).amid Others.apply) Q s e := by
  refine (wlp_amid_call Others.apply).mpr fun r o e1 hr => wlp_ret.mpr ?_
  have hwhole := henv _ _ _ _ hr
  cases r with
  | error => exact absurd hwhole id
  | data bytes h => exact hQ bytes h o e1 hwhole

/-- One request fills the buffer, so the loop of the exact read goes round once. -/
theorem wlp_readCycle_whole (henv : Unfailing env) {missing : Nat} :
    wlp env ((readCycle missing).amid Others.apply) (fun r _ _ => r.1 = 0) s e := by
  unfold readCycle
  rw [amid_iter]
  refine wlp_iter_of_inv (fun buffer _ _ => buffer = []) ?_ rfl
  intro buffer s1 e1 hbuffer
  subst hbuffer
  by_cases h0 : 0 < missing
  · simp only [List.length_nil, if_pos h0, Nat.sub_zero, bind_eq, pure_eq, amid_bind, wlp_bind]
    refine wlp_stReadFully_whole henv fun bytes h o e2 hlen => ?_
    simp only [List.nil_append, Nat.zero_add, hlen, if_neg (Nat.lt_irrefl _), amid_ret, wlp_ret]
  · simp only [List.length_nil, if_neg h0, pure_eq, amid_ret, wlp_ret]

/-- The exact read returns 0. -/
theorem wlp_readNbytesCycle_whole (henv : Unfailing env) {n : Nat} :
    wlp env ((readNbytesCycle n).amid Others.apply) (fun r _ _ => r.1 = 0) s e := by
  unfold readNbytesCycle readNbytesCycleOn
  simp only [bind_eq, pure_eq, amid_bind, amid_gets, wlp_bind, wlp_gets]
  by_cases hn : n > (s.buffer .ioBuffer).length
  · simp only [if_pos hn, amid_bind, wlp_bind]
    refine wlp_mono (wlp_readCycle_whole henv) fun r s1 e1 hrc => ?_
    rw [if_neg (by rw [hrc]; decide), amid_bind, wlp_bind, amid_modify, wlp_modify, amid_ret,
      wlp_ret]
  · simp only [if_neg hn, amid_ret, wlp_ret]

/-- The read in one step returns 0 as well. -/
theorem wlp_readNbytes_whole (henv : Unfailing env) {n : Nat} :
    wlp env ((readNbytesOn .ioBuffer n).amid Others.apply) (fun rc _ _ => rc = 0) s e := by
  unfold readNbytesOn
  simp only [bind_eq, pure_eq, amid_bind, amid_gets, wlp_bind, wlp_gets]
  by_cases hn : n > (s.buffer .ioBuffer).length
  · simp only [if_pos hn, amid_bind, wlp_bind]
    refine wlp_stReadFully_whole henv fun bytes h o e1 hlen => ?_
    dsimp only
    rw [if_neg (not_not_intro hlen), amid_bind, wlp_bind, amid_modify, wlp_modify, amid_ret,
      wlp_ret]
  · simp only [if_neg hn, amid_ret, wlp_ret]

/-- The call returned `-1`, and the environment may fail: a `-1` of any other origin is not
meant. -/
def Broke {ε : Type} (env : Env (st.amid Others) ε) (rc : Int) : Prop := rc = -1 ∧ ¬ Unfailing env

/-- A call that returns 0 wherever nothing fails has returned `-1` because something may. -/
theorem Broke.of_whole {rc : Int} (hrc : rc = -1) (h : Unfailing env → rc = 0) : Broke env rc :=
  ⟨hrc, fun henv => absurd (hrc.symm.trans (h henv)) (by decide)⟩

variable {took : ε → Bytes → ε → Prop} (hacc : Account env.answers took)
include hacc

/-- What came in stands behind what was in the buffer, and is as much as was asked for, or
the call broke. -/
theorem wlp_readNbytesCycle_came {n : Nat} :
    wlp env ((readNbytesCycle n).amid Others.apply) (fun r s' e' => ∃ p, took e p e' ∧
      (Broke env r.1 ∨ r.1 = 0 ∧ s'.buffer .ioBuffer = s.buffer .ioBuffer ++ p ∧
        n ≤ (s'.buffer .ioBuffer).length)) s e := by
  intro r s' e' hrun
  obtain ⟨p, hp, hread⟩ := wlp_readNbytesCycleOn_amid (spares_ioBuffer env) hacc _ _ _ hrun
  refine ⟨p, hp, ?_⟩
  rcases hread with ⟨hrc, -⟩ | ⟨hr, hbuf, hlen⟩
  · exact Or.inl (.of_whole hrc fun henv => wlp_readNbytesCycle_whole henv _ _ _ hrun)
  · refine Or.inr ⟨by rw [hr], hbuf, ?_⟩
    rw [hbuf, List.length_append]
    omega

/-- The same of the read in one step, except for how much that is. -/
theorem wlp_readNbytes_came {n : Nat} :
    wlp env ((readNbytesOn .ioBuffer n).amid Others.apply) (fun rc s' e' => ∃ p, took e p e' ∧
      (Broke env rc ∨ rc = 0 ∧ s'.buffer .ioBuffer = s.buffer .ioBuffer ++ p)) s e := by
  intro rc s' e' hrun
  obtain ⟨p, hp, hread⟩ := wlp_readNbytesOn_amid (spares_ioBuffer env) hacc _ _ _ hrun
  refine ⟨p, hp, ?_⟩
  rcases hread with ⟨hrc, -⟩ | ⟨hrc, hbuf, -⟩
  · exact Or.inl (.of_whole hrc fun henv => wlp_readNbytes_whole henv _ _ _ hrun)
  · exact Or.inr ⟨hrc, hbuf⟩

end

/-! ## The size of a control message's header -/

/-- Bytes that are there are the same with more behind them. -/
theorem bytesAt_of_append {k n : Nat} {p x : Bytes} (h : bytesAt k n p = some x) (y : Bytes) :
    bytesAt k n (p ++ y) = some x := by
  unfold bytesAt at h ⊢
  split at h
  · rename_i hle
    rw [if_pos (by rw [List.length_append]; omega), List.drop_append_of_le_length (by omega),
      List.take_append_of_le_length (by rw [List.length_drop]; omega)]
    exact h
  · cases h

/-- The delta that `read_message_header` finds in the buffer, if the field is there. -/
def deltaIn (fmt bhSize : Nat) (p : Bytes) : Option Nat :=
  if fmt = 1 ∨ fmt = 2 then (bytesAt bhSize 3 p).map ofBeBytes else some 0

/-- `*mh_size`, for that delta: four bytes more where it is the escape value. -/
def deltaSize (fmt delta : Nat) : Nat :=
  if delta = 0xFFFFFF then mhSizeArray fmt + 4 else mhSizeArray fmt

/-- `bh_size + mh_size` of the message that begins in `p`, if that much of its
header is there. -/
def controlHeaderSize (p : Bytes) : Option Nat := do
  let (fmt, _) ← basicHeader p
  let delta ← deltaIn fmt (basicSize p) p
  return basicSize p + deltaSize fmt delta

/-- What is behind the header, if the bytes are those of a header at all. -/
def controlPayload (p : Bytes) : Bytes :=
  match controlHeaderSize p with
  | some headerSize => p.drop headerSize
  | none => []

/-- A delta that is there is not changed by what follows. -/
theorem deltaIn_append {fmt bhSize delta : Nat} {p : Bytes} (h : deltaIn fmt bhSize p = some delta)
    (y : Bytes) : deltaIn fmt bhSize (p ++ y) = some delta := by
  unfold deltaIn at h ⊢
  split at h
  · rename_i hfmt
    obtain ⟨bytes, hbytes, heq⟩ := Option.map_eq_some_iff.mp h
    rw [if_pos hfmt, bytesAt_of_append hbytes]
    exact congrArg some heq
  · rename_i hfmt
    rw [if_neg hfmt]
    exact h

/-- What is there of a header is not changed by what follows, so the payload only grows. -/
theorem controlPayload_append {p : Bytes} {fmt delta : Nat} {csid : Int}
    (hbasic : basicHeader p = some (fmt, csid)) (hdelta : deltaIn fmt (basicSize p) p = some delta)
    (y : Bytes) : controlPayload (p ++ y) = (p ++ y).drop (basicSize p + deltaSize fmt delta) := by
  have hsize : controlHeaderSize (p ++ y) = some (basicSize p + deltaSize fmt delta) := by
    rw [controlHeaderSize, basicHeader_append hbasic, Option.bind_eq_bind, Option.bind_some]
    dsimp only
    rw [basicSize_append (basicHeader_ne_nil hbasic), deltaIn_append hdelta]
    rfl
  rw [controlPayload, hsize]

/-! ## Headers -/

section

variable {ε : Type} {env : Env (st.amid Others) ε} {s : State} {e : ε}
  {took : ε → Bytes → ε → Prop} (hacc : Account env.answers took)
include hacc

/-- The basic header is in the buffer, whole and nothing else, or the call broke. -/
theorem wlp_readBasicHeader_came :
    wlp env (readBasicHeader.amid Others.apply) (fun r s' e' => ∃ p, took e p e' ∧
      (Broke env r.1 ∨ r.1 = 0 ∧ s'.buffer .ioBuffer = s.buffer .ioBuffer ++ p ∧
        basicHeader (s'.buffer .ioBuffer) = some (r.2.1, r.2.2.1) ∧
        r.2.2.2 = basicSize (s'.buffer .ioBuffer))) s e := by
  unfold readBasicHeader readBasicHeaderOn
  simp only [bind_eq, pure_eq, amid_bind, wlp_bind]
  refine wlp_mono (wlp_readNbytesCycle_came hacc) fun r s1 e1 hread => ?_
  obtain ⟨p, hp, hread⟩ := hread
  rcases hread with hbroke | ⟨hrc, hbuf1, -⟩
  · rw [if_pos hbroke.1, amid_ret, wlp_ret]
    exact ⟨p, hp, Or.inl ⟨rfl, hbroke.2⟩⟩
  rw [if_neg (by rw [hrc]; decide), amid_bind, wlp_bind, amid_read, wlp_read]
  intro bh hbh
  obtain ⟨tail, htail⟩ : ∃ tail, s1.buffer .ioBuffer = bh :: tail := by
    cases hbuf : s1.buffer .ioBuffer with
    | nil =>
      rw [hbuf] at hbh
      cases hbh
    | cons c tail =>
      rw [hbuf] at hbh
      cases hbh
      exact ⟨tail, rfl⟩
  rw [amid_bind, wlp_bind, amid_ret, wlp_ret]
  by_cases h0 : bh.toNat % 64 = 0
  · have h0' : (bh.toNat : Int) % 64 = 0 := by omega
    simp only [if_pos h0', amid_bind, wlp_bind]
    refine wlp_mono (wlp_readNbytes_came hacc) fun rc s2 e2 hmore => ?_
    obtain ⟨x, hx, hmore⟩ := hmore
    rcases hmore with hbroke | ⟨hrc2, hbuf2⟩
    · rw [if_pos hbroke.1, amid_ret, wlp_ret]
      exact ⟨p ++ x, hacc.append hp hx, Or.inl ⟨rfl, hbroke.2⟩⟩
    rw [if_neg (by rw [hrc2]; decide), amid_bind, wlp_bind, amid_read, wlp_read]
    intro b1 hb1
    simp only [amid_bind, amid_ret, wlp_bind, wlp_ret]
    refine ⟨p ++ x, hacc.append hp hx, Or.inr ⟨trivial, ?_, ?_, ?_⟩⟩
    · rw [hbuf2, hbuf1, List.append_assoc]
    · rw [hbuf2, htail] at hb1 ⊢
      have hb1' : (tail ++ x)[0]? = some b1 := hb1
      simp [basicHeader, h0, hb1']
    · rw [hbuf2, htail]
      simp [basicSize, h0]
  by_cases h1 : bh.toNat % 64 = 1
  · have h0' : ¬ (bh.toNat : Int) % 64 = 0 := by omega
    have h1' : (bh.toNat : Int) % 64 = 1 := by omega
    simp only [if_neg h0', if_pos h1', amid_bind, wlp_bind]
    refine wlp_mono (wlp_readNbytes_came hacc) fun rc s2 e2 hmore => ?_
    obtain ⟨x, hx, hmore⟩ := hmore
    rcases hmore with hbroke | ⟨hrc2, hbuf2⟩
    · rw [if_pos hbroke.1, amid_ret, wlp_ret]
      exact ⟨p ++ x, hacc.append hp hx, Or.inl ⟨rfl, hbroke.2⟩⟩
    rw [if_neg (by rw [hrc2]; decide), amid_bind, wlp_bind, amid_read, wlp_read]
    intro b1 hb1
    rw [amid_bind, wlp_bind, amid_read, wlp_read]
    intro b2 hb2
    simp only [amid_bind, amid_ret, wlp_bind, wlp_ret]
    refine ⟨p ++ x, hacc.append hp hx, Or.inr ⟨trivial, ?_, ?_, ?_⟩⟩
    · rw [hbuf2, hbuf1, List.append_assoc]
    · rw [hbuf2, htail] at hb1 hb2 ⊢
      have hb1' : (tail ++ x)[0]? = some b1 := hb1
      have hb2' : (tail ++ x)[1]? = some b2 := hb2
      simp [basicHeader, h1, hb1', hb2']
    · rw [hbuf2, htail]
      simp [basicSize, h1]
  · have h0' : ¬ (bh.toNat : Int) % 64 = 0 := by omega
    have h1' : ¬ (bh.toNat : Int) % 64 = 1 := by omega
    simp only [if_neg h0', if_neg h1', amid_ret, wlp_ret]
    refine ⟨p, hp, Or.inr ⟨trivial, hbuf1, ?_, ?_⟩⟩
    · rw [htail]
      simp [basicHeader, h0, h1]
    · rw [htail]
      simp [basicSize, h0, h1]

/-- The message header is in the buffer as well, as far as it decides its size. -/
theorem wlp_readMessageHeader_came {fmt bhSize : Nat} {csid : Int} :
    wlp env ((readMessageHeader fmt csid bhSize).amid Others.apply) (fun r s' e' =>
      ∃ p, took e p e' ∧ (Broke env r.1 ∨ r.1 = 0 ∧
        s'.buffer .ioBuffer = s.buffer .ioBuffer ++ p ∧
          bhSize + r.2 ≤ (s'.buffer .ioBuffer).length ∧
        ∃ delta, deltaIn fmt bhSize (s'.buffer .ioBuffer) = some delta ∧
          r.2 = deltaSize fmt delta)) s e := by
  unfold readMessageHeader
  simp only [bind_eq, pure_eq, amid_bind, wlp_bind]
  refine wlp_mono (wlp_readNbytesCycle_came hacc) fun r s1 e1 hread => ?_
  obtain ⟨p, hp, hread⟩ := hread
  rcases hread with hbroke | ⟨hrc, hbuf1, hlen1⟩
  · rw [if_pos hbroke.1, amid_ret, wlp_ret]
    exact ⟨p, hp, Or.inl ⟨rfl, hbroke.2⟩⟩
  rw [if_neg (by rw [hrc]; decide), amid_bind, wlp_bind]
  -- the delta
  have hdelta : ∀ {Q : Nat → State → ε → Prop}, (∀ delta,
      deltaIn fmt bhSize (s1.buffer .ioBuffer) = some delta → Q delta s1 e1) →
      wlp env ((controlDelta fmt bhSize).amid Others.apply) Q s1 e1 := by
    intro Q hQ
    unfold controlDelta
    unfold deltaIn at hQ
    by_cases hfmt : fmt = 1 ∨ fmt = 2
    · rw [if_pos hfmt, bind_eq, amid_bind, wlp_bind, amid_read, wlp_read]
      intro bytes hbytes
      rw [pure_eq, amid_ret, wlp_ret]
      exact hQ _ (by rw [if_pos hfmt, hbytes]; rfl)
    · rw [if_neg hfmt, pure_eq, amid_ret, wlp_ret]
      exact hQ _ (if_neg hfmt)
  -- the length, which goes to the globals
  have hstore : ∀ {Q : Unit → State → ε → Prop}, (∀ s2, s2.buffer .ioBuffer = s1.buffer .ioBuffer →
      Q () s2 e1) →
      wlp env ((storeMessageLength fmt csid bhSize).amid Others.apply) Q s1 e1 := by
    intro Q hQ
    unfold storeMessageLength
    by_cases hfmt : fmt ≤ 1
    · rw [if_pos hfmt, bind_eq, amid_bind, wlp_bind, amid_read, wlp_read]
      intro bytes _
      rw [amid_modify, wlp_modify]
      exact hQ _ (State.setHeader_buffer ..)
    · rw [if_neg hfmt, pure_eq, amid_ret, wlp_ret]
      exact hQ _ rfl
  refine hdelta fun delta hd => ?_
  rw [amid_bind, wlp_bind]
  refine hstore fun s2 hs2 => ?_
  by_cases hext : delta = 0xFFFFFF
  · rw [if_pos hext, amid_bind, wlp_bind]
    refine wlp_mono (wlp_readNbytesCycle_came hacc) fun r s3 e3 hmore => ?_
    obtain ⟨y, hy, hmore⟩ := hmore
    rcases hmore with hbroke | ⟨hrc3, hbuf3, hlen3⟩
    · rw [if_pos hbroke.1, amid_ret, wlp_ret]
      exact ⟨p ++ y, hacc.append hp hy, Or.inl ⟨rfl, hbroke.2⟩⟩
    rw [if_neg (by rw [hrc3]; decide), amid_ret, wlp_ret]
    rw [hs2] at hbuf3
    refine ⟨p ++ y, hacc.append hp hy, Or.inr ⟨rfl, ?_, ?_, delta, ?_, ?_⟩⟩
    · rw [hbuf3, hbuf1, List.append_assoc]
    · omega
    · rw [hbuf3]
      exact deltaIn_append hd y
    · rw [deltaSize, if_pos hext]
  · rw [if_neg hext, amid_ret, wlp_ret]
    refine ⟨p, hp, Or.inr ⟨rfl, hs2.trans hbuf1, by rw [hs2]; exact hlen1, delta, ?_, ?_⟩⟩
    · rw [hs2]
      exact hd
    · rw [deltaSize, if_neg hext]

end

/-! ## Receives -/

namespace Received

/-- The parser of the class returns 0 for the payload, in a state with nothing stored. -/
def Accepts (type : Received) (p : Bytes) : Prop := (type.parse p {}).map Prod.fst = some 0

/-- It can be evaluated, so whether a payload is accepted can be looked up. -/
instance (type : Received) (p : Bytes) : Decidable (type.Accepts p) :=
  inferInstanceAs (Decidable (_ = _))

/-- Outside `connect` the return value depends on the payload alone, and not on what is
stored in the message or in the list of metadata. -/
theorem parse_rc {type : Received} (htype : type ≠ .connectMessage) (p : Bytes) (s s' : State) :
    (type.parse p s).map Prod.fst = (type.parse p s').map Prod.fst := by
  have hcommand : ∀ s : State, ((parseCommand p s.client.message).map fun r =>
      (r.1, s.setMessage r.2)).map Prod.fst = (parseCommand p {}).map Prod.fst := by
    intro s
    rw [Option.map_map]
    unfold parseCommand
    cases readCommand 0x05 p with
    | error f => cases f <;> rfl
    | ok r => rfl
  have hpublish : ∀ s : State, ((parsePublish p s.client.message).map fun r =>
      (r.1, s.setMessage r.2)).map Prod.fst = (parsePublish p {}).map Prod.fst := by
    intro s
    rw [Option.map_map]
    unfold parsePublish
    -- every way it can end
    cases readCommand 0x05 p with
    | error f => cases f <;> rfl
    | ok r =>
      simp only [Parse.ok_bind]
      cases expect 0x02 r.2.2 with
      | error f => cases f <;> rfl
      | ok p1 =>
        simp only [Parse.ok_bind]
        cases be2seLen p1 with
        | error f => cases f <;> rfl
        | ok r1 =>
          simp only [Parse.ok_bind]
          by_cases hlen : r1.1 ≠ 0
          · rw [if_pos hlen, if_pos hlen]
            rfl
          · rw [if_neg hlen, if_neg hlen]
            cases expect 0x02 r1.2 with
            | error f => cases f <;> rfl
            | ok p2 =>
              simp only [Parse.ok_bind]
              cases readString p2 with
              | error f => cases f <;> rfl
              | ok r2 => rfl
  cases type with
  | connectMessage => exact absurd rfl htype
  | checkBw => rfl
  | unknownMessage => rfl
  | publish => exact (hpublish s).trans (hpublish s').symm
  | setDataFrame =>
    simp only [parse]
    cases parseSetDataFrame p with
    | error f => cases f <;> rfl
    | ok r =>
      dsimp only
      rw [Option.map_map, Option.map_map]
      exact parseEntries_frame r.1 r.2 _ _
  | _ => exact (hcommand s).trans (hcommand s').symm

section

variable {ε : Type} {env : Env (st.amid Others) ε} {s : State} {e : ε}

/-- Behind the headers, the payload's parser is a function of the buffer, and nobody comes
in. -/
theorem wlp_parsePayload {type : Received} {headerSize : Nat} {Q : Int → State → ε → Prop} :
    wlp env ((type.parsePayload headerSize).amid Others.apply) Q s e ↔
      ∀ rc t, type.parse ((s.buffer .ioBuffer).drop headerSize) s = some (rc, t) → Q rc t e := by
  have hdropped : wlp env (.ret (0 : Int)) Q s e ↔
      ∀ rc t, some ((0 : Int), s) = some (rc, t) → Q rc t e := by
    rw [wlp_ret]
    refine ⟨fun h rc t heq => ?_, fun h => h 0 s rfl⟩
    cases heq
    exact h
  cases type with
  | checkBw => exact hdropped
  | unknownMessage => exact hdropped
  | _ => exact wlp_act

variable {took : ε → Bytes → ε → Prop} (hacc : Account env.answers took)

/-- Once its header has come in, a receive goes on with `read_payload`, which finds
the payload behind it. -/
theorem wlp_recv_header (hacc : Account env.answers took) {type : Received}
    {Q : Int → State → ε → Prop}
    (hbroke : ∀ p s' e', took e p e' → ¬ Unfailing env → Q (-1) s' e')
    (hgo : ∀ p s1 e1 bhSize mhSize messageLength, took e p e1 →
      s1.buffer .ioBuffer = s.buffer .ioBuffer ++ p →
      bhSize + mhSize ≤ (s1.buffer .ioBuffer).length → s1.client.chunkSize = s.client.chunkSize →
      (∀ y, controlPayload (s1.buffer .ioBuffer ++ y)
        = (s1.buffer .ioBuffer ++ y).drop (bhSize + mhSize)) →
      wlp env ((type.readPayload bhSize mhSize messageLength s.client.chunkSize).amid Others.apply)
        (fun rc s' e' => Q (if rc = -1 then -1 else 0) s' e') s1 e1) :
    wlp env (type.recv.amid Others.apply) Q s e := by
  have hsame : ∀ {α : Type} {p : Routine α}, p.Keeps SameChunkSize → ∀ s e, wlp env
      (p.amid Others.apply) (fun _ s' _ => SameChunkSize s s') s e := fun h s e =>
    Keeps.wlp sameChunkSize_closed.refl sameChunkSize_closed.trans _
      (Keeps.amid Others.apply (fun _ _ => rfl) _ h)
  unfold recv recvMessage lookup
  simp only [bind_eq, pure_eq, amid_bind, wlp_bind]
  intro r s1 e1 hrun1
  have hcs1 := hsame sameChunkSize_closed.readBasicHeader _ _ _ _ _ hrun1
  obtain ⟨p, hp, hread⟩ := wlp_readBasicHeader_came hacc _ _ _ hrun1
  rcases hread with hbr | ⟨hrc1, hbuf1, hbasic, hbh⟩
  · rw [if_pos hbr.1, amid_ret, wlp_ret]
    exact hbroke p s1 e1 hp hbr.2
  rw [if_neg (by rw [hrc1]; decide), amid_bind, wlp_bind]
  intro r2 s2 e2 hrun2
  have hcs2 := hsame (sameChunkSize_closed.readMessageHeader _ _ _) _ _ _ _ _ hrun2
  obtain ⟨q, hq, hread2⟩ := wlp_readMessageHeader_came hacc _ _ _ hrun2
  have hpq : took e (p ++ q) e2 := hacc.append hp hq
  rcases hread2 with hbr | ⟨hrc2, hbuf2, hlen2, delta, hd, hmh⟩
  · rw [if_pos hbr.1, amid_ret, wlp_ret]
    exact hbroke (p ++ q) s2 e2 hpq hbr.2
  rw [if_neg (by rw [hrc2]; decide)]
  simp only [amid_bind, amid_modify, amid_gets, wlp_bind, wlp_modify, wlp_gets]
  have hbuf : s2.buffer .ioBuffer = s.buffer .ioBuffer ++ (p ++ q) := by
    rw [hbuf2, hbuf1, List.append_assoc]
  have hcs : s2.client.chunkSize = s.client.chunkSize := Eq.trans hcs2 hcs1
  -- the size of the header is in the bytes that have come in
  have hbasic2 : basicHeader (s2.buffer .ioBuffer) = some (r.2.1, r.2.2.1) := by
    rw [hbuf2]
    exact basicHeader_append hbasic q
  have hsize : basicSize (s2.buffer .ioBuffer) = r.2.2.2 := by
    rw [hbh, hbuf2]
    exact basicSize_append (basicHeader_ne_nil hbasic) q
  have hpayload : ∀ y, controlPayload (s2.buffer .ioBuffer ++ y)
      = (s2.buffer .ioBuffer ++ y).drop (r.2.2.2 + r2.2) := by
    intro y
    rw [controlPayload_append hbasic2 (by rw [hsize]; exact hd), hsize, hmh]
  have hstop := hgo (p ++ q) (s2.touch r.2.2.1) e2 r.2.2.2 r2.2
    ((s2.touch r.2.2.1).globals.header r.2.2.1).messageLength hpq hbuf hlen2 hcs hpayload
  show wlp env ((type.readPayload r.2.2.2 r2.2 _ s2.client.chunkSize).amid Others.apply) _ _ _
  rw [hcs]
  refine wlp_mono hstop fun rc s' e' hQ => ?_
  by_cases hminus : rc = -1
  · rw [if_pos hminus, amid_ret, wlp_ret]
    rwa [if_pos hminus] at hQ
  · rw [if_neg hminus, amid_ret, wlp_ret]
    rwa [if_neg hminus] at hQ

/-- A receive has put what came in behind what stood in the buffer, and if that is
a payload that its parser accepts it has returned 0. -/
theorem wlp_recv (hacc : Account env.answers took) {type : Received}
    (htype : type ≠ .connectMessage) :
    wlp env (type.recv.amid Others.apply) (fun rc s' e' => ∃ p, took e p e' ∧ (Broke env rc ∨
      s'.buffer .ioBuffer = s.buffer .ioBuffer ++ p ∧
      (type.Accepts (controlPayload (s'.buffer .ioBuffer)) → rc = 0))) s e := by
  have hfetch : ∀ bhSize mhSize messageLength chunkSize,
      type.fetch bhSize mhSize messageLength chunkSize = readWhole bhSize mhSize messageLength := by
    intro bhSize mhSize messageLength chunkSize
    cases type with
    | connectMessage => exact absurd rfl htype
    | _ => rfl
  refine wlp_recv_header hacc (fun p s' e' hp henv => ⟨p, hp, Or.inl ⟨rfl, henv⟩⟩) ?_
  intro p s1 e1 bhSize mhSize messageLength hp hbuf1 _ _ hpayload
  rw [readPayload_eq, hfetch, bind_eq, amid_bind, wlp_bind, readWhole, bind_eq, amid_bind, wlp_bind]
  refine wlp_mono (wlp_readNbytesCycle_came hacc) fun r s2 e2 hread => ?_
  obtain ⟨rc, n⟩ := r
  obtain ⟨y, hy, hread⟩ := hread
  have hpy : took e (p ++ y) e2 := hacc.append hp hy
  dsimp only at hread ⊢
  rcases hread with hbr | ⟨hrc, hbuf2, -⟩
  · rw [pure_eq, amid_ret, wlp_ret, if_pos hbr.1, pure_eq, amid_ret, wlp_ret, if_pos rfl]
    exact ⟨p ++ y, hpy, Or.inl ⟨rfl, hbr.2⟩⟩
  rw [pure_eq, amid_ret, wlp_ret, if_neg (by rw [hrc]; decide)]
  refine wlp_parsePayload.mpr fun rc' t hparse => ⟨p ++ y, hpy, Or.inr ⟨?_, fun haccepts => ?_⟩⟩
  · rw [parse_buffer hparse, hbuf2, hbuf1, List.append_assoc]
  · -- the parser was given the payload
    have hmap := congrArg (Option.map Prod.fst) hparse
    rw [parse_buffer hparse, hbuf2, hpayload] at haccepts
    rw [hbuf2, parse_rc htype _ _ {}, haccepts] at hmap
    have hzero : rc' = 0 := (Option.some.inj hmap).symm
    rw [hzero, if_neg (by decide)]

/-- `ConnectMessage` takes its payload out of chunks; what the first chunk begins
with is there as it came in. -/
theorem wlp_recv_connect (hacc : Account env.answers took) {front : Bytes}
    (hfront : front.length ≤ s.client.chunkSize) :
    wlp env (connectMessage.recv.amid Others.apply) (fun rc s' e' => ∃ p, took e p e' ∧
      (rc ≠ -1 → front <+: controlPayload (s.buffer .ioBuffer ++ p) →
        front <+: controlPayload (s'.buffer .ioBuffer))) s e := by
  refine wlp_recv_header hacc (fun p s' e' hp _ => ⟨p, hp, fun h => absurd rfl h⟩) ?_
  intro p s1 e1 bhSize mhSize messageLength hp hbuf1 hlen1 _ hpayload
  -- the loop looks at nothing but the buffer
  have hsim : Simulates (SameBuffer .ioBuffer) Anyhow (SameBuffer .ioBuffer)
      (fetch connectMessage bhSize mhSize messageLength s.client.chunkSize)
      fun _ => SameBuffer .ioBuffer :=
    simulates_dechunk (fun _ => trivial) (fun _ _ => trivial) (fun _ _ h => h)
      (fun _ _ _ _ => by simp) (fun _ _ h => h) (fun _ _ h => h)
  rw [readPayload_eq, bind_eq, amid_bind, wlp_bind]
  refine wlp_mono (wlp_sameBuffer (spares_ioBuffer env) hsim
    (wlp_dechunk hacc (fun _ => wlp_ret) fun _ => wlp_ret)) fun rc s2 e2 hfetch => ?_
  obtain ⟨t, ⟨y, payload, hy, ht, hdone⟩, hsame⟩ := hfetch
  have hpy : took e (p ++ y) e2 := hacc.append hp hy
  rcases hdone with ⟨hrc, -⟩ | ⟨hrc, hread⟩
  · rw [if_pos hrc, pure_eq, amid_ret, wlp_ret, if_pos rfl]
    exact ⟨p ++ y, hpy, fun h => absurd rfl h⟩
  rw [if_neg (by rw [hrc]; decide)]
  refine wlp_parsePayload.mpr fun rc' t' hparse => ⟨p ++ y, hpy, fun _ hfront' => ?_⟩
  have hbuf2 : s2.buffer .ioBuffer = s1.buffer .ioBuffer ++ payload := by
    rw [hsame, ht, State.buffer_append]
  have hwhole := hread []
  rw [List.append_nil] at hwhole
  rw [← List.append_assoc, ← hbuf1, hpayload, List.drop_append_of_le_length hlen1] at hfront'
  rw [parse_buffer hparse, hbuf2, hpayload, List.drop_append_of_le_length hlen1]
  exact unframe_prefix_append hwhole hfront hfront'

end

end Received

/-! ## Return values -/

/-- The call returned 0, or it returned `-1` and the environment may fail. -/
def Reports {ε : Type} (env : Env (st.amid Others) ε) (rc : Int) : Prop :=
  rc = 0 ∨ rc = -1 ∧ ¬ Unfailing env

section

variable {ε : Type} {env : Env (st.amid Others) ε} {s : State} {e : ε}

/-- Whatever the program does, `Q` holds, if it holds of everything. -/
theorem wlp_any {α : Type} {p : Prog (st.amid Others) State α} {Q : α → State → ε → Prop}
    (h : ∀ a s' e', Q a s' e') : wlp env p Q s e :=
  fun a s' e' _ => h a s' e'

/-- A `writev` that gives up has met an answer that fails. -/
theorem wlp_stWritev_reports {iov : State → Option Bytes} {nbyte : Nat} :
    wlp env ((stWritev iov nbyte).amid Others.apply)
      (fun r _ _ => r = none → ¬ Unfailing env) s e := by
  unfold stWritev
  rw [amid_iter]
  refine wlp_iter_of_inv (fun _ _ _ => True) (fun written s1 e1 _ => ?_) trivial
  by_cases hmore : written < nbyte
  · rw [if_pos hmore, bind_eq, amid_bind, wlp_bind, amid_read, wlp_read]
    intro memory _
    rw [bind_eq, amid_bind, wlp_bind]
    refine (wlp_amid_call Others.apply).mpr fun r o e2 hr => wlp_ret.mpr ?_
    cases r with
    | error =>
      rw [pure_eq, amid_ret, wlp_ret]
      exact fun _ henv => henv _ _ _ _ hr
    | wrote n h =>
      dsimp only
      rw [pure_eq, amid_ret, wlp_ret]
      trivial
  · rw [if_neg hmore, pure_eq, amid_ret, wlp_ret]
    exact fun h => nomatch h

/-- So a write that returns `-1` has. -/
theorem wlp_writev_reports {iov : State → Option Bytes} {nbyte : Nat} :
    wlp env ((writev iov nbyte).amid Others.apply) (fun r _ _ => Reports env r.1) s e := by
  unfold writev
  rw [bind_eq, amid_bind, wlp_bind]
  refine wlp_mono wlp_stWritev_reports fun r s1 e1 hr => ?_
  cases r with
  | none =>
    rw [pure_eq, amid_ret, wlp_ret]
    exact Or.inr ⟨rfl, hr rfl⟩
  | some n =>
    dsimp only
    rw [pure_eq, amid_ret, wlp_ret]
    exact Or.inl rfl

/-- And so have the chunks of a message. -/
theorem wlp_writeChunks_reports {csid : Int} {headerSize messageSize : Nat} :
    wlp env ((writeChunks csid headerSize messageSize).amid Others.apply)
      (fun rc _ _ => Reports env rc) s e := by
  unfold writeChunks
  rw [amid_iter]
  refine wlp_iter_of_inv (fun _ _ _ => True) (fun sent s1 e1 _ => ?_) trivial
  by_cases hmore : headerSize + sent < messageSize
  · rw [if_pos hmore, bind_eq, amid_bind, wlp_bind, amid_gets, wlp_gets]
    dsimp only
    rw [bind_eq, amid_bind, wlp_bind]
    refine wlp_mono wlp_writev_reports fun r s2 e2 hr => ?_
    rcases hr with hrc | ⟨hrc, henv⟩
    · rw [if_neg (by rw [hrc]; decide), pure_eq, amid_ret, wlp_ret]
      trivial
    · rw [if_pos hrc, pure_eq, amid_ret, wlp_ret]
      exact Or.inr ⟨rfl, henv⟩
  · rw [if_neg hmore, pure_eq, amid_ret, wlp_ret]
    exact Or.inl rfl

/-- A message whose payload can be put together is written, or something fails. -/
theorem wlp_writeMessage_reports {writePayload : Routine Int} {fmt : Nat} {csid : Int}
    {timestamp : BitVec 32} {messageLength : Int} {type : UInt8} {streamId : BitVec 32}
    (hpayload : ∀ t, t.globals = s.globals →
      wlp env (writePayload.amid Others.apply) (fun rc _ _ => rc = 0) t e) :
    wlp env ((writeMessage writePayload fmt csid timestamp messageLength type streamId).amid
      Others.apply) (fun rc _ _ => Reports env rc) s e := by
  unfold writeMessage writeHeader
  simp only [bind_eq, pure_eq, amid_bind, amid_ite, amid_ret, amid_modify, amid_gets, wlp_bind,
    wlp_modify, wlp_ret]
  rw [if_neg (by decide), wlp_bind, wlp_gets, wlp_bind]
  refine wlp_mono (hpayload _ rfl) fun rc s1 e1 hrc => ?_
  rw [if_neg (by rw [hrc]; decide), wlp_bind, wlp_gets]
  exact wlp_writeChunks_reports

/-- Every message that is declared with its size can be. -/
theorem wlp_send_reports {m : Send} (hm : m.Declared) :
    wlp env (m.write.amid Others.apply) (fun rc _ _ => Reports env rc) s e := by
  obtain ⟨payload, hpush, _⟩ := hm
  refine wlp_writeMessage_reports fun t _ => ?_
  rw [hpush, wlp_amid_run_push]

/-- So can `OnMetaData`, as long as the list holds what can be stored. -/
theorem wlp_sendOnMetaData_reports (h : HoldsStorable s) :
    wlp env (sendOnMetaData.amid Others.apply) (fun rc _ _ => Reports env rc) s e := by
  refine wlp_writeMessage_reports fun t ht => ?_
  have hlist : ∀ kv ∈ t.globals.setDataFrame, Storable kv := by
    rw [ht]
    exact h
  unfold OnMetaData.writePayload
  rw [bind_eq, amid_bind, wlp_bind, amid_modify, wlp_modify, bind_eq, amid_bind, wlp_bind,
    amid_gets, wlp_gets, State.setMetaData_setDataFrame,
    onMetaDataBytes_storable (storable_append_server hlist), wlp_amid_run_push]

/-! A checked call returns nothing but 0 and `-1`. -/

/-- A receive returns 0 or -1, and nothing else. -/
theorem wlp_recv_rc {type : Received} :
    wlp env (type.recv.amid Others.apply) (fun rc _ _ => rc = 0 ∨ rc = -1) s e := by
  unfold Received.recv recvMessage
  simp only [bind_eq, pure_eq, amid_bind, amid_ite, amid_ret]
  refine wlp_bind.mpr (wlp_any fun r _ _ => wlp_ite.mpr ?_)
  split
  · exact wlp_ret.mpr (Or.inr rfl)
  refine wlp_bind.mpr (wlp_any fun r _ _ => wlp_ite.mpr ?_)
  split
  · exact wlp_ret.mpr (Or.inr rfl)
  refine wlp_bind.mpr (wlp_any fun _ _ _ => wlp_bind.mpr (wlp_any fun _ _ _ =>
    wlp_bind.mpr (wlp_any fun rc _ _ => wlp_ite.mpr ?_)))
  split
  · exact wlp_ret.mpr (Or.inr rfl)
  · exact wlp_ret.mpr (Or.inl rfl)

/-- The handshake returns 0 or -1. -/
theorem wlp_handshake_rc :
    wlp env (handshake.amid Others.apply) (fun rc _ _ => rc = 0 ∨ rc = -1) s e := by
  unfold handshake
  simp only [bind_eq, pure_eq, amid_bind, amid_ite, amid_ret]
  refine wlp_bind.mpr (wlp_any fun rc _ _ => wlp_ite.mpr ?_)
  split
  · exact wlp_ret.mpr (Or.inr rfl)
  refine wlp_bind.mpr (wlp_any fun p _ _ => wlp_ite.mpr ?_)
  split
  · exact wlp_ret.mpr (Or.inr rfl)
  refine wlp_bind.mpr (wlp_any fun rc _ _ => wlp_ite.mpr ?_)
  split
  · exact wlp_ret.mpr (Or.inr rfl)
  refine wlp_bind.mpr (wlp_any fun rc _ _ => wlp_ite.mpr ?_)
  split
  · exact wlp_ret.mpr (Or.inr rfl)
  · exact wlp_bind.mpr (wlp_any fun _ _ _ => wlp_ret.mpr (Or.inl rfl))

/-- So does the read of what is left of the message that decides on the flow. -/
theorem wlp_readRest_rc :
    wlp env ((readNbytesCycle 4).amid Others.apply) (fun r _ _ => r.1 = 0 ∨ r.1 = -1) s e := by
  unfold readNbytesCycle readNbytesCycleOn
  simp only [bind_eq, pure_eq, amid_bind, amid_ite, amid_ret]
  refine wlp_bind.mpr (wlp_any fun size _ _ => wlp_ite.mpr ?_)
  split
  · refine wlp_bind.mpr (wlp_any fun r _ _ => wlp_ite.mpr ?_)
    split
    · exact wlp_ret.mpr (Or.inr rfl)
    · exact wlp_bind.mpr (wlp_any fun _ _ _ => wlp_ret.mpr (Or.inl rfl))
  · exact wlp_ret.mpr (Or.inl rfl)

end

end RtmpServer
