import RtmpServer.Lib.Cursor
import RtmpServer.ObjectGrammar

/-!
# `read_object` with its pointer

`scanObject` is `read_object` once more, with the pointer `p` into the buffer and
a log of what is read. Where it stays inside the buffer it is `readObject`.
`scanObject_safe_iff`: it reads a byte behind the end, or throws, on the buffers
of `Trouble`, and on no others.

Mirroring notes:
- a loop around the checks of one round, `scanRound`; each check is where the
  source has it;
- `key.append(p, len)` takes a negative `len` for a very large size, and throws;
- the value of a flag is read without a check. At the end of the buffer that is
  the terminating zero of the string.
-/

namespace RtmpServer

open Endian Cursor

/-! ## One round -/

/-- `p + width > end` returns; else the number there. Every read of a number in these
parsers has this check. -/
def scanNumber {φ : Type} (e : φ) (width : Nat) : Scan UInt8 φ Nat := do
  if ← Scan.fits width then
    let x ← Scan.read width
    return ofBeBytes x
  else Scan.stop e

/-- How a round ends the loop: with a return value, or with an exception that `append`
throws at a negative size. -/
inductive RoundStop where
  | done (rc : Int)
  | threw
  deriving DecidableEq

/-- What follows a zero length: the end marker, and perhaps the beginning of one more
object. -/
def scanObjectEnd : Scan UInt8 RoundStop (Option Property) := do
  if ← Scan.fits 1 then
    let c ← Scan.read 1
    if c = [0x09] then
      if ← Scan.fits 1 then
        let endFlag ← scanNumber (.done (-1)) 2
        if endFlag = 0 then Scan.stop (.done 0)
        else
          if ← Scan.fits 1 then
            let c ← Scan.read 1
            if c = [0x03] then return none else Scan.stop (.done (-1))
          else Scan.stop (.done (-1))
      else Scan.stop (.done 0)
    else Scan.stop (.done (-1))
  else Scan.stop (.done (-1))

/-- A number as a value, behind its marker. -/
def scanObjectNum (key : Bytes) : Scan UInt8 RoundStop (Option Property) := do
  let value ← scanNumber (.done (-1)) 8
  return some (key, .valueNum (UInt64.ofNat value))

/-- A string as a value, behind its marker; it is checked here. -/
def scanObjectString (key : Bytes) : Scan UInt8 RoundStop (Option Property) := do
  let lenStr ← scanNumber (.done (-1)) 2
  Scan.announce lenStr
  if lenStr = 0 then Scan.stop (.done (-1))
  else
    if ← Scan.fits lenStr then
      let value ← Scan.read lenStr
      return some (key, .valueString value)
    else Scan.stop (.done (-1))

/-- A flag as a value, behind its marker: the one read that has no check. -/
def scanObjectFlag (key : Bytes) : Scan UInt8 RoundStop (Option Property) := do
  let value ← Scan.read 1
  return some (key, .value0x01 (value.headD 0))

/-- The value behind a key, by its marker. -/
def scanObjectValue (key : Bytes) : Scan UInt8 RoundStop (Option Property) := do
  if ← Scan.fits 1 then
    let c ← Scan.peek 1
    if c = [0x00] then
      Scan.skip 1
      scanObjectNum key
    else if c = [0x02] then
      Scan.skip 1
      scanObjectString key
    else if c = [0x01] then
      Scan.skip 1
      scanObjectFlag key
    else Scan.stop (.done (-1))
  else Scan.stop (.done (-1))

/-- One round of the loop: the length of a key, and what it leads to. -/
def scanRound : Scan UInt8 RoundStop (Option Property) := do
  let n ← scanNumber (.done (-1)) 2
  Scan.announce n
  if wrap16 n = 0 then scanObjectEnd
  else if wrap16 n < 0 then Scan.stop .threw
  else
    if ← Scan.fits (wrap16 n).toNat then
      let key ← Scan.read (wrap16 n).toNat
      scanObjectValue key
    else Scan.stop (.done (-1))

/-- A number that was read has taken its bytes. -/
theorem scanNumber_advances {φ : Type} (e : φ) (width : Nat) :
    Advances width (scanNumber e width) :=
  .fitsThen (.bind (.read _) (fun _ => .pure _) (Nat.le_add_right _ _)) (.stop _ _)

/-- A number that is there is read, and the log says where. -/
theorem scanNumber_ok {φ : Type} {e : φ} {b : Bytes} {p width n : Nat} {q : Bytes} (h0 : 0 < width)
    (h : be2se width (b.drop p) = .ok (n, q)) :
    scanNumber e width b p = ([.read p width], .ok (n, p + width)) := by
  unfold be2se at h
  by_cases hle : width ≤ (b.drop p).length
  · rw [if_pos hle, Except.ok.injEq, Prod.mk.injEq] at h
    rw [scanNumber, Scan.fitsThen_eq b p h0, if_pos hle, ← h.1]
    rfl
  · rw [if_neg hle] at h
    cases h

/-- Behind an end marker the pointer is not behind where it was. -/
theorem scanObjectEnd_advances : Advances 0 scanObjectEnd :=
  .fitsThen (.bind (.read 1) (fun _ => .ite (.fitsThen (.bind (scanNumber_advances _ 2) (fun _ =>
    .ite (.stop _ 0) (.fitsThen (.bind (.read 1) (fun _ => .ite (.pure _) (.stop _ 0))
      (Nat.zero_le _)) (.stop _ _))) (Nat.zero_le _)) (.stop _ _)) (.stop _ 0)) (Nat.zero_le _))
    (.stop _ _)

/-- Nor is it behind a value. -/
theorem scanObjectValue_advances (key : Bytes) : Advances 0 (scanObjectValue key) := by
  have hnum : Advances 0 (scanObjectNum key) :=
    .bind (scanNumber_advances _ 8) (fun _ => .pure _) (Nat.zero_le _)
  have hstring : Advances 0 (scanObjectString key) :=
    .bind (scanNumber_advances _ 2) (fun _ => .bind (.announce _) (fun _ => .ite (.stop _ 0)
      (.fitsThen (.bind (.read _) (fun _ => .pure _) (Nat.zero_le _)) (.stop _ _)))
        (Nat.zero_le _)) (Nat.zero_le _)
  have hflag : Advances 0 (scanObjectFlag key) :=
    .bind (.read 1) (fun _ => .pure _) (Nat.zero_le _)
  have hbehind : ∀ {m : Scan UInt8 RoundStop (Option Property)}, Advances 0 m →
      Advances 0 (Scan.skip 1 >>= fun _ => m) :=
    fun hm => .bind (.skip 1) (fun _ => hm) (Nat.zero_le _)
  exact .fitsThen (.bind (.peek 1) (fun _ => .ite (hbehind hnum) (.ite (hbehind hstring)
    (.ite (hbehind hflag) (.stop _ _)))) (Nat.zero_le _)) (.stop _ _)

/-- A round takes the two bytes of a length at least, which is what the loop terminates by. -/
theorem scanRound_advances : Advances 2 scanRound :=
  .bind (scanNumber_advances _ 2) (fun _ => .bind (.announce _) (fun _ =>
    .ite scanObjectEnd_advances (.ite (.stop _ _)
      (.fitsThen (.bind (.read _) scanObjectValue_advances (Nat.zero_le _)) (.stop _ _))))
    (Nat.zero_le _)) (Nat.le_add_right _ _)

/-! ## All rounds -/

/-- The entries of `object` after a round, with or without a new one. -/
def insertRound (object : List Property) : Option Property → List Property
  | none => object
  | some kv => insertProperty object kv

/-- `IO_Message::read_object`, and what it reads. There is no return value where
it throws. -/
def scanObject (b : Bytes) (p : Nat) (object : List Property) :
    List Event × Option (Int × List Property) :=
  if p < b.length then
    match _h : scanRound b p with
    | (log, .error (.done rc)) => (log, some (rc, object))
    | (log, .error .threw) => (log, none)
    | (log, .ok (kv, p')) =>
      let r := scanObject b p' (insertRound object kv)
      (log ++ r.1, r.2)
  else ([], some (-1, object))
termination_by b.length - p
decreasing_by
  have hlt := scanRound_advances b p kv p' (by rw [_h])
  omega

/-- Behind the end of the buffer the loop is over, and nothing more is read. -/
theorem scanObject_behind {b : Bytes} {p : Nat} {object : List Property} (hp : ¬ p < b.length) :
    scanObject b p object = ([], some (-1, object)) := by
  rw [scanObject, if_neg hp]

/-- A round that returns ends the loop with what it has read. -/
theorem scanObject_done {b : Bytes} {p : Nat} {object : List Property} {log : List Event} {rc : Int}
    (hp : p < b.length) (h : scanRound b p = (log, .error (.done rc))) :
    scanObject b p object = (log, some (rc, object)) := by
  rw [scanObject, if_pos hp]
  split <;> simp_all

/-- So does a round that throws, and there is no return value. -/
theorem scanObject_threw {b : Bytes} {p : Nat} {object : List Property} {log : List Event}
    (hp : p < b.length) (h : scanRound b p = (log, .error .threw)) :
    scanObject b p object = (log, none) := by
  rw [scanObject, if_pos hp]
  split <;> simp_all

/-- A round that goes on leaves the rest to the loop, with its own reads in front. -/
theorem scanObject_again {b : Bytes} {p p' : Nat} {object : List Property} {log : List Event}
    {kv : Option Property} (hp : p < b.length) (h : scanRound b p = (log, .ok (kv, p'))) :
    scanObject b p object = (log ++ (scanObject b p' (insertRound object kv)).1,
      (scanObject b p' (insertRound object kv)).2) := by
  rw [scanObject, if_pos hp]
  split <;> simp_all

/-! ## The rounds of the model -/

/-- A round of `readObject`, as what a scan ends with. The model has no return value for the
exception. -/
def ObjectStep.result : ObjectStep → Except RoundStop (Option Property × Bytes)
  | .undefined => .error .threw
  | .done rc => .error (.done rc)
  | .again p kv => .ok (kv, p)

/-- A round that does not end with 0, which is all that a caller sees of a refusal. -/
def Refused (e : RoundStop) : Prop := e ≠ .done 0

/-- Whether a round is refused can be looked up. -/
instance (e : RoundStop) : Decidable (Refused e) := inferInstanceAs (Decidable (_ ≠ _))

/-- A number never goes outside, whatever the parser makes of too short a buffer. -/
theorem refines_scanNumber {φ ψ : Type} (err : φ → ψ) (refusal : ψ → Prop) (e : φ)
    {width : Nat} (h0 : 0 < width) :
    Refines err refusal (scanNumber e width) (fun q => (be2se width q).mapError fun _ => err e)
      (fun _ => False) := by
  refine (Refines.fitsRead h0 fun x _ => .pure (ofBeBytes x)).congr (fun q => by simp) fun q _ => ?_
  unfold be2se
  by_cases hle : width ≤ q.length
  · rw [if_pos hle, if_pos hle]
    rfl
  · rw [if_neg hle, if_neg hle]
    rfl

/-- To change the error changes no success. -/
theorem mapError_ok {α ψ : Type} {x : Parse α} {f : Fail → ψ} {a : α} :
    x.mapError f = .ok a ↔ x = .ok a := by
  cases x with
  | error e => exact ⟨(fun h => nomatch h), (fun h => nomatch h)⟩
  | ok b => exact ⟨fun h => by cases h; rfl, fun h => by cases h; rfl⟩

/-- And of an error it makes the other one. -/
theorem mapError_error {α ψ : Type} {x : Parse α} {f : Fail → ψ} {e : Fail} (h : x = .error e) :
    x.mapError f = .error (f e) := by
  rw [h]
  rfl

/-- The parser gives up, and reads nothing more. -/
theorem refines_giveUp {α : Type} :
    Refines id Refused (Scan.stop (.done (-1)) : Scan UInt8 RoundStop α)
    (fun _ => .error (.done (-1))) (fun _ => False) := .stop _

/-- The end marker is checked byte by byte, so nothing is read outside there. -/
theorem refines_scanObjectEnd : Refines id Refused scanObjectEnd (fun q => (readObjectEnd q).result)
    (fun _ => False) := by
  unfold scanObjectEnd
  refine Refines.congr (.next fun c => .ite (fun _ => .fitsThen Nat.one_pos
    (.bind (refines_scanNumber id Refused _ Nat.two_pos) fun endFlag _ _ _ _ =>
      .ite (fun _ => .stop _) fun _ => .next fun d =>
        .ite (fun _ => .pure none) fun _ => refines_giveUp) (.stop _)) fun _ => refines_giveUp)
    (fun q => by simp) fun q _ => ?_
  cases q with
  | nil => rfl
  | cons c q =>
    simp only [readObjectEnd, List.singleton_inj]
    by_cases hc : c = 0x09
    · rw [if_pos hc, if_neg (not_not_intro hc)]
      by_cases hnil : q = []
      · rw [if_pos hnil, hnil]
        rfl
      have hlen : 1 ≤ q.length := List.length_pos_iff.mpr hnil
      rw [if_neg hnil, if_pos hlen]
      cases hb : be2se 2 q with
      | error f =>
        rw [andThen_error (mapError_error hb)]
        rfl
      | ok r =>
        obtain ⟨endFlag, q'⟩ := r
        rw [andThen_ok (mapError_ok.mpr hb)]
        dsimp only
        by_cases h0 : endFlag = 0
        · rw [if_pos h0, if_pos h0]
          rfl
        rw [if_neg h0, if_neg h0]
        cases q' with
        | nil => rfl
        | cons d q' =>
          dsimp only
          by_cases hd : d = 0x03
          · rw [if_pos hd, if_pos hd]
            rfl
          · rw [if_neg hd, if_neg hd]
            rfl
    · rw [if_neg hc, if_pos hc]
      rfl

/-- A number as a value never goes outside. -/
theorem refines_scanObjectNum (key : Bytes) : Refines id Refused (scanObjectNum key)
    (fun q => (readObjectValue key (0x00 :: q)).result) (fun _ => False) := by
  refine Refines.congr (.bind (refines_scanNumber id Refused _ (by decide))
    fun value _ _ _ _ => .pure _)
    (fun q => by simp) fun q _ => ?_
  rw [readObjectValue, if_pos rfl]
  cases hb : be2se 8 q with
  | error f =>
    rw [andThen_error (mapError_error hb)]
    rfl
  | ok r =>
    rw [andThen_ok (mapError_ok.mpr hb)]
    rfl

/-- Nor does a string: it is announced, checked, and only then read. -/
theorem refines_scanObjectString (key : Bytes) : Refines id Refused (scanObjectString key)
    (fun q => (readObjectValue key (0x02 :: q)).result) (fun _ => False) := by
  refine Refines.congr (.bind (refines_scanNumber id Refused _ Nat.two_pos) fun lenStr _ _ _ _ =>
    .announce (.ite (fun _ => refines_giveUp) fun h0 =>
      .fitsRead (Nat.pos_of_ne_zero h0) fun value _ => .pure _) fun q _ => ?_)
    (fun q => by simp) fun q _ => ?_
  · by_cases hle : lenStr ≤ q.length
    · exact Or.inl hle
    · rw [if_neg (by omega), if_neg hle]
      exact Or.inr ⟨_, rfl, by decide⟩
  · rw [readObjectValue, if_neg (by decide), if_pos rfl]
    cases hb : be2se 2 q with
    | error f =>
      rw [andThen_error (mapError_error hb)]
      rfl
    | ok r =>
      obtain ⟨lenStr, q'⟩ := r
      rw [andThen_ok (mapError_ok.mpr hb)]
      dsimp only
      by_cases h0 : lenStr = 0
      · rw [if_pos h0, if_pos h0]
        rfl
      rw [if_neg h0, if_neg h0]
      by_cases hle : lenStr ≤ q'.length
      · rw [if_pos hle, if_neg (Nat.not_lt_of_le hle)]
        rfl
      · rw [if_neg hle, if_pos (Nat.lt_of_not_le hle)]
        rfl

/-- There is no check for a flag, so it goes outside exactly where nothing follows. -/
theorem refines_scanObjectFlag (key : Bytes) : Refines id Refused (scanObjectFlag key)
    (fun q => (readObjectValue key (0x01 :: q)).result) (fun q => q = []) := by
  refine Refines.congr (.bind (.read 1) fun value _ _ _ _ => .pure _) (fun q => by simp)
    fun q hq => ?_
  cases q with
  | nil => exact absurd rfl hq
  | cons c q => rfl

/-- A value goes outside where it is the marker of a flag at the very end of the buffer. -/
theorem refines_scanObjectValue (key : Bytes) : Refines id Refused (scanObjectValue key)
    (fun q => (readObjectValue key q).result) (fun q => q = [0x01]) := by
  unfold scanObjectValue
  refine Refines.congr (.look fun c =>
    .ite (fun _ => .skipThen (refines_scanObjectNum key)) fun _ =>
    .ite (fun _ => .skipThen (refines_scanObjectString key)) fun _ =>
      .ite (fun _ => .skipThen (refines_scanObjectFlag key)) fun _ => refines_giveUp)
    (fun q => ?_) fun q _ => ?_
  · constructor
    · rintro ⟨c, q', rfl, h⟩
      simp only [and_false, false_or, or_false, List.singleton_inj, List.drop_succ_cons,
        List.drop_zero] at h
      rw [h.2.2.1, h.2.2.2]
    · rintro rfl
      exact ⟨0x01, [], rfl, by decide⟩
  · cases q with
    | nil => rfl
    | cons c q =>
      simp only [List.singleton_inj, List.drop_succ_cons, List.drop_zero]
      by_cases h0 : c = 0x00
      · rw [if_pos h0, h0]
      rw [if_neg h0]
      by_cases h2 : c = 0x02
      · rw [if_pos h2, h2]
      rw [if_neg h2]
      by_cases h1 : c = 0x01
      · rw [if_pos h1, h1]
      rw [if_neg h1, readObjectValue, if_neg h0, if_neg h2, if_neg h1]
      rfl

/-- A round stays inside, but for a flag at the end of the buffer, and does what the model's
round does. -/
theorem refines_scanRound : Refines id Refused scanRound (fun q => (readObjectStep q).result)
    (fun q => ∃ key, Short key ∧ q = flagAtEnd key) := by
  unfold scanRound
  refine Refines.congr (.bind (refines_scanNumber id Refused _ Nat.two_pos) fun n _ _ _ hn =>
    .announce (.ite (fun _ => refines_scanObjectEnd) fun h0 => .ite (fun _ => .stop _) fun hneg =>
      .fitsRead (by omega) fun key _ => refines_scanObjectValue key) fun q _ => ?_)
    (fun q => ?_) fun q _ => ?_
  · -- the size that counts is the one that came
    obtain ⟨hlt, -⟩ := be2se_iff.mp (mapError_ok.mp hn)
    rcases wrap16_cases hlt with rfl | ⟨h1, -, hwrap⟩ | ⟨-, hwrap⟩
    · exact Or.inl (Nat.zero_le _)
    · by_cases hle : n ≤ q.length
      · exact Or.inl hle
      · rw [hwrap, if_neg (by omega), if_neg (by omega), Int.toNat_natCast, if_neg hle]
        exact Or.inr ⟨_, rfl, by decide⟩
    · rw [if_neg (by omega), if_pos hwrap]
      exact Or.inr ⟨_, rfl, by decide⟩
  · constructor
    · rintro (hno | ⟨n, q', hn, h⟩)
      · exact hno.elim
      obtain ⟨hlt, hq⟩ := be2se_iff.mp (mapError_ok.mp hn)
      obtain ⟨h0, hneg, hle, hlast⟩ : wrap16 n ≠ 0 ∧ ¬ wrap16 n < 0 ∧
          (wrap16 n).toNat ≤ q'.length ∧ q'.drop (wrap16 n).toNat = [0x01] := by
        simpa only [and_false, false_or] using h
      have hwrap : wrap16 n = n := wrap16_pos hlt (by omega)
      have hbound := wrap16_lt n
      rw [hwrap, Int.toNat_natCast] at hle hlast
      have htake : (q'.take n).length = n := List.length_take_of_le hle
      refine ⟨q'.take n, by unfold Short; omega, ?_⟩
      rw [flagAtEnd, htake, ← hlast, List.take_append_drop, hq]
    · rintro ⟨key, hkey, rfl⟩
      have hb : be2se 2 (flagAtEnd key) = .ok (key.length, key ++ [0x01]) :=
        be2se_append (by unfold Short at hkey; omega)
      have hwrap : wrap16 key.length = key.length := wrap16_of_le hkey.2
      refine Or.inr ⟨key.length, key ++ [0x01], mapError_ok.mpr hb, Or.inr ⟨?_, Or.inr ⟨?_, ?_⟩⟩⟩
      · unfold Short at hkey
        omega
      · omega
      · rw [hwrap, Int.toNat_natCast]
        exact ⟨by simp, List.drop_left⟩
  · cases hb : be2se 2 q with
    | error f =>
      rw [andThen_error (mapError_error hb), readObjectStep, hb]
      rfl
    | ok r =>
      obtain ⟨n, q'⟩ := r
      rw [andThen_ok (mapError_ok.mpr hb), readObjectStep_ok hb]
      by_cases h0 : wrap16 n = 0
      · rw [if_pos h0, if_pos h0]
      rw [if_neg h0, if_neg h0]
      by_cases hneg : wrap16 n < 0
      · rw [if_pos hneg, if_pos hneg]
        rfl
      rw [if_neg hneg, if_neg hneg]
      by_cases hle : (wrap16 n).toNat ≤ q'.length
      · rw [if_pos hle, if_pos (by omega)]
      · rw [if_neg hle, if_neg (by omega)]
        rfl

/-! ## What the loop reads -/

/-- A round of the model, in the words of the loop with the log. -/
theorem readObject_insertRound {p p' : Bytes} {object : List Property} {kv : Option Property}
    (h : readObjectStep p = .again p' kv) :
    readObject p object = readObject p' (insertRound object kv) := by
  have hne := ne_nil_of_readObjectStep h
  cases kv with
  | none => exact readObject_next hne h
  | some kv => exact readObject_again hne h

/-- A negative size for a key: the length is read, and `append` throws. -/
theorem scanRound_size {b : Bytes} {p n : Nat} {q : Bytes} (hn : 0x8000 ≤ n) (hlt : n < 65536)
    (hq : b.drop p = beBytes 2 n ++ q) :
    scanRound b p = ([.read p 2, .announced (p + 2) n], .error .threw) := by
  have hb : be2se 2 (b.drop p) = .ok (n, q) := be2se_iff.mpr ⟨hlt, hq⟩
  have hwrap : wrap16 n < 0 := wrap16_of_ge hn hlt
  have hbind : scanRound b p = Scan.bind (scanNumber (.done (-1)) 2) (fun n => do
      Scan.announce n
      if wrap16 n = 0 then scanObjectEnd
      else if wrap16 n < 0 then Scan.stop .threw
      else
        if ← Scan.fits (wrap16 n).toNat then
          let key ← Scan.read (wrap16 n).toNat
          scanObjectValue key
        else Scan.stop (.done (-1))) b p := rfl
  rw [hbind, Scan.bind, scanNumber_ok Nat.two_pos hb]
  dsimp only
  rw [if_neg (by omega), if_pos hwrap]
  rfl

/-- A flag at the very end: its read goes outside, and so does the whole loop's log. -/
theorem scanObject_flag {b : Bytes} {p : Nat} {object : List Property} {key : Bytes}
    (hp : p < b.length) (hkey : Short key) (hq : b.drop p = flagAtEnd key) :
    ¬ InBounds b.length (scanObject b p object).1 := by
  intro h
  have hin := refines_scanRound.inBounds b p
  cases hround : scanRound b p with
  | mk log result =>
    rw [hround] at hin
    -- whatever the round ends with, its log is there
    have hlog : InBounds b.length log := by
      cases result with
      | error e =>
        cases e with
        | done rc =>
          rw [scanObject_done hp hround] at h
          exact h
        | threw =>
          rw [scanObject_threw hp hround] at h
          exact h
      | ok r =>
        rw [scanObject_again hp hround] at h
        exact (inBounds_append.mp h).1
    exact hin.mp hlog ⟨key, hkey, hq⟩

/-- What becomes of one round, and what is known of the buffer and of the log in each case. -/
inductive RoundCase (b : Bytes) (p : Nat) (object : List Property) : Prop where
  | behind (hp : ¬ p < b.length) (heq : scanObject b p object = ([], some (-1, object)))
  | flag {key : Bytes} (hkey : Short key) (hq : b.drop p = flagAtEnd key)
    (hout : ¬ InBounds b.length (scanObject b p object).1)
  | size {n : Nat} {q : Bytes} (hn : 0x8000 ≤ n) (hlt : n < 65536)
      (hq : b.drop p = beBytes 2 n ++ q)
    (heq : scanObject b p object = ([.read p 2, .announced (p + 2) n], none))
  | done {rc : Int} {log : List Event} (hne : b.drop p ≠ [])
    (hstep : readObjectStep (b.drop p) = .done rc)
    (heq : scanObject b p object = (log, some (rc, object))) (hin : InBounds b.length log)
    (hfits : rc = 0 → Fits b.length log)
  | again {kv : Option Property} {p' : Nat} {log : List Event} (hp : p < p') (hb : p < b.length)
    (hflag : ¬ ∃ key, Short key ∧ b.drop p = flagAtEnd key)
    (hstep : readObjectStep (b.drop p) = .again (b.drop p') kv)
    (heq : scanObject b p object = (log ++ (scanObject b p' (insertRound object kv)).1,
      (scanObject b p' (insertRound object kv)).2))
    (hin : InBounds b.length log) (hfits : Fits b.length log)

/-- Every round is one of these, by the model's round on the rest of the buffer and by what
it refines. -/
theorem roundCase (b : Bytes) (p : Nat) (object : List Property) : RoundCase b p object := by
  by_cases hp : ¬ p < b.length
  · exact .behind hp (scanObject_behind hp)
  rw [Classical.not_not] at hp
  have hne : b.drop p ≠ [] := by
    rw [← List.length_pos_iff, List.length_drop]
    omega
  cases hround : scanRound b p with
  | mk log result =>
    by_cases hflag : ∃ key, Short key ∧ b.drop p = flagAtEnd key
    · obtain ⟨key, hkey, hq⟩ := hflag
      exact .flag hkey hq (scanObject_flag hp hkey hq)
    have hin := (refines_scanRound.inBounds b p).mpr hflag
    have houtcome := refines_scanRound.outcome b p hflag
    have hfits := refines_scanRound.fits b p hflag
    rw [hround] at hin houtcome hfits
    cases hstep : readObjectStep (b.drop p) with
    | undefined =>
      obtain ⟨n, q, hn, hlt, hq⟩ := readObjectStep_undefined.mp hstep
      exact .size hn hlt hq (scanObject_threw hp (scanRound_size hn hlt hq))
    | done rc =>
      rw [hstep] at houtcome hfits
      cases result with
      | error e =>
        cases houtcome
        refine .done hne hstep (scanObject_done hp hround) hin fun h0 => ?_
        rcases hfits with hfits | ⟨e, he, hrefused⟩
        · exact hfits
        · cases he
          rw [h0] at hrefused
          exact absurd rfl hrefused
      | ok r => cases houtcome
    | again q kv =>
      rw [hstep] at houtcome hfits
      cases result with
      | error e => cases houtcome
      | ok r =>
        obtain ⟨kv', p'⟩ := r
        cases houtcome
        have hadvance := scanRound_advances b p _ p' (by rw [hround])
        refine .again (by omega) hp hflag hstep (scanObject_again hp hround) hin ?_
        rcases hfits with hfits | ⟨e, he, -⟩
        · exact hfits
        · cases he

/-- Inside the buffer it is the model that has no pointer, and when it returns 0
all strings are there. -/
theorem scanObject_readObject {b : Bytes} (p : Nat) (object : List Property)
    (h : InBounds b.length (scanObject b p object).1) :
    (scanObject b p object).2 = readObject (b.drop p) object ∧
      ∀ object', (scanObject b p object).2 = some (0, object') →
        Fits b.length (scanObject b p object).1 := by
  -- induction on what is left of the buffer
  induction hn : b.length - p using Nat.strongRecOn generalizing p object with
  | ind n ih =>
    subst hn
    cases roundCase b p object with
    | behind hp heq =>
      rw [heq, List.drop_eq_nil_of_le (Nat.le_of_not_lt hp), readObject_nil]
      exact ⟨rfl, fun _ h0 => nomatch h0⟩
    | flag _ _ hout => exact absurd h hout
    | @size n q hn hlt hq heq =>
      have hstep := readObjectStep_undefined.mpr ⟨n, q, hn, hlt, hq⟩
      have hne : b.drop p ≠ [] := by
        intro hnil
        rw [hnil] at hstep
        cases hstep
      rw [heq, readObject_undefined hne hstep]
      exact ⟨rfl, fun _ h0 => nomatch h0⟩
    | done hne hstep heq hin hfits =>
      rw [heq, readObject_done hne hstep]
      refine ⟨rfl, fun object' h0 => hfits ?_⟩
      cases h0
      rfl
    | @again kv p' log hp hb hflag hstep heq hin hfits =>
      rw [heq] at h ⊢
      obtain ⟨hread, hzero⟩ := ih _ (by omega) p' _ (inBounds_append.mp h).2 rfl
      rw [readObject_insertRound hstep]
      exact ⟨hread, fun object' h0 => fits_append.mpr ⟨hfits, hzero object' h0⟩⟩

/-! ## The buffers that it does not survive -/

/-- Behind rounds that go well, a negative size for a key with `Bad` behind it, or
a flag without a value at the very end. -/
inductive Trouble (Bad : Nat → Bytes → Prop) : Bytes → Prop where
  | size {n : Nat} {q : Bytes} : 0x8000 ≤ n → n < 65536 → Bad n q → Trouble Bad (beBytes 2 n ++ q)
  | flag {key : Bytes} : Short key → Trouble Bad (flagAtEnd key)
  | pair {kv : Property} {p : Bytes} : WellFormed kv → ¬ Blank kv → Trouble Bad p →
    Trouble Bad (entryBytes kv ++ p)
  | next {n : Nat} {p : Bytes} : n ≠ 0 → n < 65536 → Trouble Bad p →
    Trouble Bad (nextObject n ++ p)

/-- Trouble is found by looking at one round at a time. -/
theorem trouble_iff {Bad : Nat → Bytes → Prop} {p : Bytes} :
    Trouble Bad p ↔
      (∃ n q, 0x8000 ≤ n ∧ n < 65536 ∧ p = beBytes 2 n ++ q ∧ Bad n q) ∨
      (∃ key, Short key ∧ p = flagAtEnd key) ∨
      ∃ p' kv, readObjectStep p = .again p' kv ∧ Trouble Bad p' := by
  constructor
  · intro h
    cases h with
    | @size n q hn hlt hbad => exact Or.inl ⟨n, q, hn, hlt, rfl, hbad⟩
    | @flag key hkey => exact Or.inr (Or.inl ⟨key, hkey, rfl⟩)
    | @pair kv p' hwf hblank h =>
      exact Or.inr (Or.inr ⟨p', some kv, readObjectStep_entryBytes hwf hblank p', h⟩)
    | @next n p' h0 hlt h =>
      exact Or.inr (Or.inr ⟨p', none, readObjectStep_again_none.mpr ⟨n, h0, hlt, rfl⟩, h⟩)
  · rintro (⟨n, q, hn, hlt, rfl, hbad⟩ | ⟨key, hkey, rfl⟩ | ⟨p', kv, hstep, h⟩)
    · exact .size hn hlt hbad
    · exact .flag hkey
    · cases kv with
      | none =>
        obtain ⟨n, h0, hlt, rfl⟩ := readObjectStep_again_none.mp hstep
        exact .next h0 hlt h
      | some kv =>
        rcases readObjectStep_again_some.mp hstep with ⟨hwf, hblank, rfl⟩ | ⟨key, hkey, -, rfl, -⟩
        · exact .pair hwf hblank h
        · exact .flag hkey

/-- A round that returns has no trouble in it. -/
theorem not_trouble_of_done {Bad : Nat → Bytes → Prop} {p : Bytes} {rc : Int}
    (h : readObjectStep p = .done rc) : ¬ Trouble Bad p := by
  rw [trouble_iff]
  rintro (⟨n, q, hn, hlt, hp, -⟩ | ⟨key, hkey, hp⟩ | ⟨p', kv, hstep, -⟩)
  · rw [readObjectStep_undefined.mpr ⟨n, q, hn, hlt, hp⟩] at h
    cases h
  · rw [readObjectStep_again_some.mpr (Or.inr ⟨key, hkey, rfl, hp, rfl⟩)] at h
    cases h
  · rw [hstep] at h
    cases h

/-- Behind a negative size there is trouble exactly where `Bad` says so. -/
theorem trouble_size {Bad : Nat → Bytes → Prop} {n : Nat} {q : Bytes} (hn : 0x8000 ≤ n)
    (hlt : n < 65536) : Trouble Bad (beBytes 2 n ++ q) ↔ Bad n q := by
  constructor
  · intro h
    have hundefined := readObjectStep_undefined.mpr ⟨n, q, hn, hlt, rfl⟩
    rcases trouble_iff.mp h with ⟨n', q', -, hlt', heq, hbad⟩ | ⟨key, hkey, heq⟩ |
      ⟨p', kv, hstep, -⟩
    · have hsame : be2se 2 (beBytes 2 n ++ q) = .ok (n', q') := by
        rw [heq]
        exact be2se_append hlt'
      rw [be2se_append hlt] at hsame
      cases hsame
      exact hbad
    · rw [readObjectStep_again_some.mpr (Or.inr ⟨key, hkey, rfl, heq, rfl⟩)] at hundefined
      cases hundefined
    · rw [hstep] at hundefined
      cases hundefined
  · exact .size hn hlt

/-- A round that goes on has its trouble behind it. -/
theorem trouble_again {Bad : Nat → Bytes → Prop} {p p' : Bytes} {kv : Option Property}
    (hflag : ¬ ∃ key, Short key ∧ p = flagAtEnd key) (h : readObjectStep p = .again p' kv) :
    Trouble Bad p ↔ Trouble Bad p' := by
  rw [trouble_iff]
  constructor
  · rintro (⟨n, q, hn, hlt, hp, -⟩ | hkey | ⟨q, kv', hstep, htrouble⟩)
    · rw [readObjectStep_undefined.mpr ⟨n, q, hn, hlt, hp⟩] at h
      cases h
    · exact absurd hkey hflag
    · rw [h] at hstep
      cases hstep
      exact htrouble
  · intro htrouble
    exact Or.inr (Or.inr ⟨p', kv, h, htrouble⟩)

/-- The loop stays inside, and throws only where `E` allows it, on all other
buffers. -/
theorem scanObject_iff {b : Bytes} {E : List Event → Prop} {Bad : Nat → Bytes → Prop}
    (hE : ∀ log log', Fits b.length log → (E (log ++ log') ↔ E log'))
    (hBad : ∀ p n q, b.drop p = beBytes 2 n ++ q →
      (E [.read p 2, .announced (p + 2) n] ↔ ¬ Bad n q)) (p : Nat) (object : List Property) :
    (InBounds b.length (scanObject b p object).1 ∧
      ((scanObject b p object).2 = none → E (scanObject b p object).1)) ↔
    ¬ Trouble Bad (b.drop p) := by
  induction hn : b.length - p using Nat.strongRecOn generalizing p object with
  | ind n ih =>
    subst hn
    cases roundCase b p object with
    | behind hp heq =>
      rw [heq, List.drop_eq_nil_of_le (Nat.le_of_not_lt hp)]
      exact ⟨fun _ => not_trouble_of_done (p := []) rfl,
        fun _ => ⟨inBounds_nil _, fun h => nomatch h⟩⟩
    | flag hkey hq hout =>
      rw [hq]
      exact ⟨fun h => absurd h.1 hout, fun h => absurd (.flag hkey) h⟩
    | @size n q hn hlt hq heq =>
      have hin : InBounds b.length [.read p 2, .announced (p + 2) n] := by
        have htwo : 2 ≤ (b.drop p).length := by
          rw [hq, List.length_append, beBytes_length]
          omega
        exact inBounds_append.mpr ⟨inBounds_read.mpr (inside_iff.mpr htwo),
          inBounds_announced _ _ _⟩
      rw [heq, hq, trouble_size hn hlt, ← hBad p n q hq]
      exact ⟨fun h => h.2 rfl, fun h => ⟨hin, fun _ => h⟩⟩
    | done hne hstep heq hin hfits =>
      rw [heq]
      exact ⟨fun _ => not_trouble_of_done hstep, fun _ => ⟨hin, fun h => nomatch h⟩⟩
    | @again kv p' log hp hb hflag hstep heq hin hfits =>
      rw [heq, trouble_again hflag hstep, ← ih _ (by omega) p' (insertRound object kv) rfl]
      dsimp only
      rw [inBounds_append, hE _ _ hfits, and_iff_right hin]

/-- `read_object` returns 0 or -1, and has read nothing behind the end of the buffer. -/
def Safe (size : Nat) (r : List Event × Option (Int × List Property)) : Prop :=
  InBounds size r.1 ∧ ∃ rc object, r.2 = some (rc, object) ∧ (rc = 0 ∨ rc = -1)

/-- It is safe on the buffers without a negative size for a key, and without a flag
at the very end. -/
theorem scanObject_safe_iff (b : Bytes) (p : Nat) (object : List Property) :
    Safe b.length (scanObject b p object) ↔ ¬ Trouble (fun _ _ => True) (b.drop p) := by
  rw [← scanObject_iff (E := fun _ => False) (fun _ _ _ => Iff.rfl) (fun _ _ _ _ => by simp)
    p object]
  constructor
  · rintro ⟨hin, rc, object', heq, -⟩
    refine ⟨hin, fun hnone => ?_⟩
    rw [hnone] at heq
    cases heq
  · intro ⟨hin, hsome⟩
    refine ⟨hin, ?_⟩
    obtain ⟨hread, -⟩ := scanObject_readObject p object hin
    cases hr : (scanObject b p object).2 with
    | none => exact (hsome hr).elim
    | some r =>
      rw [hr] at hread
      exact ⟨r.1, r.2, rfl, readObject_rc hread.symm⟩

/-- A size of 32768 makes it throw, and a flag without a value makes it read the
byte behind the buffer. -/
theorem scanObject_unsafe :
    ¬ Safe 2 (scanObject [0x80, 0x00] 0 []) ∧
      ¬ Safe 4 (scanObject [0x00, 0x01, 0x61, 0x01] 0 []) := by
  constructor
  · rintro ⟨-, rc, object, heq, -⟩
    have hround : scanRound [0x80, 0x00] 0 = ([.read 0 2, .announced 2 32768], .error .threw) :=
      scanRound_size (q := []) (by decide) (by decide) (by decide)
    rw [scanObject_threw (by decide) hround] at heq
    cases heq
  · rintro ⟨hin, -⟩
    have hkey : Short [0x61] := by decide
    exact scanObject_flag (b := [0x00, 0x01, 0x61, 0x01]) (by decide) hkey (by decide) hin

end RtmpServer
