import RtmpServer.PropertyLists

/-!
# What `read_object` takes for an object

Each round of the loop takes a pair, or the end marker of one object and the
start of the next, or it is the last one. `stepCase` says by which bytes, and
`readObject_accepts_iff` puts the rounds together: the buffers that `read_object`
accepts are those of the grammar `ObjectBytes`, and `object` holds the pairs as
`insert` takes them.
-/

namespace RtmpServer

open Endian

/-! ## One round -/

/-- The end marker of an object, and the start of another one behind a number
that is not zero. -/
def nextObject (n : Nat) : Bytes := 0x00 :: 0x00 :: 0x09 :: (beBytes 2 n ++ [0x03])

/-- A key and the marker of a flag, at the very end of the buffer. -/
def flagAtEnd (key : Bytes) : Bytes := beBytes 2 key.length ++ (key ++ [0x01])

/-- The start of another object, as the two numbers and two markers that a round finds
there. -/
theorem nextObject_append (n : Nat) (p : Bytes) :
    nextObject n ++ p = beBytes 2 0 ++ 0x09 :: (beBytes 2 n ++ 0x03 :: p) := by
  rw [nextObject, List.cons_append, List.cons_append, List.cons_append, List.append_assoc]
  rfl

/-- What an end marker can lead to, and on which bytes: a refusal, the end of the loop, or
one more object. -/
inductive EndCase (p : Bytes) : Prop where
  | refused (hend : readObjectEnd p = .done (-1))
  | last (hp : p = [0x09]) (hend : readObjectEnd p = .done 0)
  | closed {q : Bytes} (hp : p = 0x09 :: 0x00 :: 0x00 :: q) (hend : readObjectEnd p = .done 0)
  | next {n : Nat} {q : Bytes} (h0 : n ≠ 0) (hlt : n < 65536)
    (hp : p = 0x09 :: (beBytes 2 n ++ 0x03 :: q)) (hend : readObjectEnd p = .again q none)

/-- These are all the cases, told by what follows the marker. -/
theorem endCase (p : Bytes) : EndCase p := by
  cases p with
  | nil => exact .refused rfl
  | cons c p =>
    by_cases hc : c ≠ 0x09
    · exact .refused (by rw [readObjectEnd, if_pos hc])
    have hc9 : c = 0x09 := Classical.not_not.mp hc
    by_cases hnil : p = []
    · refine .last (by rw [hc9, hnil]) ?_
      rw [readObjectEnd, if_neg hc, if_pos hnil]
    cases hb : be2se 2 p with
    | error f =>
      refine .refused ?_
      rw [readObjectEnd, if_neg hc, if_neg hnil, hb]
    | ok r =>
      obtain ⟨n, q⟩ := r
      obtain ⟨hlt, hp⟩ := be2se_iff.mp hb
      by_cases h0 : n = 0
      · refine .closed (q := q) (by rw [hc9, hp, h0]; rfl) ?_
        rw [readObjectEnd, if_neg hc, if_neg hnil, hb]
        exact if_pos h0
      cases q with
      | nil =>
        refine .refused ?_
        rw [readObjectEnd, if_neg hc, if_neg hnil, hb]
        exact if_neg h0
      | cons d q =>
        by_cases hd : d = 0x03
        · refine .next h0 hlt (by rw [hc9, hp, hd]) ?_
          rw [readObjectEnd, if_neg hc, if_neg hnil, hb]
          exact (if_neg h0).trans (if_pos hd)
        · refine .refused ?_
          rw [readObjectEnd, if_neg hc, if_neg hnil, hb]
          exact (if_neg h0).trans (if_neg hd)

/-- What can stand behind a key: a value, and what follows it is left. -/
inductive ValueCase (key p : Bytes) : Prop where
  | refused (hread : readObjectValue key p = .done (-1))
  | value {value : ValueObject} {p' : Bytes} (hwf : WellFormed (key, value))
    (hblank : ¬ Blank (key, value))
    (hp : beBytes 2 key.length ++ (key ++ p) = entryBytes (key, value) ++ p')
    (hread : readObjectValue key p = .again p' (some (key, value)))
  | flag (hp : p = [0x01]) (hread : readObjectValue key p = .again [] (some (key, .value0x01 0)))

/-- What stands behind a key is one of these, told by its marker and by what is left. -/
theorem valueCase {key : Bytes} (hkey : Short key) (p : Bytes) : ValueCase key p := by
  cases p with
  | nil => exact .refused rfl
  | cons c p =>
    by_cases hnum : c = 0x00
    · cases hb : be2se 8 p with
      | error f =>
        refine .refused ?_
        rw [readObjectValue, if_pos hnum, hb]
      | ok r =>
        obtain ⟨n, q⟩ := r
        obtain ⟨hlt, hp⟩ := be2se_iff.mp hb
        have hn : (UInt64.ofNat n).toNat = n := UInt64.toNat_ofNat_of_lt' hlt
        have hwf : WellFormed (key, .valueNum (UInt64.ofNat n)) := ⟨hkey, trivial⟩
        have hread : readObjectValue key (c :: p)
            = .again q (some (key, .valueNum (UInt64.ofNat n))) := by
          rw [readObjectValue, if_pos hnum, hb]
        refine .value hwf (by intro hblank; cases hblank) ?_ hread
        rw [hnum, hp, entryBytes, List.append_assoc, List.append_assoc, List.cons_append, hn]
    by_cases hstring : c = 0x02
    · cases hb : be2se 2 p with
      | error f =>
        refine .refused ?_
        rw [readObjectValue, if_neg hnum, if_pos hstring, hb]
      | ok r =>
        obtain ⟨n, q⟩ := r
        obtain ⟨hlt, hp⟩ := be2se_iff.mp hb
        have hread : readObjectValue key (c :: p) = if n = 0 then .done (-1) else
            if q.length < n then .done (-1) else
              .again (q.drop n) (some (key, .valueString (q.take n))) := by
          rw [readObjectValue, if_neg hnum, if_pos hstring, hb]
        by_cases h0 : n = 0
        · exact .refused (hread.trans (if_pos h0))
        by_cases hlong : q.length < n
        · exact .refused (hread.trans ((if_neg h0).trans (if_pos hlong)))
        have htake : (q.take n).length = n := List.length_take_of_le (Nat.le_of_not_lt hlong)
        have hwf : WellFormed (key, .valueString (q.take n)) := by
          refine ⟨hkey, ?_⟩
          show (q.take n).length ≤ 65535
          omega
        refine .value hwf (fun hblank => ?_) ?_ (hread.trans ((if_neg h0).trans (if_neg hlong)))
        · have hnil : q.take n = [] := ValueObject.valueString.inj hblank
          rw [hnil] at htake
          exact h0 htake.symm
        · rw [hstring, hp, entryBytes, List.append_assoc, List.append_assoc, List.cons_append,
            List.append_assoc, htake, List.take_append_drop]
    by_cases hflag : c = 0x01
    · have hread : readObjectValue key (c :: p)
          = .again p.tail (some (key, .value0x01 (p.headD 0))) := by
        rw [readObjectValue, if_neg hnum, if_neg hstring, if_pos hflag]
      cases p with
      | nil => exact .flag (by rw [hflag]) hread
      | cons value p =>
        have hwf : WellFormed (key, .value0x01 value) := ⟨hkey, trivial⟩
        refine .value hwf (by intro hblank; cases hblank) ?_ hread
        rw [hflag, entryBytes, List.append_assoc, List.append_assoc]
        rfl
    · refine .refused ?_
      rw [readObjectValue, if_neg hnum, if_neg hstring, if_neg hflag]

/-- A round whose first two bytes are a number: three cases, by what an `int16_t` makes of
it. -/
theorem readObjectStep_ok {n : Nat} {p q : Bytes} (hb : be2se 2 p = .ok (n, q)) :
    readObjectStep p = if wrap16 n = 0 then readObjectEnd q else if wrap16 n < 0 then .undefined
      else if wrap16 n ≤ q.length then
        readObjectValue (q.take (wrap16 n).toNat) (q.drop (wrap16 n).toNat) else .done (-1) := by
  rw [readObjectStep, hb]

/-- What one round can do, and on which bytes: each way to go on is one kind of bytes in
front. -/
inductive StepCase (p : Bytes) : Prop where
  | refused (hstep : readObjectStep p = .done (-1))
  | last (hp : p = [0x00, 0x00, 0x09]) (hstep : readObjectStep p = .done 0)
  | closed {q : Bytes} (hp : p = 0x00 :: 0x00 :: 0x09 :: 0x00 :: 0x00 :: q)
    (hstep : readObjectStep p = .done 0)
  | next {n : Nat} {p' : Bytes} (h0 : n ≠ 0) (hlt : n < 65536) (hp : p = nextObject n ++ p')
    (hstep : readObjectStep p = .again p' none)
  | negative {n : Nat} {q : Bytes} (hn : 0x8000 ≤ n) (hlt : n < 65536) (hp : p = beBytes 2 n ++ q)
    (hstep : readObjectStep p = .undefined)
  | pair {kv : Property} {p' : Bytes} (hwf : WellFormed kv) (hblank : ¬ Blank kv)
    (hp : p = entryBytes kv ++ p') (hstep : readObjectStep p = .again p' (some kv))
  | flag {key : Bytes} (hkey : Short key) (hp : p = flagAtEnd key)
    (hstep : readObjectStep p = .again [] (some (key, .value0x01 0)))

/-- Every buffer is one of these to a round. -/
theorem stepCase (p : Bytes) : StepCase p := by
  cases hb : be2se 2 p with
  | error f =>
    refine .refused ?_
    rw [readObjectStep, hb]
  | ok r =>
    obtain ⟨n, q⟩ := r
    obtain ⟨hlt, hp⟩ := be2se_iff.mp hb
    have hstep := readObjectStep_ok hb
    -- the length is an `int16_t`: at 0 the object ends, above it a pair follows, and a negative
    -- one has no defined `append`
    rcases wrap16_cases hlt with rfl | ⟨h1, h2, hwrap⟩ | ⟨hn, hwrap⟩
    · have hstep : readObjectStep p = readObjectEnd q := hstep.trans (if_pos (by decide))
      cases endCase q with
      | refused hend => exact .refused (hstep.trans hend)
      | last hq hend => exact .last (by rw [hp, hq]; rfl) (hstep.trans hend)
      | closed hq hend => exact .closed (by rw [hp, hq]; rfl) (hstep.trans hend)
      | next h0 hlt hq hend =>
        exact .next h0 hlt (by rw [nextObject_append, hp, hq]) (hstep.trans hend)
    · rw [hwrap, if_neg (by omega), if_neg (by omega), Int.toNat_natCast] at hstep
      by_cases hlong : q.length < n
      · rw [if_neg (by omega)] at hstep
        exact .refused hstep
      have htake : (q.take n).length = n := List.length_take_of_le (Nat.le_of_not_lt hlong)
      have hkey : Short (q.take n) := ⟨by omega, by omega⟩
      rw [if_pos (by omega)] at hstep
      have hsplit : p = beBytes 2 (q.take n).length ++ (q.take n ++ q.drop n) := by
        rw [htake, List.take_append_drop, hp]
      cases valueCase hkey (q.drop n) with
      | refused hread => exact .refused (hstep.trans hread)
      | value hwf hblank hbytes hread =>
        exact .pair hwf hblank (hsplit.trans hbytes) (hstep.trans hread)
      | flag hq hread => exact .flag hkey (by rw [hsplit, hq, flagAtEnd]) (hstep.trans hread)
    · rw [if_neg (by omega), if_pos hwrap] at hstep
      exact .negative hn hlt hp hstep

/-- A pair is where its bytes stand, or it is a flag that ends the buffer. -/
theorem readObjectStep_again_some {p p' : Bytes} {kv : Property} :
    readObjectStep p = .again p' (some kv) ↔
      WellFormed kv ∧ ¬ Blank kv ∧ p = entryBytes kv ++ p' ∨
      ∃ key, Short key ∧ kv = (key, .value0x01 0) ∧ p = flagAtEnd key ∧ p' = [] := by
  constructor
  · intro h
    cases stepCase p with
    | pair hwf hblank hp hstep =>
      rw [hstep] at h
      cases h
      exact Or.inl ⟨hwf, hblank, hp⟩
    | flag hkey hp hstep =>
      rw [hstep] at h
      cases h
      exact Or.inr ⟨_, hkey, rfl, hp, rfl⟩
    | _ =>
      rename_i hstep
      rw [hstep] at h
      cases h
  · rintro (⟨hwf, hblank, rfl⟩ | ⟨key, hkey, rfl, rfl, rfl⟩)
    · exact readObjectStep_entryBytes hwf hblank p'
    · rw [flagAtEnd, readObjectStep_key hkey]
      rfl

/-- One more object begins exactly where the end marker, a number and the start marker
stand. -/
theorem readObjectStep_again_none {p p' : Bytes} :
    readObjectStep p = .again p' none ↔
      ∃ n, n ≠ 0 ∧ n < 65536 ∧ p = nextObject n ++ p' := by
  constructor
  · intro h
    cases stepCase p with
    | next h0 hlt hp hstep =>
      rw [hstep] at h
      cases h
      exact ⟨_, h0, hlt, hp⟩
    | _ =>
      rename_i hstep
      rw [hstep] at h
      cases h
  · rintro ⟨n, h0, hlt, rfl⟩
    have hb : be2se 2 (nextObject n ++ p') = .ok (0, 0x09 :: (beBytes 2 n ++ 0x03 :: p')) := by
      rw [nextObject_append]
      exact be2se_append (by decide)
    have hflag : be2se 2 (beBytes 2 n ++ 0x03 :: p') = .ok (n, 0x03 :: p') := be2se_append hlt
    rw [readObjectStep_ok hb, if_pos (by decide), readObjectEnd, if_neg (by decide),
      if_neg (by simp), hflag]
    exact if_neg h0

/-- A round is undefined exactly where a length from 0x8000 on stands for a key. -/
theorem readObjectStep_undefined {p : Bytes} :
    readObjectStep p = .undefined ↔ ∃ n q, 0x8000 ≤ n ∧ n < 65536 ∧ p = beBytes 2 n ++ q := by
  constructor
  · intro h
    cases stepCase p with
    | negative hn hlt hp hstep => exact ⟨_, _, hn, hlt, hp⟩
    | _ =>
      rename_i hstep
      rw [hstep] at h
      cases h
  · rintro ⟨n, q, hn, hlt, rfl⟩
    have hwrap : wrap16 n < 0 := wrap16_of_ge hn hlt
    rw [readObjectStep_ok (be2se_append hlt), if_neg (by omega), if_pos hwrap]

/-- A round that returns gives 0 or -1. -/
theorem readObjectStep_done {p : Bytes} {rc : Int} (h : readObjectStep p = .done rc) :
    rc = 0 ∨ rc = -1 := by
  cases stepCase p with
  | refused hstep =>
    rw [hstep] at h
    cases h
    exact Or.inr rfl
  | last _ hstep =>
    rw [hstep] at h
    cases h
    exact Or.inl rfl
  | closed _ hstep =>
    rw [hstep] at h
    cases h
    exact Or.inl rfl
  | _ =>
    rename_i hstep
    rw [hstep] at h
    cases h

/-- An end marker behind a length of zero, which the loop looks for. -/
theorem readObjectStep_zero (q : Bytes) : readObjectStep (0x00 :: 0x00 :: q) = readObjectEnd q := by
  have hb : be2se 2 (beBytes 2 0 ++ q) = .ok (0, q) := be2se_append (by decide)
  exact (readObjectStep_ok hb).trans (if_pos (by decide))

/-- At the very end of the buffer it ends the object. -/
theorem readObjectStep_last : readObjectStep [0x00, 0x00, 0x09] = .done 0 := by
  rw [readObjectStep_zero]
  rfl

/-- So it does in front of two zeros, whatever follows these. -/
theorem readObjectStep_closed (q : Bytes) :
    readObjectStep (0x00 :: 0x00 :: 0x09 :: 0x00 :: 0x00 :: q) = .done 0 := by
  have hb : be2se 2 (beBytes 2 0 ++ q) = .ok (0, q) := be2se_append (by decide)
  have hcons : (0x00 : UInt8) :: 0x00 :: q = beBytes 2 0 ++ q := rfl
  rw [readObjectStep_zero, readObjectEnd, if_neg (by decide), if_neg (List.cons_ne_nil _ _), hcons,
    hb]
  rfl

/-! ## All rounds -/

/-- So does `read_object`. -/
theorem readObject_rc {p : Bytes} {object object' : List Property} {rc : Int}
    (h : readObject p object = some (rc, object')) : rc = 0 ∨ rc = -1 := by
  induction hn : p.length using Nat.strongRecOn generalizing p object with
  | ind n ih =>
    subst hn
    by_cases hne : p = []
    · rw [hne, readObject_nil] at h
      cases h
      exact Or.inr rfl
    cases hstep : readObjectStep p with
    | undefined =>
      rw [readObject_undefined hne hstep] at h
      cases h
    | done rc =>
      rw [readObject_done hne hstep] at h
      cases h
      exact readObjectStep_done hstep
    | again p' kv =>
      have hshorter := readObjectStep_length hstep
      cases kv with
      | none =>
        rw [readObject_next hne hstep] at h
        exact ih _ hshorter h rfl
      | some kv =>
        rw [readObject_again hne hstep] at h
        exact ih _ hshorter h rfl

/-- The buffers that are accepted, and the pairs in them: pairs and starts of further
objects, up to an end marker that is the last of the buffer or has two zeros behind it. -/
inductive ObjectBytes : Bytes → List Property → Prop where
  | last : ObjectBytes [0x00, 0x00, 0x09] []
  | closed (q : Bytes) : ObjectBytes (0x00 :: 0x00 :: 0x09 :: 0x00 :: 0x00 :: q) []
  | pair {kv : Property} {p : Bytes} {kvs : List Property} : WellFormed kv → ¬ Blank kv →
    ObjectBytes p kvs → ObjectBytes (entryBytes kv ++ p) (kv :: kvs)
  | next {n : Nat} {p : Bytes} {kvs : List Property} : n ≠ 0 → n < 65536 →
    ObjectBytes p kvs → ObjectBytes (nextObject n ++ p) kvs

/-- Such a buffer is accepted, and its pairs are inserted in their order. -/
theorem readObject_objectBytes {p : Bytes} {kvs : List Property} (h : ObjectBytes p kvs) :
    ∀ object, readObject p object = some (0, kvs.foldl insertProperty object) := by
  induction h with
  | last =>
    intro object
    exact readObject_done (List.cons_ne_nil _ _) readObjectStep_last
  | closed q =>
    intro object
    exact readObject_done (List.cons_ne_nil _ _) (readObjectStep_closed q)
  | @pair kv p kvs hwf hblank _ ih =>
    intro object
    have hstep := readObjectStep_entryBytes hwf hblank p
    rw [readObject_again (ne_nil_of_readObjectStep hstep) hstep]
    exact ih _
  | @next n p kvs h0 hlt _ ih =>
    intro object
    have hstep : readObjectStep (nextObject n ++ p) = .again p none :=
      readObjectStep_again_none.mpr ⟨n, h0, hlt, rfl⟩
    rw [readObject_next (ne_nil_of_readObjectStep hstep) hstep]
    exact ih _

/-- `read_object` returns 0 on the buffers of the grammar, and on no others. -/
theorem readObject_accepts_iff {p : Bytes} {object object' : List Property} :
    readObject p object = some (0, object') ↔
      ∃ kvs, ObjectBytes p kvs ∧ object' = kvs.foldl insertProperty object := by
  constructor
  · -- induction on what is left of the buffer
    induction hn : p.length using Nat.strongRecOn generalizing p object with
    | ind n ih =>
      subst hn
      intro h
      by_cases hne : p = []
      · rw [hne, readObject_nil] at h
        cases h
      cases stepCase p with
      | refused hstep =>
        rw [readObject_done hne hstep] at h
        cases h
      | last hp hstep =>
        rw [readObject_done hne hstep] at h
        cases h
        exact ⟨[], hp ▸ .last, rfl⟩
      | closed hp hstep =>
        rw [readObject_done hne hstep] at h
        cases h
        exact ⟨[], hp ▸ .closed _, rfl⟩
      | next h0 hlt hp hstep =>
        rw [readObject_next hne hstep] at h
        obtain ⟨kvs, hbytes, heq⟩ := ih _ (readObjectStep_length hstep) rfl h
        exact ⟨kvs, hp ▸ .next h0 hlt hbytes, heq⟩
      | negative _ _ _ hstep =>
        rw [readObject_undefined hne hstep] at h
        cases h
      | pair hwf hblank hp hstep =>
        rw [readObject_again hne hstep] at h
        obtain ⟨kvs, hbytes, heq⟩ := ih _ (readObjectStep_length hstep) rfl h
        exact ⟨_ :: kvs, hp ▸ .pair hwf hblank hbytes, heq⟩
      | flag _ _ hstep =>
        -- nothing is left for an end marker
        rw [readObject_again hne hstep, readObject_nil] at h
        cases h
  · rintro ⟨kvs, hbytes, rfl⟩
    exact readObject_objectBytes hbytes object

/-- A value that no case of the loop takes: it has another marker (null and
undefined have one of their own), or it is an empty string. -/
inductive Unread : Bytes → Prop
  | other {c : UInt8} (q : Bytes) : c ≠ 0x00 → c ≠ 0x01 → c ≠ 0x02 → Unread (c :: q)
  | blank (q : Bytes) : Unread (0x02 :: (beBytes 2 0 ++ q))

/-- Such a value behind a key ends the loop with `-1`. -/
theorem readObjectStep_unread {key p : Bytes} (hkey : Short key) (h : Unread p) :
    readObjectStep (beBytes 2 key.length ++ (key ++ p)) = .done (-1) := by
  rw [readObjectStep_key hkey]
  cases h with
  | other q h0 h1 h2 => rw [readObjectValue, if_neg h0, if_neg h2, if_neg h1]
  | blank q =>
    have hb : be2se 2 (beBytes 2 0 ++ q) = .ok (0, q) := be2se_append (by decide)
    rw [readObjectValue, if_neg (by decide), if_pos rfl, hb]
    rfl

/-- One such value behind any pairs, and the object is refused, whatever may follow. -/
theorem not_objectBytes_of_unread {kvs : List Property} {key p : Bytes}
    (hkvs : ∀ kv ∈ kvs, WellFormed kv ∧ ¬ Blank kv) (hkey : Short key) (hp : Unread p)
    (pairs : List Property) :
    ¬ ObjectBytes (kvs.flatMap entryBytes ++ (beBytes 2 key.length ++ (key ++ p))) pairs := by
  have hstep := readObjectStep_unread hkey hp
  have hne : beBytes 2 key.length ++ (key ++ p) ≠ [] :=
    List.append_ne_nil_of_left_ne_nil (List.ne_nil_of_length_pos (by simp)) _
  -- the loop gets as far as the pairs go
  have hrefused : ∀ object, readObject
      (kvs.flatMap entryBytes ++ (beBytes 2 key.length ++ (key ++ p))) object
        = some (-1, kvs.foldl insertProperty object) := by
    induction kvs with
    | nil => exact fun object => readObject_done hne hstep
    | cons kv kvs ih =>
      intro object
      obtain ⟨hwf, hblank⟩ := hkvs kv (List.mem_cons_self ..)
      have hpair := readObjectStep_entryBytes hwf hblank
        (kvs.flatMap entryBytes ++ (beBytes 2 key.length ++ (key ++ p)))
      rw [List.flatMap_cons, List.append_assoc,
        readObject_again (ne_nil_of_readObjectStep hpair) hpair]
      exact ih (fun kv' hmem => hkvs kv' (List.mem_cons_of_mem _ hmem)) _
  intro h
  have hread := readObject_objectBytes h []
  rw [hrefused] at hread
  cases hread

/-! ## A connect payload -/

/-- A command name and a transaction id, in front of what the marker announces. -/
def commandFront (commandName : Bytes) (transactionId : UInt64) (marker : UInt8) : Bytes :=
  0x02 :: (beBytes 2 commandName.length ++ (commandName ++
    (0x00 :: (beBytes 8 transactionId.toNat ++ [marker]))))

/-- A command is read exactly where its bytes stand, with a name that keeps its length. -/
theorem readCommand_iff {marker : UInt8} {p q commandName : Bytes} {transactionId : UInt64} :
    readCommand marker p = .ok (commandName, transactionId, q) ↔
      Short commandName ∧ p = commandFront commandName transactionId marker ++ q := by
  constructor
  · intro h
    unfold readCommand at h
    obtain ⟨p1, h1, h⟩ := Parse.bind_eq_ok.mp h
    obtain ⟨⟨name, p2⟩, h2, h⟩ := Parse.bind_eq_ok.mp h
    obtain ⟨p3, h3, h⟩ := Parse.bind_eq_ok.mp h
    obtain ⟨⟨n, p4⟩, h4, h⟩ := Parse.bind_eq_ok.mp h
    obtain ⟨p5, h5, h⟩ := Parse.bind_eq_ok.mp h
    cases h
    rw [expect_iff.mp h3] at h2
    obtain ⟨hname, hp1⟩ := readString_cons_iff.mp h2
    obtain ⟨hlt, hp3⟩ := be2se_iff.mp h4
    have hn : (UInt64.ofNat n).toNat = n := UInt64.toNat_ofNat_of_lt' hlt
    refine ⟨hname, ?_⟩
    rw [expect_iff.mp h1, hp1, hp3, expect_iff.mp h5, commandFront, hn]
    simp
  · rintro ⟨hname, rfl⟩
    have happend := readCommand_append hname transactionId marker q
    rw [← happend, commandFront]
    simp

/-- The payload of a connect message with these pairs in its object: the command in front,
and an accepted object behind it. -/
def ConnectPayload (payload : Bytes) (kvs : List Property) : Prop :=
  ∃ commandName transactionId p, Short commandName ∧
    payload = commandFront commandName transactionId 0x03 ++ p ∧ ObjectBytes p kvs

/-- No other payloads are accepted by the parser. -/
theorem connectPayload_of_parseConnect {payload : Bytes} {message message' : IoMessage}
    (h : parseConnect payload message = some (0, message')) :
    ∃ kvs, ConnectPayload payload kvs := by
  unfold parseConnect at h
  cases hcommand : readCommand 0x03 payload with
  | error f =>
    rw [hcommand] at h
    cases f <;> cases h
  | ok r =>
    obtain ⟨commandName, transactionId, p⟩ := r
    obtain ⟨hname, hpayload⟩ := readCommand_iff.mp hcommand
    rw [hcommand] at h
    dsimp only at h
    cases hread : readObject p message.object with
    | none =>
      rw [hread] at h
      cases h
    | some r =>
      obtain ⟨rc, object⟩ := r
      rw [hread] at h
      dsimp only at h
      rcases readObject_rc hread with hrc | hrc
      · rw [hrc] at hread
        obtain ⟨kvs, hbytes, -⟩ := readObject_accepts_iff.mp hread
        exact ⟨kvs, commandName, transactionId, p, hname, hpayload, hbytes⟩
      · rw [if_pos hrc] at h
        cases h

/-- And these are, whatever the message held before; the pairs go to its object. -/
theorem parseConnect_connectPayload {payload : Bytes} {kvs : List Property}
    (h : ConnectPayload payload kvs) (message : IoMessage) :
    ∃ message', parseConnect payload message = some (0, message') ∧
      message'.object = kvs.foldl insertProperty message.object := by
  obtain ⟨commandName, transactionId, p, hname, hpayload, hbytes⟩ := h
  have hcommand := readCommand_iff.mpr ⟨hname, hpayload⟩
  unfold parseConnect
  rw [hcommand]
  dsimp only
  rw [readObject_objectBytes hbytes]
  exact ⟨_, rfl, rfl⟩

end RtmpServer
