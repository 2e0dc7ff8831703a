import RtmpServer.Message

/-!
# AMF0: the payload writers and the object parser

What the message classes push as payload bytes, and `IO_Message::read_object`
with the small reads all `read_payload` functions are made of. A property that
the writers write, `read_object` reads back: `readObject_pushProperties`.

Mirroring notes:
- a payload writer never blocks, so it is the bytes it pushes and its return
  value (`Push`); it is undefined where a length above 32767 turns negative in
  an `int16_t` and the append of that many bytes throws.
- a parser never blocks either: it works on the bytes from `p` to the end of
  the buffer. The buffer is a `std::string`, so the byte at its end can be read
  and is zero; a parser is undefined where the code reads behind that one.
-/

namespace RtmpServer

open Coroutine Coroutine.Prog Endian

/-! ## Writing -/

/-- The bytes a payload writer pushes and what it returns. There are none where it has
undefined behaviour. -/
abbrev Push := Option (Bytes × Int)

namespace Push

/-- `push` of some bytes, which always succeeds. -/
def push (bytes : Bytes) : Push := some (bytes, 0)

/-- `return -1`, with nothing pushed by this statement itself. -/
def fail : Push := some ([], -1)

/-- One writer after the other, unless the first returned `-1`; then its bytes stay and the
second is not run. -/
def andThen (p q : Push) : Push := do
  let (bytes, rc) ← p
  if rc = -1 then
    return (bytes, -1)
  let (bytes', rc') ← q
  return (bytes ++ bytes', rc')

@[simp] theorem push_andThen_push (x y : Bytes) : (push x).andThen (push y) = push (x ++ y) := rfl

/-- A writer as the `write_payload` of a message class: what it pushes is appended to the
session's buffer. -/
def run (p : Push) : Routine Int :=
  .act fun s => p.map fun r => (r.2, s.append .ioBuffer r.1)

/-- Bytes that are pushed are in the buffer afterwards, behind what was there. -/
theorem wp_run_push {ε : Type} {env : Env st ε} {s : State} {e : ε} {bytes : Bytes}
    {Q : Int → State → ε → Prop} :
    wp env (push bytes).run Q s e ↔ Q 0 (s.append .ioBuffer bytes) e := by
  simp [run, push, wp_act, and_assoc]

end Push

open Push

/-- The characters of a string literal, as the bytes they are in the source. -/
def chars (s : String) : Bytes := s.toList.map fun c => UInt8.ofNat c.toNat

/-- A string behind its length: the length goes through an `int16_t`, and as
many bytes as that says are appended. -/
def pushString (value : Bytes) : Push :=
  let len := wrap16 value.length
  if len < 0 then none else push ((memBytes 2 len).reverse ++ value.take len.toNat)

/-- The value of a `Value_Len`, marker 0x08. Every other kind of value is refused here. -/
def pushLen : ValueObject → Push
  | .valueLen value => push (0x08 :: (memBytes 4 value).reverse)
  | _ => fail

/-- The value of a `Value_0x01`, marker 0x01. Every other kind of value is refused here. -/
def push0x01 : ValueObject → Push
  | .value0x01 value => push [0x01, value]
  | _ => fail

/-- One key with its value. Strings and numbers are written everywhere alike;
`other` is the third kind of value that the writer knows. -/
def pushProperty (other : ValueObject → Push) (kv : Property) : Push :=
  (pushString kv.1).andThen
    (match kv.2 with
    | .valueString value => (push [0x02]).andThen (pushString value)
    | .valueNum value => push (0x00 :: beBytes 8 value.toNat)
    | value => other value)

/-- The entries of one object in the order in which the map iterates over them. -/
def pushProperties (other : ValueObject → Push) : List Property → Push
  | [] => push []
  | kv :: kvs => (pushProperty other kv).andThen (pushProperties other kvs)

/-- The objects of a message, each between its start marker and its end marker. -/
def pushObjects (other : ValueObject → Push) : List (List Property) → Push
  | [] => push []
  | kvs :: vec =>
    (push [0x03]).andThen ((pushProperties other kvs).andThen
      ((push [0x00, 0x00, 0x09]).andThen (pushObjects other vec)))

/-- The objects, with one more end marker behind several. A single object has its own only. -/
def pushVec (other : ValueObject → Push) (vec : List (List Property)) : Push :=
  (pushObjects other vec).andThen (if 1 < vec.length then push [0x00, 0x00, 0x09] else push [])

/-- `IO_Message::write_object`. Without any object it writes the null marker instead. -/
def writeObject (vec : List (List Property)) : Push :=
  if vec.length = 0 then push [0x05] else pushVec pushLen vec

/-! ## Reading -/

/-- Why a parser stops: it returns `-1`, or it reads behind the buffer and its
terminating zero. -/
inductive Fail where
  | minusOne
  | undefined
  deriving DecidableEq

/-- A parser over what is left of the buffer: it goes on, or stops for one of the two
reasons. -/
abbrev Parse := Except Fail

@[simp] theorem Parse.ok_bind {α β : Type} (a : α) (f : α → Parse β) :
    (Except.ok a : Parse α) >>= f = f a := rfl

@[simp] theorem Parse.error_bind {α β : Type} (e : Fail) (f : α → Parse β) :
    (Except.error e : Parse α) >>= f = .error e := rfl

@[simp] theorem Parse.throw_eq {α : Type} (e : Fail) : (throw e : Parse α) = .error e := rfl

@[simp] theorem Parse.pure_eq {α : Type} (a : α) : (pure a : Parse α) = .ok a := rfl

/-- A parser that came to its end came through each of its steps. -/
theorem Parse.bind_eq_ok {α β : Type} {x : Parse α} {f : α → Parse β} {b : β} :
    x >>= f = .ok b ↔ ∃ a, x = .ok a ∧ f a = .ok b := by
  cases x with
  | error e => simp
  | ok a => simp

/-- `p >= end || *p++ != marker`, the check for a marker that the parsers begin with. -/
def expect (marker : UInt8) : Bytes → Parse Bytes
  | c :: p => if c = marker then .ok p else .error .minusOne
  | [] => .error .minusOne

/-- A marker that stands there is found, and the parser goes on behind it. -/
theorem expect_cons (c : UInt8) (p : Bytes) : expect c (c :: p) = .ok p := by
  rw [expect, if_pos rfl]

/-- `p + width > end`, or the bytes there as a big-endian number. -/
def be2se (width : Nat) (p : Bytes) : Parse (Nat × Bytes) :=
  if width ≤ p.length then .ok (ofBeBytes (p.take width), p.drop width) else .error .minusOne

/-- `be2se_2bytes` into an `int16_t`, which makes a length from 0x8000 on negative. -/
def be2seLen (p : Bytes) : Parse (Int × Bytes) := do
  let (n, p) ← be2se 2 p
  return (wrap16 n, p)

/-- `append(p, len)` and `p += len`, without a look at the end. A length that is
one too long takes the terminating zero of the buffer's string for its last
byte, and every later look at the end then finds nothing left. What stands
behind that zero is not the buffer's. -/
def appendUnchecked (len : Int) (p : Bytes) : Parse (Bytes × Bytes) :=
  if 0 ≤ len ∧ len ≤ p.length + 1 then .ok ((p ++ [0]).take len.toNat, p.drop len.toNat)
  else .error .undefined

/-- A string behind a positive length, of which the code checks nothing else. -/
def readString (p : Bytes) : Parse (Bytes × Bytes) := do
  let (len, p) ← be2seLen p
  if len ≤ 0 then
    throw .minusOne
  appendUnchecked len p

/-- One round of the `while` of `read_object`: it is undefined, ends the loop with a return
value, or goes on from `p`, with an entry for the object or without. -/
inductive ObjectStep where
  | undefined
  | done (rc : Int)
  | again (p : Bytes) (kv : Option Property)
  deriving DecidableEq

/-- What follows a zero length: the end marker, and after it the end of the
buffer, a zero, or the marker of one more object. -/
def readObjectEnd : Bytes → ObjectStep
  | [] => .done (-1)
  | c :: p =>
    if c ≠ 0x09 then .done (-1)
    else if p = [] then .done 0
    else
      match be2se 2 p with
      | .error _ => .done (-1)
      | .ok (endFlag, p) =>
        if endFlag = 0 then .done 0
        else
          match p with
          | c :: p => if c = 0x03 then .again p none else .done (-1)
          | [] => .done (-1)

/-- The value behind a key, by its marker. A string is checked against what is left, the
single byte of marker 0x01 is not. -/
def readObjectValue (key : Bytes) : Bytes → ObjectStep
  | [] => .done (-1)
  | c :: p =>
    if c = 0x00 then
      match be2se 8 p with
      | .error _ => .done (-1)
      | .ok (value, p) => .again p (some (key, .valueNum (UInt64.ofNat value)))
    else if c = 0x02 then
      match be2se 2 p with
      | .error _ => .done (-1)
      | .ok (lenStr, p) =>
        if lenStr = 0 then .done (-1)
        else if p.length < lenStr then .done (-1)
        else .again (p.drop lenStr) (some (key, .valueString (p.take lenStr)))
    else if c = 0x01 then
      -- at the very end the byte read is the string's terminating zero
      .again p.tail (some (key, .value0x01 (p.headD 0)))
    else .done (-1)

/-- One round: the length of a key, and what follows it. A zero length announces the end of
the object. -/
def readObjectStep (p : Bytes) : ObjectStep :=
  match be2se 2 p with
  | .error _ => .done (-1)
  | .ok (n, p) =>
    let len := wrap16 n
    if len = 0 then readObjectEnd p
    else if len < 0 then .undefined
    else if len ≤ p.length then readObjectValue (p.take len.toNat) (p.drop len.toNat)
    else .done (-1)

/-- A number read leaves the rest of the buffer, and takes as many bytes as it is wide. -/
theorem be2se_length {width n : Nat} {p p' : Bytes} (h : be2se width p = .ok (n, p')) :
    p'.length + width = p.length := by
  unfold be2se at h
  by_cases hle : width ≤ p.length
  · rw [if_pos hle] at h
    cases h
    rw [List.length_drop]
    omega
  · rw [if_neg hle] at h
    cases h

/-- Behind an end marker there is less left than in front of it. -/
theorem readObjectEnd_length {p p' : Bytes} {kv : Option Property}
    (h : readObjectEnd p = .again p' kv) : p'.length < p.length := by
  cases p with
  | nil => cases h
  | cons c p =>
    simp only [readObjectEnd] at h
    split at h
    · cases h
    split at h
    · cases h
    cases hb : be2se 2 p with
    | error f => rw [hb] at h; cases h
    | ok r =>
      obtain ⟨endFlag, q⟩ := r
      have hlen := be2se_length hb
      rw [hb] at h
      simp only at h
      split at h
      · cases h
      cases q with
      | nil => cases h
      | cons c q =>
        simp only at h
        split at h
        · cases h
          simp only [List.length_cons] at hlen ⊢
          omega
        · cases h

/-- Behind a value there is less left than in front of it, so the loop comes to an end. -/
theorem readObjectValue_length {key p p' : Bytes} {kv : Option Property}
    (h : readObjectValue key p = .again p' kv) : p'.length < p.length := by
  cases p with
  | nil => cases h
  | cons c p =>
    simp only [readObjectValue] at h
    split at h
    · cases hb : be2se 8 p with
      | error f => rw [hb] at h; cases h
      | ok r =>
        have hlen := be2se_length hb
        rw [hb] at h
        cases h
        simp only [List.length_cons]
        omega
    split at h
    · cases hb : be2se 2 p with
      | error f => rw [hb] at h; cases h
      | ok r =>
        obtain ⟨lenStr, q⟩ := r
        have hlen := be2se_length hb
        rw [hb] at h
        simp only at h
        split at h
        · cases h
        split at h
        · cases h
        cases h
        simp only [List.length_cons, List.length_drop]
        omega
    split at h
    · cases h
      simp only [List.length_cons, List.length_tail]
      omega
    · cases h

/-- A round that goes on has taken something, which is what `read_object` terminates by. -/
theorem readObjectStep_length {p p' : Bytes} {kv : Option Property}
    (h : readObjectStep p = .again p' kv) : p'.length < p.length := by
  unfold readObjectStep at h
  cases hb : be2se 2 p with
  | error f => rw [hb] at h; cases h
  | ok r =>
    obtain ⟨n, q⟩ := r
    have hlen := be2se_length hb
    rw [hb] at h
    simp only at h
    split at h
    · have := readObjectEnd_length h
      omega
    split at h
    · cases h
    split at h
    · have hval := readObjectValue_length h
      rw [List.length_drop] at hval
      omega
    · cases h

/-- `IO_Message::read_object`, from `p` on: the return value, and the entries of
`object` after it. -/
def readObject (p : Bytes) (object : List Property) : Option (Int × List Property) :=
  if p = [] then some (-1, object)
  else
    match _h : readObjectStep p with
    | .undefined => none
    | .done rc => some (rc, object)
    | .again p' none => readObject p' object
    | .again p' (some kv) => readObject p' (insertProperty object kv)
termination_by p.length
decreasing_by all_goals exact readObjectStep_length _h

/-- A round that ends the loop ends `read_object`, with the entries that were read so far. -/
theorem readObject_done {p : Bytes} {object : List Property} {rc : Int} (hne : p ≠ [])
    (h : readObjectStep p = .done rc) : readObject p object = some (rc, object) := by
  rw [readObject, if_neg hne]
  split <;> simp_all

/-- A round with an entry goes on with the entry inserted. -/
theorem readObject_again {p p' : Bytes} {object : List Property} {kv : Property} (hne : p ≠ [])
    (h : readObjectStep p = .again p' (some kv)) :
    readObject p object = readObject p' (insertProperty object kv) := by
  rw [readObject, if_neg hne]
  split <;> simp_all

/-- A round without one, that is an end marker with one more object behind it, goes on with
the entries as they are. -/
theorem readObject_next {p p' : Bytes} {object : List Property} (hne : p ≠ [])
    (h : readObjectStep p = .again p' none) : readObject p object = readObject p' object := by
  rw [readObject, if_neg hne]
  split <;> simp_all

/-- At the end of the buffer the loop is over and `read_object` returns `-1`: every object
has to have its end marker. -/
theorem readObject_nil (object : List Property) : readObject [] object = some (-1, object) := by
  rw [readObject, if_pos rfl]

/-- A round that is undefined has no result at all. -/
theorem readObject_undefined {p : Bytes} {object : List Property} (hne : p ≠ [])
    (h : readObjectStep p = .undefined) : readObject p object = none := by
  rw [readObject, if_neg hne]
  split <;> simp_all

/-! ## What is written is read back -/

/-- A string that keeps its length in an `int16_t`, and is not empty. -/
def Short (value : Bytes) : Prop := 1 ≤ value.length ∧ value.length ≤ 32767

instance (value : Bytes) : Decidable (Short value) :=
  inferInstanceAs (Decidable (1 ≤ value.length ∧ value.length ≤ 32767))

/-- A key and a value that every reader understands: two strings that keep their length, or
a number behind such a key. -/
def Sendable (kv : Property) : Prop :=
  Short kv.1 ∧
    match kv.2 with
    | .valueString value => Short value
    | .valueNum _ => True
    | _ => False

/-- The bytes of such a property, as both the writers and the readers have them. -/
def propertyBytes (kv : Property) : Bytes :=
  beBytes 2 kv.1.length ++ kv.1 ++
    match kv.2 with
    | .valueString value => 0x02 :: (beBytes 2 value.length ++ value)
    | .valueNum value => 0x00 :: beBytes 8 value.toNat
    | _ => []

/-- A length below 0x8000 goes through an `int16_t` unharmed. -/
theorem wrap16_of_le {n : Nat} (h : n ≤ 32767) : wrap16 n = n := by
  unfold wrap16
  rw [Int.bmod_eq_of_le] <;> omega

/-- A length from 0x8000 on comes out negative. -/
theorem wrap16_of_ge {n : Nat} (h : 0x8000 ≤ n) (hlt : n < 65536) : wrap16 n < 0 := by
  unfold wrap16
  rw [Int.bmod_def]
  omega

/-- What a length of two bytes is taken for: none, itself, or something negative. -/
theorem wrap16_cases {n : Nat} (hlt : n < 65536) :
    n = 0 ∨ (1 ≤ n ∧ n < 0x8000 ∧ wrap16 n = n) ∨ (0x8000 ≤ n ∧ wrap16 n < 0) := by
  rcases Nat.lt_or_ge n 0x8000 with hle | hge
  · have hwrap : wrap16 n = n := wrap16_of_le (by omega)
    omega
  · exact Or.inr (Or.inr ⟨hge, wrap16_of_ge hge hlt⟩)

/-- Only a length of zero is taken for none. -/
theorem wrap16_eq_zero {n : Nat} (hlt : n < 65536) (h : wrap16 n = 0) : n = 0 := by
  rcases wrap16_cases hlt with h0 | ⟨h1, -, hwrap⟩ | ⟨-, hwrap⟩
  · exact h0
  · omega
  · omega

/-- Nothing that is taken for a length is above 32767. -/
theorem wrap16_lt (n : Int) : wrap16 n < 32768 := by
  have h : Int.bmod n (2 ^ 16) < ((2 ^ 16 : Nat) + 1 : Int) / 2 :=
    Int.bmod_lt (Nat.two_pow_pos 16)
  unfold wrap16
  omega

/-- A string that keeps its length is written behind it, and nothing is lost. -/
theorem pushString_short {value : Bytes} (h : value.length ≤ 32767) :
    pushString value = push (beBytes 2 value.length ++ value) := by
  have hlen : wrap16 value.length = value.length := wrap16_of_le h
  unfold pushString
  rw [hlen]
  simp only [Int.toNat_natCast, List.take_length, memBytes_natCast]
  rw [if_neg (by omega)]
  rfl

/-- Such a property is written as its bytes, whatever third kind of value the writer knows. -/
theorem pushProperty_sendable {other : ValueObject → Push} {kv : Property} (h : Sendable kv) :
    pushProperty other kv = push (propertyBytes kv) := by
  obtain ⟨key, value⟩ := kv
  obtain ⟨hkey, hvalue⟩ := h
  unfold pushProperty propertyBytes
  rw [pushString_short hkey.2]
  cases value with
  | valueString value =>
    simp only at hvalue ⊢
    rw [pushString_short hvalue.2]
    simp
  | valueNum value => simp
  | valueLen value => exact absurd hvalue id
  | value0x01 value => exact absurd hvalue id

/-- So are the entries of an object, one behind the other. -/
theorem pushProperties_sendable {other : ValueObject → Push} {kvs : List Property}
    (h : ∀ kv ∈ kvs, Sendable kv) :
    pushProperties other kvs = push (kvs.flatMap propertyBytes) := by
  induction kvs with
  | nil => rfl
  | cons kv kvs ih =>
    have hkv := h kv (List.mem_cons_self ..)
    have hkvs := fun kv' hmem => h kv' (List.mem_cons_of_mem _ hmem)
    rw [pushProperties, pushProperty_sendable hkv, ih hkvs]
    simp

/-- A number that fits its width is read back, and the parser stands behind it. -/
theorem be2se_append {width n : Nat} {rest : Bytes} (h : n < 256 ^ width) :
    be2se width (beBytes width n ++ rest) = .ok (n, rest) := by
  have hle : width ≤ (beBytes width n ++ rest).length := by
    rw [List.length_append, beBytes_length]
    omega
  have htake : (beBytes width n ++ rest).take width = beBytes width n := by
    rw [List.take_append_of_le_length (by simp)]
    exact List.take_of_length_le (by simp)
  have hdrop : (beBytes width n ++ rest).drop width = rest := by
    rw [List.drop_append_of_le_length (by simp), List.drop_of_length_le (by simp)]
    rfl
  rw [be2se, if_pos hle, htake, hdrop, ofBeBytes_beBytes, Nat.mod_eq_of_lt h]

/-- The 64 bits of a number are read back, and the parser stands behind them. -/
theorem be2se_uint64 (value : UInt64) (rest : Bytes) :
    be2se 8 (beBytes 8 value.toNat ++ rest) = .ok (value.toNat, rest) :=
  be2se_append (show value.toNat < 256 ^ 8 from value.toNat_lt)

/-- A string that is all there is taken as it stands, and the parser goes on behind it. -/
theorem appendUnchecked_append (value rest : Bytes) :
    appendUnchecked value.length (value ++ rest) = .ok (value, rest) := by
  have hle : (0 : Int) ≤ value.length ∧ (value.length : Int) ≤ (value ++ rest).length + 1 := by
    rw [List.length_append]
    omega
  rw [appendUnchecked, if_pos hle, Int.toNat_natCast, List.append_assoc, List.take_left,
    List.drop_left]

/-- A string that keeps its length is read back from behind that length. -/
theorem readString_short {value : Bytes} (h : Short value) (rest : Bytes) :
    readString (beBytes 2 value.length ++ (value ++ rest)) = .ok (value, rest) := by
  obtain ⟨h1, h2⟩ := h
  have hb : be2se 2 (beBytes 2 value.length ++ (value ++ rest))
      = .ok (value.length, value ++ rest) := be2se_append (by omega)
  have hwrap : wrap16 value.length = value.length := wrap16_of_le h2
  have hpos : ¬ (value.length : Int) ≤ 0 := by omega
  simp only [readString, be2seLen, hb, Parse.ok_bind, Parse.pure_eq, hwrap, if_neg hpos,
    appendUnchecked_append]

/-- The length of a value goes into an `uint16_t`, unlike that of a key. -/
theorem readObjectValue_string {key value : Bytes} (h1 : 1 ≤ value.length)
    (h2 : value.length ≤ 65535) (rest : Bytes) :
    readObjectValue key (0x02 :: (beBytes 2 value.length ++ (value ++ rest)))
      = .again rest (some (key, .valueString value)) := by
  have hb : be2se 2 (beBytes 2 value.length ++ (value ++ rest)) =
      .ok (value.length, value ++ rest) :=
    be2se_append (by omega)
  have hlen : ¬ (value ++ rest).length < value.length := by
    rw [List.length_append]
    omega
  have hne : ¬ value.length = 0 := by omega
  simp only [readObjectValue, hb, if_neg hne, if_neg hlen, List.take_left, List.drop_left]
  rfl

/-- A number is read back with its key. -/
theorem readObjectValue_num {key : Bytes} (value : UInt64) (rest : Bytes) :
    readObjectValue key (0x00 :: (beBytes 8 value.toNat ++ rest))
      = .again rest (some (key, .valueNum value)) := by
  simp [readObjectValue, be2se_uint64]

/-- Behind a key comes the value, and the round is what the value makes of it. -/
theorem readObjectStep_key {key : Bytes} (h : Short key) (q : Bytes) :
    readObjectStep (beBytes 2 key.length ++ (key ++ q)) = readObjectValue key q := by
  obtain ⟨h1, h2⟩ := h
  have hb : be2se 2 (beBytes 2 key.length ++ (key ++ q)) = .ok (key.length, key ++ q) :=
    be2se_append (by omega)
  have hwrap : wrap16 key.length = key.length := wrap16_of_le h2
  have hne : ¬ (key.length : Int) = 0 := by omega
  have hneg : ¬ (key.length : Int) < 0 := by omega
  have hle : (key.length : Int) ≤ (key ++ q).length := by
    rw [List.length_append]
    omega
  simp only [readObjectStep, hb, hwrap, if_neg hne, if_neg hneg, if_pos hle, Int.toNat_natCast,
    List.take_left, List.drop_left]

/-- One property is read back in one round, whatever follows it in the buffer. -/
theorem readObjectStep_propertyBytes {kv : Property} (h : Sendable kv) (rest : Bytes) :
    readObjectStep (propertyBytes kv ++ rest) = .again rest (some kv) := by
  obtain ⟨key, value⟩ := kv
  obtain ⟨hkey, hvalue⟩ := h
  cases value with
  | valueString value =>
    have h2 : value.length ≤ 65535 := Nat.le_trans hvalue.2 (by decide)
    rw [propertyBytes, List.append_assoc, List.append_assoc, readObjectStep_key hkey,
      List.cons_append, List.append_assoc]
    exact readObjectValue_string hvalue.1 h2 rest
  | valueNum value =>
    rw [propertyBytes, List.append_assoc, List.append_assoc, readObjectStep_key hkey,
      List.cons_append]
    exact readObjectValue_num value rest
  | valueLen value => exact absurd hvalue id
  | value0x01 value => exact absurd hvalue id

/-- A round that reads something has something to read, so it is not at the end of the
buffer. -/
theorem ne_nil_of_readObjectStep {p p' : Bytes} {kv : Option Property}
    (h : readObjectStep p = .again p' kv) : p ≠ [] := by
  intro hnil
  rw [hnil] at h
  cases h

/-- Properties that are read back in one round each are read back one after the other. -/
theorem readObject_rounds {bytes : Property → Bytes} {kvs : List Property}
    (hround : ∀ kv ∈ kvs, ∀ rest, readObjectStep (bytes kv ++ rest) = .again rest (some kv))
    (rest : Bytes) : ∀ object, readObject (kvs.flatMap bytes ++ rest) object
      = readObject rest (kvs.foldl insertProperty object) := by
  induction kvs with
  | nil => intro object; rfl
  | cons kv kvs ih =>
    intro object
    have hstep := hround kv (List.mem_cons_self ..) (kvs.flatMap bytes ++ rest)
    rw [List.flatMap_cons, List.append_assoc,
      readObject_again (ne_nil_of_readObjectStep hstep) hstep]
    exact ih (fun kv' hmem => hround kv' (List.mem_cons_of_mem _ hmem)) _

/-- Inserting properties with new, distinct keys lists them in the order they come in. -/
theorem foldl_insertProperty (kvs : List Property) :
    ∀ object : List Property, ((object ++ kvs).map Prod.fst).Nodup →
      kvs.foldl insertProperty object = object ++ kvs := by
  induction kvs with
  | nil => intro object _; simp
  | cons kv kvs ih =>
    intro object hnodup
    have hnew : ¬ object.any (fun p => decide (p.1 = kv.1)) = true := by
      intro hany
      obtain ⟨p, hp, heq⟩ := List.any_eq_true.mp hany
      simp only [List.map_append, List.map_cons, List.nodup_append] at hnodup
      exact hnodup.2.2 p.1 (List.mem_map_of_mem hp) kv.1 (List.mem_cons_self ..)
        (of_decide_eq_true heq)
    rw [List.foldl_cons, insertProperty, if_neg hnew, ih]
    · simp
    · simpa using hnodup

/-- With distinct keys and the end marker behind them, they make up the object. -/
theorem readObject_list {bytes : Property → Bytes} {kvs : List Property}
    (hround : ∀ kv ∈ kvs, ∀ rest, readObjectStep (bytes kv ++ rest) = .again rest (some kv))
    (hnodup : (kvs.map Prod.fst).Nodup) :
    readObject (kvs.flatMap bytes ++ [0x00, 0x00, 0x09]) [] = some (0, kvs) := by
  have hend : readObject [0x00, 0x00, 0x09] kvs = some (0, kvs) :=
    readObject_done (by decide) (by decide)
  rw [readObject_rounds hround, foldl_insertProperty kvs [] (by simpa using hnodup)]
  exact hend

/-- An object of such properties, with distinct keys, is read back as it was written. -/
theorem readObject_pushProperties {kvs : List Property} (h : ∀ kv ∈ kvs, Sendable kv)
    (hnodup : (kvs.map Prod.fst).Nodup) :
    readObject (kvs.flatMap propertyBytes ++ [0x00, 0x00, 0x09]) [] = some (0, kvs) :=
  readObject_list (fun kv hkv rest => readObjectStep_propertyBytes (h kv hkv) rest) hnodup

end RtmpServer
