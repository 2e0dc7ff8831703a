import RtmpServer.Responses

/-!
# Declared sizes

`get_payload_size` walks through the objects of a message on its own, apart from
the writer. For `Send_Object_Message` the two agree. `OnFCPublish` and `OnStatus`
inherit the `get_payload_size` of `IO_Message`, which counts the command name of
the base, and nothing for the null marker that both write; there the two agree on
no list. `process_thread` does not call it for these, it has the lengths written out.

Both results are one walk over the objects: `Sizing` is what a relation between
writers and sizes must satisfy to be carried through it.

Mirroring notes:
- the sizes are `int`s that only grow; below 2^31 bytes they are the numbers here.
- `command_name` of an `OnFCPublish` or an `OnStatus` is what the constructor of
  `IO_Message` made it, empty; their `vec` is a parameter here and what `init`
  builds in the session.
-/

namespace RtmpServer

open Endian Push SendObjectMessage

/-! ## The functions of `io_message.cpp` and of its heirs -/

/-- `IO_Message::get_payload_size`; its loop is that of `Send_Object_Message`. The code adds
in an `int`, here a number without a bound: the objects are private and only `init` fills
them, which keeps the sum far below `2 ^ 31`. -/
def IoMessage.getPayloadSize (commandName : Bytes) (vec : List (List Property)) : Int :=
  match objectsSize vec with
  | none => -1
  | some n => 3 + commandName.length + 9 + n + if 1 < vec.length then 3 else 0

/-- `OnFCPublish::get_payload_size`, which is inherited: `command_name` is a member that is
never set. -/
def OnFCPublish.getPayloadSize (vec : List (List Property)) : Int :=
  IoMessage.getPayloadSize [] vec

/-- `OnStatus::get_payload_size`, which is inherited just so. -/
def OnStatus.getPayloadSize (vec : List (List Property)) : Int :=
  IoMessage.getPayloadSize [] vec

/-- `OnFCPublish::write_payload`, for any objects in the place of those that `init` builds. -/
def OnFCPublish.writePayloadOf (vec : List (List Property)) (transactionId : UInt64) : Push :=
  (push (commandBytes (chars "onFCPublish") transactionId ++ [0x05])).andThen (writeObject vec)

/-- `OnStatus::write_payload`, for any objects in the place of those that `init` builds. -/
def OnStatus.writePayloadOf (vec : List (List Property)) (transactionId : UInt64) : Push :=
  (push (commandBytes (chars "onStatus") transactionId ++ [0x05])).andThen (writeObject vec)

/-- With the objects of `init` it is the method that the session calls. -/
theorem OnFCPublish.writePayloadOf_init (transactionId : UInt64) :
    OnFCPublish.writePayloadOf OnFCPublish.init transactionId
      = OnFCPublish.writePayload transactionId := rfl

/-- With the objects of `init` it is the method that the session calls. -/
theorem OnStatus.writePayloadOf_init (transactionId : UInt64) :
    OnStatus.writePayloadOf OnStatus.init transactionId = OnStatus.writePayload transactionId := rfl

/-- The writer returns 0, and has pushed as many bytes as declared; a writer that returns
`-1` meets no declaration. -/
def Declares (declared : Int) (written : Push) : Prop :=
  ∃ bytes, written = push bytes ∧ declared = bytes.length

/-! ## One walk for the writer and the size -/

/-- The size of two writers, one after the other, if both have one. -/
def plus (m n : Option Nat) : Option Nat := do return (← m) + (← n)

/-- The size of one pair: a key behind its length, a marker, and the value. -/
def propertySize (kv : Property) : Option Nat :=
  plus (some (2 + kv.1.length)) (plus (some 1) (valueSize kv.2))

/-- The loop over the entries, as a sum of its rounds. -/
theorem propertiesSize_cons (kv : Property) (kvs : List Property) :
    propertiesSize (kv :: kvs) = plus (propertySize kv) (propertiesSize kvs) := by
  rw [propertiesSize]
  unfold propertySize plus
  cases valueSize kv.2 with
  | none => rfl
  | some n =>
    cases propertiesSize kvs with
    | none => rfl
    | some k => simp [Nat.add_assoc]

/-- The loop over the objects, as a sum of its rounds and of the markers around each object. -/
theorem objectsSize_cons (kvs : List Property) (vec : List (List Property)) :
    objectsSize (kvs :: vec)
      = plus (some 1) (plus (propertiesSize kvs) (plus (some 3) (objectsSize vec))) := by
  rw [objectsSize]
  unfold plus
  cases propertiesSize kvs with
  | none => rfl
  | some n =>
    cases objectsSize vec with
    | none => rfl
    | some k => simp [Nat.add_assoc]

/-- A relation between writers and sizes that holds of literal bytes and of one
writer after the other. -/
structure Sizing (P : Push → Option Nat → Prop) : Prop where
  bytes : ∀ bytes, P (push bytes) (some bytes.length)
  andThen : ∀ {p q m n}, P p m → P q n → P (p.andThen q) (plus m n)

namespace Sizing

variable {P : Push → Option Nat → Prop} {kv : Property} {kvs : List Property}
  {vec : List (List Property)}

/-- What is asked of the parts of one pair: its strings, and the one kind of value that is
refused. -/
structure Parts (P : Push → Option Nat → Prop) (kv : Property) : Prop where
  key : P (pushString kv.1) (some (2 + kv.1.length))
  string : ∀ value, kv.2 = .valueString value → P (pushString value) (some (2 + value.length))
  other : ∀ value, kv.2 = .value0x01 value → P fail none

/-- A pair's writer and its size are related as their parts are. -/
theorem property (hP : Sizing P) (h : Parts P kv) :
    P (pushProperty pushLen kv) (propertySize kv) := by
  obtain ⟨key, value⟩ := kv
  refine hP.andThen h.key ?_
  cases value with
  | valueString value => exact hP.andThen (hP.bytes [0x02]) (h.string value rfl)
  | valueNum value =>
    have hnum := hP.bytes (0x00 :: beBytes 8 value.toNat)
    rwa [List.length_cons, beBytes_length] at hnum
  | valueLen value =>
    have hlen := hP.bytes (0x08 :: (memBytes 4 value).reverse)
    rwa [List.length_cons, List.length_reverse, memBytes_length] at hlen
  | value0x01 value => exact h.other value rfl

/-- So are those of an object's entries, one after the other. -/
theorem properties (hP : Sizing P) (h : ∀ kv ∈ kvs, Parts P kv) :
    P (pushProperties pushLen kvs) (propertiesSize kvs) := by
  induction kvs with
  | nil => exact hP.bytes []
  | cons kv kvs ih =>
    rw [propertiesSize_cons]
    exact hP.andThen (hP.property (h kv (List.mem_cons_self ..)))
      (ih fun kv' hmem => h kv' (List.mem_cons_of_mem _ hmem))

/-- So are those of the objects, with the markers around each of them. -/
theorem objects (hP : Sizing P) (h : ∀ kvs ∈ vec, ∀ kv ∈ kvs, Parts P kv) :
    P (pushObjects pushLen vec) (objectsSize vec) := by
  induction vec with
  | nil => exact hP.bytes []
  | cons kvs vec ih =>
    have hkvs := hP.properties (h kvs (List.mem_cons_self ..))
    have hvec := ih fun kvs' hmem => h kvs' (List.mem_cons_of_mem _ hmem)
    rw [objectsSize_cons]
    exact hP.andThen (hP.bytes [0x03])
      (hP.andThen hkvs (hP.andThen (hP.bytes [0x00, 0x00, 0x09]) hvec))

/-- The end marker behind several objects is counted as it is written, that is only where
there are several. -/
theorem objectsEnd (hP : Sizing P) (h : ∀ kvs ∈ vec, ∀ kv ∈ kvs, Parts P kv) :
    P (pushVec pushLen vec) (plus (objectsSize vec) (some (if 1 < vec.length then 3 else 0))) := by
  refine hP.andThen (hP.objects h) ?_
  by_cases hmore : 1 < vec.length
  · rw [if_pos hmore, if_pos hmore]
    exact hP.bytes [0x00, 0x00, 0x09]
  · rw [if_neg hmore, if_neg hmore]
    exact hP.bytes []

end Sizing

/-! ## `Send_Object_Message` -/

/-- The writer returns 0, and the size is that of the bytes it has pushed. -/
def Whole (p : Push) (size : Option Nat) : Prop :=
  ∃ bytes, p = push bytes ∧ size = some bytes.length

/-- Literal bytes are whole, and two whole writers are whole together. -/
theorem sizing_whole : Sizing Whole where
  bytes bytes := ⟨bytes, rfl, rfl⟩
  andThen := by
    rintro p q m n ⟨x, rfl, rfl⟩ ⟨y, rfl, rfl⟩
    exact ⟨x ++ y, rfl, by rw [List.length_append]; rfl⟩

/-- A string that keeps its length is whole, with two bytes for the length. -/
theorem whole_pushString {value : Bytes} (h : value.length ≤ 32767) :
    Whole (pushString value) (some (2 + value.length)) :=
  ⟨_, pushString_short h, by rw [List.length_append, beBytes_length]⟩

/-- A pair that has a size: one of the three kinds of values that the writer
knows, and strings that an `int16_t` can count. -/
def Sizeable (kv : Property) : Prop :=
  kv.1.length ≤ 32767 ∧
    match kv.2 with
    | .valueString value => value.length ≤ 32767
    | .valueNum _ => True
    | .valueLen _ => True
    | .value0x01 _ => False

/-- It is decided by the kind of the value and two lengths. -/
instance : DecidablePred Sizeable
  | (_, .valueString _) => inferInstanceAs (Decidable (_ ∧ _))
  | (_, .valueNum _) => inferInstanceAs (Decidable (_ ∧ True))
  | (_, .valueLen _) => inferInstanceAs (Decidable (_ ∧ True))
  | (_, .value0x01 _) => inferInstanceAs (Decidable (_ ∧ False))

/-- The parts of such a pair are whole, as the writer asks of them. -/
theorem Sizeable.parts {kv : Property} (h : Sizeable kv) : Sizing.Parts Whole kv := by
  obtain ⟨key, value⟩ := kv
  obtain ⟨hkey, hvalue⟩ := h
  refine ⟨whole_pushString hkey, ?_, ?_⟩
  · rintro _ rfl
    exact whole_pushString hvalue
  · rintro _ rfl
    exact absurd hvalue id

/-- A `Send_Object_Message` with at least one object, or of the type that has
none, declares the size of what it writes. -/
theorem SendObjectMessage.getPayloadSize_written (m : SendObjectMessage)
    (hcommand : m.command.length ≤ 32767) (hvec : ∀ kvs ∈ m.vec, ∀ kv ∈ kvs, Sizeable kv)
    (hne : m.vec ≠ [] ∨ m.type = .onBwDone) : Declares m.getPayloadSize m.writePayload := by
  unfold writePayload getPayloadSize
  rw [pushString_short hcommand]
  by_cases htype : m.type = .onBwDone
  · rw [if_pos htype, m.onBwDone htype]
    refine ⟨_, rfl, ?_⟩
    simp only [List.length_append, List.length_cons, List.length_nil, beBytes_length]
    omega
  · have hlen : ¬ m.vec.length = 0 := fun h =>
      hne.elim (fun h' => h' (List.eq_nil_of_length_eq_zero h)) htype
    obtain ⟨bytes, hpush, hsize⟩ := sizing_whole.objectsEnd fun kvs hkvs kv hkv =>
      (hvec kvs hkvs kv hkv).parts
    rw [if_neg htype, if_neg hlen, hpush]
    refine ⟨_, rfl, ?_⟩
    cases hobjects : objectsSize m.vec with
    | none =>
      rw [hobjects] at hsize
      cases hsize
    | some n =>
      rw [hobjects] at hsize
      have hn : n + (if 1 < m.vec.length then 3 else 0) = bytes.length := Option.some.inj hsize
      simp only [List.length_append, List.length_cons, List.length_nil, beBytes_length]
      split at hn
      · omega
      · omega

/-- The connect response of the session, which has two objects, is of the size it declares. -/
theorem SendObjectMessage.getPayloadSize_written_response :
    Declares (new (chars "_result") 0x3FF0000000000000 .connectAppResponse).getPayloadSize
      (new (chars "_result") 0x3FF0000000000000 .connectAppResponse).writePayload := by
  have hlists : ∀ kvs ∈ init .connectAppResponse, ∀ kv ∈ kvs, Sizeable kv := by decide +kernel
  exact getPayloadSize_written _ (by decide) hlists (Or.inl (List.cons_ne_nil _ _))

/-! ## `OnFCPublish` and `OnStatus` -/

/-- If the writer does not return `-1`, there is a size, and it is that of the
bytes up to multiples of 2^16: what is lost of a string whose length goes through
an `int16_t` and comes out positive. -/
def Modulo (p : Push) (size : Option Nat) : Prop :=
  ∀ bytes rc, p = some (bytes, rc) → rc ≠ -1 →
    ∃ n, size = some n ∧ bytes.length % 65536 = n % 65536

/-- Up to multiples of 2^16 the sizes add up as well. -/
theorem sizing_modulo : Sizing Modulo where
  bytes bytes := by
    rintro _ _ ⟨⟩ -
    exact ⟨_, rfl, rfl⟩
  andThen := by
    intro p q m n hp hq bytes rc hpush hrc
    obtain - | ⟨x, r⟩ := p
    · cases hpush
    by_cases hr : r = -1
    · rw [hr] at hpush
      cases hpush
      exact absurd rfl hrc
    obtain - | ⟨y, r'⟩ := q
    · simp [Push.andThen, hr] at hpush
    obtain ⟨hbytes, hrc'⟩ : x ++ y = bytes ∧ r' = rc := by simpa [Push.andThen, hr] using hpush
    obtain ⟨k, rfl, hk⟩ := hp x r rfl hr
    obtain ⟨l, rfl, hl⟩ := hq y r' rfl (hrc'.trans_ne hrc)
    refine ⟨k + l, rfl, ?_⟩
    rw [← hbytes, List.length_append]
    omega

/-- A writer that fails has nothing to be compared with. -/
theorem modulo_fail : Modulo fail none := by
  rintro _ _ ⟨⟩ hrc
  exact absurd rfl hrc

/-- A string of any length: what an `int16_t` makes of it differs from it by a multiple of
2^16, or the writer is undefined. -/
theorem modulo_pushString (value : Bytes) :
    Modulo (pushString value) (some (2 + value.length)) := by
  intro bytes rc hpush hrc
  refine ⟨_, rfl, ?_⟩
  unfold pushString at hpush
  by_cases hneg : wrap16 value.length < 0
  · rw [if_pos hneg] at hpush
    cases hpush
  · have hwrap : wrap16 value.length = value.length % 65536 := by
      unfold wrap16 at hneg ⊢
      rw [Int.bmod_def] at hneg ⊢
      omega
    rw [if_neg hneg, hwrap] at hpush
    cases hpush
    rw [List.length_append, List.length_reverse, memBytes_length, List.length_take]
    omega

/-- So every pair is right up to multiples of 2^16, whatever its strings and its value are. -/
theorem parts_modulo (kv : Property) : Sizing.Parts Modulo kv where
  key := modulo_pushString kv.1
  string value _ := modulo_pushString value
  other _ _ := modulo_fail

/-- A message that writes `head` in front of its objects and declares 12 bytes
for it. -/
theorem not_declares {head : Bytes} (hlt : 12 < head.length) (hlt' : head.length < 65536)
    (vec : List (List Property)) :
    ¬ Declares (IoMessage.getPayloadSize [] vec) ((push head).andThen (writeObject vec)) := by
  rintro ⟨bytes, hpush, hsize⟩
  unfold writeObject at hpush
  unfold IoMessage.getPayloadSize at hsize
  by_cases hlen : vec.length = 0
  · rw [List.eq_nil_of_length_eq_zero hlen] at hpush hsize
    cases hpush
    simp only [objectsSize, List.length_append, List.length_cons, List.length_nil] at hsize
    omega
  · rw [if_neg hlen] at hpush
    obtain ⟨n, hn, hmod⟩ := sizing_modulo.andThen (sizing_modulo.bytes head)
      (sizing_modulo.objectsEnd fun kvs _ kv _ => parts_modulo kv) bytes 0 hpush (by decide)
    cases hobjects : objectsSize vec with
    | none =>
      rw [hobjects] at hn
      cases hn
    | some k =>
      rw [hobjects] at hn hsize
      have hn' : head.length + (k + if 1 < vec.length then 3 else 0) = n := Option.some.inj hn
      simp only [List.length_nil] at hsize
      split at hn' <;> split at hsize <;> omega

/-- Neither message declares the size of what it writes, whatever its objects: the command
is left out of the size, and it is too short to be a multiple of 2^16. -/
theorem getPayloadSize_never_written (vec : List (List Property)) (transactionId : UInt64) :
    ¬ Declares (OnFCPublish.getPayloadSize vec) (OnFCPublish.writePayloadOf vec transactionId) ∧
      ¬ Declares (OnStatus.getPayloadSize vec) (OnStatus.writePayloadOf vec transactionId) := by
  have hfc : (commandBytes (chars "onFCPublish") transactionId ++ [0x05]).length = 24 := by
    simp [commandBytes, chars]
  have hstatus : (commandBytes (chars "onStatus") transactionId ++ [0x05]).length = 21 := by
    simp [commandBytes, chars]
  exact ⟨not_declares (by omega) (by omega) vec, not_declares (by omega) (by omega) vec⟩

/-- With the objects of the session, 90 bytes are declared for the 102 of
`onFCPublish`, and 127 for the 136 of `onStatus`. -/
theorem getPayloadSize_init_differs :
    ¬ Declares (OnFCPublish.getPayloadSize OnFCPublish.init)
        (OnFCPublish.writePayloadOf OnFCPublish.init 0) ∧
      ¬ Declares (OnStatus.getPayloadSize OnStatus.init)
        (OnStatus.writePayloadOf OnStatus.init 0) := by
  have hfc : (OnFCPublish.writePayloadOf OnFCPublish.init 0).map (fun r => r.1.length)
      = some 102 := by decide +kernel
  have hstatus : (OnStatus.writePayloadOf OnStatus.init 0).map (fun r => r.1.length)
      = some 136 := by decide +kernel
  have hfcSize : OnFCPublish.getPayloadSize OnFCPublish.init = 90 := by decide +kernel
  have hstatusSize : OnStatus.getPayloadSize OnStatus.init = 127 := by decide +kernel
  constructor
  · rintro ⟨bytes, hpush, hsize⟩
    rw [hpush] at hfc
    have hlen : bytes.length = 102 := Option.some.inj hfc
    omega
  · rintro ⟨bytes, hpush, hsize⟩
    rw [hpush] at hstatus
    have hlen : bytes.length = 136 := Option.some.inj hstatus
    omega

end RtmpServer
