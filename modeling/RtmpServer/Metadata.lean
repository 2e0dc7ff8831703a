import RtmpServer.Command

/-!
# Stream metadata: `SetDataFrame` in, `OnMetaData` out

`SetDataFrame::read_payload` appends what a publisher announces to the global
`set_data_frame`; every consumer is sent that list as an `OnMetaData` message.
The header of the message is written with the constant length 395.
`onMetaData_length_iff` says for which lists the constant is right.

Mirroring notes:
- `SetDataFrame` stores its entries one by one, so a payload that fails half
  way leaves the entries before the failure.
- `OnMetaData::write_payload` pushes a `server` entry to the global list first,
  every time it is called.
-/

namespace RtmpServer

open Coroutine Coroutine.Prog Endian Framing
open Push

/-! ## `SetDataFrame` -/

/-- One entry of the announced list: its key, a marker, and a value of one of three kinds. -/
def parseEntry (p : Bytes) : Parse (Property × Bytes) := do
  let (key, p) ← readString p
  match p with
  | [] => throw .minusOne
  | c :: p =>
    if c = 0x00 then
      let (value, p) ← be2se 8 p
      return ((key, .valueNum (UInt64.ofNat value)), p)
    else if c = 0x01 then
      match p with
      | [] => throw .minusOne
      | value :: p => return ((key, .value0x01 value), p)
    else if c = 0x02 then
      let (value, p) ← readString p
      return ((key, .valueString value), p)
    else throw .minusOne

/-- The `count` entries: the return value, and `set_data_frame` after it, where the entries
read before an error stay. -/
def parseEntries : Nat → Bytes → List Property → Option (Int × List Property)
  | 0, _, frame => some (0, frame)
  | count + 1, p, frame =>
    match parseEntry p with
    | .error .minusOne => some (-1, frame)
    | .error .undefined => none
    | .ok (kv, p) => parseEntries count p (frame ++ [kv])

/-- What stands in front of the entries, and how many of them there are. -/
def parseSetDataFrame (p : Bytes) : Parse (Nat × Bytes) := do
  let p ← expect 0x02 p
  let (_, p) ← readString p
  let p ← expect 0x02 p
  let (_, p) ← readString p
  let p ← expect 0x08 p
  let (n, p) ← be2se 4 p
  let count := (BitVec.ofNat 32 n).toInt
  if count ≤ 0 then
    throw .minusOne
  return (count.toNat, p)

/-- `SetDataFrame::read_payload`. The entries go to a global, behind those that are there
from earlier announcements. -/
def SetDataFrame.readPayload (bhSize mhSize : Nat) (messageLength : Int) (_chunkSize : Nat) :
    Routine Int := do
  let rc ← readWhole bhSize mhSize messageLength
  if rc = -1 then
    return -1
  .act fun s =>
    match parseSetDataFrame ((s.buffer .ioBuffer).drop (bhSize + mhSize)) with
    | .error .minusOne => some (-1, s)
    | .error .undefined => none
    | .ok (count, p) =>
      (parseEntries count p s.globals.setDataFrame).map fun r =>
        (r.1, s.setMetaData r.2)

/-- An entry that `SetDataFrame` can store: strings that are not empty and keep their
length, and no array length. -/
def Storable (kv : Property) : Prop :=
  Short kv.1 ∧
    match kv.2 with
    | .valueString value => Short value
    | .valueNum _ => True
    | .value0x01 _ => True
    | .valueLen _ => False

/-! ## `OnMetaData` -/

/-- The entry that every `OnMetaData` adds to the shared list when it is written. -/
def serverEntry : Property := (chars "server", .valueString (chars "srs(simple rtmp server)0.1"))

/-- The bytes of the message, given the list with the server entry: the command, and the
list as one object. -/
def onMetaDataBytes (command : Bytes) (frame : List Property) : Push :=
  (push (0x02 :: ((memBytes 2 command.length).reverse ++ command))).andThen
    (pushVec push0x01 [frame])

/-- `OnMetaData::write_payload`, which changes the global list before it writes it. -/
def OnMetaData.writePayload (command : Bytes) : Routine Int := do
  modify fun s => s.setMetaData (s.globals.setDataFrame ++ [serverEntry])
  let frame ← gets fun s => s.globals.setDataFrame
  (onMetaDataBytes command frame).run

/-- The call of `process_thread` that sends it, with 395 for the length of the payload,
whatever that is. -/
def sendOnMetaData : Routine Int :=
  writeMessage (OnMetaData.writePayload (chars "onMetaData")) 0 4 0 395 18 1

/-! ## What can be in the list -/

/-- A length that is read has gone through an `int16_t`. -/
theorem be2seLen_lt {p p' : Bytes} {len : Int} (h : be2seLen p = .ok (len, p')) : len < 32768 := by
  unfold be2seLen at h
  obtain ⟨⟨n, q⟩, hb, h⟩ := Parse.bind_eq_ok.mp h
  simp only [Parse.pure_eq, Except.ok.injEq, Prod.mk.injEq] at h
  rw [← h.1]
  exact wrap16_lt n

/-- What is taken without a check is as long as announced, be it with the terminating zero. -/
theorem appendUnchecked_length {len : Int} {p p' value : Bytes}
    (h : appendUnchecked len p = .ok (value, p')) : (value.length : Int) = len := by
  unfold appendUnchecked at h
  by_cases hle : 0 ≤ len ∧ len ≤ p.length + 1
  · rw [if_pos hle, Except.ok.injEq, Prod.mk.injEq] at h
    rw [← h.1, List.length_take, List.length_append, List.length_singleton]
    omega
  · rw [if_neg hle] at h
    cases h

/-- A string that was read has a length that fits an `int16_t` and is not zero. -/
theorem readString_short_of_ok {p p' value : Bytes} (h : readString p = .ok (value, p')) :
    Short value := by
  unfold readString at h
  obtain ⟨⟨len, q⟩, hb, h⟩ := Parse.bind_eq_ok.mp h
  have hmax := be2seLen_lt hb
  dsimp only at h
  by_cases hpos : len ≤ 0
  · rw [if_pos hpos, Parse.throw_eq, Parse.error_bind] at h
    cases h
  · rw [if_neg hpos] at h
    have hlen := appendUnchecked_length h
    unfold Short
    omega

/-- What an entry that was read is: its name, and a value of one of three kinds. -/
inductive EntryCase (p : Bytes) : Property → Bytes → Prop where
  | num {key q p' : Bytes} {n : Nat} (hkey : readString p = .ok (key, 0x00 :: q))
    (hvalue : be2se 8 q = .ok (n, p')) : EntryCase p (key, .valueNum (UInt64.ofNat n)) p'
  | flag {key p' : Bytes} {value : UInt8} (hkey : readString p = .ok (key, 0x01 :: value :: p')) :
    EntryCase p (key, .value0x01 value) p'
  | str {key q value p' : Bytes} (hkey : readString p = .ok (key, 0x02 :: q))
    (hvalue : readString q = .ok (value, p')) : EntryCase p (key, .valueString value) p'

/-- An entry that was read is of one of the three kinds, and this is all that it can be. -/
theorem entryCase {p p' : Bytes} {kv : Property} (h : parseEntry p = .ok (kv, p')) :
    EntryCase p kv p' := by
  unfold parseEntry at h
  obtain ⟨⟨key, q⟩, hkey, h⟩ := Parse.bind_eq_ok.mp h
  dsimp only at h
  cases q with
  | nil => cases h
  | cons c q =>
    dsimp only at h
    by_cases h0 : c = 0x00
    · rw [if_pos h0] at h
      obtain ⟨⟨n, q'⟩, hvalue, h⟩ := Parse.bind_eq_ok.mp h
      cases h
      rw [h0] at hkey
      exact .num hkey hvalue
    rw [if_neg h0] at h
    by_cases h1 : c = 0x01
    · rw [if_pos h1] at h
      cases q with
      | nil => cases h
      | cons value q =>
        cases h
        rw [h1] at hkey
        exact .flag hkey
    rw [if_neg h1] at h
    by_cases h2 : c = 0x02
    · rw [if_pos h2] at h
      obtain ⟨⟨value, q'⟩, hvalue, h⟩ := Parse.bind_eq_ok.mp h
      cases h
      rw [h2] at hkey
      exact .str hkey hvalue
    · rw [if_neg h2] at h
      cases h

/-- Such an entry can be stored. -/
theorem parseEntry_storable {p p' : Bytes} {kv : Property} (h : parseEntry p = .ok (kv, p')) :
    Storable kv := by
  cases entryCase h with
  | num hkey hvalue => exact ⟨readString_short_of_ok hkey, trivial⟩
  | flag hkey => exact ⟨readString_short_of_ok hkey, trivial⟩
  | str hkey hvalue => exact ⟨readString_short_of_ok hkey, readString_short_of_ok hvalue⟩

/-- A payload only ever adds entries of this kind, whether it fails or not. -/
theorem parseEntries_storable (count : Nat) :
    ∀ {p : Bytes} {frame frame' : List Property} {rc : Int}, (∀ kv ∈ frame, Storable kv) →
      parseEntries count p frame = some (rc, frame') → ∀ kv ∈ frame', Storable kv := by
  induction count with
  | zero =>
    intro p frame frame' rc hframe h
    cases h
    exact hframe
  | succ count ih =>
    intro p frame frame' rc hframe h
    rw [parseEntries] at h
    cases hentry : parseEntry p with
    | error f =>
      rw [hentry] at h
      cases f with
      | minusOne =>
        cases h
        exact hframe
      | undefined => cases h
    | ok r =>
      obtain ⟨kv, q⟩ := r
      rw [hentry] at h
      refine ih ?_ h
      intro kv' hmem
      rcases List.mem_append.mp hmem with hold | hnew
      · exact hframe kv' hold
      · rw [List.mem_singleton.mp hnew]
        exact parseEntry_storable hentry

/-! ## The declared length -/

/-- What an entry takes in the payload, as it is announced and as it is sent on. -/
def entrySize (kv : Property) : Nat :=
  2 + kv.1.length + 1 +
    match kv.2 with
    | .valueString value => 2 + value.length
    | .valueNum _ => 8
    | .value0x01 _ => 1
    | .valueLen _ => 4

/-- An entry as it comes and as it is sent: the two have the same bytes. -/
def entryBytes (kv : Property) : Bytes :=
  beBytes 2 kv.1.length ++ (kv.1 ++
    match kv.2 with
    | .valueString value => 0x02 :: (beBytes 2 value.length ++ value)
    | .valueNum value => 0x00 :: beBytes 8 value.toNat
    | .value0x01 value => [0x01, value]
    | .valueLen value => 0x08 :: (memBytes 4 value).reverse)

/-- These bytes are as many as the size says. -/
theorem entryBytes_length (kv : Property) : (entryBytes kv).length = entrySize kv := by
  obtain ⟨key, value⟩ := kv
  cases value <;> simp [entryBytes, entrySize] <;> omega

/-- A stored entry is written as it came, because all its strings keep their length. -/
theorem pushProperty_storable {kv : Property} (h : Storable kv) :
    pushProperty push0x01 kv = push (entryBytes kv) := by
  obtain ⟨key, value⟩ := kv
  obtain ⟨hkey, hvalue⟩ := h
  unfold pushProperty entryBytes
  rw [pushString_short hkey.2]
  cases value with
  | valueString value =>
    simp only at hvalue ⊢
    rw [pushString_short hvalue.2]
    simp
  | valueNum value => simp
  | value0x01 value => simp [push0x01]
  | valueLen value => exact absurd hvalue id

/-- So are the stored entries together, in the order of the list. -/
theorem pushProperties_storable {kvs : List Property} (h : ∀ kv ∈ kvs, Storable kv) :
    pushProperties push0x01 kvs = push (kvs.flatMap entryBytes) := by
  induction kvs with
  | nil => rfl
  | cons kv kvs ih =>
    have hkv := h kv (List.mem_cons_self ..)
    have hkvs := fun kv' hmem => h kv' (List.mem_cons_of_mem _ hmem)
    rw [pushProperties, pushProperty_storable hkv, ih hkvs]
    simp

/-- The payload that a list of entries makes, with the command and the markers around it. -/
def onMetaDataPayload (frame : List Property) : Bytes :=
  0x02 :: (beBytes 2 10 ++ (chars "onMetaData" ++
    (0x03 :: (frame.flatMap entryBytes ++ [0x00, 0x00, 0x09]))))

/-- It takes 17 bytes and what the entries take. -/
theorem onMetaDataPayload_length (frame : List Property) :
    (onMetaDataPayload frame).length = 17 + (frame.map entrySize).sum := by
  have hname : (chars "onMetaData").length = 10 := by decide
  have hsum : (frame.flatMap entryBytes).length = (frame.map entrySize).sum := by
    induction frame with
    | nil => rfl
    | cons kv frame ih =>
      rw [List.flatMap_cons, List.length_append, ih, entryBytes_length,
        List.map_cons, List.sum_cons]
  simp only [onMetaDataPayload, List.length_append, List.length_cons, List.length_nil,
    beBytes_length, hname, hsum]
  omega

/-- The payload: command, markers, entries, none of which the writer refuses. -/
theorem onMetaDataBytes_storable {frame : List Property} (h : ∀ kv ∈ frame, Storable kv) :
    onMetaDataBytes (chars "onMetaData") frame = push (onMetaDataPayload frame) := by
  have hname : (memBytes 2 (chars "onMetaData").length).reverse = beBytes 2 10 := by decide
  simp [onMetaDataBytes, pushVec, pushObjects, pushProperties_storable h, onMetaDataPayload, hname]

/-- The server's own entry can be stored as well. -/
theorem serverEntry_storable : Storable serverEntry :=
  ⟨by decide, (by decide : Short (chars "srs(simple rtmp server)0.1"))⟩

/-- A list that can be sent can be sent with the server entry behind it. -/
theorem storable_append_server {frame : List Property} (h : ∀ kv ∈ frame, Storable kv) :
    ∀ kv ∈ frame ++ [serverEntry], Storable kv := by
  intro kv hmem
  rcases List.mem_append.mp hmem with hkv | hkv
  · exact h kv hkv
  · rw [List.mem_singleton.mp hkv]
    exact serverEntry_storable

/-- `OnMetaData::write_payload`, on a list that can be sent: the payload of the list with
the server's entry is in the buffer, and the entry is in the list. -/
theorem wp_onMetaData {ε : Type} {env : Env st ε} {Q : Int → State → ε → Prop} {s : State} {e : ε}
    (h : ∀ kv ∈ s.globals.setDataFrame, Storable kv) :
    wp env (OnMetaData.writePayload (chars "onMetaData")) Q s e ↔
      Q 0 ((s.setMetaData (s.globals.setDataFrame ++ [serverEntry])).append .ioBuffer
        (onMetaDataPayload (s.globals.setDataFrame ++ [serverEntry]))) e := by
  simp only [OnMetaData.writePayload, bind_eq, wp_bind, wp_modify, wp_gets]
  rw [State.setMetaData_setDataFrame, onMetaDataBytes_storable (storable_append_server h),
    wp_run_push]

/-- The message length in the header that `OnMetaData` is sent with is the
length of the payload behind the header. -/
def DeclaresPayload (s : State) : Prop :=
  wp streamEnv sendOnMetaData (fun rc s' _ => rc = 0 ∧
    ∃ declared, bytesAt 4 3 (s'.buffer .ioBuffer) = some declared ∧
      (s'.buffer .ioBuffer).length = 12 + ofBeBytes declared) s ⟨[], []⟩

/-- The message as it stands in the buffer when it has been sent, and the list
after it. -/
theorem wp_sendOnMetaData {s : State} (hempty : s.buffer .ioBuffer = [])
    (hcs : 0 < s.client.chunkSize) (h : ∀ kv ∈ s.globals.setDataFrame, Storable kv) :
    wp streamEnv sendOnMetaData (fun rc s' _ => rc = 0 ∧
      s'.globals.setDataFrame = s.globals.setDataFrame ++ [serverEntry] ∧
      ∃ payload, s'.buffer .ioBuffer = headerBytes 0 4 0 395 18 1 ++ payload ∧
        payload.length = 17 + (s.globals.setDataFrame.map entrySize).sum + 37) s ⟨[], []⟩ := by
  have hlen := onMetaDataPayload_length (s.globals.setDataFrame ++ [serverEntry])
  have hserver : entrySize serverEntry = 37 := by decide
  rw [List.map_append, List.sum_append, List.map_singleton, List.sum_singleton, hserver] at hlen
  have hpayload : ∀ {Q : Int → State → Stream → Prop} {e : Stream},
      wp streamEnv (OnMetaData.writePayload (chars "onMetaData")) Q
        (s.append .ioBuffer (headerBytes 0 4 0 395 18 1)) e ↔
      Q 0 ((s.setMetaData (s.globals.setDataFrame ++ [serverEntry])).append .ioBuffer
        (headerBytes 0 4 0 395 18 1
          ++ onMetaDataPayload (s.globals.setDataFrame ++ [serverEntry]))) e := by
    intro Q e
    rw [wp_onMetaData (by rw [State.append_setDataFrame]; exact h), State.append_setDataFrame,
      State.append_setMetaData, State.append_append]
  generalize onMetaDataPayload (s.globals.setDataFrame ++ [serverEntry]) = payload at hpayload hlen
  have hne : payload ≠ [] := List.ne_nil_of_length_pos (by omega)
  refine wp_writeMessage hempty ?_ hne hpayload ?_ ?_
  · simpa using hcs
  · simp [hempty]
  · refine ⟨rfl, ?_, payload, ?_, by omega⟩
    · simp
    · simp [hempty]

/-- The length field of the header that goes out, at its place in the four bytes. -/
theorem bytesAt_onMetaData (payload : Bytes) :
    bytesAt 4 3 (headerBytes 0 4 0 395 18 1 ++ payload) = some [0, 1, 139] := by
  have hsplit : headerBytes 0 4 0 395 18 1 ++ payload
      = [4, 0, 0, 0] ++ ([0, 1, 139] ++ ([18, 1, 0, 0, 0] ++ payload)) := by
    have hheader : headerBytes 0 4 0 395 18 1 = [4, 0, 0, 0, 0, 1, 139, 18, 1, 0, 0, 0] := by
      decide
    rw [hheader]
    rfl
  rw [hsplit]
  exact bytesAt_append rfl rfl

/-- The two lengths agree when the entries stored so far leave 37 of the 378
bytes that are not command and markers. -/
theorem declaresPayload_iff {s : State} (hempty : s.buffer .ioBuffer = [])
    (hcs : 0 < s.client.chunkSize) (h : ∀ kv ∈ s.globals.setDataFrame, Storable kv) :
    DeclaresPayload s ↔ (s.globals.setDataFrame.map entrySize).sum + 37 = 378 := by
  have hrun := wp_sendOnMetaData hempty hcs h
  have hlength : ofBeBytes [0, 1, 139] = 395 := by decide
  have hheader : (headerBytes 0 4 0 395 18 1).length = 12 := by decide
  constructor
  · intro hdeclares
    obtain ⟨rc, s', e', hr, -, declared, hdeclared, hlen⟩ := hdeclares
    obtain ⟨-, -, payload, hbuf, hpayload⟩ := wlp_of_wp hrun _ _ _ hr
    rw [hbuf, bytesAt_onMetaData, Option.some.injEq] at hdeclared
    rw [hbuf, ← hdeclared, hlength, List.length_append, hheader] at hlen
    omega
  · intro hsize
    refine wp_mono hrun fun rc s' e' hsent => ?_
    obtain ⟨hrc, -, payload, hbuf, hpayload⟩ := hsent
    refine ⟨hrc, [0, 1, 139], ?_, ?_⟩
    · rw [hbuf, bytesAt_onMetaData]
    · rw [hbuf, hlength, List.length_append, hheader]
      omega

/-- The length 395 in the header is the length of the payload for some lists
only: those whose entries, with the server entries of the consumers served so
far and of this one, take 378 bytes. -/
theorem onMetaData_length_iff (frame : List Property) (n : Nat) (s : State)
    (hframe : ∀ kv ∈ frame, Storable kv)
    (hlist : s.globals.setDataFrame = frame ++ List.replicate n serverEntry)
    (hempty : s.buffer .ioBuffer = []) (hcs : 0 < s.client.chunkSize) :
    DeclaresPayload s ↔ (frame.map entrySize).sum + 37 * (n + 1) = 378 := by
  have hall : ∀ kv ∈ s.globals.setDataFrame, Storable kv := by
    intro kv hmem
    rw [hlist] at hmem
    rcases List.mem_append.mp hmem with hkv | hkv
    · exact hframe kv hkv
    · rw [List.eq_of_mem_replicate hkv]
      exact serverEntry_storable
  have hserver : entrySize serverEntry = 37 := by decide
  have hsum : (s.globals.setDataFrame.map entrySize).sum
      = (frame.map entrySize).sum + n * 37 := by
    rw [hlist, List.map_append, List.sum_append, List.map_replicate, hserver,
      List.sum_replicate_nat]
  rw [declaresPayload_iff hempty hcs hall, hsum]
  omega

/-- The session of the first consumer after a publisher announced `frame`, and nothing else
has happened. -/
def firstConsumer (frame : List Property) : State where
  globals := { setDataFrame := frame }
  client := { chunkSize := 4096 }

/-- A title can make the first message as long as its header says. -/
theorem onMetaData_length_first :
    DeclaresPayload (firstConsumer [(chars "duration", .valueNum 0),
        (chars "title", .valueString (List.replicate 312 0x61))])
      ↔ (([(chars "duration", .valueNum 0),
          (chars "title", .valueString (List.replicate 312 0x61))] : List Property).map
            entrySize).sum + 37 * (0 + 1) = 378 :=
  onMetaData_length_iff _ 0 _
    (by
      intro kv hkv
      rcases List.mem_cons.mp hkv with h | h
      · rw [h]
        exact ⟨by decide, trivial⟩
      · rw [List.mem_singleton.mp h]
        exact ⟨by decide, (by rw [List.length_replicate]; decide),
          (by rw [List.length_replicate]; decide)⟩)
    (List.append_nil _).symm rfl (by decide)

/-- One number is not enough: 73 bytes follow a header that says 395. -/
theorem onMetaData_duration_short :
    ¬ DeclaresPayload (firstConsumer [(chars "duration", .valueNum 0)]) := by
  have hstorable : ∀ kv ∈ [(chars "duration", ValueObject.valueNum 0)], Storable kv := by
    intro kv hkv
    rw [List.mem_singleton.mp hkv]
    exact ⟨by decide, trivial⟩
  rw [declaresPayload_iff (s := firstConsumer [(chars "duration", .valueNum 0)]) rfl (by decide)
    hstorable]
  decide

end RtmpServer
