import RtmpServer.ObjectGrammar
import RtmpServer.ContinuationChunks

/-!
# Printing a connect object

`common_print` asks each stored value whether it is a number, and takes every
other one for a string. `read_object` also stores flags. `commonPrint_typed_iff`
says for which connect payloads the cast is right.

Mirroring notes:
- a cast of a value that is no string is `none`;
- how `printf` writes a `double` is a parameter, and the entries come in any
  order that the hash table may have.
-/

namespace RtmpServer

open Coroutine Coroutine.Prog Endian Framing

/-- What `%s` prints of `s.c_str()`, which ends at the first zero byte of the string. -/
def cString (s : Bytes) : Bytes := s.takeWhile (· ≠ 0)

/-- `snprintf` behind what is in `buffer[4096]` already, and `strlen` after it: no more than
4095 bytes fit. -/
def printTo (buffer text : Bytes) : Bytes := (buffer ++ text).take 4095

/-- One value: a `Value_Num`, or else it is cast to `Value_String`, which only one of that
class bears. -/
def printValue (formatDouble : UInt64 → Bytes) : ValueObject → Option Bytes
  | .valueNum value => some (formatDouble value ++ chars " ")
  | .valueString value => some (cString value ++ chars " ")
  | _ => none

/-- The `for` over the entries of `object`, which goes on with the buffer as each of them
leaves it. -/
def printEntries (formatDouble : UInt64 → Bytes) (buffer : Bytes) : List Property → Option Bytes
  | [] => some buffer
  | (key, value) :: entries => do
    let text ← printValue formatDouble value
    printEntries formatDouble (printTo (printTo buffer (cString key ++ chars " = ")) text) entries

/-- `IO_Message::common_print`, with the entries of `object` in iteration order; `none`
where a cast goes wrong. -/
def commonPrint (formatDouble : UInt64 → Bytes) (message : IoMessage) (entries : List Property) :
    Option Bytes :=
  let buffer := printTo [] (chars "command_name = " ++ cString message.commandName ++
    chars ", transaction_id = " ++ chars (toString message.transactionId.toBitVec.toInt))
  if message.object ≠ [] then
    printEntries formatDouble (printTo buffer (chars ", ")) entries
  else some buffer

/-- A value that the cast is right for, or that is not cast. -/
def Printable (kv : Property) : Prop :=
  match kv.2 with
  | .valueNum _ => True
  | .valueString _ => True
  | _ => False

theorem printValue_ne_none (formatDouble : UInt64 → Bytes) (kv : Property) :
    printValue formatDouble kv.2 ≠ none ↔ Printable kv := by
  obtain ⟨key, value⟩ := kv
  cases value <;> simp [printValue, Printable]

theorem printEntries_ne_none (formatDouble : UInt64 → Bytes) {entries : List Property} :
    ∀ buffer : Bytes, printEntries formatDouble buffer entries ≠ none ↔
      ∀ kv ∈ entries, Printable kv := by
  induction entries with
  | nil =>
    intro buffer
    simp [printEntries]
  | cons kv entries ih =>
    intro buffer
    have hfirst := printValue_ne_none formatDouble kv
    obtain ⟨key, value⟩ := kv
    rw [List.forall_mem_cons, ← hfirst, printEntries]
    cases printValue formatDouble value with
    | none => simp
    | some text =>
      have hlater := ih (printTo (printTo buffer (cString key ++ chars " = ")) text)
      simpa using hlater

theorem commonPrint_ne_none {formatDouble : UInt64 → Bytes} {message : IoMessage}
    {entries : List Property} (hperm : entries.Perm message.object) :
    commonPrint formatDouble message entries ≠ none ↔ ∀ kv ∈ message.object, Printable kv := by
  unfold commonPrint
  by_cases hnil : message.object = []
  · rw [if_neg (Classical.not_not.mpr hnil), hnil]
    simp
  · rw [if_pos hnil, printEntries_ne_none]
    exact ⟨fun h kv hkv => h kv (hperm.mem_iff.mpr hkv),
      fun h kv hkv => h kv (hperm.mem_iff.mp hkv)⟩

/-! ## What is stored -/

def IsFlag (kv : Property) : Prop := ∃ value, kv.2 = .value0x01 value

/-- A flag only comes with a key that came before, or is one of `keys`. -/
def FlagsRepeat (keys : List Bytes) : List Property → Prop
  | [] => True
  | kv :: kvs => (IsFlag kv → kv.1 ∈ keys) ∧ FlagsRepeat (kv.1 :: keys) kvs

theorem printable_iff {kv : Property} (h : WellFormed kv) : Printable kv ↔ ¬ IsFlag kv := by
  obtain ⟨key, value⟩ := kv
  cases value with
  | valueLen value => exact absurd h.2 id
  | _ => simp [Printable, IsFlag]

theorem ObjectBytes.wellFormed {p : Bytes} {kvs : List Property} (h : ObjectBytes p kvs) :
    ∀ kv ∈ kvs, WellFormed kv := by
  induction h with
  | last => exact fun kv hkv => nomatch hkv
  | closed q => exact fun kv hkv => nomatch hkv
  | pair hwf _ _ ih =>
    intro kv hkv
    rcases List.mem_cons.mp hkv with heq | hkv
    · rw [heq]
      exact hwf
    · exact ih kv hkv
  | next _ _ _ ih => exact ih

theorem keys_insertProperty (object : List Property) (kv : Property) (key : Bytes) :
    key ∈ (insertProperty object kv).map Prod.fst ↔ key = kv.1 ∨ key ∈ object.map Prod.fst := by
  unfold insertProperty
  by_cases hany : object.any (fun p => decide (p.1 = kv.1)) = true
  · rw [if_pos hany]
    obtain ⟨p, hp, heq⟩ := List.any_eq_true.mp hany
    have hkey : kv.1 ∈ object.map Prod.fst :=
      List.mem_map.mpr ⟨p, hp, of_decide_eq_true heq⟩
    constructor
    · exact Or.inr
    · rintro (rfl | hmem)
      · exact hkey
      · exact hmem
  · rw [if_neg hany, List.map_append, List.mem_append]
    simp [or_comm]

/-- All stored values can be printed if and only if every flag has come too late. -/
theorem printable_stored_iff {kvs : List Property} (hwf : ∀ kv ∈ kvs, WellFormed kv) :
    ∀ (object : List Property) (keys : List Bytes),
      (∀ key, key ∈ keys ↔ key ∈ object.map Prod.fst) →
      ((∀ kv ∈ kvs.foldl insertProperty object, Printable kv) ↔
        (∀ kv ∈ object, Printable kv) ∧ FlagsRepeat keys kvs) := by
  induction kvs with
  | nil =>
    intro object keys _
    simp [FlagsRepeat]
  | cons kv kvs ih =>
    intro object keys hkeys
    have hkeys' : ∀ key, key ∈ kv.1 :: keys ↔ key ∈ (insertProperty object kv).map Prod.fst := by
      intro key
      rw [keys_insertProperty, List.mem_cons, hkeys]
    have hlater := ih (fun kv' hmem => hwf kv' (List.mem_cons_of_mem _ hmem)) _ _ hkeys'
    have hflag := printable_iff (hwf kv (List.mem_cons_self ..))
    -- the pair is stored, unless its key is there
    have hone : (∀ kv' ∈ insertProperty object kv, Printable kv') ↔
        (∀ kv' ∈ object, Printable kv') ∧ (IsFlag kv → kv.1 ∈ keys) := by
      rw [hkeys]
      unfold insertProperty
      by_cases hany : object.any (fun p => decide (p.1 = kv.1)) = true
      · obtain ⟨p, hp, heq⟩ := List.any_eq_true.mp hany
        have hkey : kv.1 ∈ object.map Prod.fst :=
          List.mem_map.mpr ⟨p, hp, of_decide_eq_true heq⟩
        rw [if_pos hany]
        exact ⟨fun h => ⟨h, fun _ => hkey⟩, fun h => h.1⟩
      · have hnew : kv.1 ∉ object.map Prod.fst := by
          intro hmem
          obtain ⟨p, hp, heq⟩ := List.mem_map.mp hmem
          exact hany (List.any_eq_true.mpr ⟨p, hp, decide_eq_true heq⟩)
        rw [if_neg hany, List.forall_mem_append, List.forall_mem_singleton, hflag]
        exact and_congr_right fun _ => ⟨fun h hf => absurd hf h, fun h hf => hnew (h hf)⟩
    rw [List.foldl_cons, hlater, hone, FlagsRepeat, and_assoc]

/-! ## After a connect message -/

section

variable {ε : Type} {env : Env st ε} {s s' : State} {e e' : ε} {bhSize mhSize chunkSize : Nat}
  {messageLength : Int}

/-- An accepted message has a connect payload in the buffer, and what `insert` has
taken of its pairs in `object`. -/
theorem object_of_connect
    (hrun : Runs env (ConnectMessage.readPayload bhSize mhSize messageLength chunkSize) s e 0 s' e')
    (hfresh : s.client.message.object = []) :
    (∃ kvs, ConnectPayload ((s'.buffer .ioBuffer).drop (bhSize + mhSize)) kvs) ∧
      ∀ kvs, ConnectPayload ((s'.buffer .ioBuffer).drop (bhSize + mhSize)) kvs →
        s'.client.message.object = kvs.foldl insertProperty [] := by
  unfold ConnectMessage.readPayload at hrun
  rw [bind_eq, runs_bind] at hrun
  obtain ⟨rc, s1, e1, hfetch, hrest⟩ := hrun
  have hloop : Runs env (Received.fetch .connectMessage bhSize mhSize messageLength chunkSize) s e
      rc s1 e1 := hfetch
  obtain ⟨p, payload, -, hs1, -⟩ := wlp_fetch_connect _ _ _ hloop
  subst hs1
  by_cases hrc : rc = -1
  · rw [if_pos hrc] at hrest
    obtain ⟨h, -⟩ := runs_ret.mp hrest
    cases h
  rw [if_neg hrc, parseBuffer] at hrest
  obtain ⟨hact, -⟩ := runs_act.mp hrest
  obtain ⟨⟨rc', message⟩, hparse, heq⟩ := Option.map_eq_some_iff.mp hact
  cases heq
  refine ⟨connectPayload_of_parseConnect hparse, fun kvs hkvs => ?_⟩
  obtain ⟨message', hparse', hobject⟩ := parseConnect_connectPayload hkvs
    (s.append .ioBuffer payload).client.message
  have hsame : message' = message := by
    have hboth := hparse'.symm.trans hparse
    cases hboth
    rfl
  rw [← hfresh]
  rw [hsame, State.append_message] at hobject
  exact hobject

/-- After a connect message that is accepted, every value is printed as what it
is if and only if the payload has no flag with a key that is new. -/
theorem commonPrint_typed_iff
    (hrun : Runs env (ConnectMessage.readPayload bhSize mhSize messageLength chunkSize) s e 0 s' e')
    (hfresh : s.client.message.object = []) (formatDouble : UInt64 → Bytes)
    {entries : List Property} (hperm : entries.Perm s'.client.message.object) :
    (∃ kvs, ConnectPayload ((s'.buffer .ioBuffer).drop (bhSize + mhSize)) kvs) ∧
      ∀ kvs, ConnectPayload ((s'.buffer .ioBuffer).drop (bhSize + mhSize)) kvs →
        (commonPrint formatDouble s'.client.message entries ≠ none ↔ FlagsRepeat [] kvs) := by
  obtain ⟨hpayload, hobject⟩ := object_of_connect hrun hfresh
  refine ⟨hpayload, fun kvs hkvs => ?_⟩
  have hwf : ∀ kv ∈ kvs, WellFormed kv := by
    obtain ⟨_, _, _, _, _, hbytes⟩ := hkvs
    exact hbytes.wellFormed
  have hstored := printable_stored_iff hwf [] [] fun key => Iff.rfl
  rw [commonPrint_ne_none hperm, hobject kvs hkvs, hstored]
  exact and_iff_right fun kv hkv => nomatch hkv

end

/-- Every connect payload is accepted, in chunks of any size, and its pairs are in the
message. -/
theorem wp_connect_accepts (c : UInt8) {payload : Bytes} (rest out : Bytes) {kvs : List Property}
    {size bhSize mhSize : Nat} {s : State} (hkvs : ConnectPayload payload kvs) (hcs : 1 ≤ size)
    (hhdr : (s.buffer .ioBuffer).length = bhSize + mhSize) :
    wp streamEnv (ConnectMessage.readPayload bhSize mhSize payload.length size)
      (fun rc s' _ => rc = 0 ∧ s'.buffer .ioBuffer = s.buffer .ioBuffer ++ payload ∧
        s'.client.message.object = kvs.foldl insertProperty s.client.message.object) s
      ⟨frame [c] size [] payload ++ rest, out⟩ := by
  unfold ConnectMessage.readPayload
  rw [bind_eq, wp_bind]
  refine wp_dechunk (fun _ => by simp) (fun _ => by simp) hcs ?_
  obtain ⟨message, hparse, hobject⟩ := parseConnect_connectPayload hkvs s.client.message
  rw [if_neg (by decide), parseBuffer, wp_act, State.buffer_append, List.drop_left' hhdr,
    State.append_message, hparse]
  refine ⟨0, _, rfl, rfl, ?_, hobject⟩
  show (s.append .ioBuffer payload).buffer .ioBuffer = _
  rw [State.buffer_append]

/-- The payload of a connect message with one pair, as a client would send it. -/
def connectWith (kv : Property) : Bytes :=
  commandFront (chars "connect") 1 0x03 ++ (entryBytes kv ++ [0x00, 0x00, 0x09])

theorem connectWith_connectPayload {kv : Property} (h : Storable kv) :
    ConnectPayload (connectWith kv) [kv] := by
  obtain ⟨hwf, hblank⟩ := storable_wellFormed h
  exact ⟨chars "connect", 1, _, by decide, rfl, .pair hwf hblank .last⟩

/-- It comes in one chunk and is accepted, so that the message holds just this pair. -/
theorem runs_connectWith {kv : Property} (h : Storable kv) : ∃ s' e',
    Runs streamEnv (ConnectMessage.readPayload 0 0 (connectWith kv).length 128) {}
        ⟨frame [0xC3] 128 [] (connectWith kv) ++ [], []⟩ 0 s' e' ∧
      s'.buffer .ioBuffer = connectWith kv ∧ s'.client.message.object = [kv] := by
  have hhdr : (({} : State).buffer .ioBuffer).length = 0 + 0 := rfl
  obtain ⟨rc, s', e', hrun, hrc, hbuffer, hobject⟩ := wp_connect_accepts 0xC3 [] []
    (connectWith_connectPayload h) (show 1 ≤ 128 by decide) hhdr
  subst hrc
  exact ⟨s', e', hrun, hbuffer, hobject⟩

/-- A number is printed as a number, since its class is asked for first. -/
theorem commonPrint_typed_num : ∃ s' e',
    Runs streamEnv (ConnectMessage.readPayload 0 0
      (connectWith (chars "a", .valueNum 0)).length 128)
        {} ⟨frame [0xC3] 128 [] (connectWith (chars "a", .valueNum 0)) ++ [], []⟩ 0 s' e' ∧
      commonPrint (fun _ => chars "0.000000") s'.client.message s'.client.message.object
          ≠ none := by
  have hnum : Storable (chars "a", .valueNum 0) := ⟨by decide, trivial⟩
  obtain ⟨s', e', hrun, hbuffer, -⟩ := runs_connectWith hnum
  have hpayload : ConnectPayload ((s'.buffer .ioBuffer).drop (0 + 0))
      [(chars "a", .valueNum 0)] := by
    rw [hbuffer]
    exact connectWith_connectPayload hnum
  refine ⟨s', e', hrun, ?_⟩
  exact ((commonPrint_typed_iff hrun rfl _ (List.Perm.refl _)).2 _ hpayload).mpr
    ⟨(fun hflag => nomatch hflag), trivial⟩

/-- A flag is taken for a string, which it is not: the cast has no defined result. -/
theorem commonPrint_flag_cast : ∃ s' e',
    Runs streamEnv (ConnectMessage.readPayload 0 0
      (connectWith (chars "a", .value0x01 1)).length 128)
        {} ⟨frame [0xC3] 128 [] (connectWith (chars "a", .value0x01 1)) ++ [], []⟩ 0 s' e' ∧
      ∀ formatDouble, commonPrint formatDouble s'.client.message s'.client.message.object
        = none := by
  have hflag : Storable (chars "a", .value0x01 1) := ⟨by decide, trivial⟩
  obtain ⟨s', e', hrun, -, hobject⟩ := runs_connectWith hflag
  refine ⟨s', e', hrun, fun formatDouble => ?_⟩
  unfold commonPrint
  rw [hobject]
  rfl

end RtmpServer
