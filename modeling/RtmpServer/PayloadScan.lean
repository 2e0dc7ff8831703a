import RtmpServer.ObjectScan

/-!
# The payload parsers with their pointers

The parsers of commands and metadata, with the pointer `p` and a log of what is
read, and of what a length says is to follow. `read_object` checks that a string
is there before it takes it; these check that its length is positive.

Each scan refines its parser without a pointer (`Mirrors`), and reads behind the
end on the payloads of its `Overlong`, and on no others.

Mirroring note: `append(p, len)` and `Value_String(p, len)` read `len` bytes, with
or without a check in front.
-/

namespace RtmpServer

open Endian Cursor

/-! ## The scans -/

/-- `p >= end || *p++ != marker`, with the pointer and the log that the model of the parsers
has not. -/
def scanExpect (marker : UInt8) : Scan UInt8 Unit Unit := do
  if ← Scan.fits 1 then
    let c ← Scan.read 1
    if c = [marker] then return () else Scan.stop ()
  else Scan.stop ()

/-- A length, and the string of that length, which is taken without a look at the end. -/
def scanString : Scan UInt8 Unit Bytes := do
  let n ← scanNumber () 2
  Scan.announce n
  if wrap16 n ≤ 0 then Scan.stop () else Scan.read (wrap16 n).toNat

/-- A command's name and transaction id, and the marker behind them, as five classes read
them alike. -/
def scanCommand (marker : UInt8) : Scan UInt8 Unit (Bytes × UInt64) := do
  scanExpect 0x02
  let commandName ← scanString
  scanExpect 0x00
  let transactionId ← scanNumber () 8
  scanExpect marker
  return (commandName, UInt64.ofNat transactionId)

/-- What `Publish` has behind a command: an empty string, and one more that is read and
dropped. -/
def scanPublishType : Scan UInt8 Unit Bytes := do
  scanExpect 0x02
  let len ← scanNumber () 2
  Scan.announce len
  if wrap16 len ≠ 0 then Scan.stop ()
  else
    scanExpect 0x02
    scanString

/-- All that `Publish::read_payload` reads of its payload. -/
def scanPublish : Scan UInt8 Unit Bytes := do
  let _ ← scanCommand 0x05
  scanPublishType

/-- What stands in front of the entries, and how many of them there are. -/
def scanOpening : Scan UInt8 Unit Nat := do
  scanExpect 0x02
  let _ ← scanString
  scanExpect 0x02
  let _ ← scanString
  scanExpect 0x08
  let n ← scanNumber () 4
  if (BitVec.ofNat 32 n).toInt ≤ 0 then Scan.stop ()
  else return (BitVec.ofNat 32 n).toInt.toNat

/-- The number of an entry, which is checked to be there. -/
def scanEntryNum (key : Bytes) : Scan UInt8 Unit Property := do
  let value ← scanNumber () 8
  return (key, .valueNum (UInt64.ofNat value))

/-- The flag of an entry, which is checked to be there here, as it is not in `read_object`. -/
def scanEntryFlag (key : Bytes) : Scan UInt8 Unit Property := do
  if ← Scan.fits 1 then
    let value ← Scan.read 1
    return (key, .value0x01 (value.headD 0))
  else Scan.stop ()

/-- The string of an entry, which is not checked. -/
def scanEntryString (key : Bytes) : Scan UInt8 Unit Property := do
  let value ← scanString
  return (key, .valueString value)

/-- The value of an entry by its marker; the pointer is moved behind the marker in each case
of its own. -/
def scanEntryValue (key : Bytes) : Scan UInt8 Unit Property := do
  if ← Scan.fits 1 then
    let c ← Scan.peek 1
    if c = [0x00] then
      Scan.skip 1
      scanEntryNum key
    else if c = [0x01] then
      Scan.skip 1
      scanEntryFlag key
    else if c = [0x02] then
      Scan.skip 1
      scanEntryString key
    else Scan.stop ()
  else Scan.stop ()

/-- One entry of the announced list: its key, unchecked, and its value. -/
def scanEntry : Scan UInt8 Unit Property := do
  let key ← scanString
  scanEntryValue key

/-- `for (int i = 0; i < count; i++)`, for as many entries as the opening has announced. -/
def scanEntries : Nat → Scan UInt8 Unit (List Property)
  | 0 => return []
  | count + 1 => do
    let kv ← scanEntry
    let kvs ← scanEntries count
    return kv :: kvs

/-- All that `SetDataFrame::read_payload` reads of its payload. -/
def scanSetDataFrame : Scan UInt8 Unit (List Property) := do
  let count ← scanOpening
  scanEntries count

/-! ## The parsers they refine -/

/-- Every stop of these parsers returns `-1`, and so every refusal of a string does. -/
abbrev Mirrors {α : Type} (m : Scan UInt8 Unit α) (f : Bytes → Parse (α × Bytes))
    (S : Bytes → Prop) : Prop :=
  Refines (fun _ => Fail.minusOne) (fun _ => True) m f S

/-- To give up is to return `-1`, and nothing is read. -/
theorem mirrors_giveUp {α : Type} :
    Mirrors (Scan.stop () : Scan UInt8 Unit α) (fun _ => .error .minusOne) (fun _ => False) :=
  .stop ()

/-- A number is checked to be there before it is read, so it is never read outside. -/
theorem mirrors_scanNumber {width : Nat} (h0 : 0 < width) :
    Mirrors (scanNumber () width) (be2se width) (fun _ => False) := by
  refine (refines_scanNumber _ _ () h0).congr (fun _ => Iff.rfl) fun q _ => ?_
  unfold be2se
  by_cases hle : width ≤ q.length
  · rw [if_pos hle]
    rfl
  · rw [if_neg hle]
    rfl

/-- The pointer is not there in the model, so that nothing is returned. -/
def expectUnit (marker : UInt8) (q : Bytes) : Parse (Unit × Bytes) :=
  (expect marker q).map fun q' => ((), q')

/-- A marker is checked to be there before it is read. -/
theorem mirrors_scanExpect (marker : UInt8) :
    Mirrors (scanExpect marker) (expectUnit marker) (fun _ => False) := by
  refine Refines.congr (.next fun c => .ite (fun _ => .pure ()) fun _ => mirrors_giveUp)
    (fun q => by simp) fun q _ => ?_
  cases q with
  | nil => rfl
  | cons c q =>
    simp only [List.singleton_inj]
    by_cases hc : c = marker
    · rw [if_pos hc, expectUnit, expect, if_pos hc]
      rfl
    · rw [if_neg hc, expectUnit, expect, if_neg hc]
      rfl

/-- The marker was found exactly where it stands. -/
theorem expectUnit_ok {marker : UInt8} {q q' : Bytes} {u : Unit} :
    expectUnit marker q = .ok (u, q') ↔ q = marker :: q' := by
  rw [← expect_iff, expectUnit]
  cases expect marker q with
  | error f => exact ⟨(fun h => nomatch h), (fun h => nomatch h)⟩
  | ok r => exact ⟨fun h => by cases h; rfl, fun h => by cases h; rfl⟩

/-- A string is read without a check: outside the buffer exactly where its length is too
large. -/
theorem mirrors_scanString : Mirrors scanString readString OverlongString := by
  unfold scanString
  refine Refines.congr (.bind (mirrors_scanNumber Nat.two_pos) fun n _ _ _ hn =>
    .announce (.ite (fun _ => mirrors_giveUp) fun hpos => .read _) fun q hq => ?_)
    (fun q => ?_) fun q hq => ?_
  · obtain ⟨hlt, -⟩ := be2se_iff.mp hn
    by_cases hpos : wrap16 n ≤ 0
    · rw [if_pos hpos]
      exact Or.inr ⟨_, rfl, trivial⟩
    · have hwrap := wrap16_pos hlt hpos
      refine Or.inl (Nat.le_of_not_lt fun hlong => hq (Or.inr ⟨hpos, ?_⟩))
      omega
  · constructor
    · rintro (hno | ⟨n, q', hn, ⟨-, hno⟩ | ⟨hpos, hlong⟩⟩)
      · exact hno.elim
      · exact hno.elim
      · obtain ⟨hlt, hq⟩ := be2se_iff.mp hn
        have hwrap := wrap16_pos hlt hpos
        have hbound := wrap16_lt n
        exact ⟨n, q', by omega, by omega, hq, by omega⟩
    · rintro ⟨n, q', h1, h2, rfl, hlong⟩
      have hwrap : wrap16 n = n := wrap16_of_le h2
      exact Or.inr ⟨n, q', be2se_append (by omega), Or.inr ⟨by omega, by omega⟩⟩
  · cases hb : be2se 2 q with
    | error f =>
      rw [andThen_error hb, readString, be2seLen, hb]
      rfl
    | ok r =>
      obtain ⟨n, q'⟩ := r
      rw [andThen_ok hb, readString_ok hb]
      by_cases hpos : wrap16 n ≤ 0
      · rw [if_pos hpos, if_pos hpos]
      · obtain ⟨hlt, hbytes⟩ := be2se_iff.mp hb
        have hwrap := wrap16_pos hlt hpos
        have hbound := wrap16_lt n
        have hle : n ≤ q'.length := Nat.le_of_not_lt fun hlong =>
          hq ⟨n, q', by omega, by omega, hbytes, hlong⟩
        rw [if_neg hpos, if_neg hpos, appendUnchecked, if_pos (by omega),
          List.take_append_of_le_length (by omega)]

/-- The two forms of the marker check agree where it succeeds. -/
theorem expectUnit_of_ok {marker : UInt8} {q q' : Bytes} (h : expect marker q = .ok q') :
    expectUnit marker q = .ok ((), q') := by
  rw [expectUnit, h]
  rfl

/-- And where it fails. -/
theorem expectUnit_of_error {marker : UInt8} {q : Bytes} {e : Fail}
    (h : expect marker q = .error e) :
    expectUnit marker q = .error e := by
  rw [expectUnit, h]
  rfl

/-! The parsers of the model are sequences of the same steps. -/

/-- A marker in front, in the words of the model. -/
theorem andThen_expect {γ : Type} (marker : UInt8) (g : Unit → Bytes → Parse (γ × Bytes)) :
    andThen (expectUnit marker) g = fun q => expect marker q >>= fun q' => g () q' := by
  funext q
  cases h : expect marker q with
  | error e => exact andThen_error (expectUnit_of_error h)
  | ok q' => exact andThen_ok (expectUnit_of_ok h)

/-- One parser after the other, in the words of the model. -/
theorem andThen_bind {α γ : Type} (f : Bytes → Parse (α × Bytes))
    (g : α → Bytes → Parse (γ × Bytes)) :
    andThen f g = fun q => f q >>= fun r => g r.1 r.2 := by
  funext q
  cases h : f q with
  | error e => exact andThen_error h
  | ok r => exact andThen_ok h

/-- What is made of a parser's result can as well be made of that of its last step. -/
theorem Parse.map_bind {α β γ : Type} (x : Parse α) (k : α → Parse β) (f : β → γ) :
    (x >>= k).map f = x >>= fun a => (k a).map f := by
  cases x with
  | error e => rfl
  | ok a => rfl

/-- `readCommand`, with its result as a scan ends with it: the value, and what is left. -/
def readCommandPair (marker : UInt8) (q : Bytes) : Parse ((Bytes × UInt64) × Bytes) :=
  (readCommand marker q).map fun r => ((r.1, r.2.1), r.2.2)

/-- A command is read outside the buffer where its name is overlong, and nowhere else. -/
theorem mirrors_scanCommand (marker : UInt8) :
    Mirrors (scanCommand marker) (readCommandPair marker) OverlongCommand := by
  unfold scanCommand
  refine Refines.congr (.bind (mirrors_scanExpect 0x02) fun _ _ _ _ _ =>
    .bind mirrors_scanString fun commandName _ _ _ _ =>
    .bind (mirrors_scanExpect 0x00) fun _ _ _ _ _ =>
    .bind (mirrors_scanNumber (by decide)) fun transactionId _ _ _ _ =>
    .bind (mirrors_scanExpect marker) fun _ _ _ _ _ => .pure _) (fun q => ?_) fun q _ => ?_
  · simp only [expectUnit_ok, and_false, exists_false, or_false, false_or, exists_const,
      OverlongCommand]
  · unfold readCommandPair readCommand
    simp only [andThen_expect]
    simp only [andThen_bind, Parse.map_bind, Parse.pure_eq]
    rfl

/-- The empty stream name of a `Publish`, and the marker of what follows. -/
def publishFront : Bytes := 0x02 :: (beBytes 2 0 ++ [0x02])

/-- What `Publish` reads behind a command, as a parser of the rest of the buffer. -/
def readPublishType (q : Bytes) : Parse (Bytes × Bytes) := do
  let p ← expect 0x02 q
  let (len, p) ← be2seLen p
  if len ≠ 0 then
    throw .minusOne
  let p ← expect 0x02 p
  readString p

/-- Behind its first marker and the first length: only a length of zero goes on. -/
theorem readPublishType_ok {n : Nat} {q q1 q2 : Bytes} (h1 : expect 0x02 q = .ok q1)
    (h2 : be2se 2 q1 = .ok (n, q2)) :
    readPublishType q = if wrap16 n ≠ 0 then .error .minusOne else
      andThen (expectUnit 0x02) (fun _ => readString) q2 := by
  rw [readPublishType, h1, Parse.ok_bind, be2seLen, h2, Parse.ok_bind]
  dsimp only
  rw [Parse.pure_eq, Parse.ok_bind]
  dsimp only
  by_cases h0 : wrap16 n ≠ 0
  · rw [if_pos h0, if_pos h0]
    rfl
  · rw [if_neg h0, if_neg h0]
    cases h3 : expect 0x02 q2 with
    | error e =>
      rw [andThen_error (expectUnit_of_error h3)]
      rfl
    | ok q3 =>
      rw [andThen_ok (expectUnit_of_ok h3)]
      rfl

/-- Outside the buffer it reads the second string only, the first one being empty. -/
theorem mirrors_scanPublishType : Mirrors scanPublishType readPublishType
    (fun q => ∃ q', q = publishFront ++ q' ∧ OverlongString q') := by
  unfold scanPublishType
  refine Refines.congr (.bind (mirrors_scanExpect 0x02) fun _ _ _ _ _ =>
    .bind (mirrors_scanNumber Nat.two_pos) fun len _ _ _ hlen =>
    .announce (.ite (fun _ => mirrors_giveUp) fun h0 =>
      .bind (mirrors_scanExpect 0x02) fun _ _ _ _ _ => mirrors_scanString) fun q _ => ?_)
    (fun q => ?_) fun q _ => ?_
  · obtain ⟨hlt, -⟩ := be2se_iff.mp hlen
    by_cases h0 : wrap16 len ≠ 0
    · rw [if_pos h0]
      exact Or.inr ⟨_, rfl, trivial⟩
    · rw [wrap16_eq_zero hlt (Classical.not_not.mp h0)]
      exact Or.inl (Nat.zero_le _)
  · simp only [expectUnit_ok, and_false, false_or, exists_const]
    constructor
    · rintro ⟨q1, rfl, len, q2, hlen, h0, q3, rfl, hlong⟩
      obtain ⟨hlt, rfl⟩ := be2se_iff.mp hlen
      refine ⟨q3, ?_, hlong⟩
      rw [wrap16_eq_zero hlt (Classical.not_not.mp h0), publishFront]
      simp
    · rintro ⟨q', rfl, hlong⟩
      exact ⟨_, rfl, 0, 0x02 :: q', be2se_append (by decide), by decide, q', rfl, hlong⟩
  · cases h1 : expect 0x02 q with
    | error e =>
      rw [andThen_error (expectUnit_of_error h1), readPublishType, h1]
      rfl
    | ok q1 =>
    rw [andThen_ok (expectUnit_of_ok h1)]
    cases h2 : be2se 2 q1 with
    | error e =>
      rw [andThen_error h2, readPublishType, h1, Parse.ok_bind, be2seLen, h2]
      rfl
    | ok r2 =>
    obtain ⟨len, q2⟩ := r2
    rw [andThen_ok h2, readPublishType_ok h1 h2]

/-- A command was read exactly where its bytes stand, with a name that keeps its length. -/
theorem readCommandPair_ok {marker : UInt8} {q q' : Bytes} {r : Bytes × UInt64} :
    readCommandPair marker q = .ok (r, q') ↔
      Short r.1 ∧ q = commandFront r.1 r.2 marker ++ q' := by
  rw [← readCommand_iff, readCommandPair]
  cases readCommand marker q with
  | error e => exact ⟨(fun h => nomatch h), (fun h => nomatch h)⟩
  | ok r => exact ⟨fun h => by cases h; rfl, fun h => by cases h; rfl⟩

/-- A publish message with an overlong string: the command's name, or the type of the stream
behind an empty name. -/
def OverlongPublish (q : Bytes) : Prop :=
  OverlongCommand q ∨ ∃ commandName transactionId q', Short commandName ∧
    q = commandFront commandName transactionId 0x05 ++ (publishFront ++ q') ∧ OverlongString q'

/-- The payload of a publish message is read outside the buffer where one of them is
overlong, and nowhere else. -/
theorem mirrors_scanPublish : Mirrors scanPublish
    (andThen (readCommandPair 0x05) fun _ => readPublishType) OverlongPublish := by
  refine Refines.congr (.bind (mirrors_scanCommand 0x05) fun _ _ _ _ _ => mirrors_scanPublishType)
    (fun q => or_congr Iff.rfl ?_) fun q _ => rfl
  constructor
  · rintro ⟨r, _, hr, q', rfl, hlong⟩
    obtain ⟨hname, hq⟩ := readCommandPair_ok.mp hr
    exact ⟨r.1, r.2, q', hname, hq, hlong⟩
  · intro ⟨commandName, transactionId, q', hname, hq, hlong⟩
    exact ⟨(commandName, transactionId), _, readCommandPair_ok.mpr ⟨hname, hq⟩, q', rfl, hlong⟩

/-- What stands in front of the entries is read outside the buffer where one of its two
strings is overlong. -/
theorem mirrors_scanOpening : Mirrors scanOpening parseSetDataFrame OverlongOpening := by
  unfold scanOpening
  refine Refines.congr (.bind (mirrors_scanExpect 0x02) fun _ _ _ _ _ =>
    .bind mirrors_scanString fun command _ _ _ _ =>
    .bind (mirrors_scanExpect 0x02) fun _ _ _ _ _ =>
    .bind mirrors_scanString fun content _ _ _ _ =>
    .bind (mirrors_scanExpect 0x08) fun _ _ _ _ _ =>
    .bind (mirrors_scanNumber (by decide)) fun n _ _ _ _ =>
    .ite (fun _ => mirrors_giveUp) fun _ => .pure _) (fun q => ?_) fun q _ => ?_
  · simp only [expectUnit_ok, and_false, exists_false, or_false, false_or, exists_const]
    constructor
    · rintro ⟨q1, rfl, hlong | ⟨command, q2, hread, q3, rfl, hlong⟩⟩
      · exact Or.inl ⟨q1, rfl, hlong⟩
      · obtain ⟨hcommand, rfl⟩ := readString_cons_iff.mp hread
        exact Or.inr ⟨command, q3, hcommand, rfl, hlong⟩
    · rintro (⟨q1, rfl, hlong⟩ | ⟨command, q3, hcommand, rfl, hlong⟩)
      · exact ⟨q1, rfl, Or.inl hlong⟩
      · exact ⟨_, rfl, Or.inr ⟨command, _, readString_cons_iff.mpr ⟨hcommand, rfl⟩, q3, rfl,
          hlong⟩⟩
  · unfold parseSetDataFrame
    simp only [andThen_expect]
    simp only [andThen_bind, Parse.throw_eq, Parse.pure_eq, Parse.error_bind]

/-! ## The entries of a `SetDataFrame` -/

/-- The value behind a key, as `parseEntry` has it, for a parser of its own. -/
def parseEntryValue (key : Bytes) : Bytes → Parse (Property × Bytes)
  | [] => .error .minusOne
  | c :: q =>
    if c = 0x00 then
      andThen (be2se 8) (fun value q => .ok ((key, .valueNum (UInt64.ofNat value)), q)) q
    else if c = 0x01 then
      match q with
      | [] => .error .minusOne
      | value :: q => .ok ((key, .value0x01 value), q)
    else if c = 0x02 then andThen readString (fun value q => .ok ((key, .valueString value), q)) q
    else .error .minusOne

/-- An entry is a key, and the value behind it. -/
theorem parseEntry_eq : parseEntry = andThen readString parseEntryValue := by
  funext q
  unfold parseEntry
  cases h1 : readString q with
  | error e =>
    rw [andThen_error h1]
    rfl
  | ok r1 =>
  obtain ⟨key, q1⟩ := r1
  rw [andThen_ok h1, Parse.ok_bind]
  cases q1 with
  | nil => rfl
  | cons c q1 =>
    dsimp only [parseEntryValue]
    by_cases h0 : c = 0x00
    · rw [if_pos h0, if_pos h0]
      cases hnum : be2se 8 q1 with
      | error e =>
        rw [andThen_error hnum]
        rfl
      | ok r =>
        rw [andThen_ok hnum]
        rfl
    rw [if_neg h0, if_neg h0]
    by_cases hflag : c = 0x01
    · rw [if_pos hflag, if_pos hflag]
      cases q1 with
      | nil => rfl
      | cons value q1 => rfl
    rw [if_neg hflag, if_neg hflag]
    by_cases hstring : c = 0x02
    · rw [if_pos hstring, if_pos hstring]
      cases hs : readString q1 with
      | error e =>
        rw [andThen_error hs]
        rfl
      | ok r =>
        rw [andThen_ok hs]
        rfl
    · rw [if_neg hstring, if_neg hstring]
      rfl

/-- A number as a value never goes outside. -/
theorem mirrors_scanEntryNum (key : Bytes) : Mirrors (scanEntryNum key)
    (fun q => parseEntryValue key (0x00 :: q)) (fun _ => False) :=
  Refines.congr (.bind (mirrors_scanNumber (by decide)) fun value _ _ _ _ => .pure _)
    (fun q => by simp) fun q _ => rfl

/-- Nor does a flag, which is checked to be there. -/
theorem mirrors_scanEntryFlag (key : Bytes) : Mirrors (scanEntryFlag key)
    (fun q => parseEntryValue key (0x01 :: q)) (fun _ => False) := by
  refine Refines.congr (.fitsRead Nat.one_pos fun value _ => .pure _) (fun q => by simp)
    fun q _ => ?_
  cases q with
  | nil => rfl
  | cons value q => rfl

/-- A string as a value goes outside where it is overlong. -/
theorem mirrors_scanEntryString (key : Bytes) : Mirrors (scanEntryString key)
    (fun q => parseEntryValue key (0x02 :: q)) OverlongString :=
  Refines.congr (.bind mirrors_scanString fun value _ _ _ _ => .pure _)
    (fun q => by simp) fun q _ => rfl

/-- The value of an entry goes outside where it is an overlong string. -/
theorem mirrors_scanEntryValue (key : Bytes) : Mirrors (scanEntryValue key) (parseEntryValue key)
    OverlongCommand := by
  unfold scanEntryValue
  refine Refines.congr (.look fun c => .ite (fun _ => .skipThen (mirrors_scanEntryNum key)) fun _ =>
    .ite (fun _ => .skipThen (mirrors_scanEntryFlag key)) fun _ =>
      .ite (fun _ => .skipThen (mirrors_scanEntryString key)) fun _ => mirrors_giveUp)
    (fun q => ?_) fun q _ => ?_
  · constructor
    · rintro ⟨c, q', rfl, h⟩
      simp only [and_false, false_or, or_false, List.singleton_inj, List.drop_succ_cons,
        List.drop_zero] at h
      exact ⟨q', by rw [h.2.2.1], h.2.2.2⟩
    · rintro ⟨q', rfl, hlong⟩
      refine ⟨0x02, q', rfl, Or.inr ⟨by decide, Or.inr ⟨by decide, Or.inl ⟨rfl, ?_⟩⟩⟩⟩
      exact hlong
  · cases q with
    | nil => rfl
    | cons c q =>
      simp only [List.singleton_inj, List.drop_succ_cons, List.drop_zero]
      by_cases h0 : c = 0x00
      · rw [if_pos h0, h0]
      rw [if_neg h0]
      by_cases h1 : c = 0x01
      · rw [if_pos h1, h1]
      rw [if_neg h1]
      by_cases h2 : c = 0x02
      · rw [if_pos h2, h2]
      rw [if_neg h2]
      dsimp only [parseEntryValue]
      rw [if_neg h0, if_neg h1, if_neg h2]

/-- An entry goes outside where its key is overlong or, behind its key, its value. -/
theorem mirrors_scanEntry : Mirrors scanEntry parseEntry OverlongEntry := by
  rw [parseEntry_eq]
  refine Refines.congr (.bind mirrors_scanString fun key _ _ _ _ => mirrors_scanEntryValue key)
    (fun q => or_congr Iff.rfl ?_) fun q _ => rfl
  constructor
  · rintro ⟨key, q1, hkey, q', rfl, hlong⟩
    obtain ⟨hshort, hq⟩ := readString_cons_iff.mp hkey
    exact ⟨key, q', hshort, hq, hlong⟩
  · intro ⟨key, q', hshort, hq, hlong⟩
    exact ⟨key, _, readString_cons_iff.mpr ⟨hshort, hq⟩, q', rfl, hlong⟩

/-- The entries alone, without the list that they go to. -/
def readEntries : Nat → Bytes → Parse (List Property × Bytes)
  | 0 => fun q => .ok ([], q)
  | count + 1 => andThen parseEntry fun kv =>
    andThen (readEntries count) fun kvs q => .ok (kv :: kvs, q)

/-- So do the entries, up to the first one that does. -/
theorem mirrors_scanEntries (count : Nat) :
    Mirrors (scanEntries count) (readEntries count) (OverlongEntries count) := by
  induction count with
  | zero =>
    refine Refines.congr (.pure []) (fun q => ⟨False.elim, ?_⟩) fun q _ => rfl
    rintro ⟨entries, q', hlt, -⟩
    exact absurd hlt (Nat.not_lt_zero _)
  | succ count ih =>
    refine Refines.congr (.bind mirrors_scanEntry fun kv _ _ _ _ =>
      .bind ih fun kvs _ _ _ _ => .pure _) (fun q => ?_) fun q _ => rfl
    rw [overlongEntries_succ]
    simp only [and_false, exists_false, or_false]

/-- And the whole payload: in the opening, or in one of the entries that it announces. -/
theorem mirrors_scanSetDataFrame : Mirrors scanSetDataFrame
    (andThen parseSetDataFrame readEntries) OverlongSetDataFrame := by
  refine Refines.congr (.bind mirrors_scanOpening fun count _ _ _ _ => mirrors_scanEntries count)
    (fun q => or_congr Iff.rfl ?_) fun q _ => rfl
  constructor
  · intro ⟨count, q', hopening, hlong⟩
    obtain ⟨command, content, hq, hcommand, hcontent, h0, hlt⟩ := parseSetDataFrame_iff.mp hopening
    exact ⟨command, content, count, q', hcommand, hcontent, h0, hlt, hq, hlong⟩
  · intro ⟨command, content, count, q', hcommand, hcontent, h0, hlt, hq, hlong⟩
    exact ⟨count, q', parseSetDataFrame_iff.mpr ⟨command, content, hq, hcommand, hcontent, h0, hlt⟩,
      hlong⟩

end RtmpServer
