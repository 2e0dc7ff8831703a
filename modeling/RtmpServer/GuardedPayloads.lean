import RtmpServer.PayloadScan
import RtmpServer.ControlChunks

/-!
# Payloads that are guarded

`Received.scan` is what a `read_payload` does once the message is in the buffer,
with a log. Where it stays inside the buffer it is the parser without a pointer:
`scan_parse`. `payload_guarded_iff`: on the payloads of `Received.Overlong`
something behind the end is read, or a string that goes on there is not refused,
and on no others.
-/

namespace RtmpServer

open Coroutine Coroutine.Prog Endian Cursor

/-! ## The eight `read_payload` -/

/-- The log, and the return value of a parser that stops with `-1` only. -/
def finish {α : Type} : List Event × Except Unit (α × Nat) → List Event × Option Int
  | (log, .ok _) => (log, some 0)
  | (log, .error ()) => (log, some (-1))

/-- `ConnectMessage::read_payload` behind its headers: the command, and the object that
`read_object` reads. -/
def scanConnect (object : List Property) (b : Bytes) (p : Nat) : List Event × Option Int :=
  match scanCommand 0x03 b p with
  | (log, .error ()) => (log, some (-1))
  | (log, .ok (_, p')) =>
    let r := scanObject b p' object
    (log ++ r.1, r.2.map fun o => if o.1 = -1 then -1 else 0)

/-- What `read_payload` does with the buffer, from behind the headers on. There is
no return value where it throws. -/
def Received.scan (type : Received) (message : IoMessage) (b : Bytes) (p : Nat) :
    List Event × Option Int :=
  match type with
  | connectMessage => scanConnect message.object b p
  | publish => finish (scanPublish b p)
  | setDataFrame => finish (scanSetDataFrame b p)
  | checkBw | unknownMessage => ([], some 0)
  | releaseStream | fcPublish | createStream | getStreamLength | playCommandMessage =>
    finish (scanCommand 0x05 b p)

/-! ## The return values -/

/-- What a parser returns: 0, -1, or nothing where it has undefined behaviour. -/
def returned {α : Type} : Parse α → Option Int
  | .ok _ => some 0
  | .error .minusOne => some (-1)
  | .error .undefined => none

/-- The return value of the loop over the entries does not depend on the list that they are
appended to. -/
theorem parseEntries_returned (count : Nat) : ∀ (q : Bytes) (frame : List Property),
    (parseEntries count q frame).map Prod.fst = returned (readEntries count q) := by
  induction count with
  | zero => intro q frame; rfl
  | succ count ih =>
    intro q frame
    rw [parseEntries, readEntries]
    cases hentry : parseEntry q with
    | error e =>
      rw [andThen_error hentry]
      cases e with
      | minusOne => rfl
      | undefined => rfl
    | ok r =>
      obtain ⟨kv, q'⟩ := r
      rw [andThen_ok hentry]
      dsimp only
      rw [ih]
      cases hentries : readEntries count q' with
      | error e => rw [andThen_error hentries]
      | ok r =>
        rw [andThen_ok hentries]
        rfl

/-! ## The payloads that are not guarded -/

/-- Nothing behind the end is read, and a string that goes on there is refused. -/
def Guarded (size : Nat) (r : List Event × Option Int) : Prop :=
  InBounds size r.1 ∧ (¬ Fits size r.1 → r.2 = some (-1))

/-- To return changes nothing of what was read. -/
theorem finish_log {α : Type} (r : List Event × Except Unit (α × Nat)) : (finish r).1 = r.1 := by
  obtain ⟨log, result⟩ := r
  cases result with
  | error e => rfl
  | ok r => rfl

/-- A payload parser is guarded exactly where the scan stays inside: it refuses every string
that is not all there. -/
theorem finish_guarded_iff {α : Type} {m : Scan UInt8 Unit α} {f : Bytes → Parse (α × Bytes)}
    {S : Bytes → Prop} (hm : Mirrors m f S) (b : Bytes) (p : Nat) :
    Guarded b.length (finish (m b p)) ↔ ¬ S (b.drop p) := by
  rw [Guarded, finish_log, hm.inBounds]
  refine and_iff_left_of_imp fun hS hfits => ?_
  have houtcome := hm.outcome b p hS
  rcases hm.fits b p hS with hfits' | ⟨e, he, -⟩
  · exact absurd hfits' hfits
  · rw [he] at houtcome
    cases hmb : m b p with
    | mk log result =>
      rw [hmb] at houtcome
      cases result with
      | error e => rfl
      | ok r => cases houtcome

/-- Where nothing is read outside, the parser returns what the model does. -/
theorem finish_returned {α : Type} {m : Scan UInt8 Unit α} {f : Bytes → Parse (α × Bytes)}
    {S : Bytes → Prop} (hm : Mirrors m f S) {b : Bytes} {p : Nat}
    (h : InBounds b.length (finish (m b p)).1) :
    (finish (m b p)).2 = returned (f (b.drop p)) := by
  rw [finish_log, hm.inBounds] at h
  rw [← hm.outcome b p h]
  cases m b p with
  | mk log result =>
    cases result with
    | error e => rfl
    | ok r => rfl

/-- `read_object` throws behind the command of a `connect`, or reads a flag that is
not there. -/
def OverlongConnect (q : Bytes) : Prop :=
  OverlongCommand q ∨ ∃ commandName transactionId q', Short commandName ∧
    q = commandFront commandName transactionId 0x03 ++ q' ∧ Trouble (fun n q => q.length < n) q'

/-- The object of a connect message: guarded where there is no flag at the end, and no
negative size with less behind it than it says. -/
theorem scanObject_guarded_iff (b : Bytes) (p : Nat) (object : List Property) :
    Guarded b.length ((scanObject b p object).1,
        (scanObject b p object).2.map fun o => if o.1 = -1 then -1 else 0) ↔
      ¬ Trouble (fun n q => q.length < n) (b.drop p) := by
  rw [← scanObject_iff (E := Fits b.length) (fun log log' hlog => ?_) (fun p n q hq => ?_) p object]
  · refine and_congr_right fun hin => ?_
    obtain ⟨hread, hzero⟩ := scanObject_readObject p object hin
    cases hr : (scanObject b p object).2 with
    | none =>
      exact ⟨fun h _ => Classical.not_not.mp fun hfits => (nomatch h hfits),
        fun h hfits => absurd (h rfl) hfits⟩
    | some r =>
      obtain ⟨rc, object'⟩ := r
      rw [hr] at hread hzero
      refine ⟨fun _ hnone => (nomatch hnone), fun _ hfits => ?_⟩
      rcases readObject_rc hread.symm with h0 | h1
      · exact absurd (hzero object' (by rw [h0])) hfits
      · rw [h1]
        rfl
  · rw [fits_append]
    exact and_iff_right hlog
  · have hcons : [Event.read p 2, .announced (p + 2) n]
        = [.read p 2] ++ [.announced (p + 2) n] := rfl
    have hdrop : b.drop (p + 2) = q := by
      rw [← List.drop_drop, hq, List.drop_left' (beBytes_length 2 n)]
    rw [hcons, fits_append, and_iff_right (fits_read _ _ _), fits_announced, inside_iff, hdrop,
      Nat.not_lt]

/-- A connect message is guarded unless its name or something in its object is overlong. -/
theorem scanConnect_guarded_iff (object : List Property) (b : Bytes) (p : Nat) :
    Guarded b.length (scanConnect object b p) ↔ ¬ OverlongConnect (b.drop p) := by
  have hcommand := mirrors_scanCommand 0x03
  have hin := hcommand.inBounds b p
  have houtcome := hcommand.outcome b p
  have hfits := hcommand.fits b p
  unfold scanConnect OverlongConnect
  cases hscan : scanCommand 0x03 b p with
  | mk log result =>
    rw [hscan] at hin houtcome hfits
    dsimp only at hin houtcome hfits
    cases result with
    | error e =>
      -- no command, and nothing behind it
      have hnone : ¬ OverlongCommand (b.drop p) → ¬
          ∃ commandName transactionId q', Short commandName ∧
          b.drop p = commandFront commandName transactionId 0x03 ++ q' ∧
          Trouble (fun n q => q.length < n) q' := by
        rintro hshort ⟨commandName, transactionId, q', hname, hq, -⟩
        have hpair : readCommandPair 0x03 (b.drop p) = .ok ((commandName, transactionId), q') :=
          readCommandPair_ok.mpr ⟨hname, hq⟩
        have herror := houtcome hshort
        rw [hpair] at herror
        cases herror
      rw [not_or, and_iff_left_of_imp hnone, ← hin]
      exact and_iff_left fun _ => rfl
    | ok r =>
      obtain ⟨⟨commandName, transactionId⟩, p'⟩ := r
      by_cases hshort : ¬ OverlongCommand (b.drop p)
      · have hpair : readCommandPair 0x03 (b.drop p) =
            .ok ((commandName, transactionId), b.drop p') :=
          (houtcome hshort).symm
        have hlog : Fits b.length log := by
          rcases hfits hshort with hlog | ⟨e, he, -⟩
          · exact hlog
          · rw [hpair] at he
            cases he
        obtain ⟨hname, hq⟩ := readCommandPair_ok.mp hpair
        have htrouble : (∃ commandName transactionId q', Short commandName ∧
            b.drop p = commandFront commandName transactionId 0x03 ++ q' ∧
            Trouble (fun n q => q.length < n) q') ↔
              Trouble (fun n q => q.length < n) (b.drop p') := by
          constructor
          · intro ⟨commandName', transactionId', q', hname', hq', htrouble⟩
            have hpair' : readCommandPair 0x03 (b.drop p) =
                .ok ((commandName', transactionId'), q') :=
              readCommandPair_ok.mpr ⟨hname', hq'⟩
            rw [hpair] at hpair'
            cases hpair'
            exact htrouble
          · exact fun htrouble => ⟨commandName, transactionId, b.drop p', hname, hq, htrouble⟩
        rw [not_or, htrouble, and_iff_right hshort, ← scanObject_guarded_iff b p' object, Guarded,
          Guarded, inBounds_append, and_iff_right (hin.mpr hshort), fits_append, and_iff_right hlog]
      · rw [Classical.not_not] at hshort
        refine ⟨fun h => absurd hshort (hin.mp (inBounds_append.mp h.1).1), fun h => ?_⟩
        exact absurd (Or.inl hshort) h

namespace Received

/-- The payloads in which a length says more than there is, and the code reads on. -/
def Overlong : Received → Bytes → Prop
  | connectMessage => OverlongConnect
  | publish => OverlongPublish
  | setDataFrame => OverlongSetDataFrame
  | checkBw | unknownMessage => fun _ => False
  | releaseStream | fcPublish | createStream | getStreamLength | playCommandMessage =>
    OverlongCommand

end Received

/-- The return value of the connect parser, step by step. -/
theorem parseConnect_returned (q : Bytes) (message : IoMessage) :
    (parseConnect q message).map Prod.fst = match readCommandPair 0x03 q with
      | .error e => returned (.error e : Parse (Unit × Bytes))
      | .ok (_, q') => (readObject q' message.object).map fun o => if o.1 = -1 then -1 else 0 := by
  unfold parseConnect readCommandPair
  cases readCommand 0x03 q with
  | error e =>
    cases e with
    | minusOne => rfl
    | undefined => rfl
  | ok r =>
    obtain ⟨commandName, transactionId, q'⟩ := r
    dsimp only [Except.map]
    cases readObject q' message.object with
    | none => rfl
    | some r =>
      obtain ⟨rc, object⟩ := r
      dsimp only [Option.map]
      by_cases h1 : rc = -1
      · rw [if_pos h1, if_pos h1]
      · rw [if_neg h1, if_neg h1]

/-- A parser that has stopped returns what its error says. -/
theorem parse_finish_error {α : Type} (e : Fail) (message : IoMessage) :
    (Parse.finish message (.error e)).map Prod.fst = returned (.error e : Parse α) := by
  cases e with
  | minusOne => rfl
  | undefined => rfl

/-- The return value of the commands' parser is that of the command's own fields. -/
theorem parseCommand_returned (q : Bytes) (message : IoMessage) :
    (parseCommand q message).map Prod.fst = returned (readCommandPair 0x05 q) := by
  unfold parseCommand readCommandPair
  cases readCommand 0x05 q with
  | error e => exact parse_finish_error e message
  | ok r => rfl

/-- That of the publish parser is settled by the fields it reads. -/
theorem parsePublish_returned (q : Bytes) (message : IoMessage) :
    (parsePublish q message).map Prod.fst
      = returned (andThen (readCommandPair 0x05) (fun _ => readPublishType) q) := by
  unfold parsePublish
  cases h : readCommand 0x05 q with
  | error e =>
    have hpair : readCommandPair 0x05 q = .error e := by
      rw [readCommandPair, h]
      rfl
    rw [andThen_error hpair]
    exact parse_finish_error e message
  | ok r =>
    obtain ⟨commandName, transactionId, q'⟩ := r
    have hpair : readCommandPair 0x05 q = .ok ((commandName, transactionId), q') := by
      rw [readCommandPair, h]
      rfl
    rw [andThen_ok hpair, Parse.ok_bind]
    dsimp only
    unfold readPublishType
    cases expect 0x02 q' with
    | error e => exact parse_finish_error e message
    | ok q1 =>
    rw [Parse.ok_bind, Parse.ok_bind]
    cases be2seLen q1 with
    | error e => exact parse_finish_error e message
    | ok r2 =>
    obtain ⟨len, q2⟩ := r2
    rw [Parse.ok_bind, Parse.ok_bind]
    dsimp only
    by_cases h0 : len ≠ 0
    · rw [if_pos h0, if_pos h0]
      rfl
    rw [if_neg h0, if_neg h0]
    cases expect 0x02 q2 with
    | error e => exact parse_finish_error e message
    | ok q3 =>
    rw [Parse.ok_bind, Parse.ok_bind]
    cases readString q3 with
    | error e => exact parse_finish_error e message
    | ok r => rfl

/-- That of the data parser is settled by the opening and the entries, wherever they are
stored. -/
theorem parse_setDataFrame_returned (q : Bytes) (s : State) :
    (Received.setDataFrame.parse q s).map Prod.fst
      = returned (andThen parseSetDataFrame readEntries q) := by
  rw [Received.parse]
  cases h : parseSetDataFrame q with
  | error e =>
    rw [andThen_error h]
    cases e with
    | minusOne => rfl
    | undefined => rfl
  | ok r =>
    obtain ⟨count, q'⟩ := r
    rw [andThen_ok h, ← parseEntries_returned count q' s.globals.setDataFrame]
    dsimp only
    rw [Option.map_map]
    rfl

/-- Where nothing is read outside, the connect parser with the log returns what the one
without it does. -/
theorem scanConnect_returned {object : List Property} {b : Bytes} {p : Nat}
    (h : InBounds b.length (scanConnect object b p).1) :
    (scanConnect object b p).2 = match readCommandPair 0x03 (b.drop p) with
      | .error e => returned (.error e : Parse (Unit × Bytes))
      | .ok (_, q') => (readObject q' object).map fun o => if o.1 = -1 then -1 else 0 := by
  have hcommand := mirrors_scanCommand 0x03
  have hin := hcommand.inBounds b p
  have houtcome := hcommand.outcome b p
  unfold scanConnect at h ⊢
  cases hscan : scanCommand 0x03 b p with
  | mk log result =>
    rw [hscan] at hin houtcome h
    cases result with
    | error e =>
      rw [← houtcome (hin.mp h)]
      rfl
    | ok r =>
      obtain ⟨hlog, hrest⟩ := inBounds_append.mp h
      rw [← houtcome (hin.mp hlog)]
      exact congrArg (Option.map fun o => if o.1 = -1 then -1 else 0)
        (scanObject_readObject _ _ hrest).1

/-- Where a scan stays inside the buffer it returns what the model returns. -/
theorem scan_parse (type : Received) (s : State) (p : Nat)
    (h : InBounds (s.buffer .ioBuffer).length
      (type.scan s.client.message (s.buffer .ioBuffer) p).1) :
    (type.scan s.client.message (s.buffer .ioBuffer) p).2
      = (type.parse ((s.buffer .ioBuffer).drop p) s).map Prod.fst := by
  have hmap : ∀ {x : Option (Int × IoMessage)},
      (x.map fun r => (r.1, s.setMessage r.2)).map Prod.fst = x.map Prod.fst := by
    intro x
    rw [Option.map_map]
    rfl
  have hcommand : InBounds (s.buffer .ioBuffer).length
        (finish (scanCommand 0x05 (s.buffer .ioBuffer) p)).1 →
      (finish (scanCommand 0x05 (s.buffer .ioBuffer) p)).2
        = ((parseCommand ((s.buffer .ioBuffer).drop p) s.client.message).map fun r =>
            (r.1, s.setMessage r.2)).map Prod.fst := by
    intro h
    rw [finish_returned (mirrors_scanCommand 0x05) h, hmap, parseCommand_returned]
  cases type with
  | connectMessage =>
    refine (scanConnect_returned h).trans ?_
    rw [← parseConnect_returned]
    exact hmap.symm
  | publish =>
    refine (finish_returned mirrors_scanPublish h).trans ?_
    rw [← parsePublish_returned _ s.client.message]
    exact hmap.symm
  | setDataFrame =>
    refine (finish_returned mirrors_scanSetDataFrame h).trans ?_
    rw [parse_setDataFrame_returned]
  | checkBw => rfl
  | unknownMessage => rfl
  | releaseStream => exact hcommand h
  | fcPublish => exact hcommand h
  | createStream => exact hcommand h
  | getStreamLength => exact hcommand h
  | playCommandMessage => exact hcommand h

/-- The connection to the session's code: where its scan stays inside the buffer,
`read_payload` behind the headers ends, and returns what the scan returns. -/
theorem wp_parsePayload_scan {ε : Type} {env : Env st ε} {s : State} {e : ε} (type : Received)
    (headerSize : Nat) {rc : Int} (h : InBounds (s.buffer .ioBuffer).length
      (type.scan s.client.message (s.buffer .ioBuffer) headerSize).1) :
    wp env (type.parsePayload headerSize) (fun rc' _ _ => rc' = rc) s e ↔
      (type.scan s.client.message (s.buffer .ioBuffer) headerSize).2 = some rc := by
  rw [Received.wp_parsePayload, scan_parse type s headerSize h, Option.map_eq_some_iff]
  constructor
  · rintro ⟨rc', t, hparse, rfl⟩
    exact ⟨(rc', t), hparse, rfl⟩
  · rintro ⟨⟨rc', t⟩, hparse, rfl⟩
    exact ⟨rc', t, hparse, rfl⟩

/-- A payload is guarded unless it is overlong: for each class, and for every buffer. -/
theorem payload_guarded_iff (type : Received) (message : IoMessage) (b : Bytes) (headerSize : Nat) :
    Guarded b.length (type.scan message b headerSize) ↔ ¬ type.Overlong (b.drop headerSize) := by
  cases type with
  | connectMessage => exact scanConnect_guarded_iff message.object b headerSize
  | publish => exact finish_guarded_iff mirrors_scanPublish b headerSize
  | setDataFrame => exact finish_guarded_iff mirrors_scanSetDataFrame b headerSize
  | checkBw =>
    exact ⟨fun _ h => h, fun _ => ⟨inBounds_nil _, fun hfits => absurd (fits_nil _) hfits⟩⟩
  | unknownMessage =>
    exact ⟨fun _ h => h, fun _ => ⟨inBounds_nil _, fun hfits => absurd (fits_nil _) hfits⟩⟩
  | _ => exact finish_guarded_iff (mirrors_scanCommand 0x05) b headerSize

/-- A `releaseStream` message: a header, and a payload of four bytes that announces
a name of five. -/
def releaseStreamOverlong : Bytes :=
  [0x03, 0x00, 0x00, 0x00, 0x00, 0x00, 0x04, 0x14, 0x00, 0x00, 0x00, 0x00,
    0x02, 0x00, 0x05, 0x61]

/-- The bytes behind the buffer are taken for the rest of the name. -/
theorem releaseStream_not_guarded :
    ¬ Guarded 16 (Received.releaseStream.scan {} releaseStreamOverlong 12) := by
  intro h
  refine (finish_guarded_iff (mirrors_scanCommand 0x05) releaseStreamOverlong 12).mp h ?_
  exact ⟨_, rfl, 5, [0x61], by decide, by decide, by decide, by decide⟩

end RtmpServer
