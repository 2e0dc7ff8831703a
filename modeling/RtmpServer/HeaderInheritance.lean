import RtmpServer.Broadcast

/-!
# Header inheritance

A header of fmt 1, 2 or 3 leaves fields of the record of its chunk stream as
earlier headers have set them. So a record is what all the headers that were
heard on the chunk stream have made of it, one after the other: `record`.

`Reception` is receives in a row, accepted or not, with what the session does
between them. Two results follow from `Reception.recorded`, the invariant of
such runs. `header_inheritance`: once a chunk stream has had a fmt 0 header, its
record holds the fields of the latest headers that carry them, and an accepted
message has the length of the record. `carried_of_prepared`: no field comes from
the initial -1 as long as every inheriting header finds a fmt 0 header before
it, which only fmt 3 headers are checked for.
-/

namespace RtmpServer

open Coroutine Coroutine.Prog Framing

/-! ## Receives in a row -/

/-- A record but for the header length, which the publisher loop stores and no header says. -/
def MessageHeader.content (m : MessageHeader) : MessageHeader := { m with headerLength := 0 }

/-- What happens between two receives: the buffer is cleared, no record goes,
and none changes but for its header length. -/
structure Between (s s' : State) : Prop where
  buffer : s'.buffer .audioVideoBuffer = []
  present : ∀ csid, s.globals.csidHeader csid ≠ none → s'.globals.csidHeader csid ≠ none
  content : ∀ csid, (s'.globals.header csid).content = (s.globals.header csid).content

/-- Nothing but the clearing of the buffer, say, which the loop does after each message. -/
theorem Between.clear (s : State) : Between s (s.setBuffer .audioVideoBuffer []) where
  buffer := State.buffer_setBuffer ..
  present _ h := h
  content _ := rfl

/-- Or what the publisher loop does with a message, accepted or not, which is to store its
header length and to fill a slot. -/
theorem Between.publish (s : State) (headerLength : Nat) :
    Between s (State.setBuffer ⟨Broadcast.publish s headerLength, s.client⟩ .audioVideoBuffer [])
    where
  buffer := State.buffer_setBuffer ..
  present csid h := by
    show (if csid = s.globals.currCsid then _ else s.globals.csidHeader csid) ≠ none
    by_cases hc : csid = s.globals.currCsid
    · rw [if_pos hc]
      exact Option.some_ne_none _
    · rw [if_neg hc]
      exact h
  content csid := by
    show MessageHeader.content ((Broadcast.publish s headerLength).header csid) = _
    rw [Broadcast.header_publish]
    by_cases hc : csid = s.globals.currCsid
    · rw [hc, Globals.header_setHeader]
      rfl
    · rw [Globals.header_setHeader_ne _ _ hc]

/-- Receives one after the other from `s₀`, with the bytes that each has taken,
the latest first. -/
inductive Reception {ε : Type} (env : Env st ε) (inp : ε → Bytes) (s₀ : State) :
    List Bytes → State → Prop where
  | nil : Reception env inp s₀ [] s₀
  | cons {ps : List Bytes} {p : Bytes} {s s1 s' : State} {e e' : ε} {r : Int × Nat × Nat} :
    Reception env inp s₀ ps s → Between s s1 → Runs env recvAudioVideo s1 e r s' e' →
    inp e' = inp e ++ p → Reception env inp s₀ (p :: ps) s'

/-! ## What they make of a record -/

/-- What `p` says, if it is of this chunk stream, and nothing otherwise. -/
def heardBy (csid : Int) (p : Bytes) : Option Heard :=
  (heard p).bind fun x => if x.1 = csid then some x.2 else none

/-- What was heard on a chunk stream, the latest first, from all that has been received. -/
def heardOn (csid : Int) (ps : List Bytes) : List Heard := ps.filterMap (heardBy csid)

/-- What that makes of a record, in the order of time, that is from the last of the list to
the first. -/
def record (hs : List Heard) (m : MessageHeader) : MessageHeader := hs.foldr Heard.entry m

/-- A fmt 0 header is among them, so that every field has been said at some time. -/
def HasFmt0 (hs : List Heard) : Prop := ∃ x ∈ hs, x.header.fmt = 0

instance (hs : List Heard) : Decidable (HasFmt0 hs) :=
  inferInstanceAs (Decidable (∃ x ∈ hs, _))

theorem hasFmt0_cons {x : Heard} {hs : List Heard} :
    HasFmt0 (x :: hs) ↔ x.header.fmt = 0 ∨ HasFmt0 hs := by
  simp [HasFmt0]

namespace Heard

/-- The header length is not looked at, so it makes no difference to what a header makes of
a record. -/
theorem entry_content (x : Heard) (m : MessageHeader) :
    (x.entry m).content = (x.entry m.content).content := by
  cases x with
  | whole h => cases h <;> rfl
  | cut h => cases h <;> rfl

/-- A fmt 0 header sets all the rest, whatever was there. -/
theorem entry_fmt0 {x : Heard} (h : x.header.fmt = 0) (m m' : MessageHeader) :
    (x.entry m).content = (x.entry m').content := by
  cases x with
  | whole h' =>
    cases h' with
    | fmt0 t length type streamId => rfl
    | _ => cases h
  | cut h' =>
    cases h' with
    | fmt0 t length type streamId => rfl
    | _ => cases h

theorem take_some (x : Heard) (m : MessageHeader) : x.take (some m) = some (x.entry m) := by
  cases x with
  | whole h => cases h <;> rfl
  | cut h => rfl

theorem take_fmt0 {x : Heard} (h : x.header.fmt = 0) (m : Option MessageHeader) :
    x.take m = some (x.entry (m.getD {})) := by
  cases x with
  | whole h' =>
    cases h' with
    | fmt0 t length type streamId => rfl
    | _ => cases h
  | cut h' => rfl

end Heard

/-- A record of which a fmt 0 header is known is what the headers say. -/
structure Recorded (hs : List Heard) (entry : Option MessageHeader) : Prop where
  present : entry ≠ none
  content : ∀ m, (entry.getD {}).content = (record hs m).content

theorem Recorded.take {hs : List Heard} {m : Option MessageHeader} (h : Recorded hs m) (x : Heard) :
    Recorded (x :: hs) (x.take m) := by
  obtain ⟨m', hm'⟩ := Option.ne_none_iff_exists'.mp h.present
  subst hm'
  rw [x.take_some]
  refine ⟨Option.some_ne_none _, fun m₀ => ?_⟩
  have hcontent : m'.content = (record hs m₀).content := h.content m₀
  show (x.entry m').content = (x.entry (record hs m₀)).content
  rw [x.entry_content, hcontent, ← x.entry_content]

theorem recorded_fmt0 {x : Heard} (h : x.header.fmt = 0) (hs : List Heard)
    (m : Option MessageHeader) : Recorded (x :: hs) (x.take m) := by
  rw [Heard.take_fmt0 h]
  exact ⟨Option.some_ne_none _, fun m₀ => Heard.entry_fmt0 h _ _⟩

theorem Recorded.between {hs : List Heard} {csid : Int} {s s' : State} (hbetween : Between s s')
    (h : Recorded hs (s.globals.csidHeader csid)) : Recorded hs (s'.globals.csidHeader csid) :=
  ⟨hbetween.present csid h.present, fun m => (hbetween.content csid).trans (h.content m)⟩

theorem takeIn_heard (csid : Int) (p : Bytes) (entries : Int → Option MessageHeader) :
    takeIn (heard p) entries csid
      = match heardBy csid p with
        | none => entries csid
        | some x => x.take (entries csid) := by
  unfold heardBy
  cases heard p with
  | none => rfl
  | some x =>
    show (if csid = x.1 then _ else _) = _
    by_cases hc : csid = x.1
    · rw [if_pos hc, Option.bind_some, if_pos hc.symm]
    · rw [if_neg hc, Option.bind_some, if_neg (Ne.symm hc)]

/-- One receive: the record of each chunk stream is what has been heard on it, that of this
receive included. -/
theorem recorded_receive {csid : Int} {p : Bytes} {ps : List Bytes} {s s' : State}
    {r : Int × Nat × Nat} (hrecv : ReceiveLeaves s p r s')
    (ih : HasFmt0 (heardOn csid ps) → Recorded (heardOn csid ps) (s.globals.csidHeader csid))
    (h0 : HasFmt0 (heardOn csid (p :: ps))) :
    Recorded (heardOn csid (p :: ps)) (s'.globals.csidHeader csid) := by
  rw [hrecv.entries, takeIn_heard]
  cases hx : heardBy csid p with
  | none =>
    have hon : heardOn csid (p :: ps) = heardOn csid ps := List.filterMap_cons_none hx
    rw [hon] at h0 ⊢
    exact ih h0
  | some x =>
    have hon : heardOn csid (p :: ps) = x :: heardOn csid ps := List.filterMap_cons_some hx
    rw [hon, hasFmt0_cons] at h0
    rw [hon]
    rcases h0 with hfmt | hearlier
    · exact recorded_fmt0 hfmt _ _
    · exact (ih hearlier).take x

section

variable {ε : Type} {env : Env st ε} {inp : ε → Bytes} {s₀ s s1 s' : State} {e e' : ε}
  {r : Int × Nat × Nat} {p : Bytes} {ps : List Bytes}

theorem receiveLeaves_of_runs (hin : Reads env inp) (hbetween : Between s s1)
    (hrun : Runs env recvAudioVideo s1 e r s' e') (hp : inp e' = inp e ++ p) :
    ReceiveLeaves s1 p r s' := by
  obtain ⟨q, hq, hrecv⟩ := wlp_recvAudioVideo_heard account_came hbetween.buffer _ _ _ hrun
  rw [← hq.unique hin hp]
  exact hrecv

/-- In every run, a record of which a fmt 0 header is known is what the headers say. -/
theorem Reception.recorded (hin : Reads env inp) (hrun : Reception env inp s₀ ps s) (csid : Int)
    (h0 : HasFmt0 (heardOn csid ps)) : Recorded (heardOn csid ps) (s.globals.csidHeader csid) := by
  induction hrun with
  | nil =>
    obtain ⟨x, hx, _⟩ := h0
    cases hx
  | cons _ hbetween hrecv hp ih =>
    exact recorded_receive (receiveLeaves_of_runs hin hbetween hrecv hp)
      (fun h => (ih h).between hbetween) h0

end

/-! ## The latest headers -/

/-- The message length and type that a header carries, if it is of fmt 0 or 1. -/
def ChunkHeader.lengthType : ChunkHeader → Option (BitVec 24 × UInt8)
  | .fmt0 _ length type _ => some (length, type)
  | .fmt1 _ length type => some (length, type)
  | _ => none

/-- The stream id that it carries, if it is of fmt 0. -/
def ChunkHeader.streamId : ChunkHeader → Option (BitVec 32)
  | .fmt0 _ _ _ streamId => some streamId
  | _ => none

/-- What the latest header that carries something says, among those that were heard. -/
def latest {α : Type} (field : ChunkHeader → Option α) (hs : List Heard) : Option α :=
  hs.findSome? fun x => field x.header

/-- A record with the message length, type and stream id that were said last. -/
structure Latest (hs : List Heard) (m : MessageHeader) : Prop where
  lengthType : ∃ length, latest ChunkHeader.lengthType hs = some (length, m.messageType) ∧
    m.messageLength = length.toNat
  streamId : latest ChunkHeader.streamId hs = some m.streamId

theorem Latest.content {hs : List Heard} {m : MessageHeader} (h : Latest hs m.content) :
    Latest hs m := ⟨h.lengthType, h.streamId⟩

/-- A fmt 0 header says all three of them, and is the latest for each. -/
theorem latest_fmt0 {x : Heard} (h : x.header.fmt = 0) (hs : List Heard) (m : MessageHeader) :
    Latest (x :: hs) (x.entry m) := by
  cases x with
  | whole h' =>
    cases h' with
    | fmt0 t length type streamId => exact ⟨⟨length, rfl, rfl⟩, rfl⟩
    | _ => cases h
  | cut h' =>
    cases h' with
    | fmt0 t length type streamId => exact ⟨⟨length, rfl, rfl⟩, rfl⟩
    | _ => cases h

/-- Any other leaves those that it does not say, which an earlier header has said. -/
theorem Latest.cons {hs : List Heard} {m : MessageHeader} (h : Latest hs m) (x : Heard) :
    Latest (x :: hs) (x.entry m) := by
  cases x with
  | whole h' =>
    cases h' with
    | fmt0 t length type streamId => exact ⟨⟨length, rfl, rfl⟩, rfl⟩
    | fmt1 t length type => exact ⟨⟨length, rfl, rfl⟩, h.streamId⟩
    | fmt2 t => exact ⟨h.lengthType, h.streamId⟩
    | fmt3 => exact ⟨h.lengthType, h.streamId⟩
  | cut h' =>
    cases h' with
    | fmt0 t length type streamId => exact ⟨⟨length, rfl, rfl⟩, rfl⟩
    | fmt1 t length type => exact ⟨⟨length, rfl, rfl⟩, h.streamId⟩
    | fmt2 t => exact ⟨h.lengthType, h.streamId⟩
    | fmt3 => exact ⟨h.lengthType, h.streamId⟩

theorem latest_record {hs : List Heard} (h0 : HasFmt0 hs) (m : MessageHeader) :
    Latest hs (record hs m) := by
  induction hs with
  | nil =>
    obtain ⟨x, hx, _⟩ := h0
    cases hx
  | cons x hs ih =>
    rcases hasFmt0_cons.mp h0 with hfmt | hearlier
    · exact latest_fmt0 hfmt hs _
    · exact (ih hearlier).cons x

theorem Recorded.latest {hs : List Heard} {entry : Option MessageHeader} (h : Recorded hs entry)
    (h0 : HasFmt0 hs) : ∃ m, entry = some m ∧ Latest hs m := by
  obtain ⟨m, hm⟩ := Option.ne_none_iff_exists'.mp h.present
  subst hm
  refine ⟨m, rfl, Latest.content ?_⟩
  have hcontent : m.content = (record hs {}).content := h.content {}
  rw [hcontent]
  have hlatest := latest_record h0 ({} : MessageHeader)
  exact ⟨hlatest.lengthType, hlatest.streamId⟩

section

variable {ε : Type} {env : Env st ε} {inp : ε → Bytes} {s₀ s s1 s' : State} {e e' : ε}
  {p : Bytes} {ps : List Bytes}

/-- After a message that was accepted: the records say what was said last, those
of the other chunk streams are as they were, and the buffer holds the header and
as many bytes as the record of the message says. -/
theorem header_inheritance (hin : Reads env inp) {bhSize mhSize : Nat}
    (hrun : Reception env inp s₀ ps s) (hbetween : Between s s1)
    (hrecv : Runs env recvAudioVideo s1 e (0, bhSize, mhSize) s' e') (hp : inp e' = inp e ++ p) :
    (∃ h, heard p = some (s'.globals.currCsid, .whole h)) ∧
      (∀ csid, HasFmt0 (heardOn csid (p :: ps)) →
        ∃ m, s'.globals.csidHeader csid = some m ∧ Latest (heardOn csid (p :: ps)) m) ∧
      (∀ csid, csid ≠ s'.globals.currCsid →
        s'.globals.csidHeader csid = s1.globals.csidHeader csid) ∧
      (HasFmt0 (heardOn s'.globals.currCsid (p :: ps)) →
        ((s'.buffer .audioVideoBuffer).length : Int)
          = bhSize + mhSize + (s'.globals.header s'.globals.currCsid).messageLength) := by
  have hleaves := receiveLeaves_of_runs hin hbetween hrecv hp
  have hrecorded : ∀ csid, HasFmt0 (heardOn csid (p :: ps)) →
      ∃ m, s'.globals.csidHeader csid = some m ∧ Latest (heardOn csid (p :: ps)) m :=
    fun csid h0 => ((hrun.cons hbetween hrecv hp).recorded hin csid h0).latest h0
  obtain ⟨h, haccepted⟩ : ∃ h, Accepted s1 p h s' := by
    rcases hleaves.result with hfail | ⟨-, haccepted⟩
    · cases hfail
    · exact haccepted
  refine ⟨⟨h, haccepted.heard⟩, hrecorded, fun csid hne => ?_, fun h0 => ?_⟩
  · rw [hleaves.entries, haccepted.heard]
    exact if_neg hne
  · obtain ⟨m, hm, hlatest⟩ := hrecorded _ h0
    obtain ⟨length, -, hlength⟩ := hlatest.lengthType
    have hheader : s'.globals.header s'.globals.currCsid = m := by
      rw [Globals.header, hm, Option.getD_some]
    have hentry : h.received (s1.globals.header s'.globals.currCsid) = m :=
      Option.some.inj (haccepted.entry.symm.trans hm)
    obtain ⟨hdr, more, payload, -, hhdr, hbuffer, hunframe⟩ := haccepted.body
    have hpayload : payload.length = length.toNat := by
      have hread := unframe_payload_length (hunframe [])
      rwa [hentry, hlength, Int.toNat_natCast] at hread
    have hsize : bhSize + mhSize = headerSize p := hleaves.size
    rw [hbuffer, hheader, hlength, List.length_append, hhdr, hpayload, ← hsize, Int.natCast_add,
      Int.natCast_add]

end

/-- A video message with a fmt 0 header, and the next one with a fmt 3 header. -/
def videoMessages : List Answer :=
  [.bytes [0x06], .bytes [0, 0, 20, 0, 0, 1, 9, 1, 0, 0, 0], .bytes [7], .bytes [0xC6], .bytes [8]]

/-- What the first message took, byte for byte. -/
def firstMessage : Bytes := [0x06, 0, 0, 20, 0, 0, 1, 9, 1, 0, 0, 0, 7]

/-- Both are accepted, one in each round of the publisher loop, with what was received in
each. -/
theorem videoMessages_received :
    ∃ s s' e e', Reception (replay answer) (fun e => e.2.flatMap readBytes) {} [firstMessage] s ∧
      Runs (replay answer) recvAudioVideo
        (State.setBuffer ⟨Broadcast.publish s 12, s.client⟩ .audioVideoBuffer [])
          e (0, 1, 0) s' e' ∧
      e'.2.flatMap readBytes = e.2.flatMap readBytes ++ [0xC6, 8] := by
  have hexec : ((exec (replay answer) 30 recvAudioVideo {} (videoMessages, [])).bind fun first =>
      (exec (replay answer) 30 recvAudioVideo
        (State.setBuffer ⟨Broadcast.publish first.2.1 12, first.2.1.client⟩ .audioVideoBuffer [])
        first.2.2).map fun second => (first.1, first.2.2.2.flatMap readBytes, second.1,
          second.2.2.2.flatMap readBytes))
      = some ((0, 1, 11), firstMessage, (0, 1, 0), firstMessage ++ [0xC6, 8]) := rfl
  obtain ⟨⟨r, s, e⟩, hfirst, hrest⟩ := Option.bind_eq_some_iff.mp hexec
  obtain ⟨⟨r', s', e'⟩, hsecond, heq⟩ := Option.map_eq_some_iff.mp hrest
  obtain ⟨rfl, heq⟩ := Prod.mk.inj heq
  obtain ⟨hfirstBytes, heq⟩ := Prod.mk.inj heq
  obtain ⟨rfl, hbytes⟩ := Prod.mk.inj heq
  refine ⟨s, s', e, e', Reception.nil.cons (Between.clear {}) ⟨30, hfirst⟩ hfirstBytes,
    ⟨30, hsecond⟩, hbytes.trans ?_⟩
  exact congrArg (· ++ [0xC6, 8]) hfirstBytes.symm

/-- The second message has inherited all of its record, its own header being of fmt 3. -/
theorem header_inheritance_fmt3 : ∃ (s' : State) (m : MessageHeader),
    s'.globals.csidHeader 6 = some m ∧ Latest (heardOn 6 [[0xC6, 8], firstMessage]) m := by
  obtain ⟨s, s', e, e', hrun, hrecv, hp⟩ := videoMessages_received
  obtain ⟨-, hrecords, -⟩ :=
    header_inheritance reads_replay hrun (Between.publish s 12) hrecv hp
  exact ⟨s', hrecords 6 (by decide)⟩

/-! ## What a message is built on -/

/-- The fields of a record that the relay uses to put its own header together. -/
def MessageHeader.relayed (m : MessageHeader) : BitVec 32 × Int × UInt8 × BitVec 32 :=
  (m.timestamp, m.messageLength, m.messageType, m.streamId)

/-- The headers alone say what these are, whatever the record has started from. -/
def Carried (hs : List Heard) (m : MessageHeader) : Prop :=
  ∀ m₀, (record hs m₀).relayed = m.relayed

/-- A receive that has taken `p` after `ps` builds on headers only, and on no default value
of a record. -/
structure Built (ps : List Bytes) (p : Bytes) (r : Int × Nat × Nat) (s' : State) : Prop where
  carried : r.1 = 0 → Carried (heardOn s'.globals.currCsid (p :: ps))
    (s'.globals.header s'.globals.currCsid)
  rejected : ∀ csid x, heard p = some (csid, x) → x.header.fmt ≠ 0 →
    ¬ HasFmt0 (heardOn csid ps) → r.1 = -1

/-- A header that inherits comes after a fmt 0 header of its chunk stream, or is
of fmt 3 and finds no record at all. -/
def Prepared (ps : List Bytes) (p : Bytes) (s : State) : Prop :=
  ∀ csid x, heard p = some (csid, x) → x.header.fmt ≠ 0 →
    HasFmt0 (heardOn csid ps) ∨ x.header.fmt = 3 ∧ s.globals.csidHeader csid = none

theorem Recorded.carried {hs : List Heard} {entry : Option MessageHeader}
    (h : Recorded hs entry) : Carried hs (entry.getD {}) := by
  intro m₀
  have hcontent := congrArg MessageHeader.relayed (h.content m₀)
  exact hcontent.symm

theorem hasFmt0_heardOn {csid : Int} {x : Heard} {p : Bytes} {ps : List Bytes}
    (hx : heard p = some (csid, x)) (h : x.header.fmt = 0 ∨ HasFmt0 (heardOn csid ps)) :
    HasFmt0 (heardOn csid (p :: ps)) := by
  have hby : heardBy csid p = some x := by
    rw [heardBy, hx, Option.bind_some, if_pos rfl]
  have hon : heardOn csid (p :: ps) = x :: heardOn csid ps := List.filterMap_cons_some hby
  rw [hon, hasFmt0_cons]
  exact h

section

variable {ε : Type} {env : Env st ε} {inp : ε → Bytes} {s₀ s s1 s' : State} {e e' : ε}
  {r : Int × Nat × Nat} {p : Bytes} {ps : List Bytes}

/-- Wherever a run comes to a header that is prepared for, the message that is
accepted is built on headers only. -/
theorem carried_of_prepared (hin : Reads env inp) (hrun : Reception env inp s₀ ps s)
    (hbetween : Between s s1) (hrecv : Runs env recvAudioVideo s1 e r s' e')
    (hp : inp e' = inp e ++ p) (hprepared : Prepared ps p s1) : Built ps p r s' := by
  have hleaves := receiveLeaves_of_runs hin hbetween hrecv hp
  have hpresent : ∀ h csid, Accepted s1 p h s' → csid = s'.globals.currCsid → h.fmt = 3 →
      s1.globals.csidHeader csid ≠ none := by
    intro h csid haccepted hcsid h3
    rw [hcsid]
    exact haccepted.present h3
  constructor
  · intro hr
    rcases hleaves.result with hfail | ⟨-, h, haccepted⟩
    · rw [hr] at hfail
      cases hfail
    · have hfmt0 : h.fmt = 0 ∨ HasFmt0 (heardOn s'.globals.currCsid ps) := by
        by_cases h0 : h.fmt = 0
        · exact Or.inl h0
        · rcases hprepared _ _ haccepted.heard h0 with hearlier | ⟨h3, hnone⟩
          · exact Or.inr hearlier
          · exact absurd hnone (hpresent h _ haccepted rfl h3)
      exact ((hrun.cons hbetween hrecv hp).recorded hin _
        (hasFmt0_heardOn haccepted.heard hfmt0)).carried
  · intro csid x hx hinherits hnever
    rcases hprepared csid x hx hinherits with hearlier | ⟨h3, hnone⟩
    · exact absurd hearlier hnever
    · rcases hleaves.result with hfail | ⟨-, h, haccepted⟩
      · exact hfail
      · -- it is the header that was accepted
        have hsame := Option.some.inj (hx.symm.trans haccepted.heard)
        obtain ⟨hcsid, hxh⟩ := Prod.mk.inj hsame
        rw [hxh] at h3
        exact absurd hnone (hpresent h csid haccepted hcsid h3)

end

/-- The fmt 3 header comes after a fmt 0 header of its chunk stream. -/
theorem carried_of_prepared_fmt3 :
    ∃ s', Built [firstMessage] [0xC6, 8] (0, 1, 0) s' := by
  obtain ⟨s, s', e, e', hrun, hrecv, hp⟩ := videoMessages_received
  refine ⟨s', carried_of_prepared reads_replay hrun (Between.publish s 12) hrecv hp ?_⟩
  intro csid x hx _
  have h6 : heard [0xC6, 8] = some (6, .whole .fmt3) := rfl
  obtain ⟨rfl, -⟩ := Prod.mk.inj (Option.some.inj (h6.symm.trans hx))
  exact Or.inl (by decide)

/-- A fmt 1 header comes first on its chunk stream: the message is accepted, with
the stream id that the record was made with. -/
theorem fmt1_first_not_built : ∃ s' e', Runs (replay answer) recvAudioVideo {}
      ([.bytes [0x46], .bytes [0, 0, 0, 0, 0, 0, 9]], []) (0, 1, 7) s' e' ∧
    e'.2.flatMap readBytes = [0x46, 0, 0, 0, 0, 0, 0, 9] ∧
    (s'.globals.header 6).streamId = -1 ∧
    ¬ Built [] [0x46, 0, 0, 0, 0, 0, 0, 9] (0, 1, 7) s' := by
  have hexec : (exec (replay answer) 30 recvAudioVideo {}
      ([.bytes [0x46], .bytes [0, 0, 0, 0, 0, 0, 9]], [])).map (fun r =>
        (r.1, r.2.2.2.flatMap readBytes, (r.2.1.globals.header 6).streamId))
      = some ((0, 1, 7), [0x46, 0, 0, 0, 0, 0, 0, 9], -1) := rfl
  obtain ⟨⟨r, s', e'⟩, hrun, heq⟩ := Option.map_eq_some_iff.mp hexec
  obtain ⟨rfl, heq⟩ := Prod.mk.inj heq
  obtain ⟨hbytes, hstream⟩ := Prod.mk.inj heq
  refine ⟨s', e', ⟨30, hrun⟩, hbytes, hstream, fun hbuilt => ?_⟩
  have hrejected := hbuilt.rejected 6 (.whole (.fmt1 ⟨0, 0⟩ 0 9)) rfl (by decide) (by decide)
  cases hrejected

end RtmpServer
