import RtmpServer.Message

/-!
# What a receive has heard

A receive may fail at every byte. What it leaves in the globals is a function
of the bytes that came in before: `heard` is the chunk header that they start
with, and `takeIn` what it does to `csid_header`. `wlp_recvAudioVideo_heard`
says so of `recv_audio_video` for every environment and every account of what
came in.
-/

namespace RtmpServer

open Coroutine Coroutine.Prog Endian Framing

/-! ## What the bytes received say -/

/-- `curr_csid` when `p` has been received: that of a basic header, what its first byte says
of one that is cut off, or what it was. -/
def csidOf (currCsid : Int) (p : Bytes) : Int :=
  match basicHeader p with
  | some (_, csid) => csid
  | none =>
    match p with
    | [] => currCsid
    | first :: _ => first.toNat % 64

/-- `*mh_size` when `q` has been received behind the basic header: with the extended
timestamp, if all of it is there. -/
def messageHeaderSize (fmt : Nat) (q : Bytes) : Nat :=
  if fmt ≠ 3 ∧ ofBeBytes (q.take 3) = 0xFFFFFF ∧ mhSizeArray fmt + 4 ≤ q.length then
    mhSizeArray fmt + 4
  else mhSizeArray fmt

/-- Without an extended timestamp, or with one that is not all there, it is the size of the
fields. -/
theorem messageHeaderSize_short {fmt : Nat} {q : Bytes}
    (h : fmt = 3 ∨ ofBeBytes (q.take 3) ≠ 0xFFFFFF ∨ q.length < mhSizeArray fmt + 4) :
    messageHeaderSize fmt q = mhSizeArray fmt := by
  unfold messageHeaderSize
  rw [if_neg]
  intro ⟨hne, hfield, hlong⟩
  rcases h with h | h | h
  · exact hne h
  · exact h hfield
  · exact absurd hlong (Nat.not_le.mpr h)

/-- With one that is all there, it is four bytes more. -/
theorem messageHeaderSize_extended {fmt : Nat} {q : Bytes} (hfmt : fmt ≠ 3)
    (hfield : ofBeBytes (q.take 3) = 0xFFFFFF) (hlong : mhSizeArray fmt + 4 ≤ q.length) :
    messageHeaderSize fmt q = mhSizeArray fmt + 4 := by
  unfold messageHeaderSize
  rw [if_pos ⟨hfmt, hfield, hlong⟩]

/-- `bh_size + mh_size` when `p` has been received, as the caller computes it from what the
readers report. -/
def headerSize (p : Bytes) : Nat :=
  match basicHeader p with
  | some (fmt, _) => basicSize p + messageHeaderSize fmt (p.drop (basicSize p))
  | none => 1

/-- A header, or one whose extended timestamp did not come and whose fields have been stored
all the same. -/
inductive Heard where
  | whole (h : ChunkHeader)
  | cut (h : ChunkHeader)
  deriving DecidableEq

/-- The timestamp field at the front of `q`, with the extension at position `k`. -/
def Stamp.ofBytes (k : Nat) (q : Bytes) : Stamp where
  field := BitVec.ofNat 24 (ofBeBytes (q.take 3))
  extended :=
    if BitVec.ofNat 24 (ofBeBytes (q.take 3)) = 0xFFFFFF#24 then
      BitVec.ofNat 32 (ofBeBytes ((q.drop k).take 4))
    else 0

/-- The message header of the form `fmt` at the front of `q`, as far as `q` goes. -/
def ChunkHeader.ofBytes (fmt : Nat) (q : Bytes) : ChunkHeader :=
  ofFmt fmt (Stamp.ofBytes (mhSizeArray fmt) q)
    (BitVec.ofNat 24 (ofBeBytes ((q.drop 3).take 3))) (q.getD 6 0)
    (BitVec.ofNat 32 (ofLeBytes ((q.drop 7).take 4)))

/-- What `q` says behind a basic header of the form `fmt`: nothing, as long as the fields
are not all there. -/
def heardMessage (fmt : Nat) (q : Bytes) : Option Heard :=
  if q.length < mhSizeArray fmt then none
  else if q.length < (ChunkHeader.ofBytes fmt q).encode.length then
    some (.cut (ChunkHeader.ofBytes fmt (q.take (mhSizeArray fmt))))
  else some (.whole (ChunkHeader.ofBytes fmt q))

/-- What `p` says, and of which chunk stream: nothing without a whole basic header in front. -/
def heard (p : Bytes) : Option (Int × Heard) := do
  let (fmt, csid) ← basicHeader p
  let h ← heardMessage fmt (p.drop (basicSize p))
  return (csid, h)

namespace Heard

/-- The header, with all its bytes there or not. -/
def header : Heard → ChunkHeader
  | whole h => h
  | cut h => h

/-- What it makes of a record: a whole header adds the delta, one that is cut off has only
stored its fields. -/
def entry : Heard → MessageHeader → MessageHeader
  | whole h, m => h.received m
  | cut h, m => h.poked m

/-- What it makes of a record that may be missing: a fmt 3 header needs one. -/
def take : Heard → Option MessageHeader → Option MessageHeader
  | whole .fmt3, none => none
  | x, m => some (x.entry (m.getD {}))

end Heard

/-- `csid_header` when that has been heard: the record of one chunk stream is changed, and
no other. -/
def takeIn (x : Option (Int × Heard)) (entries : Int → Option MessageHeader) :
    Int → Option MessageHeader :=
  match x with
  | none => entries
  | some (csid, x) => fun c => if c = csid then x.take (entries c) else entries c

/-! ## The message header -/

/-- As many elements as are asked for, where they are there. -/
theorem length_take_drop {q : Bytes} {k n : Nat} (h : k + n ≤ q.length) :
    ((q.drop k).take n).length = n := by
  rw [List.length_take, List.length_drop]
  omega

/-- Elements that are there stay the same with more behind them. -/
theorem take_drop_append {q : Bytes} {k n : Nat} (h : k + n ≤ q.length) (y : Bytes) :
    ((q ++ y).drop k).take n = (q.drop k).take n := by
  rw [List.drop_append_of_le_length (by omega), List.take_append_of_le_length]
  rw [List.length_drop]
  omega

namespace Stamp

variable {k : Nat} {q : Bytes}

/-- The extension is four bytes, or none. -/
theorem extendedBytes_length (t : Stamp) :
    t.extendedBytes.length = if t.field = 0xFFFFFF then 4 else 0 := by
  unfold extendedBytes
  split
  · rw [beBytes_length]
  · rfl

/-- The field is made of the bytes it was read from. -/
theorem ofBytes_fieldBytes (h : 3 ≤ q.length) : (ofBytes k q).fieldBytes = q.take 3 :=
  beBytes_ofNat (by decide) (List.length_take_of_le h)

/-- So is the extension, where there is one. -/
theorem ofBytes_extendedBytes (hext : (ofBytes k q).field = 0xFFFFFF) (h : k + 4 ≤ q.length) :
    (ofBytes k q).extendedBytes = (q.drop k).take 4 := by
  have hextended : (ofBytes k q).extended = BitVec.ofNat 32 (ofBeBytes ((q.drop k).take 4)) :=
    if_pos hext
  rw [extendedBytes, if_pos hext, hextended, beBytes_ofNat (by decide) (length_take_drop h)]

/-- What follows a timestamp has no part in it. -/
theorem ofBytes_append (h3 : 3 ≤ q.length) (h : k + (ofBytes k q).extendedBytes.length ≤ q.length)
    (y : Bytes) : ofBytes k (q ++ y) = ofBytes k q := by
  have hfield : (q ++ y).take 3 = q.take 3 := List.take_append_of_le_length h3
  rw [extendedBytes_length] at h
  unfold ofBytes
  rw [hfield]
  by_cases hf : BitVec.ofNat 24 (ofBeBytes (q.take 3)) = 0xFFFFFF#24
  · have hf' : (ofBytes k q).field = 0xFFFFFF := hf
    rw [if_pos hf'] at h
    rw [if_pos hf, if_pos hf, take_drop_append h]
  · rw [if_neg hf, if_neg hf]

end Stamp

namespace ChunkHeader

variable {fmt : Nat} {q : Bytes}

/-- A header read as one of a form is of that form. -/
theorem ofBytes_fmt (hfmt : fmt < 4) : (ofBytes fmt q).fmt = fmt := ofFmt_fmt hfmt

/-- The forms are these four, as the two bits of a basic header say. -/
theorem fmt_cases (hfmt : fmt < 4) : fmt = 0 ∨ fmt = 1 ∨ fmt = 2 ∨ fmt = 3 := by
  omega

/-- The fields are the bytes that they were read from. -/
theorem ofBytes_fields (hfmt : fmt < 4) (h : mhSizeArray fmt ≤ q.length) :
    (ofBytes fmt q).fields = q.take (mhSizeArray fmt) := by
  have hlength : 7 ≤ q.length → beBytes 3 (BitVec.ofNat 24 (ofBeBytes ((q.drop 3).take 3))).toNat
      = (q.drop 3).take 3 := fun h7 => beBytes_ofNat (by decide) (length_take_drop (by omega))
  have htype : ∀ n, 7 ≤ q.length → q.getD 6 0 :: (q.drop 7).take n = (q.drop 6).take (n + 1) := by
    intro n h7
    rw [List.drop_eq_getElem_cons h7, List.take_succ_cons, List.getD_eq_getElem?_getD,
      List.getElem?_eq_getElem h7]
    rfl
  have hsplit : ∀ n, q.take (n + 1 + 3 + 3)
      = q.take 3 ++ ((q.drop 3).take 3 ++ (q.drop 6).take (n + 1)) := by
    intro n
    rw [Nat.add_comm, List.take_add, Nat.add_comm, List.take_add, List.drop_drop]
  -- by format, as each has its own fields; the extended timestamp is not among them
  rcases fmt_cases hfmt with h0 | h1 | h2 | h3
  · subst h0
    have h11 : 11 ≤ q.length := h
    show (Stamp.ofBytes 11 q).fieldBytes ++ (beBytes 3
      (BitVec.ofNat 24 (ofBeBytes ((q.drop 3).take 3))).toNat ++ (q.getD 6 0 :: leBytes 4
        (BitVec.ofNat 32 (ofLeBytes ((q.drop 7).take 4))).toNat)) = q.take (4 + 1 + 3 + 3)
    rw [Stamp.ofBytes_fieldBytes (by omega), hlength (by omega),
      leBytes_ofNat (by decide) (length_take_drop (by omega)), htype 4 (by omega), hsplit]
  · subst h1
    have h7 : 7 ≤ q.length := h
    show (Stamp.ofBytes 7 q).fieldBytes ++ (beBytes 3
      (BitVec.ofNat 24 (ofBeBytes ((q.drop 3).take 3))).toNat ++ q.getD 6 0 :: [])
        = q.take (0 + 1 + 3 + 3)
    rw [Stamp.ofBytes_fieldBytes (by omega), hlength h7, hsplit, ← htype 0 h7]
    rfl
  · subst h2
    exact Stamp.ofBytes_fieldBytes h
  · subst h3
    rfl

/-- The extension of a header is that of its timestamp, in the forms that have one. -/
theorem ofBytes_extendedBytes (h3 : fmt ≠ 3) (hfmt : fmt < 4) :
    (ofBytes fmt q).extendedBytes = (Stamp.ofBytes (mhSizeArray fmt) q).extendedBytes :=
  ofFmt_extendedBytes (by omega)

/-- A header takes its fields and its extension. -/
theorem encode_length (hfmt : fmt < 4) : (ofBytes fmt q).encode.length
    = mhSizeArray fmt + (ofBytes fmt q).extendedBytes.length := by
  rw [encode, List.length_append, fields_length, ofBytes_fmt hfmt]

/-- What follows a header has no part in it, as long as the header is all there. -/
theorem ofBytes_append (hfmt : fmt < 4) (h : (ofBytes fmt q).encode.length ≤ q.length)
    (y : Bytes) : ofBytes fmt (q ++ y) = ofBytes fmt q := by
  rw [encode_length hfmt] at h
  have hstamp : fmt ≠ 3 → 3 ≤ mhSizeArray fmt →
      Stamp.ofBytes (mhSizeArray fmt) (q ++ y) = Stamp.ofBytes (mhSizeArray fmt) q := by
    intro h3 hmh
    rw [ofBytes_extendedBytes h3 hfmt] at h
    exact Stamp.ofBytes_append (by omega) h y
  have hlength : 7 ≤ q.length → ((q ++ y).drop 3).take 3 = (q.drop 3).take 3 :=
    fun h7 => take_drop_append (by omega) y
  have htype : 7 ≤ q.length → (q ++ y).getD 6 0 = q.getD 6 0 := by
    intro h7
    rw [List.getD_eq_getElem?_getD, List.getD_eq_getElem?_getD, List.getElem?_append_left h7]
  unfold ofBytes
  -- every field lies inside the bytes that were there already
  rcases fmt_cases hfmt with h0 | h1 | h2 | h3
  · subst h0
    have h11 : 11 ≤ q.length := Nat.le_of_add_right_le h
    rw [hstamp (by decide) (by decide), hlength (by omega), htype (by omega),
      take_drop_append (by omega)]
  · subst h1
    have h7 : 7 ≤ q.length := Nat.le_of_add_right_le h
    rw [hstamp (by decide) (by decide), hlength h7, htype h7]
    rfl
  · subst h2
    rw [hstamp (by decide) (by decide)]
    rfl
  · subst h3
    rfl

end ChunkHeader

section

variable {fmt : Nat} {q : Bytes}

/-- A whole header is made of the bytes that it was read from. -/
theorem ofBytes_encode (hfmt : fmt < 4)
    (h : q.length = (ChunkHeader.ofBytes fmt q).encode.length) :
    (ChunkHeader.ofBytes fmt q).encode = q := by
  rw [ChunkHeader.encode_length hfmt] at h
  rw [ChunkHeader.encode, ChunkHeader.ofBytes_fields hfmt (by omega)]
  by_cases hnil : (ChunkHeader.ofBytes fmt q).extendedBytes = []
  · rw [hnil, List.length_nil, Nat.add_zero] at h
    rw [hnil, List.append_nil, ← h, List.take_length]
  · have h3 : fmt ≠ 3 := by
      intro h3
      subst h3
      exact hnil rfl
    rw [ChunkHeader.ofBytes_extendedBytes h3 hfmt] at h hnil ⊢
    have hfield : (Stamp.ofBytes (mhSizeArray fmt) q).field = 0xFFFFFF :=
      Classical.byContradiction fun hne => hnil ((Stamp.extendedBytes_eq_nil _).mpr hne)
    rw [Stamp.extendedBytes_length, if_pos hfield] at h
    rw [Stamp.ofBytes_extendedBytes hfield (by omega), ← List.take_add, ← h, List.take_length]

/-- Nothing is heard before all the fields have come. -/
theorem heardMessage_none (h : q.length < mhSizeArray fmt) : heardMessage fmt q = none :=
  if_pos h

/-- With the fields there and the extension not, a header that is cut off is heard. -/
theorem heardMessage_cut (h : mhSizeArray fmt ≤ q.length)
    (hcut : q.length < (ChunkHeader.ofBytes fmt q).encode.length) :
    heardMessage fmt q = some (.cut (ChunkHeader.ofBytes fmt (q.take (mhSizeArray fmt)))) := by
  rw [heardMessage, if_neg (by omega), if_pos hcut]

/-- Where a whole header is heard, it is the one at the front, and it is all there. -/
theorem heardMessage_eq_whole {h : ChunkHeader} (hh : heardMessage fmt q = some (.whole h)) :
    h = ChunkHeader.ofBytes fmt q ∧ h.encode.length ≤ q.length := by
  unfold heardMessage at hh
  split at hh
  · cases hh
  · split at hh
    · cases hh
    · next hlong =>
      cases hh
      exact ⟨rfl, Nat.not_lt.mp hlong⟩

/-- A whole header is heard, whatever follows it. -/
theorem heardMessage_encode (hfmt : fmt < 4) (h : (ChunkHeader.ofBytes fmt q).encode = q)
    (y : Bytes) : heardMessage fmt ((ChunkHeader.ofBytes fmt q).encode ++ y)
      = some (.whole (ChunkHeader.ofBytes fmt q)) := by
  have hlen := ChunkHeader.encode_length (q := q) hfmt
  have hle : (ChunkHeader.ofBytes fmt q).encode.length ≤ q.length :=
    Nat.le_of_eq (congrArg List.length h)
  rw [h, heardMessage, ChunkHeader.ofBytes_append hfmt hle, List.length_append, if_neg (by omega),
    if_neg (by omega)]

end

/-- How the message header reader ends that has received `q`, one case for each way through
it: too little for the fields, no record for a fmt 3 header, too little for the extension,
and a whole header. -/
inductive MessageHeaderRead (fmt : Nat) (csid : Int) (s : State) :
    Bytes → Int × Nat → State → Prop where
  | nothing {q : Bytes} : q.length < mhSizeArray fmt →
    MessageHeaderRead fmt csid s q (-1, mhSizeArray fmt) s
  | absent : fmt = 3 → s.globals.csidHeader csid = none →
    MessageHeaderRead fmt csid s [] (-1, mhSizeArray fmt) s
  | cut {q : Bytes} {h : ChunkHeader} : heardMessage fmt q = some (.cut h) →
    q.length < mhSizeArray fmt + 4 → MessageHeaderRead fmt csid s q (-1, mhSizeArray fmt)
      ((s.setHeader csid (h.poked (s.globals.header csid))).append .audioVideoBuffer h.fields)
  | whole {h : ChunkHeader} : h.fmt = fmt →
      (∀ y, heardMessage fmt (h.encode ++ y) = some (.whole h)) →
    (fmt = 3 → s.globals.csidHeader csid ≠ none) →
    MessageHeaderRead fmt csid s h.encode (0, h.encode.length)
      ((s.setHeader csid (h.received (s.globals.header csid))).append .audioVideoBuffer h.encode)

/-- `q` are the fields of a message header, and `m` is the entry `d` with them in it. -/
structure FieldsRead (fmt : Nat) (d : MessageHeader) (q : Bytes) (m : MessageHeader) : Prop where
  fmt_lt : fmt < 4
  fmt_ne : fmt ≠ 3
  length : q.length = mhSizeArray fmt
  poke : d.poke fmt q = some m

namespace FieldsRead

variable {fmt : Nat} {d m : MessageHeader} {q : Bytes} (h : FieldsRead fmt d q m) (y : Bytes)

include h

/-- Such a header is not of fmt 3. -/
theorem ofBytes_fmt_ne : (ChunkHeader.ofBytes fmt (q ++ y)).fmt ≠ 3 := by
  rw [ChunkHeader.ofBytes_fmt h.fmt_lt]
  exact h.fmt_ne

/-- Its fields are the bytes `q`, whatever follows. -/
theorem fields : (ChunkHeader.ofBytes fmt (q ++ y)).fields = q := by
  have hle : mhSizeArray fmt ≤ (q ++ y).length := by
    rw [List.length_append, h.length]
    exact Nat.le_add_right ..
  rw [ChunkHeader.ofBytes_fields h.fmt_lt hle, List.take_left' h.length]

/-- And what they make of the entry is `m`. -/
theorem poked : (ChunkHeader.ofBytes fmt (q ++ y)).poked d = m := by
  have hpoke := poke_fields (ChunkHeader.ofBytes fmt (q ++ y)) (h.ofBytes_fmt_ne y) d
  rw [ChunkHeader.ofBytes_fmt h.fmt_lt, h.fields y] at hpoke
  exact Option.some.inj (hpoke.symm.trans h.poke)

/-- The whole header is these fields, and four bytes more where they say so. -/
theorem encode_length : (ChunkHeader.ofBytes fmt (q ++ y)).encode.length
    = mhSizeArray fmt + if m.timestampDelta = 0xFFFFFF then 4 else 0 := by
  rw [ChunkHeader.encode_length h.fmt_lt, extendedBytes_length _ (h.ofBytes_fmt_ne y) d, h.poked]

/-- With the four bytes of the extended timestamp behind them the header is whole. -/
theorem encode_extended (hext : m.timestampDelta = 0xFFFFFF) {y : Bytes} (hy : y.length = 4) :
    (ChunkHeader.ofBytes fmt (q ++ y)).encode = q ++ y :=
  ofBytes_encode h.fmt_lt (by rw [h.encode_length, if_pos hext, List.length_append, h.length, hy])

/-- Without an extended timestamp it is whole as it is. -/
theorem encode_field (hext : m.timestampDelta ≠ 0xFFFFFF) :
    (ChunkHeader.ofBytes fmt q).encode = q := by
  have hlen := h.encode_length []
  rw [List.append_nil, if_neg hext, Nat.add_zero] at hlen
  exact ofBytes_encode h.fmt_lt (by rw [hlen, h.length])

end FieldsRead

namespace MessageHeaderRead

variable {fmt : Nat} {csid : Int} {s : State} {m : MessageHeader} {q : Bytes}
  (h : FieldsRead fmt (s.globals.header csid) q m)

include h

/-- Too little has come for the extended timestamp, so the fields are stored and the reader
fails. -/
theorem of_cut (hext : m.timestampDelta = 0xFFFFFF) {y : Bytes} (hlt : y.length < 4) :
    MessageHeaderRead fmt csid s (q ++ y) (-1, mhSizeArray fmt)
      ((s.append .audioVideoBuffer q).setHeader csid m) := by
  have hlen := h.length
  have hcut : heardMessage fmt (q ++ y) = some (.cut (ChunkHeader.ofBytes fmt q)) := by
    rw [heardMessage_cut, List.take_left' hlen]
    · rw [List.length_append]
      omega
    · rw [h.encode_length, if_pos hext, List.length_append]
      omega
  have hread : MessageHeaderRead fmt csid s _ _ _ := .cut hcut (by rw [List.length_append]; omega)
  have hpoked := h.poked []
  have hfields := h.fields []
  rw [List.append_nil] at hpoked hfields
  rwa [hpoked, hfields, ← State.append_setHeader] at hread

/-- The extended timestamp is there, and takes the place of the field before the addition. -/
theorem of_extended (hext : m.timestampDelta = 0xFFFFFF) {y : Bytes} (hy : y.length = 4) :
    MessageHeaderRead fmt csid s (q ++ y) (0, mhSizeArray fmt + 4) ((s.setHeader csid
      ({ m with timestampDelta := BitVec.ofNat 32 (ofBeBytes y) }).addDelta).append
        .audioVideoBuffer (q ++ y)) := by
  have hle : (q ++ y).length = mhSizeArray fmt + 4 := by
    rw [List.length_append, h.length, hy]
  have henc := h.encode_extended hext hy
  have hbytes : (ChunkHeader.ofBytes fmt (q ++ y)).extendedBytes = y := by
    rw [ChunkHeader.encode, h.fields] at henc
    exact List.append_cancel_left henc
  have hreceived := received_of_extended (ChunkHeader.ofBytes fmt (q ++ y)) (h.ofBytes_fmt_ne y)
    (s.globals.header csid) (by rw [h.poked]; exact hext)
  have hread : MessageHeaderRead fmt csid s _ _ _ := .whole
    (ChunkHeader.ofBytes_fmt (q := q ++ y) h.fmt_lt) (heardMessage_encode h.fmt_lt henc)
    (fun h3 => absurd h3 h.fmt_ne)
  rwa [henc, ← hreceived, h.poked, hbytes, hle] at hread

/-- There is no extended timestamp, and the field itself is added. -/
theorem of_field (hext : m.timestampDelta ≠ 0xFFFFFF) :
    MessageHeaderRead fmt csid s q (0, mhSizeArray fmt)
      ((s.setHeader csid m.addDelta).append .audioVideoBuffer q) := by
  have hpoked := h.poked []
  have hne := h.ofBytes_fmt_ne []
  rw [List.append_nil] at hpoked hne
  have henc := h.encode_field hext
  have hreceived := received_of_field (ChunkHeader.ofBytes fmt q) hne (s.globals.header csid)
    (by rw [hpoked]; exact hext)
  have hread : MessageHeaderRead fmt csid s _ _ _ := .whole
    (ChunkHeader.ofBytes_fmt (q := q) h.fmt_lt) (heardMessage_encode h.fmt_lt henc)
    (fun h3 => absurd h3 h.fmt_ne)
  rwa [henc, ← hreceived, hpoked, h.length] at hread

end MessageHeaderRead

section

variable {ε : Type} {env : Env st ε} {took : ε → Bytes → ε → Prop} {s : State} {e : ε}

/-- The message header reader, whatever the answers are: it ends in one of these ways, with
what came in. -/
theorem wlp_readAudioVideoMessageHeader (hacc : Account env took) {fmt bhSize : Nat} {csid : Int}
    (hfmt : fmt < 4) (hbuf : (s.buffer .audioVideoBuffer).length = bhSize) :
    wlp env (readAudioVideoMessageHeader fmt csid bhSize) (fun r s' e' => ∃ q, took e q e' ∧
      MessageHeaderRead fmt csid s q r s') s e := by
  unfold readAudioVideoMessageHeader readAudioVideoMessageHeaderWith readNbytesCycleAv updateHeader
  simp only [bind_eq, pure_eq, wlp_bind]
  refine wlp_mono (wlp_readNbytesCycleOn_received hacc) fun r s1 e1 hreceived => ?_
  obtain ⟨q, hq, h⟩ := hreceived
  rw [hbuf, Nat.add_sub_cancel_left] at h
  rcases h with ⟨hrc, hs1, hlt⟩ | ⟨hr, hs1, hlen⟩
  · -- the read ran out: what came is less than the fields of this format
    subst hs1
    rw [if_pos hrc, wlp_ret]
    exact ⟨q, hq, .nothing hlt⟩
  subst hr hs1
  rw [if_neg (by simp)]
  -- format 3 has no fields, and needs an entry to take them from
  by_cases h3 : fmt = 3
  · subst h3
    have hnil : q = [] := List.eq_nil_of_length_eq_zero hlen
    subst hnil
    rw [if_pos rfl, wlp_bind, wlp_gets, State.append_nil]
    by_cases hnone : s.globals.csidHeader csid = none
    · rw [if_pos hnone, wlp_ret]
      exact ⟨[], hq, .absent rfl hnone⟩
    · have hread : MessageHeaderRead 3 csid s [] (0, 0)
          ((s.setHeader csid (s.globals.header csid).addDelta).append .audioVideoBuffer []) :=
        .whole (h := .fmt3) rfl (fun _ => rfl) fun _ => hnone
      rw [State.append_nil] at hread
      rw [if_neg hnone, wlp_bind, wlp_modify, wlp_ret]
      exact ⟨[], hq, hread⟩
  rw [if_neg h3, wlp_bind, wlp_read]
  intro m hm
  rw [State.buffer_append, List.drop_left' hbuf, State.append_header] at hm
  have hfields : FieldsRead fmt (s.globals.header csid) q m := ⟨hfmt, h3, hlen, hm⟩
  rw [wlp_bind, wlp_modify]
  -- a field of all ones announces the extended timestamp
  by_cases hext : m.timestampDelta = 0xFFFFFF
  · rw [if_pos hext, wlp_bind]
    refine wlp_mono (wlp_readNbytesCycleOn_received hacc) fun r s2 e2 hmore => ?_
    obtain ⟨y, hy, h2⟩ := hmore
    have hsub : bhSize + mhSizeArray fmt + 4 - (((s.append .audioVideoBuffer q).setHeader csid
        m).buffer .audioVideoBuffer).length = 4 := by
      rw [State.setHeader_buffer, State.buffer_append, List.length_append, hbuf, hlen]
      omega
    have hqy : took e (q ++ y) e2 := hacc.append hq hy
    -- the entry has the new fields already when the extension runs out
    rw [hsub] at h2
    rcases h2 with ⟨hrc, hs2, hlt⟩ | ⟨hr, hs2, hlen2⟩
    · subst hs2
      rw [if_pos hrc, wlp_ret]
      exact ⟨q ++ y, hqy, .of_cut hfields hext hlt⟩
    · subst hs2 hr
      rw [if_neg (by simp), wlp_bind, wlp_read]
      intro ext hx
      -- the four bytes behind the fields are the ones just read
      have hext' : ext = y := by
        have hat : bytesAt (s.buffer .audioVideoBuffer ++ q).length 4
            ((s.buffer .audioVideoBuffer ++ q) ++ (y ++ [])) = some y := bytesAt_append rfl hlen2
        rw [List.length_append, hbuf, hlen, List.append_nil] at hat
        rw [State.buffer_append, State.setHeader_buffer, State.buffer_append, hat] at hx
        exact (Option.some.inj hx).symm
      subst hext'
      simp only [wlp_bind, wlp_modify, wlp_ret]
      have hread := MessageHeaderRead.of_extended hfields hext hlen2
      exact ⟨q ++ ext, hqy, by simpa using hread⟩
  · rw [if_neg hext]
    simp only [wlp_bind, wlp_modify, wlp_ret]
    have hread := MessageHeaderRead.of_field hfields hext
    exact ⟨q, hq, by simpa using hread⟩

/-! ## A whole receive -/

/-- The payload is what a reader of frames makes of the bytes that come in. -/
theorem wlp_recvAudioVideoPayload (hacc : Account env took) {csid : Int} {m : MessageHeader}
    (hm : s.globals.csidHeader csid = some m) :
    wlp env (recvAudioVideoPayload csid) (fun rc s' e' => ∃ p payload, took e p e' ∧
      s' = s.append .audioVideoBuffer payload ∧
      (rc = -1 ∧ unframe s.client.chunkSize m.messageLength.toNat p = none ∨ rc = 0 ∧
        ∀ rest, unframe s.client.chunkSize m.messageLength.toNat (p ++ rest)
          = some (payload, rest))) s e := by
  refine wlp_dechunk hacc (fun bytes => ?_) fun bytes => ?_
  · have hm' : (s.append .audioVideoBuffer bytes).globals.csidHeader csid = some m := by
      rw [State.append_csidHeader, hm]
    rw [wlp_lookup hm']
  · rw [wlp_gets, State.append_chunkSize]

/-- A receive that has accepted a message with the header `h`, out of the bytes `p`. -/
structure Accepted (s : State) (p : Bytes) (h : ChunkHeader) (s' : State) : Prop where
  heard : heard p = some (s'.globals.currCsid, .whole h)
  present : h.fmt = 3 → s.globals.csidHeader s'.globals.currCsid ≠ none
  entry : s'.globals.csidHeader s'.globals.currCsid
    = some (h.received (s.globals.header s'.globals.currCsid))
  body : ∃ hdr more payload, p = hdr ++ more ∧ hdr.length = headerSize p ∧
    s'.buffer .audioVideoBuffer = hdr ++ payload ∧
    ∀ rest, unframe s.client.chunkSize
      (h.received (s.globals.header s'.globals.currCsid)).messageLength.toNat (more ++ rest)
        = some (payload, rest)

/-- What a receive leaves that has taken the bytes `p`: the current chunk stream and the
records are what the bytes say. -/
structure ReceiveLeaves (s : State) (p : Bytes) (r : Int × Nat × Nat) (s' : State) : Prop where
  client : s'.client = s.client
  consumers : s'.globals.consumers = s.globals.consumers
  currCsid : s'.globals.currCsid = csidOf s.globals.currCsid p
  entries : s'.globals.csidHeader = takeIn (RtmpServer.heard p) s.globals.csidHeader
  size : r.2.1 + r.2.2 = headerSize p
  result : r.1 = -1 ∨ r.1 = 0 ∧ ∃ h, Accepted s p h s'

section

variable {p q : Bytes} {fmt : Nat} {csid : Int}

/-- What follows a whole basic header does not change the chunk stream. -/
theorem csidOf_append {currCsid : Int} (h : basicHeader p = some (fmt, csid)) (q : Bytes) :
    csidOf currCsid (p ++ q) = csid := by
  unfold csidOf
  rw [basicHeader_append h]

/-- Behind a whole basic header, what is heard is what the message header says. -/
theorem heard_append (h : basicHeader p = some (fmt, csid)) (hlen : p.length = basicSize p)
    (q : Bytes) : heard (p ++ q) = (heardMessage fmt q).map fun x => (csid, x) := by
  unfold heard
  rw [basicHeader_append h, basicSize_append (basicHeader_ne_nil h),
    Option.bind_eq_bind, Option.bind_some]
  simp only []
  rw [List.drop_left' hlen]
  cases heardMessage fmt q <;> rfl

/-- And the size of both is the sum of the two. -/
theorem headerSize_append (h : basicHeader p = some (fmt, csid)) (hlen : p.length = basicSize p)
    (q : Bytes) : headerSize (p ++ q) = p.length + messageHeaderSize fmt q := by
  unfold headerSize
  rw [basicHeader_append h]
  show basicSize (p ++ q) + messageHeaderSize fmt ((p ++ q).drop (basicSize (p ++ q))) = _
  rw [basicSize_append (basicHeader_ne_nil h), List.drop_left' hlen, hlen]

/-- A whole message header is of the size that its own bytes say. -/
theorem messageHeaderSize_encode (h : ChunkHeader) (y : Bytes) :
    messageHeaderSize h.fmt (h.encode ++ y) = h.encode.length := by
  -- the timestamp field comes first
  have hstamp : ∀ (t : Stamp) (tail : Bytes) (fmt : Nat), fmt ≠ 3 →
      mhSizeArray fmt = 3 + tail.length →
      messageHeaderSize fmt ((t.fieldBytes ++ tail) ++ t.extendedBytes ++ y)
        = ((t.fieldBytes ++ tail) ++ t.extendedBytes).length := by
    intro t tail fmt h3 hmh
    have hlen : t.fieldBytes.length = 3 := beBytes_length 3 _
    have hfield : ofBeBytes (((t.fieldBytes ++ tail) ++ t.extendedBytes ++ y).take 3)
        = t.field.toNat := by
      rw [List.append_assoc, List.append_assoc, List.take_left' hlen]
      exact toNat_ofBeBytes_field t.field
    have hext := t.extendedBytes_length
    rw [List.length_append, List.length_append, hlen]
    by_cases hf : t.field = 0xFFFFFF
    · rw [if_pos hf] at hext
      rw [messageHeaderSize_extended h3, hmh, hext]
      · rw [hfield, hf]
        rfl
      · rw [List.length_append, List.length_append, List.length_append]
        omega
    · rw [if_neg hf] at hext
      rw [messageHeaderSize_short, hmh, hext, Nat.add_zero]
      rw [hfield]
      exact Or.inr (Or.inl fun h => hf ((field_extended_iff _).mp h))
  cases h with
  | fmt0 t length type streamId =>
    exact hstamp t (beBytes 3 length.toNat ++ (type :: leBytes 4 streamId.toNat)) 0 (by decide) rfl
  | fmt1 t length type => exact hstamp t (beBytes 3 length.toNat ++ [type]) 1 (by decide) rfl
  | fmt2 t =>
    have h2 := hstamp t [] 2 (by decide) rfl
    rwa [List.append_nil] at h2
  | fmt3 => rfl

end

/-- Behind a whole basic header it is the message header that counts, and what it leaves. -/
theorem ReceiveLeaves.of_header {p q : Bytes} {fmt : Nat} {csid : Int} {rc : Int} {mhSize : Nat}
    {s' : State} (hbasic : basicHeader p = some (fmt, csid)) (hlen : p.length = basicSize p)
    (hclient : s'.client = s.client) (hconsumers : s'.globals.consumers = s.globals.consumers)
    (hcsid : s'.globals.currCsid = csid)
    (hentries : s'.globals.csidHeader
      = takeIn ((heardMessage fmt q).map fun x => (csid, x)) s.globals.csidHeader)
    (hsize : mhSize = messageHeaderSize fmt q)
    (hresult : rc = -1 ∨ rc = 0 ∧ ∃ h, Accepted s (p ++ q) h s') :
    ReceiveLeaves s (p ++ q) (rc, p.length, mhSize) s' where
  client := hclient
  consumers := hconsumers
  currCsid := by rw [csidOf_append hbasic, hcsid]
  entries := by rw [heard_append hbasic hlen, hentries]
  size := by rw [headerSize_append hbasic hlen, hsize]
  result := hresult

/-- To store one record is what has been heard of one chunk stream. -/
theorem takeIn_set {s : State} {csid : Int} {x : Heard} {m : MessageHeader}
    (h : x.take (s.globals.csidHeader csid) = some m) :
    (s.setHeader csid m).globals.csidHeader = takeIn (some (csid, x)) s.globals.csidHeader := by
  funext c
  show (if c = csid then some m else s.globals.csidHeader c) = if c = csid then _ else _
  by_cases hc : c = csid
  · rw [if_pos hc, if_pos hc, hc, h]
  · rw [if_neg hc, if_neg hc]

/-- A whole header makes of a record, which is there if need be, what the reader makes of
it. -/
theorem take_whole {h : ChunkHeader} {s : State} {csid : Int}
    (hpresent : h.fmt = 3 → s.globals.csidHeader csid ≠ none) :
    (Heard.whole h).take (s.globals.csidHeader csid) =
      some (h.received (s.globals.header csid)) := by
  cases h with
  | fmt3 =>
    obtain ⟨m, hm⟩ := Option.ne_none_iff_exists'.mp (hpresent rfl)
    show Heard.take _ _ = some (ChunkHeader.received .fmt3 ((s.globals.csidHeader csid).getD {}))
    rw [hm]
    rfl
  | _ => rfl

/-- The state behind both headers, with their bytes in the buffer. -/
def headersTaken (s : State) (p : Bytes) (csid : Int) (h : ChunkHeader) : State :=
  (((s.append .audioVideoBuffer p).setCurrCsid csid).setHeader csid
    (h.received (s.globals.header csid))).append .audioVideoBuffer h.encode

/-- What the payload does to it, whole or not: nothing that a header record holds. -/
theorem ReceiveLeaves.of_payload {p y payload : Bytes} {csid : Int} {h : ChunkHeader} {rc : Int}
    (hempty : s.buffer .audioVideoBuffer = []) (hbasic : basicHeader p = some (h.fmt, csid))
    (hlen : p.length = basicSize p)
    (hwhole : heardMessage h.fmt (h.encode ++ y) = some (.whole h))
    (hpresent : h.fmt = 3 → s.globals.csidHeader csid ≠ none)
    (hrc : rc = -1 ∨ rc = 0 ∧ ∀ rest, unframe s.client.chunkSize
      (h.received (s.globals.header csid)).messageLength.toNat (y ++ rest) = some (payload, rest)) :
    ReceiveLeaves s (p ++ (h.encode ++ y)) (rc, p.length, h.encode.length)
      ((headersTaken s p csid h).append .audioVideoBuffer payload) := by
  have hm : (headersTaken s p csid h).globals.csidHeader csid
      -- the entry that was set is what the heard bytes say of this chunk stream
      = some (h.received (s.globals.header csid)) := by
    rw [headersTaken, State.append_csidHeader, State.setHeader_csidHeader]
  have hentries : ((headersTaken s p csid h).append .audioVideoBuffer payload).globals.csidHeader
      = takeIn ((heardMessage h.fmt (h.encode ++ y)).map fun x => (csid, x))
        s.globals.csidHeader := by
    rw [hwhole]
    exact takeIn_set (take_whole hpresent)
  have hsize : h.encode.length = messageHeaderSize h.fmt (h.encode ++ y) := by
    rw [messageHeaderSize_encode]
  refine .of_header hbasic hlen rfl rfl rfl hentries hsize (hrc.imp_right fun ⟨h0, hread⟩ => ?_)
  refine ⟨h0, h, ?_, hpresent, hm, ?_⟩
  · rw [heard_append hbasic hlen, hwhole]
    rfl
  · refine ⟨p ++ h.encode, y, payload, (List.append_assoc ..).symm, ?_, ?_, hread⟩
    · rw [headerSize_append hbasic hlen, ← hsize, List.length_append]
    · rw [State.buffer_append]
      show (s.buffer .audioVideoBuffer ++ p) ++ h.encode ++ payload = _
      rw [hempty, List.nil_append]

/-- Whatever the answers: a receive leaves what the bytes that it took say. -/
theorem wlp_recvAudioVideo_heard (hacc : Account env took)
    (hempty : s.buffer .audioVideoBuffer = []) :
    wlp env recvAudioVideo (fun r s' e' => ∃ p, took e p e' ∧ ReceiveLeaves s p r s') s e := by
  unfold recvAudioVideo
  simp only [bind_eq, pure_eq, wlp_bind]
  refine wlp_mono (wlp_readAudioVideoBasicHeader hacc hempty) fun r s1 e1 hbasicRead => ?_
  obtain ⟨p, hp, hread⟩ := hbasicRead
  cases hread with
  | nothing =>
    rw [if_pos rfl, wlp_ret]
    exact ⟨[], hp, rfl, rfl, rfl, rfl, rfl, Or.inl rfl⟩
  | cut hnone =>
    -- cut inside the basic header: nothing is known of the chunk stream
    rw [if_pos rfl, wlp_ret]
    refine ⟨_, hp, rfl, rfl, ?_, ?_, ?_, Or.inl rfl⟩
    · unfold csidOf
      rw [hnone]
      rfl
    · unfold heard
      rw [hnone]
      rfl
    · unfold headerSize
      rw [hnone]
      rfl
  | @whole p fmt csid hbasic hlen =>
    have hfmt : fmt < 4 := basicHeader_fmt_lt hbasic
    have hbuf : (((s.append .audioVideoBuffer p).setCurrCsid csid).buffer
        .audioVideoBuffer).length = p.length := by
      rw [State.setCurrCsid_buffer, State.buffer_append, hempty, List.nil_append]
    rw [if_neg (by simp), wlp_bind]
    dsimp only
    refine wlp_mono (wlp_readAudioVideoMessageHeader hacc hfmt hbuf) fun r2 s2 e2 hheader => ?_
    obtain ⟨q, hq, hread⟩ := hheader
    have hpq : took e (p ++ q) e2 := hacc.append hp hq
    cases hread with
    | nothing hlt =>
      -- cut inside the fields: the entry stays as it was
      rw [if_pos rfl, wlp_ret]
      refine ⟨p ++ q, hpq, .of_header hbasic hlen rfl rfl rfl ?_ ?_ (Or.inl rfl)⟩
      · rw [heardMessage_none hlt]
        rfl
      · exact (messageHeaderSize_short (Or.inr (Or.inr (by omega)))).symm
    | absent h3 hnone =>
      -- no earlier header on this chunk stream, which the code refuses
      subst h3
      rw [if_pos rfl, wlp_ret]
      refine ⟨p ++ [], hpq, .of_header hbasic hlen rfl rfl rfl ?_ rfl (Or.inl rfl)⟩
      funext c
      show s.globals.csidHeader c = if c = csid then _ else _
      by_cases hc : c = csid
      · have hnone' : s.globals.csidHeader csid = none := hnone
        rw [if_pos hc, hc, hnone']
        rfl
      · rw [if_neg hc]
    | @cut q h hcut hshort =>
      -- cut inside the extended timestamp: the entry has the fields, and not the extension
      rw [if_pos rfl, wlp_ret]
      refine ⟨p ++ q, hpq, .of_header hbasic hlen rfl rfl rfl ?_ ?_ (Or.inl rfl)⟩
      · rw [hcut]
        exact takeIn_set (s := s) rfl
      · exact (messageHeaderSize_short (Or.inr (Or.inr hshort))).symm
    | @whole h hhfmt hwhole hpresent =>
      subst hhfmt
      -- the whole header is there, and the payload follows under the entry it has set
      have hm : (headersTaken s p csid h).globals.csidHeader csid
          = some (h.received (s.globals.header csid)) := by
        rw [headersTaken, State.append_csidHeader, State.setHeader_csidHeader]
      rw [if_neg (by simp), wlp_bind, wlp_gets, wlp_bind]
      show wlp env (lookup csid MessageHeader.timestamp) _ (headersTaken s p csid h) e2
      rw [wlp_lookup hm, wlp_bind]
      refine wlp_mono (wlp_recvAudioVideoPayload hacc hm) fun rc s3 e3 hpayload => ?_
      obtain ⟨y, payload, hy, hs3, hdone⟩ := hpayload
      subst hs3
      have htook : took e (p ++ (h.encode ++ y)) e3 := hacc.append hp (hacc.append hq hy)
      rcases hdone with ⟨hrc, -⟩ | ⟨hrc, hread⟩
      · rw [if_pos hrc, wlp_ret]
        exact ⟨_, htook, .of_payload hempty hbasic hlen (hwhole y) hpresent (Or.inl rfl)⟩
      · rw [if_neg (by rw [hrc]; decide), wlp_ret]
        exact ⟨_, htook, .of_payload hempty hbasic hlen (hwhole y) hpresent (Or.inr ⟨rfl, hread⟩)⟩

end

end RtmpServer
