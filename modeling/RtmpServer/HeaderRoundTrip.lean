import RtmpServer.Message

/-!
# The chunk header between `write_header` and its readers

What `write_header` emits, `read_basic_header` and `read_message_header` take
apart again, and so do their `audio_video` twins. Two results say for which
headers they do: `basicHeader_roundTrip_iff` for the number of the chunk
stream, which the readers put together from signed bytes, and
`header_framing_iff` for the number of bytes, where the writer and the readers
each decide for themselves whether an extended timestamp is there.
-/

namespace RtmpServer

open Coroutine Coroutine.Prog Endian

/-! ## The number of the chunk stream -/

namespace ChunkStream

/-- The form in which `write_header` writes a number: in one, two or three bytes, by its
size. -/
def ofCsid (csid : Nat) (h2 : 2 ≤ csid) : ChunkStream :=
  if h63 : csid ≤ 63 then .one csid h2 h63
  else if csid ≤ 319 then .two (lowByte ((csid : Int) - 64))
  else .three (lowByte ((csid : Int) - 64)) (lowByte (((csid : Int) - 64) / 256))

theorem basicByte_zero {fmt : Nat} (hfmt : fmt < 4) :
    UInt8.ofNat (fmt <<< 6) &&& 0xc0 = basicByte fmt 0 := by
  rcases (by omega : fmt = 0 ∨ fmt = 1 ∨ fmt = 2 ∨ fmt = 3) with h | h | h | h
  · rw [h]; decide
  · rw [h]; decide
  · rw [h]; decide
  · rw [h]; decide

theorem memBytes_two {x : Int} (h0 : 0 ≤ x) (hmax : x < 65536) :
    memBytes 2 x = [lowByte x, lowByte (x / 256)] := by
  obtain ⟨n, rfl⟩ := Int.eq_ofNat_of_zero_le h0
  have hlow : ((n : Int) % 256).toNat = n % 256 := by omega
  have hhigh : ((n : Int) / 256 % 256).toNat = n / 256 % 256 := by omega
  rw [memBytes_natCast, lowByte, lowByte, hlow, hhigh]
  simp [leBytes, ← UInt8.toNat_inj]

theorem basicHeaderBytes_eq {fmt csid : Nat} (hfmt : fmt < 4) (h2 : 2 ≤ csid)
    (hmax : csid ≤ 65599) : basicHeaderBytes fmt csid = (ofCsid csid h2).bytes fmt := by
  unfold basicHeaderBytes ofCsid
  by_cases h63 : csid ≤ 63
  · rw [if_pos (by omega), dif_pos h63]
    rfl
  rw [if_neg (by omega), dif_neg h63]
  by_cases h319 : csid ≤ 319
  · rw [if_pos (by omega), if_pos h319, basicByte_zero hfmt]
    rfl
  · rw [if_neg (by omega), if_neg h319, memBytes_two (by omega) (by omega)]
    rfl

/-- A byte that is read as a `char` loses 256 from 128 on. -/
theorem schar_lowByte (x : Int) :
    schar (lowByte x) = if x % 256 < 128 then x % 256 else x % 256 - 256 := by
  have hnat : (lowByte x).toNat = (x % 256).toNat := by
    rw [lowByte, UInt8.toNat_ofNat_of_lt' (by show _ < 256; omega)]
  unfold schar
  rw [hnat]
  by_cases h : x % 256 < 128
  · rw [if_pos (by omega), if_pos h]
    omega
  · rw [if_neg (by omega), if_neg h]
    omega

/-- What the readers make of the number, whose bytes they take with a sign. -/
theorem ofCsid_csid {csid : Nat} (h2 : 2 ≤ csid) :
    (ofCsid csid h2).csid =
      if csid ≤ 191 then (csid : Int)
      else if csid ≤ 319 then (csid : Int) - 256
      else 64 + schar (lowByte ((csid : Int) - 64))
        + schar (lowByte (((csid : Int) - 64) / 256)) * 256 := by
  unfold ofCsid
  by_cases h63 : csid ≤ 63
  · rw [dif_pos h63, if_pos (by omega)]
    rfl
  rw [dif_neg h63]
  by_cases h319 : csid ≤ 319
  · rw [if_pos h319, if_pos h319, ChunkStream.csid, schar_lowByte]
    split
    · rw [if_pos (by omega)]
      omega
    · rw [if_neg (by omega)]
      omega
  · rw [if_neg h319, if_neg h319, if_neg (by omega)]
    rfl

end ChunkStream

/-- The numbers whose bytes are below 128, which are those that the readers get back. -/
def PlainCsid (csid : Nat) : Prop :=
  csid ≤ 191 ∨ 320 ≤ csid ∧ (csid - 64) % 256 < 128 ∧ csid - 64 < 32768

theorem ofCsid_csid_eq_iff {csid : Nat} (h2 : 2 ≤ csid) (hmax : csid ≤ 65599) :
    (ChunkStream.ofCsid csid h2).csid = csid ↔ PlainCsid csid := by
  rw [ChunkStream.ofCsid_csid, ChunkStream.schar_lowByte, ChunkStream.schar_lowByte, PlainCsid]
  by_cases h191 : csid ≤ 191
  · rw [if_pos h191]
    exact ⟨fun _ => Or.inl h191, fun _ => rfl⟩
  rw [if_neg h191]
  by_cases h319 : csid ≤ 319
  · rw [if_pos h319]
    omega
  · rw [if_neg h319]
    omega

/-- Two numbers are read alike if and only if one of them has one byte, and the
other has two and lies 256 above. -/
theorem ofCsid_csid_inj {csid csid' : Nat} (h2 : 2 ≤ csid) (hmax : csid ≤ 65599)
    (h2' : 2 ≤ csid') (hmax' : csid' ≤ 65599) (hne : csid' ≠ csid) :
    (ChunkStream.ofCsid csid h2).csid = (ChunkStream.ofCsid csid' h2').csid ↔
      csid' = csid + 256 ∧ csid ≤ 63 ∨ csid = csid' + 256 ∧ csid' ≤ 63 := by
  simp only [ChunkStream.ofCsid_csid, ChunkStream.schar_lowByte]
  by_cases h191 : csid ≤ 191
  · rw [if_pos h191]
    by_cases h191' : csid' ≤ 191
    · rw [if_pos h191']
      omega
    · rw [if_neg h191']
      by_cases h319' : csid' ≤ 319
      · rw [if_pos h319']
        omega
      · rw [if_neg h319']
        omega
  · rw [if_neg h191]
    by_cases h319 : csid ≤ 319
    · rw [if_pos h319]
      by_cases h191' : csid' ≤ 191
      · rw [if_pos h191']
        omega
      · rw [if_neg h191']
        by_cases h319' : csid' ≤ 319
        · rw [if_pos h319']
          omega
        · rw [if_neg h319']
          omega
    · rw [if_neg h319]
      by_cases h191' : csid' ≤ 191
      · rw [if_pos h191']
        omega
      · rw [if_neg h191']
        by_cases h319' : csid' ≤ 319
        · rw [if_pos h319']
          omega
        · rw [if_neg h319']
          omega

/-- Both readers, given the basic header that `write_header` emits: they report
its `fmt`, its size and the chunk stream `d`, and stop at its end. -/
def BothRead (fmt csid : Nat) (rest : Bytes) (s : State) (d : Int) : Prop :=
  wp streamEnv readBasicHeader
      (fun r _ e => r = (0, fmt, d, (basicHeaderBytes fmt csid).length) ∧ e.inp = rest)
      (s.setBuffer .ioBuffer []) ⟨basicHeaderBytes fmt csid ++ rest, []⟩ ∧
    wp streamEnv readAudioVideoBasicHeader
      (fun r _ e => r = (0, fmt, d, (basicHeaderBytes fmt csid).length) ∧ e.inp = rest)
      (s.setBuffer .audioVideoBuffer []) ⟨basicHeaderBytes fmt csid ++ rest, []⟩

theorem bothRead_iff {fmt csid : Nat} {rest : Bytes} {s : State} {d : Int} (hfmt : fmt < 4)
    (h2 : 2 ≤ csid) (hmax : csid ≤ 65599) :
    BothRead fmt csid rest s d ↔ d = (ChunkStream.ofCsid csid h2).csid := by
  unfold BothRead
  rw [ChunkStream.basicHeaderBytes_eq hfmt h2 hmax,
    ChunkStream.wp_readBasicHeader _ (State.buffer_setBuffer ..) hfmt,
    ChunkStream.wp_readAudioVideoBasicHeader _ (State.buffer_setBuffer ..) hfmt]
  simp [eq_comm]

/-- A chunk stream's number survives the basic header if and only if no byte of
it is 128 or more; and a number of two bytes is taken for the one 256 below,
where there is one. -/
theorem basicHeader_roundTrip_iff (fmt csid : Nat) (rest : Bytes) (s : State) (hfmt : fmt < 4)
    (h2 : 2 ≤ csid) (hmax : csid ≤ 65599) :
    (BothRead fmt csid rest s csid ↔ PlainCsid csid) ∧
      ∀ (fmt' csid' : Nat) (rest' : Bytes) (s' : State), fmt' < 4 → 2 ≤ csid' → csid' ≤ 65599 →
        csid' ≠ csid → ((∃ d, BothRead fmt csid rest s d ∧ BothRead fmt' csid' rest' s' d) ↔
          csid' = csid + 256 ∧ csid ≤ 63 ∨ csid = csid' + 256 ∧ csid' ≤ 63) := by
  constructor
  · rw [bothRead_iff hfmt h2 hmax, eq_comm]
    exact ofCsid_csid_eq_iff h2 hmax
  · intro fmt' csid' rest' s' hfmt' h2' hmax' hne
    rw [← ofCsid_csid_inj h2 hmax h2' hmax' hne]
    constructor
    · intro ⟨d, h, h'⟩
      rw [bothRead_iff hfmt h2 hmax] at h
      rw [bothRead_iff hfmt' h2' hmax'] at h'
      rw [← h, ← h']
    · intro h
      refine ⟨_, (bothRead_iff hfmt h2 hmax).mpr rfl, ?_⟩
      rw [bothRead_iff hfmt' h2' hmax', h]

/-- The first number of two bytes is read back, because its byte is zero. -/
theorem basicHeader_roundTrip_64 : BothRead 1 64 [7] {} 64 :=
  (basicHeader_roundTrip_iff 1 64 [7] {} (by decide) (by decide) (by decide)).1.mpr
    (Or.inl (by decide))

/-- The first number with a byte of 128, and a number that is taken for that of
the control messages. -/
theorem not_basicHeader_roundTrip_192 :
    ¬ BothRead 0 192 [] {} 192 ∧ ∃ d, BothRead 0 2 [] {} d ∧ BothRead 0 258 [] {} d := by
  refine ⟨?_, 2, ?_, ?_⟩
  · rw [bothRead_iff (by decide) (by decide) (by decide)]
    decide
  · rw [bothRead_iff (by decide) (by decide) (by decide)]
    decide
  · rw [bothRead_iff (by decide) (by decide) (by decide)]
    decide

/-! ## The number of bytes -/

/-- What a run has read it also reads from a longer stream, and leaves the rest. -/
theorem wp_streamEnv_append {α : Type} {p : Routine α} {Q : α → State → Stream → Prop} {s : State}
    {e : Stream} (more : Bytes) (h : wp streamEnv p Q s e) :
    wp streamEnv p (fun a s' e' => ∃ e1, Q a s' e1 ∧ e' = { e1 with inp := e1.inp ++ more }) s
      { e with inp := e.inp ++ more } := by
  obtain ⟨a, s', e1, ⟨n, hrun⟩, hq⟩ := h
  have hanswers : ∀ c e r e1, streamEnv c e = some (r, e1) →
      streamEnv c { e with inp := e.inp ++ more } =
        some (r, { e1 with inp := e1.inp ++ more }) := by
    intro c e r e' hanswer
    cases c with
    | stReadFully nbyte =>
      simp only [streamEnv] at hanswer ⊢
      by_cases hle : nbyte ≤ e.inp.length
      · rw [if_pos hle] at hanswer
        cases hanswer
        rw [if_pos (by rw [List.length_append]; omega)]
        simp [List.take_append_of_le_length hle, List.drop_append_of_le_length hle]
      · rw [if_neg hle] at hanswer
        cases hanswer
    | writev bytes =>
      cases hanswer
      rfl
    | stUsleep =>
      cases hanswer
      rfl
  exact ⟨a, s', _, ⟨n, exec_map hanswers p hrun⟩, e1, hq, rfl⟩

/-- A basic header reader and the message header reader behind it, given `header`
and what follows it: they take the header and nothing else, and their sizes add
up to its length. -/
def ReadExactly (basic : Routine (Int × Nat × Int × Nat))
    (message : Nat → Int → Nat → Routine (Int × Nat)) (header rest : Bytes) (s : State) : Prop :=
  wp streamEnv basic (fun r s' e' => r.1 = 0 ∧
    wp streamEnv (message r.2.1 r.2.2.1 r.2.2.2) (fun r' _ e'' =>
      r'.1 = 0 ∧ r.2.2.2 + r'.2 = header.length ∧ e''.inp = rest) s' e') s ⟨header ++ rest, []⟩

/-- Both pairs of readers, the control one and the audio/video one, on the same bytes. -/
def BothReadExactly (header rest : Bytes) (s : State) : Prop :=
  ReadExactly readBasicHeader readMessageHeader header rest (s.setBuffer .ioBuffer []) ∧
    ReadExactly readAudioVideoBasicHeader readAudioVideoMessageHeader header rest
      (s.setBuffer .audioVideoBuffer [])

section

variable {h : ChunkHeader} {c : ChunkStream} {bytes rest more : Bytes} {s : State}

theorem ReadExactly.append {basic : Routine (Int × Nat × Int × Nat)}
    {message : Nat → Int → Nat → Routine (Int × Nat)} {header : Bytes}
    (hread : ReadExactly basic message header rest s) (more : Bytes) :
    ReadExactly basic message header (rest ++ more) s := by
  unfold ReadExactly
  rw [← List.append_assoc]
  refine wp_mono (wp_streamEnv_append more hread) fun r s' e' ⟨e1, ⟨hrc, hmessage⟩, he'⟩ => ?_
  subst he'
  refine ⟨hrc, wp_mono (wp_streamEnv_append more hmessage) ?_⟩
  intro r' s'' e'' ⟨e2, ⟨hrc', hlen, hrest⟩, he''⟩
  subst he''
  exact ⟨hrc', hlen, by rw [← hrest]⟩

/-- The control readers take the bytes that they know of, and leave what is behind them. -/
theorem readExactly_control (hin : bytes ++ rest = h.controlBytes ++ more) :
    ReadExactly readBasicHeader readMessageHeader (c.bytes h.fmt ++ bytes) rest
      (s.setBuffer .ioBuffer []) ↔ more = rest := by
  have hbh : (c.bytes h.fmt).length
      = (((s.setBuffer .ioBuffer []).append .ioBuffer
          (c.bytes h.fmt)).buffer .ioBuffer).length := by
    simp
  unfold ReadExactly
  rw [List.append_assoc, hin, ChunkStream.wp_readBasicHeader _ (State.buffer_setBuffer ..) h.fmt_lt]
  simp only [true_and]
  rw [hbh, wp_readMessageHeader, ← hbh]
  constructor
  · intro hread
    exact hread.2.2
  · intro hmore
    subst hmore
    rw [List.append_cancel_right hin, List.length_append]
    exact ⟨rfl, rfl, rfl⟩

/-- The audio/video readers take the whole header, the extended timestamp included. -/
theorem readExactly_audioVideo (hfmt : h.fmt ≠ 3) (hin : bytes ++ rest = h.encode ++ more) :
    ReadExactly readAudioVideoBasicHeader readAudioVideoMessageHeader (c.bytes h.fmt ++ bytes) rest
      (s.setBuffer .audioVideoBuffer []) ↔ more = rest := by
  have hbh : (c.bytes h.fmt).length = ((((s.setBuffer .audioVideoBuffer []).append
      .audioVideoBuffer (c.bytes h.fmt)).setCurrCsid c.csid).buffer .audioVideoBuffer).length := by
    simp
  unfold ReadExactly
  rw [List.append_assoc, hin,
    ChunkStream.wp_readAudioVideoBasicHeader _ (State.buffer_setBuffer ..) h.fmt_lt]
  simp only [true_and]
  rw [hbh, wp_readAudioVideoMessageHeader h (fun h3 => absurd h3 hfmt), ← hbh]
  constructor
  · intro hread
    exact hread.2.2
  · intro hmore
    subst hmore
    rw [List.append_cancel_right hin, List.length_append]
    exact ⟨rfl, rfl, rfl⟩

end

/-- The timestamp field that `write_header` writes: the low three bytes, or the escape
value. -/
def writtenField (timestamp : BitVec 32) : BitVec 24 :=
  if 0xFFFFFF < timestamp.toNat then 0xFFFFFF else timestamp.setWidth 24

theorem writtenField_extended {timestamp : BitVec 32} (h : timestamp.toNat < 2 ^ 31) :
    writtenField timestamp = 0xFFFFFF ↔ 0xFFFFFF ≤ timestamp.toNat := by
  unfold writtenField
  by_cases hlong : 0xFFFFFF < timestamp.toNat
  · rw [if_pos hlong]
    exact ⟨fun _ => Nat.le_of_lt hlong, fun _ => rfl⟩
  · rw [if_neg hlong, ← BitVec.toNat_inj, BitVec.toNat_setWidth]
    show timestamp.toNat % 2 ^ 24 = 0xFFFFFF ↔ _
    omega

/-- What `write_header` emits: the fields of that header, and an extension only
above `0xFFFFFF`. -/
theorem headerBytes_eq {fmt csid : Nat} {timestamp : BitVec 32} {length : Int} {type : UInt8}
    {streamId : BitVec 32} (extended : BitVec 32) (hfmt : fmt ≤ 2) (h2 : 2 ≤ csid)
    (h63 : csid ≤ 63) (ht : timestamp.toNat < 2 ^ 31) :
    headerBytes fmt csid timestamp length type streamId
      = (ChunkStream.one csid h2 h63).bytes fmt
        ++ ((ChunkHeader.ofFmt fmt ⟨writtenField timestamp, extended⟩ (BitVec.ofInt 24 length) type
            streamId).fields
          ++ if 0xFFFFFF < timestamp.toNat then beBytes 4 timestamp.toNat else []) := by
  have hint : timestamp.toInt = timestamp.toNat := BitVec.toInt_eq_toNat_of_lt (by omega)
  have hext : (0xffffff : Int) < timestamp.toInt ↔ 0xFFFFFF < timestamp.toNat := by omega
  have hlength : (memBytes 3 length).reverse = beBytes 3 (BitVec.ofInt 24 length).toNat := by
    rw [BitVec.toNat_ofInt]
    rfl
  have hfield : (if 0xFFFFFF < timestamp.toNat then beBytes 3 0xffffff
      else beBytes 3 timestamp.toNat) = beBytes 3 (writtenField timestamp).toNat := by
    unfold writtenField
    by_cases hlong : 0xFFFFFF < timestamp.toNat
    · rw [if_pos hlong, if_pos hlong]
      rfl
    · rw [if_neg hlong, if_neg hlong, BitVec.toNat_setWidth]
      exact (beBytes_mod 3 _).symm
  have hbasic : basicHeaderBytes fmt csid = (ChunkStream.one csid h2 h63).bytes fmt :=
    if_pos (by omega)
  unfold headerBytes
  simp only [hext, decide_eq_true_eq, hbasic, hlength]
  rcases (by omega : fmt = 0 ∨ fmt = 1 ∨ fmt = 2) with h | h | h
  · subst h
    simp [mhSizeArray, ChunkHeader.ofFmt, ChunkHeader.fields, Stamp.fieldBytes, ← hfield]
  · subst h
    simp [mhSizeArray, ChunkHeader.ofFmt, ChunkHeader.fields, Stamp.fieldBytes, ← hfield]
  · subst h
    simp [mhSizeArray, ChunkHeader.ofFmt, ChunkHeader.fields, Stamp.fieldBytes, ← hfield]

/-- The bytes of a header are taken exactly by both pairs of readers if and only
if its timestamp needs no extension, or needs one and the header is not of
fmt 0: at `0xFFFFFF` the writer leaves out an extension that the audio/video
reader takes, and behind a fmt 0 header the control reader takes none. -/
theorem header_framing_iff (fmt csid : Nat) (timestamp : BitVec 32) (length : Int) (type : UInt8)
    (streamId : BitVec 32) (rest : Bytes) (s : State) (hfmt : fmt ≤ 2) (h2 : 2 ≤ csid)
    (h63 : csid ≤ 63) (ht : timestamp.toNat < 2 ^ 31) :
    BothReadExactly (headerBytes fmt csid timestamp length type streamId) rest s ↔
      timestamp.toNat < 0xFFFFFF ∨ fmt ≠ 0 ∧ 0xFFFFFF < timestamp.toNat := by
  -- a header with the field that was written, and any extension behind it
  let h (extended : BitVec 32) : ChunkHeader := .ofFmt fmt ⟨writtenField timestamp, extended⟩
    (BitVec.ofInt 24 length) type streamId
  let c : ChunkStream := .one csid h2 h63
  have hf : ∀ x, (h x).fmt = fmt := fun x => ChunkHeader.ofFmt_fmt (by omega)
  have h3 : ∀ x, (h x).fmt ≠ 3 := fun x => by rw [hf]; omega
  have hheader : ∀ x, headerBytes fmt csid timestamp length type streamId
      = c.bytes (h x).fmt ++ ((h x).fields
        ++ if 0xFFFFFF < timestamp.toNat then beBytes 4 timestamp.toNat else []) := by
    intro x
    rw [hf]
    exact headerBytes_eq x hfmt h2 h63 ht
  have hextended : ∀ x, (h x).extendedBytes
      = if 0xFFFFFF ≤ timestamp.toNat then beBytes 4 x.toNat else [] := by
    intro x
    rw [ChunkHeader.ofFmt_extendedBytes hfmt, Stamp.extendedBytes]
    simp only [writtenField_extended ht]
  have hcontrol : ∀ x, (h x).controlExtended = if fmt = 0 then [] else (h x).extendedBytes := by
    intro x
    rw [ChunkHeader.ofFmt_controlExtended hfmt, ChunkHeader.ofFmt_extendedBytes hfmt]
  rcases Nat.lt_trichotomy timestamp.toNat 0xFFFFFF with hshort | hlimit | hlong
  · -- no extension, and none is looked for
    refine ⟨fun _ => Or.inl hshort, fun _ => ?_⟩
    have hnil : (h 0).extendedBytes = [] := by rw [hextended, if_neg (by omega)]
    rw [hheader 0, if_neg (by omega), List.append_nil]
    constructor
    · refine (readExactly_control ?_).mpr rfl
      rw [ChunkHeader.controlBytes, hcontrol, hnil, ite_self, List.append_nil]
    · refine (readExactly_audioVideo (h3 0) ?_).mpr rfl
      rw [ChunkHeader.encode, hnil, List.append_nil]
  · -- the audio/video reader takes four bytes of what follows
    refine ⟨fun hread => ?_, fun hcond => by omega⟩
    have hmore := hread.2.append [0, 0, 0, 0]
    obtain ⟨x, hx⟩ : ∃ x : BitVec 32, beBytes 4 x.toNat = (rest ++ [0, 0, 0, 0]).take 4 := by
      have hlen : ((rest ++ [0, 0, 0, 0]).take 4).length = 4 := by
        rw [List.length_take, List.length_append]
        simp
      exact ⟨_, beBytes_ofNat (by decide) hlen⟩
    rw [hheader x, if_neg (by omega), List.append_nil] at hmore
    have hin : (h x).fields ++ (rest ++ [0, 0, 0, 0])
        = (h x).encode ++ (rest ++ [0, 0, 0, 0]).drop 4 := by
      rw [ChunkHeader.encode, hextended, if_pos (by omega), hx, List.append_assoc,
        List.take_append_drop]
    have htaken := (readExactly_audioVideo (h3 x) hin).mp hmore
    have hlen := congrArg List.length htaken
    simp only [List.length_drop, List.length_append, List.length_cons, List.length_nil] at hlen
    omega
  · -- the control reader leaves the extension of a fmt 0 header
    have hext : (h timestamp).extendedBytes = beBytes 4 timestamp.toNat := by
      rw [hextended, if_pos (by omega)]
    rw [hheader timestamp, if_pos hlong]
    constructor
    · intro hread
      refine Or.inr ⟨fun h0 => ?_, hlong⟩
      have hin : ((h timestamp).fields ++ beBytes 4 timestamp.toNat) ++ rest
          = (h timestamp).controlBytes ++ (beBytes 4 timestamp.toNat ++ rest) := by
        rw [ChunkHeader.controlBytes, hcontrol, if_pos h0, List.append_nil, List.append_assoc]
      have htaken := (readExactly_control hin).mp hread.1
      have hlen := congrArg List.length htaken
      rw [List.length_append, beBytes_length] at hlen
      omega
    · intro hcond
      have hfmt0 : fmt ≠ 0 := by omega
      constructor
      · refine (readExactly_control ?_).mpr rfl
        rw [ChunkHeader.controlBytes, hcontrol, if_neg hfmt0, hext]
      · refine (readExactly_audioVideo (h3 timestamp) ?_).mpr rfl
        rw [ChunkHeader.encode, hext]

/-- A delta that needs an extension is framed alike by both readers. -/
theorem header_framing_delta :
    BothReadExactly (headerBytes 1 6 0x1000000 300 9 1) [7] {} :=
  (header_framing_iff 1 6 0x1000000 300 9 1 [7] {} (by decide) (by decide) (by decide)
    (by decide)).mpr (Or.inr ⟨by decide, by decide⟩)

/-- The first timestamp that does not fit its field, for which the control reader leaves
four bytes behind. -/
theorem not_header_framing_limit : ¬ BothReadExactly (headerBytes 1 6 0xFFFFFF 300 9 1) [] {} := by
  intro h
  -- the extension that the audio/video reader waits for
  let header : ChunkHeader := .fmt1 ⟨0xFFFFFF, 0⟩ 300 9
  have hmore : ReadExactly readAudioVideoBasicHeader readAudioVideoMessageHeader
      ((ChunkStream.one 6 (by decide) (by decide)).bytes header.fmt ++ header.fields) [0, 0, 0, 0]
      (State.setBuffer {} .audioVideoBuffer []) := h.2.append [0, 0, 0, 0]
  have hin : header.fields ++ [0, 0, 0, 0] = header.encode ++ [] := rfl
  have htaken := (readExactly_audioVideo (by decide) hin).mp hmore
  cases htaken

end RtmpServer
