import RtmpServer.ChunkHeader

/-!
# The range of the running timestamp

`timestamp` and `timestamp_delta` are `int`s, and an extended timestamp may fill all
of their 32 bits. `timestamps_inRange_iff` says for which headers the addition at the
end of `read_audio_video_message_header` never overflows: the sums, taken as numbers
without bounds, must all be those of an `int`.

Mirroring notes:
- a signed overflow has no behaviour in the source, so the addition is undefined
  there (`checkedAddDelta`), and no run goes through it;
- four bytes above 0x7FFFFFFF are a negative delta, which is how the code stores them.
-/

namespace RtmpServer

open Coroutine Coroutine.Prog

/-- The numbers of an `int` of 32 bits, in which the code adds its timestamps up. -/
def InInt (x : Int) : Prop := -0x80000000 ≤ x ∧ x < 0x80000000

instance (x : Int) : Decidable (InInt x) := inferInstanceAs (Decidable (_ ∧ _))

/-- What `timestamp += timestamp_delta` makes of an entry, if an `int` had no bounds. -/
def MessageHeader.sum (h : MessageHeader) : Int := h.timestamp.toInt + h.timestampDelta.toInt

/-- `csid_header[csid].timestamp += csid_header[csid].timestamp_delta`, with no run where
the sum is out of range. -/
def checkedAddDelta (csid : Int) : Routine Unit := .act fun s =>
  let h := s.globals.header csid
  if h.timestamp.saddOverflow h.timestampDelta then none else some ((), s.setHeader csid h.addDelta)

/-- The headers of a chunk stream read one after the other, each with its basic
header in the buffer. -/
def readHeaders (csid : Int) : List (Bytes × ChunkHeader) → Routine Unit
  | [] => return ()
  | (bh, h) :: hs => do
    modify fun s => s.setBuffer .audioVideoBuffer bh
    let _ ← readAudioVideoMessageHeaderWith (checkedAddDelta csid) h.fmt csid bh.length
    readHeaders csid hs

/-! ## The sums without bounds -/

/-- Timestamp and delta of the entry of a chunk stream as integers, if there is one. -/
def clock (s : State) (csid : Int) : Option (Int × Int) :=
  (s.globals.csidHeader csid).map fun h => (h.timestamp.toInt, h.timestampDelta.toInt)

/-- What a header makes of them. A fmt 0 header adds its timestamp to its field; a
fmt 1 or 2 header that is the first one finds the `-1` of the constructor; a fmt 3
header that is the first one is refused. -/
def exactStep : ChunkHeader → Option (Int × Int) → Option (Int × Int)
  | .fmt0 t _ _ _, _ => some (t.field.toNat + t.value.toInt, t.value.toInt)
  | .fmt1 t _ _, c | .fmt2 t, c => some ((c.getD (-1, -1)).1 + t.value.toInt, t.value.toInt)
  | .fmt3, c => c.map fun (timestamp, delta) => (timestamp + delta, delta)

/-- The sums of all the additions, in their order; a header that is refused adds nothing. -/
def exactSums : Option (Int × Int) → List ChunkHeader → List Int
  | _, [] => []
  | c, h :: hs => ((exactStep h c).map Prod.fst).toList ++ exactSums (exactStep h c) hs

/-! ## One header -/

theorem not_saddOverflow_iff (x y : BitVec 32) :
    x.saddOverflow y = false ↔ InInt (x.toInt + y.toInt) := by
  unfold BitVec.saddOverflow InInt
  rw [Bool.or_eq_false_iff, decide_eq_false_iff_not, decide_eq_false_iff_not]
  omega

theorem wp_checkedAddDelta {csid : Int} {s : State} {e : Stream}
    {Q : Unit → State → Stream → Prop} :
    wp streamEnv (checkedAddDelta csid) Q s e ↔ InInt (s.globals.header csid).sum ∧
      Q () (s.setHeader csid (s.globals.header csid).addDelta) e := by
  rw [MessageHeader.sum, ← not_saddOverflow_iff, checkedAddDelta, wp_act]
  dsimp only
  cases (s.globals.header csid).timestamp.saddOverflow (s.globals.header csid).timestampDelta with
  | true => simp
  | false =>
    refine ⟨fun ⟨_, _, h, hq⟩ => ?_, fun ⟨_, hq⟩ => ⟨(), _, rfl, hq⟩⟩
    cases h
    exact ⟨rfl, hq⟩

theorem toInt_field (t : BitVec 24) : (t.setWidth 32).toInt = t.toNat := by
  have hlt : t.toNat < 2 ^ 24 := t.isLt
  have hnat : (t.setWidth 32).toNat = t.toNat := by
    rw [BitVec.toNat_setWidth, Nat.mod_eq_of_lt (by omega)]
  rw [BitVec.toInt_eq_toNat_of_lt (by omega), hnat]

/-- A header that is not refused does to the numbers of an entry what the clock says. -/
theorem exactStep_clock (h : ChunkHeader) {s : State} {csid : Int}
    (hentry : h.fmt = 3 → s.globals.csidHeader csid ≠ none) :
    exactStep h (clock s csid) = some ((h.stored (s.globals.header csid)).sum,
      (h.stored (s.globals.header csid)).timestampDelta.toInt) := by
  have hstart : ((clock s csid).getD (-1, -1)).1 = (s.globals.header csid).timestamp.toInt := by
    unfold clock Globals.header
    cases s.globals.csidHeader csid with
    | none => rfl
    | some m => rfl
  cases h with
  | fmt0 t length type streamId =>
    rw [MessageHeader.sum, ChunkHeader.stored, exactStep, toInt_field]
  | fmt1 t length type => rw [MessageHeader.sum, ChunkHeader.stored, exactStep, hstart]
  | fmt2 t => rw [MessageHeader.sum, ChunkHeader.stored, exactStep, hstart]
  | fmt3 =>
    obtain ⟨m, hm⟩ := Option.ne_none_iff_exists'.mp (hentry rfl)
    rw [clock, Globals.header, hm]
    rfl

/-- The entry that a header leaves, if its sum is in range, has the numbers of the sum
without bounds. -/
theorem clock_received {s : State} {csid : Int} {m : MessageHeader} (h : ChunkHeader)
    (hm : s.globals.csidHeader csid = some (h.received m)) (hin : InInt (h.stored m).sum) :
    clock s csid = some ((h.stored m).sum, (h.stored m).timestampDelta.toInt) := by
  have hno : ¬ (h.stored m).timestamp.saddOverflow (h.stored m).timestampDelta = true := by
    rw [(not_saddOverflow_iff _ _).mpr hin]
    exact Bool.false_ne_true
  rw [clock, hm, ← h.addDelta_stored, Option.map_some, MessageHeader.addDelta,
    BitVec.toInt_add_of_not_saddOverflow hno, MessageHeader.sum]

/-- A fmt 3 header without an entry is refused, and nothing is added. -/
theorem wp_readHeader_refused {addDelta : Routine Unit} {csid : Int} {s : State} {e : Stream}
    {Q : Int × Nat → State → Stream → Prop} (hnone : s.globals.csidHeader csid = none) :
    wp streamEnv (readAudioVideoMessageHeaderWith addDelta 3 csid
        (s.buffer .audioVideoBuffer).length) Q s e ↔ Q (-1, 0) s e := by
  have hnothing : (s.buffer .audioVideoBuffer).length + mhSizeArray 3
      - (s.buffer .audioVideoBuffer).length = 0 := Nat.sub_eq_zero_of_le (Nat.le_refl _)
  rw [readAudioVideoMessageHeaderWith, bind_eq, wp_bind, readNbytesCycleAv,
    wp_readNbytesCycleOn_stream (by rw [hnothing]; exact Nat.zero_le _), hnothing]
  simp [hnone, mhSizeArray]

/-! ## All headers -/

/-- The entry after one header, with the basic header `bh` in the buffer. -/
def readHeader (csid : Int) (bh : Bytes) (h : ChunkHeader) (s : State) : State :=
  ((s.setBuffer .audioVideoBuffer bh).setHeader csid (h.received (s.globals.header csid))).append
    .audioVideoBuffer h.encode

theorem wp_readHeaders_cons {csid : Int} {bh : Bytes} {h : ChunkHeader}
    {hs : List (Bytes × ChunkHeader)} {s : State} {p out : Bytes}
    (hentry : h.fmt = 3 → s.globals.csidHeader csid ≠ none) :
    wp streamEnv (readHeaders csid ((bh, h) :: hs)) (fun _ _ _ => True) s ⟨h.encode ++ p, out⟩ ↔
      InInt (h.stored (s.globals.header csid)).sum ∧
        wp streamEnv (readHeaders csid hs) (fun _ _ _ => True)
          (readHeader csid bh h s) ⟨p, out⟩ := by
  have hlen : bh.length
      = ((s.setBuffer .audioVideoBuffer bh).buffer .audioVideoBuffer).length := by simp
  rw [readHeaders, bind_eq, wp_bind, wp_modify, bind_eq, wp_bind, hlen,
    wp_readAudioVideoMessageHeaderWith (fun m => InInt m.sum) wp_checkedAddDelta h
      (by rwa [State.setBuffer_csidHeader]), State.setBuffer_header]
  rfl

theorem wp_readHeaders_refused {csid : Int} {bh : Bytes} {hs : List (Bytes × ChunkHeader)}
    {s : State} {e : Stream} (hnone : s.globals.csidHeader csid = none) :
    wp streamEnv (readHeaders csid ((bh, .fmt3) :: hs)) (fun _ _ _ => True) s e ↔
      wp streamEnv (readHeaders csid hs) (fun _ _ _ => True)
        (s.setBuffer .audioVideoBuffer bh) e := by
  have hlen : bh.length
      = ((s.setBuffer .audioVideoBuffer bh).buffer .audioVideoBuffer).length := by simp
  rw [readHeaders, bind_eq, wp_bind, wp_modify, bind_eq, wp_bind, hlen]
  exact wp_readHeader_refused (by rwa [State.setBuffer_csidHeader])

/-- The additions never overflow if and only if all the sums are those of an `int`. -/
theorem timestamps_inRange_iff (csid : Int) (hs : List (Bytes × ChunkHeader)) (rest out : Bytes) :
    ∀ s : State, wp streamEnv (readHeaders csid hs) (fun _ _ _ => True) s
        ⟨hs.flatMap (fun h => h.2.encode) ++ rest, out⟩ ↔
      ∀ x ∈ exactSums (clock s csid) (hs.map Prod.snd), InInt x := by
  induction hs with
  | nil =>
    intro s
    simp [readHeaders, exactSums]
  | cons x hs ih =>
    intro s
    obtain ⟨bh, h⟩ := x
    rw [List.flatMap_cons, List.append_assoc, List.map_cons, exactSums]
    by_cases hrefused : h.fmt = 3 ∧ s.globals.csidHeader csid = none
    · cases h with
      | fmt3 =>
        have hnone : clock s csid = none := by rw [clock, hrefused.2, Option.map_none]
        refine (wp_readHeaders_refused hrefused.2).trans ((ih _).trans ?_)
        rw [clock, State.setBuffer_csidHeader, ← clock, hnone]
        rfl
      | _ => cases hrefused.1
    · have hentry := fun h3 hnone => hrefused ⟨h3, hnone⟩
      rw [wp_readHeaders_cons hentry, exactStep_clock h hentry, ih, Option.map_some,
        Option.toList_some, List.singleton_append, List.forall_mem_cons]
      refine and_congr_right fun hin => ?_
      have hleft : (readHeader csid bh h s).globals.csidHeader csid
          = some (h.received (s.globals.header csid)) := by
        rw [readHeader, State.append_csidHeader, State.setHeader_csidHeader]
      rw [clock_received h hleft hin]

/-- A fmt 0 header with timestamp 1, and a delta of 0x7FFFFFFF behind it. -/
def overflowing : List (Bytes × ChunkHeader) :=
  [([0x06], .fmt0 ⟨1, 0⟩ 5 9 1), ([0x46], .fmt1 ⟨0xFFFFFF, 0x7FFFFFFF⟩ 5 9)]

theorem timestamps_overflow :
    ¬ wp streamEnv (readHeaders 6 overflowing) (fun _ _ _ => True) {}
        ⟨overflowing.flatMap (fun h => h.2.encode) ++ [], []⟩ := by
  have hfmt0 : (ChunkHeader.fmt0 ⟨1, 0⟩ 5 9 1).fmt ≠ 3 := by decide
  have hfmt1 : (ChunkHeader.fmt1 ⟨0xFFFFFF, 0x7FFFFFFF⟩ 5 9).fmt ≠ 3 := by decide
  have hsum : ¬ InInt ((ChunkHeader.fmt1 ⟨0xFFFFFF, 0x7FFFFFFF⟩ 5 9).stored
      ((readHeader 6 [0x06] (.fmt0 ⟨1, 0⟩ 5 9 1) {}).globals.header 6)).sum := by
    decide
  unfold overflowing
  rw [List.flatMap_cons, List.append_assoc, wp_readHeaders_cons fun h => absurd h hfmt0,
    List.flatMap_cons, List.append_assoc, wp_readHeaders_cons fun h => absurd h hfmt1]
  exact fun h => hsum h.2.1

end RtmpServer
