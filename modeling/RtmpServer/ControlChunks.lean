import RtmpServer.Received

/-!
# Control messages that come in chunks

Every `read_payload` fetches its payload and then parses it. `ConnectMessage`
fetches with the chunk loop, the other classes with one exact read, which takes
the chunk headers between the parts for payload. `dechunks_iff` says for which
messages that makes no difference.
-/

namespace RtmpServer

open Coroutine Coroutine.Prog Endian Framing

namespace Received

/-- How the class brings its payload into the buffer: in chunks, or as it comes. -/
def fetch : Received → Nat → Nat → Int → Nat → Routine Int
  | connectMessage => fun _ _ messageLength chunkSize =>
    dechunk .ioBuffer (.ret messageLength) (.ret chunkSize)
  | _ => fun bhSize mhSize messageLength _ => readWhole bhSize mhSize messageLength

/-- What it makes of the payload `p`: the return value and the state after it. -/
def parse : Received → Bytes → State → Option (Int × State)
  | connectMessage, p, s => (parseConnect p s.client.message).map fun r => (r.1, s.setMessage r.2)
  | publish, p, s => (parsePublish p s.client.message).map fun r => (r.1, s.setMessage r.2)
  | setDataFrame, p, s =>
    match parseSetDataFrame p with
    | .error .minusOne => some (-1, s)
    | .error .undefined => none
    | .ok (count, p) =>
      (parseEntries count p s.globals.setDataFrame).map fun r => (r.1, s.setMetaData r.2)
  | checkBw, _, s => some (0, s)
  | unknownMessage, _, s => some (0, s)
  | _, p, s => (parseCommand p s.client.message).map fun r => (r.1, s.setMessage r.2)

/-- The same as code, with `headerSize` bytes in front of the payload in the buffer. -/
def parsePayload (type : Received) (headerSize : Nat) : Routine Int :=
  match type with
  | checkBw => .ret 0
  | unknownMessage => .ret 0
  | type => .act fun s => type.parse ((s.buffer .ioBuffer).drop headerSize) s

/-- Every `read_payload` fetches first and then parses, and returns `-1` if the payload has
not come. -/
theorem readPayload_eq (type : Received) (bhSize mhSize : Nat) (messageLength : Int)
    (chunkSize : Nat) :
    type.readPayload bhSize mhSize messageLength chunkSize = (do
      let rc ← type.fetch bhSize mhSize messageLength chunkSize
      if rc = -1 then
        return -1
      type.parsePayload (bhSize + mhSize)) := by
  cases type <;> rfl

section

variable {ε : Type} {env : Env st ε} {s : State} {e : ε}

theorem wp_parsePayload (type : Received) {headerSize : Nat} {Q : Int → State → ε → Prop} :
    wp env (type.parsePayload headerSize) Q s e ↔
      ∃ rc t, type.parse ((s.buffer .ioBuffer).drop headerSize) s = some (rc, t) ∧ Q rc t e := by
  have hdropped : wp env (.ret 0) Q s e ↔ ∃ rc t,
      some ((0 : Int), s) = some (rc, t) ∧ Q rc t e := by
    rw [wp_ret]
    refine ⟨fun h => ⟨0, s, rfl, h⟩, fun ⟨rc, t, h, hq⟩ => ?_⟩
    cases h
    exact hq
  cases type with
  | checkBw => exact hdropped
  | unknownMessage => exact hdropped
  | connectMessage => exact wp_act
  | releaseStream => exact wp_act
  | fcPublish => exact wp_act
  | createStream => exact wp_act
  | getStreamLength => exact wp_act
  | playCommandMessage => exact wp_act
  | publish => exact wp_act
  | setDataFrame => exact wp_act

/-- A parser looks at the buffer and leaves it as it is, so a receive leaves what has come
in. -/
theorem parse_buffer {type : Received} {p : Bytes} {t : State} {rc : Int}
    (h : type.parse p s = some (rc, t)) (b : Buffer) : t.buffer b = s.buffer b := by
  have hmessage : ∀ {o : Option (Int × IoMessage)},
      (o.map fun r => (r.1, s.setMessage r.2)) = some (rc, t) → t.buffer b = s.buffer b := by
    intro o ho
    obtain ⟨r, -, heq⟩ := Option.map_eq_some_iff.mp ho
    cases heq
    cases b <;> rfl
  cases type with
  | connectMessage => exact hmessage h
  | releaseStream => exact hmessage h
  | fcPublish => exact hmessage h
  | createStream => exact hmessage h
  | getStreamLength => exact hmessage h
  | playCommandMessage => exact hmessage h
  | publish => exact hmessage h
  | checkBw =>
    cases h
    rfl
  | unknownMessage =>
    cases h
    rfl
  | setDataFrame =>
    simp only [parse] at h
    cases hp : parseSetDataFrame p with
    | error f =>
      rw [hp] at h
      cases f with
      | minusOne =>
        cases h
        rfl
      | undefined => cases h
    | ok r =>
      rw [hp] at h
      obtain ⟨r, -, heq⟩ := Option.map_eq_some_iff.mp h
      cases heq
      exact State.setMetaData_buffer ..

end

/-! ## Reading a payload that was written in chunks -/

/-- What is asked of a `read_payload` whose message, behind its header, is in
the stream in chunks of `chunkSize`: it takes these chunks and no more, and
leaves the payload behind the header. -/
def Dechunks (type : Received) (bhSize mhSize chunkSize : Nat) (c : UInt8)
    (payload rest out : Bytes) (s : State) : Prop :=
  wp streamEnv (type.readPayload bhSize mhSize payload.length chunkSize)
    (fun _ s' e' => s'.buffer .ioBuffer = s.buffer .ioBuffer ++ payload ∧ e' = ⟨rest, out⟩)
    s ⟨frame [c] chunkSize [] payload ++ rest, out⟩

/-- The parser stays in the payload and the terminating zero behind it: no string
is announced more than one byte longer than what is left, and no key of an object
has a length that `int16_t` takes for a negative one. -/
def Parses (type : Received) (payload : Bytes) (s : State) : Prop :=
  type.parse payload s ≠ none

theorem parse_append (type : Received) (p bytes : Bytes) (s : State) :
    type.parse p (s.append .ioBuffer bytes) = none ↔ type.parse p s = none := by
  cases type with
  | checkBw => simp [parse]
  | unknownMessage => simp [parse]
  | setDataFrame =>
    simp only [parse, State.append_setDataFrame]
    cases parseSetDataFrame p with
    | error f => cases f <;> simp
    | ok r => simp
  | connectMessage => simp [parse]
  | releaseStream => simp [parse]
  | fcPublish => simp [parse]
  | createStream => simp [parse]
  | getStreamLength => simp [parse]
  | playCommandMessage => simp [parse]
  | publish => simp [parse]

section

variable {bhSize mhSize chunkSize : Nat} {c : UInt8} {payload rest out : Bytes} {s : State}

/-- With the payload in the buffer, parsing it is all that is left to do. -/
theorem wp_parsePayload_fetched (type : Received) {Q : Stream → Prop} {e : Stream}
    (hhdr : (s.buffer .ioBuffer).length = bhSize + mhSize) :
    wp streamEnv (type.parsePayload (bhSize + mhSize)) (fun _ s' e' =>
        s'.buffer .ioBuffer = s.buffer .ioBuffer ++ payload ∧ Q e')
      (s.append .ioBuffer payload) e ↔ type.Parses payload s ∧ Q e := by
  have hdrop : ((s.append .ioBuffer payload).buffer .ioBuffer).drop (bhSize + mhSize)
      = payload := by
    rw [State.buffer_append]
    exact List.drop_left' hhdr
  rw [wp_parsePayload, hdrop, Parses, Ne, ← parse_append type payload payload s]
  constructor
  · intro ⟨rc, t, hparse, _, hQ⟩
    rw [hparse]
    exact ⟨Option.some_ne_none _, hQ⟩
  · intro ⟨hparse, hQ⟩
    obtain ⟨⟨rc, t⟩, ht⟩ := Option.ne_none_iff_exists'.mp hparse
    refine ⟨rc, t, ht, ?_, hQ⟩
    rw [parse_buffer ht, State.buffer_append]

/-- The chunk loop of `ConnectMessage` takes chunks of any size, and the payload is what it
was. -/
theorem dechunks_connect (hcs : 1 ≤ chunkSize)
    (hhdr : (s.buffer .ioBuffer).length = bhSize + mhSize) :
    connectMessage.Dechunks bhSize mhSize chunkSize c payload rest out s
      ↔ connectMessage.Parses payload s := by
  have hfetch : ∀ {Q : Int → State → Stream → Prop}, Q 0 (s.append .ioBuffer payload) ⟨rest, out⟩ →
      wp streamEnv (connectMessage.fetch bhSize mhSize payload.length chunkSize) Q s
        ⟨frame [c] chunkSize [] payload ++ rest, out⟩ := by
    intro Q hQ
    exact wp_dechunk (fun _ => by simp) (fun _ => by simp) hcs hQ
  unfold Dechunks
  rw [readPayload_eq, bind_eq, wp_bind]
  constructor
  · intro h
    -- the loop has one run, which ends with the payload in the buffer
    have hrun := wp_of_wlp h (wlp_of_wp (hfetch (Q := fun rc s' e' =>
      rc = 0 ∧ s' = s.append .ioBuffer payload ∧ e' = ⟨rest, out⟩) ⟨rfl, rfl, rfl⟩))
    obtain ⟨rc, s', e', hr, hrc, hs, he⟩ := hrun
    have hwp := wlp_of_wp h rc s' e' hr
    rw [hrc, hs, he, if_neg (by decide), wp_parsePayload_fetched _ hhdr] at hwp
    exact hwp.1
  · intro h
    refine hfetch ?_
    rw [if_neg (by decide), wp_parsePayload_fetched _ hhdr]
    exact ⟨h, rfl⟩

/-- The exact read takes as many bytes as the payload has, whatever they are. -/
theorem dechunks_whole {type : Received} (htype : type ≠ .connectMessage) (hcs : 1 ≤ chunkSize)
    (hhdr : (s.buffer .ioBuffer).length = bhSize + mhSize) :
    type.Dechunks bhSize mhSize chunkSize c payload rest out s
      ↔ payload.length ≤ chunkSize ∧ type.Parses payload s := by
  have hfetch : type.fetch bhSize mhSize payload.length chunkSize
      = readWhole bhSize mhSize payload.length := by
    cases type with
    | connectMessage => exact absurd rfl htype
    | _ => rfl
  have hlen : (frame [c] chunkSize [] payload).length = _ := frame_length hcs [] payload
  rw [List.length_nil, List.length_singleton, Nat.zero_add, Nat.one_mul] at hlen
  have hmissing : (((bhSize + mhSize : Nat) : Int) + payload.length).toNat
      - (s.buffer .ioBuffer).length = payload.length := by omega
  have henough : payload.length ≤ (frame [c] chunkSize [] payload ++ rest).length := by
    rw [List.length_append, hlen, Nat.add_assoc]
    exact Nat.le_add_right ..
  unfold Dechunks
  rw [readPayload_eq, hfetch, bind_eq, wp_bind, readWhole, bind_eq, wp_bind, readNbytesCycle,
    wp_readNbytesCycleOn_stream (by rw [hmissing]; exact henough), hmissing]
  simp only [pure_eq, wp_ret]
  rw [if_neg (by decide)]
  constructor
  · intro h
    have hle : payload.length ≤ chunkSize := by
      -- a second chunk's header would be left in the stream
      obtain ⟨_, _, _, _, he⟩ := (wp_parsePayload type).mp h
      have hcount := congrArg (fun e => e.inp.length) he
      dsimp only at hcount
      rw [List.length_drop, List.length_append, hlen] at hcount
      rcases Nat.lt_or_ge chunkSize payload.length with hlong | hshort
      · have hpos : 0 < (payload.length - chunkSize + (chunkSize - 1)) / chunkSize :=
          Nat.div_pos (by omega) hcs
        generalize (payload.length - chunkSize + (chunkSize - 1)) / chunkSize = k at hcount hpos
        omega
      · exact hshort
    rw [frame_short hle, List.nil_append, List.take_left, List.drop_left,
      wp_parsePayload_fetched _ hhdr] at h
    exact ⟨hle, h.1⟩
  · intro hboth
    obtain ⟨hle, hparse⟩ := hboth
    rw [frame_short hle, List.nil_append, List.take_left, List.drop_left,
      wp_parsePayload_fetched _ hhdr]
    exact ⟨hparse, rfl⟩

end

/-- A message in chunks is read as it was written if and only if its class is
`ConnectMessage` or it is all in one chunk; in both cases the parser must stay
in the payload. -/
theorem dechunks_iff (type : Received) (bhSize mhSize chunkSize : Nat) (c : UInt8)
    (payload rest out : Bytes) (s : State) (hcs : 1 ≤ chunkSize)
    (hhdr : (s.buffer .ioBuffer).length = bhSize + mhSize) :
    type.Dechunks bhSize mhSize chunkSize c payload rest out s
      ↔ (type = .connectMessage ∨ payload.length ≤ chunkSize) ∧ type.Parses payload s := by
  by_cases htype : type = .connectMessage
  · subst htype
    rw [dechunks_connect hcs hhdr]
    exact ⟨fun h => ⟨Or.inl rfl, h⟩, fun h => h.2⟩
  · rw [dechunks_whole htype hcs hhdr, or_iff_right htype]

/-- A header of 12 bytes in the buffer, as the readers leave it in front of the payload. -/
def headerRead : State where
  client := { ioBuffer := List.replicate 12 0 }

/-- The payload of a `play` of a stream whose name has `n` bytes. -/
def playPayload (n : Nat) : Bytes :=
  0x02 :: (beBytes 2 4 ++ (chars "play" ++ (0x00 :: (beBytes 8 0 ++ (0x05 :: 0x02 ::
    (beBytes 2 n ++ List.replicate n 0x61))))))

theorem playPayload_length (n : Nat) : (playPayload n).length = 20 + n := by
  have hname : (chars "play").length = 4 := rfl
  simp only [playPayload, List.length_cons, List.length_append, beBytes_length, hname,
    List.length_replicate]
  omega

/-- A short name fits into one chunk, so the message is read as it was sent. -/
theorem dechunks_play_short :
    playCommandMessage.Dechunks 1 11 128 0xc3 (playPayload 4) [7] [] headerRead :=
  (dechunks_iff playCommandMessage 1 11 128 0xc3 (playPayload 4) [7] [] headerRead (by decide)
    rfl).mpr ⟨Or.inr (by decide), Option.isSome_iff_ne_none.mp (by decide)⟩

/-- A name of 120 bytes needs a second chunk, whose header stays in the payload. -/
theorem not_dechunks_play_long :
    ¬ playCommandMessage.Dechunks 1 11 128 0xc3 (playPayload 120) [7] [] headerRead := by
  rw [dechunks_whole (by decide) (by decide) rfl, playPayload_length]
  exact fun h => absurd h.1 (by decide)

end Received

end RtmpServer
