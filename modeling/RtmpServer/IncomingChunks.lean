import RtmpServer.Session
import RtmpServer.RelayDecode

/-!
# One chunk size for both directions

`Client::chunk_size` is what `write_message` cuts with and what the receive
loops put together with. The session overwrites it when it announces its own
size, and from then on it expects the peer's chunks in that size. The peer goes
on with its own: `reassembled_iff` says which messages still come through.
-/

namespace RtmpServer

open Coroutine Coroutine.Prog Framing

/-! ## The session after the announcement -/

/-- From `s` the session has announced its chunk size, however the write went. -/
def Announces (order : Order) (s s' : State) : Prop :=
  ∃ (ε : Type) (env : Env st ε) (e e1 : ε) (rc : Int) (s1 : State),
    Runs env (Step.announceChunkSize.call order) s e rc s1 e1 ∧
      s' = Step.announceChunkSize.finish order rc s1

/-- It goes on: with another line, with a round of the publisher loop, or with
what others did to the globals. -/
inductive GoesOn (order : Order) : State → State → Prop where
  | line {ε : Type} {env : Env st ε} {e e1 : ε} {step : Step} {s s1 : State} {rc : Int} :
      Runs env (step.call order) s e rc s1 e1 → GoesOn order s (step.finish order rc s1)
  | round {ε : Type} {env : Env st ε} {e e1 : ε} {s s1 : State} {rc : Int} :
      Runs env Broadcast.publisherRound s e rc s1 e1 →
      GoesOn order s (s1.setBuffer .audioVideoBuffer [])
  | others {s : State} (g : Globals) : GoesOn order s { s with globals := g }

/-- A state of the session at any time after the announcement, whatever calls it has made
and whatever the others have done. -/
inductive Later (order : Order) (s : State) : State → Prop where
  | announced {s' : State} : Announces order s s' → Later order s s'
  | goesOn {s' s'' : State} : Later order s s' → GoesOn order s' s'' → Later order s s''

/-- The chunk size is as it was, which is all that matters here of a call. -/
def SameChunkSize (s s' : State) : Prop := s'.client.chunkSize = s.client.chunkSize

theorem sameChunkSize_closed : Closed SameChunkSize where
  refl _ := rfl
  trans _ _ _ h h' := Eq.trans h' h
  buffer s b bytes := s.setBuffer_chunkSize b bytes
  header _ _ _ := rfl
  currCsid _ _ := rfl
  message _ _ := rfl
  metaData _ _ _ := rfl

theorem call_chunkSize {ε : Type} {env : Env st ε} (order : Order) (step : Step) {s s' : State}
    {e e' : ε} {rc : Int} (h : Runs env (step.call order) s e rc s' e') : SameChunkSize s s' :=
  Keeps.wlp sameChunkSize_closed.refl sameChunkSize_closed.trans _
    (Step.call_keeps sameChunkSize_closed order fun _ => ⟨fun _ => rfl, fun _ _ => rfl⟩) _ _ _ h

theorem finish_chunkSize {order : Order} {step : Step} {rc : Int} {s : State}
    (h : s.client.chunkSize = 4096) : (step.finish order rc s).client.chunkSize = 4096 := by
  cases step with
  | announceChunkSize => rfl
  | identify =>
    by_cases hrc : rc = 4
    · simp only [Step.finish, if_pos hrc]
      exact h
    · simp only [Step.finish, if_neg hrc]
      exact h
  | _ => exact h

theorem later_chunkSize {order : Order} {s s' : State} (h : Later order s s') :
    s'.client.chunkSize = 4096 := by
  induction h with
  | announced h =>
    obtain ⟨_, _, _, _, _, _, _, rfl⟩ := h
    rfl
  | goesOn _ hon ih =>
    cases hon with
    | line hrun => exact finish_chunkSize ((call_chunkSize order _ hrun).trans ih)
    | round hrun =>
      have hkeeps : Broadcast.publisherRound.Keeps SameChunkSize := by
        refine ⟨recvAudioVideo_keeps sameChunkSize_closed.refl
          (fun s bytes => s.setBuffer_chunkSize _ bytes) (fun _ _ => rfl) fun _ _ _ => rfl,
          fun r => ⟨keeps_modify fun _ => rfl, fun _ => trivial⟩⟩
      exact (Keeps.wlp sameChunkSize_closed.refl sameChunkSize_closed.trans _ hkeeps _ _ _
        hrun).trans ih
    | others g => exact ih

/-- The announcement can be made: there is a run of it from any state. -/
theorem exists_announces (order : Order) {s : State} (hempty : s.buffer .ioBuffer = [])
    (hcs : 1 ≤ s.client.chunkSize) : ∃ s', Announces order s s' := by
  have hwp : wp streamEnv Send.setChunkSize.write _ s ⟨[], []⟩ :=
    Send.wp_write rfl (by decide) hempty hcs
  obtain ⟨rc, s1, e1, hrun, _⟩ := hwp
  exact ⟨_, Stream, streamEnv, _, e1, rc, s1, hrun, rfl⟩

/-- And the other sessions may leave the shared buffer empty behind it, as the publisher's
loop does. -/
theorem exists_later (order : Order) {s : State} (hempty : s.buffer .ioBuffer = [])
    (hcs : 1 ≤ s.client.chunkSize) :
    ∃ s', Later order s s' ∧ s'.buffer .audioVideoBuffer = [] := by
  obtain ⟨s', hann⟩ := exists_announces order hempty hcs
  exact ⟨_, .goesOn (.announced hann) (.others { s'.globals with audioVideoBuffer := [] }), rfl⟩

/-! ## What comes in then -/

/-- A message that the peer has cut into chunks of `size` is received as it was
sent: the header and the payload are in the buffer, and the stream stands at
what follows. -/
def Reassembles (size : Nat) (h : ChunkHeader) (c : ChunkStream) (payload rest out : Bytes)
    (s : State) : Prop :=
  wp streamEnv recvAudioVideo (fun r s' e' => r.1 = 0 ∧ e' = ⟨rest, out⟩ ∧
      s'.buffer .audioVideoBuffer = c.bytes h.fmt ++ h.encode ++ payload) s
    ⟨c.bytes h.fmt ++ (h.encode ++ (frame (c.bytes 3) size [] payload ++ rest)), out⟩

section

variable {size : Nat} {h : ChunkHeader} {c : ChunkStream} {payload rest out : Bytes} {s : State}

/-- The receiver, for its part, makes of the stream what a reader of chunks of
4096 bytes does. -/
theorem unframe_of_reassembles (hclear : s.buffer .audioVideoBuffer = [])
    (hentry : h.fmt = 3 → s.globals.csidHeader c.csid ≠ none)
    (hlen : (h.received (s.globals.header c.csid)).messageLength = payload.length)
    (hcs : s.client.chunkSize = 4096) (hre : Reassembles size h c payload rest out s) :
    unframe 4096 payload.length (frame (c.bytes 3) size [] payload ++ rest)
      = some (payload, rest) := by
  unfold Reassembles at hre
  rw [wp_recvAudioVideo_header hclear hentry] at hre
  obtain ⟨rc, s', e', hrun, hrc, he, hbuf⟩ := hre
  obtain ⟨p, got, htook, hs', hdone⟩ := wlp_recvAudioVideoPayload account_tookFrom
    (m := h.received (s.globals.header c.csid)) (by simp) _ _ _ hrun
  rcases hdone with ⟨herr, -⟩ | ⟨-, hread⟩
  · rw [if_pos herr] at hrc
    cases hrc
  have hgot : got = payload := by
    rw [hs', State.buffer_append, State.buffer_append, State.setHeader_buffer,
      State.setCurrCsid_buffer, hclear, List.nil_append, List.append_cancel_left_eq] at hbuf
    exact hbuf
  have hall := hread e'.inp
  rw [TookFrom] at htook
  rw [← htook, hgot, he, hlen] at hall
  simpa [hcs] using hall

/-- Chunks of 4096 bytes behind one-byte headers are what it expects, so every message comes
through. -/
theorem reassembles_same {x : UInt8} (hclear : s.buffer .audioVideoBuffer = [])
    (hentry : h.fmt = 3 → s.globals.csidHeader c.csid ≠ none)
    (hlen : (h.received (s.globals.header c.csid)).messageLength = payload.length)
    (hcs : s.client.chunkSize = 4096)
    (hframe : frame (c.bytes 3) size [] payload = frame [x] 4096 [] payload) :
    Reassembles size h c payload rest out s := by
  unfold Reassembles
  rw [hframe, wp_recvAudioVideo_header hclear hentry]
  refine wp_dechunk (fun bytes => ?_) (fun bytes => ?_) (by decide) ?_
  · rw [wp_lookup (m := h.received (s.globals.header c.csid)) (by simp), hlen]
  · simp [hcs]
  · rw [if_neg (by decide)]
    simp [hclear]

end

/-- There are two bytes other than a given one, and different from each other. -/
theorem exists_other_bytes (x : UInt8) : ∃ d d' : UInt8, d ≠ x ∧ d' ≠ x ∧ d' ≠ d := by
  by_cases h0 : x = 0
  · exact ⟨1, 2, by rw [h0]; decide, by rw [h0]; decide, by decide⟩
  · by_cases h1 : x = 1
    · exact ⟨0, 2, fun h => h0 h.symm, by rw [h1]; decide, by decide⟩
    · exact ⟨0, 1, fun h => h0 h.symm, fun h => h1 h.symm, by decide⟩

/-- Otherwise some message of the length does not come through: one that shows where the
reader cuts. -/
theorem exists_not_reassembled (order : Order) (s : State) (size n : Nat) (c : ChunkStream)
    (hsize : 1 ≤ size) (hn : n ≤ 0xFFFFFF) (hempty : s.buffer .ioBuffer = [])
    (hcs : 1 ≤ s.client.chunkSize) (hne : ¬ (size = 4096 ∧ (c.bytes 3).length = 1))
    (hlong : min size 4096 < n) :
    ∃ s', Later order s s' ∧ s'.buffer .audioVideoBuffer = [] ∧
      ∃ (h : ChunkHeader) (payload : Bytes),
        (h.fmt = 3 → s'.globals.csidHeader c.csid ≠ none) ∧ payload.length = n ∧
        (h.received (s'.globals.header c.csid)).messageLength = n ∧
        ¬ Reassembles size h c payload [] [] s' := by
  obtain ⟨s', hlater, hclear⟩ := exists_later order hempty hcs
  obtain ⟨x, sep, hsep⟩ : ∃ x sep, c.bytes 3 = x :: sep := by
    cases c <;> exact ⟨_, _, rfl⟩
  obtain ⟨d, d', hd, hd', hdd⟩ := exists_other_bytes x
  have hsame : ¬ (size = 4096 ∧ sep = []) := by
    intro h
    refine hne ⟨h.1, ?_⟩
    rw [hsep, h.2]
    rfl
  obtain ⟨payload, hlen, hbad⟩ := exists_unframe_ne (by decide) hsize hsame hlong hd hd' hdd
  let h : ChunkHeader := .fmt0 ⟨0, 0⟩ (BitVec.ofNat 24 n) 9 1
  have hfmt : h.fmt = 3 → s'.globals.csidHeader c.csid ≠ none := fun h3 =>
    absurd h3 (show (0 : Nat) ≠ 3 by decide)
  have hml : (h.received (s'.globals.header c.csid)).messageLength = n := by
    show ((BitVec.ofNat 24 n).toNat : Int) = n
    rw [BitVec.toNat_ofNat, Nat.mod_eq_of_lt (by omega)]
  refine ⟨s', hlater, hclear, h, payload, hfmt, hlen, hml, fun hre => ?_⟩
  have hread := unframe_of_reassembles hclear hfmt (by rw [hml, hlen]) (later_chunkSize hlater) hre
  rw [hlen, hsep] at hread
  exact hbad [] hread

/-- Whatever the session does after its announcement: the audio and video
messages of `n` bytes that come on a chunk stream in chunks of `size` are
received as they were sent if and only if the peer happens to write with 4096
too, behind one-byte headers, or both sizes take them in one chunk. -/
theorem reassembled_iff (order : Order) (s : State) (size n : Nat) (c : ChunkStream)
    (hsize : 1 ≤ size) (hn : n ≤ 0xFFFFFF) (hempty : s.buffer .ioBuffer = [])
    (hcs : 1 ≤ s.client.chunkSize) :
    (∀ s', Later order s s' → s'.buffer .audioVideoBuffer = [] →
      ∀ (h : ChunkHeader) (payload rest out : Bytes),
        (h.fmt = 3 → s'.globals.csidHeader c.csid ≠ none) → payload.length = n →
        (h.received (s'.globals.header c.csid)).messageLength = n →
        Reassembles size h c payload rest out s')
      ↔ size = 4096 ∧ (c.bytes 3).length = 1 ∨ n ≤ min size 4096 := by
  constructor
  · intro hall
    refine Classical.byContradiction fun hnot => ?_
    obtain ⟨hne, hlong⟩ := not_or.mp hnot
    obtain ⟨s', hlater, hclear, h, payload, hentry, hlen, hml, hbad⟩ :=
      exists_not_reassembled order s size n c hsize hn hempty hcs hne (Nat.not_le.mp hlong)
    exact hbad (hall s' hlater hclear h payload [] [] hentry hlen hml)
  · intro hcond s' hlater hclear h payload rest out hentry hlen hml
    have hcs' := later_chunkSize hlater
    rw [← hlen] at hml
    rcases hcond with ⟨hsame, hone⟩ | hshort
    · obtain ⟨x, hx⟩ := List.length_eq_one_iff.mp hone
      exact reassembles_same (x := x) hclear hentry hml hcs' (by rw [hsame, hx])
    · refine reassembles_same (x := 0) hclear hentry hml hcs' ?_
      rw [frame_short (by omega), frame_short (by omega)]

/-- The stream that a publisher sends its video on, with a basic header of one byte. -/
def videoStream : ChunkStream := .one 6 (by decide) (by decide)

/-- A new session that announces its size to a peer that keeps to 128: what
fits in one chunk comes through. -/
theorem reassembled_default : ∃ s', Later Order.front {} s' ∧
    Reassembles 128 (.fmt0 ⟨0, 0⟩ 128 9 1) videoStream (List.replicate 128 0xaa) [] [] s' := by
  obtain ⟨s', hlater, hclear⟩ := exists_later Order.front (s := {}) rfl (by decide)
  have hall := (reassembled_iff Order.front {} 128 128 videoStream (by decide) (by decide) rfl
    (by decide)).mpr (Or.inr (by decide))
  exact ⟨s', hlater, hall s' hlater hclear _ _ _ _ (fun h => nomatch h)
    (List.length_replicate ..) rfl⟩

/-- One byte more does not, as the peer's second chunk begins where the reader sees none. -/
theorem not_reassembled_default :
    ¬ ∀ s', Later Order.front {} s' → s'.buffer .audioVideoBuffer = [] →
      ∀ (h : ChunkHeader) (payload rest out : Bytes),
        (h.fmt = 3 → s'.globals.csidHeader videoStream.csid ≠ none) → payload.length = 129 →
        (h.received (s'.globals.header videoStream.csid)).messageLength = 129 →
        Reassembles 128 h videoStream payload rest out s' := by
  intro hall
  obtain ⟨s', hlater, hclear, h, payload, hentry, hlen, hml, hbad⟩ :=
    exists_not_reassembled Order.front {} 128 129 videoStream (by decide)
      (by decide) rfl (by decide) (by decide) (by decide)
  exact hbad (hall s' hlater hclear h payload [] [] hentry hlen hml)

end RtmpServer
