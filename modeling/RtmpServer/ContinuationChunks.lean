import RtmpServer.ControlChunks
import RtmpServer.Heard

/-!
# What stands between two chunks

From the second chunk on, the two chunk loops read one byte more than they need
and cut it out of the buffer: the fmt 3 basic header, as their comments say.
Neither looks at the byte. `continuations_checked_iff`: what they cut out is a
header of the chunk stream if and only if the peer has sent nothing else, or not
enough.
-/

namespace RtmpServer

open Coroutine Coroutine.Prog Framing

/-- Bytes are cut out between the chunks of `csid` only where they are its fmt 3
basic header; any other byte makes the loop fail. -/
def Checked (csid : Int) (removed : Bytes) (rc : Int) : Prop :=
  (rc = 0 → ∀ x ∈ removed, x = headerFmt3 csid) ∧
    ((∃ x ∈ removed, x ≠ headerFmt3 csid) → rc = -1)

/-- Too few bytes come for a message of the length, or there are only fmt 3 basic
headers of `csid` between its chunks. -/
def OwnHeaders (csid : Int) (size length : Nat) (p : Bytes) : Prop :=
  unframe size length p = none ∨ ∀ x ∈ separators size length p, x = headerFmt3 csid

theorem checked_iff {csid rc : Int} {size n : Nat} {p payload : Bytes}
    (h : rc = -1 ∧ unframe size n p = none ∨
      rc = 0 ∧ ∀ rest, unframe size n (p ++ rest) = some (payload, rest)) :
    Checked csid (separators size n p) rc ↔ OwnHeaders csid size n p := by
  rcases h with ⟨hrc, hnone⟩ | ⟨hrc, hread⟩
  · refine ⟨fun _ => Or.inl hnone, fun _ => ⟨fun h0 => ?_, fun _ => hrc⟩⟩
    rw [hrc] at h0
    cases h0
  · have hsome := hread []
    rw [List.append_nil] at hsome
    constructor
    · intro hchecked
      exact Or.inr (hchecked.1 hrc)
    · rintro (hnone | hown)
      · rw [hsome] at hnone
        cases hnone
      · exact ⟨fun _ => hown, fun ⟨x, hx, hne⟩ => absurd (hown x hx) hne⟩

/-- A message of one chunk has nothing between its chunks, so there is nothing to be
checked. -/
theorem checked_iff_short {csid rc : Int} {size n : Nat} {p : Bytes} (h : size = 0 ∨ n ≤ size) :
    Checked csid (separators size n p) rc ↔ OwnHeaders csid size n p := by
  unfold Checked OwnHeaders
  rw [separators_short h]
  simp

section

variable {ε : Type} {env : Env st ε} {inp : ε → Bytes} {s s' : State} {e e' : ε} {rc : Int}
  {p : Bytes}

/-- The loop of `ConnectMessage::read_payload`, as it was read: it fails, or has taken the
payload out of what came. -/
theorem wlp_fetch_connect {bhSize mhSize chunkSize : Nat} {messageLength : Int} :
    wlp env (Received.fetch .connectMessage bhSize mhSize messageLength chunkSize)
      (fun rc s' e' => ∃ p payload, Came env e p e' ∧ s' = s.append .ioBuffer payload ∧
        (rc = -1 ∧ unframe chunkSize messageLength.toNat p = none ∨ rc = 0 ∧
          ∀ rest, unframe chunkSize messageLength.toNat (p ++ rest) = some (payload, rest))) s e :=
  wlp_dechunk account_came (fun _ => wlp_ret) fun _ => wlp_ret

/-- What a loop has taken is the payload that it leaves, with the bytes that it
has cut out. -/
theorem taken_eq_weave {size n : Nat} {payload : Bytes}
    (h : ∀ rest, unframe size n (p ++ rest) = some (payload, rest)) :
    p = weave size payload (separators size n p) := by
  have hread := h []
  rw [List.append_nil] at hread
  have hweave := unframe_weave hread
  rwa [List.append_nil] at hweave

/-- An audio/video message that is accepted: the bytes it took are its payload,
with what was cut out between the chunks. -/
theorem recvAudioVideoPayload_weave (hin : Reads env inp) {csid : Int} {m : MessageHeader}
    (hm : s.globals.csidHeader csid = some m) (hp : inp e' = inp e ++ p)
    (hrun : Runs env (recvAudioVideoPayload csid) s e 0 s' e') :
    ∃ payload, s' = s.append .audioVideoBuffer payload ∧ p = weave s.client.chunkSize payload
      (separators s.client.chunkSize m.messageLength.toNat p) := by
  obtain ⟨q, payload, hq, hs, hdone⟩ := wlp_recvAudioVideoPayload account_came hm _ _ _ hrun
  rw [hq.unique hin hp] at hdone
  rcases hdone with ⟨hrc, -⟩ | ⟨-, hread⟩
  · cases hrc
  · exact ⟨payload, hs, taken_eq_weave hread⟩

/-- The same for the payload of a connect message, which is received into the session's own
buffer. -/
theorem fetch_connect_weave (hin : Reads env inp) {bhSize mhSize chunkSize : Nat}
    {messageLength : Int} (hp : inp e' = inp e ++ p)
    (hrun : Runs env (Received.fetch .connectMessage bhSize mhSize messageLength chunkSize) s e 0
      s' e') :
    ∃ payload, s' = s.append .ioBuffer payload ∧
      p = weave chunkSize payload (separators chunkSize messageLength.toNat p) := by
  obtain ⟨q, payload, hq, hs, hdone⟩ := wlp_fetch_connect _ _ _ hrun
  rw [hq.unique hin hp] at hdone
  rcases hdone with ⟨hrc, -⟩ | ⟨-, hread⟩
  · cases hrc
  · exact ⟨payload, hs, taken_eq_weave hread⟩

/-- Both loops cut out headers of the chunk stream only, and fail at any other
byte there, if and only if no other byte comes there or the message stays
incomplete. -/
theorem continuations_checked_iff (hin : Reads env inp) (csid : Int) (hp : inp e' = inp e ++ p) :
    (Runs env (recvAudioVideoPayload csid) s e rc s' e' →
      (Checked csid (separators s.client.chunkSize
          (s.globals.header csid).messageLength.toNat p) rc ↔
        OwnHeaders csid s.client.chunkSize (s.globals.header csid).messageLength.toNat p)) ∧
    ∀ bhSize mhSize chunkSize messageLength,
      Runs env (Received.fetch .connectMessage bhSize mhSize messageLength chunkSize) s e rc s' e' →
        (Checked csid (separators chunkSize messageLength.toNat p) rc ↔
          OwnHeaders csid chunkSize messageLength.toNat p) := by
  constructor
  · intro hrun
    cases hm : s.globals.csidHeader csid with
    | none =>
      -- the record that is made on demand has no length
      have hlength : (s.globals.header csid).messageLength.toNat = 0 := by
        rw [Globals.header, hm]
        rfl
      rw [hlength]
      exact checked_iff_short (Or.inr (Nat.zero_le _))
    | some m =>
      have hheader : s.globals.header csid = m := by
        rw [Globals.header, hm, Option.getD_some]
      obtain ⟨q, payload, hq, -, hdone⟩ :=
        wlp_recvAudioVideoPayload account_came hm _ _ _ hrun
      rw [← hq.unique hin hp, hheader]
      exact checked_iff hdone
  · intro bhSize mhSize chunkSize messageLength hrun
    obtain ⟨q, payload, hq, -, hdone⟩ := wlp_fetch_connect _ _ _ hrun
    rw [← hq.unique hin hp]
    exact checked_iff hdone

end

/-- A message of three bytes on csid 6, in chunks of two, as a peer would send it. -/
def threeBytes : State where
  globals := ({} : Globals).setHeader 6 { messageLength := 3 }
  client := { chunkSize := 2 }

/-- Its own header stands between the chunks, and the message is accepted as it should be. -/
theorem continuations_checked_own : ∃ s' e', Runs (replay answer) (recvAudioVideoPayload 6)
    threeBytes ([.bytes [1, 2], .bytes [0xC6, 3]], []) 0 s' e' ∧ Checked 6 [0xC6] 0 := by
  have hexec : (exec (replay answer) 30 (recvAudioVideoPayload 6) threeBytes
      ([.bytes [1, 2], .bytes [0xC6, 3]], [])).map (fun r => (r.1, r.2.2.2.flatMap readBytes))
        = some (0, [1, 2, 0xC6, 3]) := rfl
  obtain ⟨⟨rc, s', e'⟩, hrun, heq⟩ := Option.map_eq_some_iff.mp hexec
  obtain ⟨rfl, hbytes⟩ := Prod.mk.inj heq
  have hchecked := ((continuations_checked_iff reads_replay 6 hbytes).1 ⟨30, hrun⟩).mpr
  have hseparators : separators 2 3 [1, 2, 0xC6, 3] = [(0xC6 : UInt8)] := by
    simp [separators]
  refine ⟨s', e', ⟨30, hrun⟩, ?_⟩
  rw [← hseparators]
  refine hchecked (Or.inr ?_)
  show ∀ x ∈ separators 2 3 [1, 2, 0xC6, 3], x = headerFmt3 6
  rw [hseparators]
  intro x hx
  rw [List.mem_singleton.mp hx]
  rfl

/-- The header of another chunk stream stands there, and the message is accepted all the
same: one byte is cut out, whatever it is. -/
theorem foreign_chunk_not_checked : ∃ s' e', Runs (replay answer) (recvAudioVideoPayload 6)
    threeBytes ([.bytes [1, 2], .bytes [0x04, 3]], []) 0 s' e' ∧
    e'.2.flatMap readBytes = [1, 2, 0x04, 3] ∧ s'.buffer .audioVideoBuffer = [1, 2, 3] ∧
    ¬ Checked 6 (separators 2 3 [1, 2, 0x04, 3]) 0 := by
  have hexec : (exec (replay answer) 30 (recvAudioVideoPayload 6) threeBytes
      ([.bytes [1, 2], .bytes [0x04, 3]], [])).map (fun r =>
        (r.1, r.2.2.2.flatMap readBytes, r.2.1.buffer .audioVideoBuffer))
        = some (0, [1, 2, 0x04, 3], [1, 2, 3]) := rfl
  obtain ⟨⟨rc, s', e'⟩, hrun, heq⟩ := Option.map_eq_some_iff.mp hexec
  obtain ⟨rfl, heq⟩ := Prod.mk.inj heq
  obtain ⟨hbytes, hbuffer⟩ := Prod.mk.inj heq
  refine ⟨s', e', ⟨30, hrun⟩, hbytes, hbuffer, fun hchecked => ?_⟩
  have hown := hchecked.1 rfl 0x04 (by simp [separators])
  exact absurd hown (by decide)

end RtmpServer
