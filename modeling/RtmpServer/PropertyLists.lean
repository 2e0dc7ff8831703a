import RtmpServer.MetadataReplace

/-!
# The two decoders of a property list

`read_object` and `SetDataFrame::read_payload` decode the same lists of keys and
values, one up to the end marker, the other up to a count that comes before. Both
refuse an empty string, and the second also an empty list. `property_lists_agree`:
on all other lists they store the same pairs.

Mirroring note: `read_object` takes the length of a string value for unsigned,
`SetDataFrame` for signed, so that strings from 32768 bytes on are `WellFormed`
but not `Storable`.
-/

namespace RtmpServer

open Coroutine Coroutine.Prog Endian

/-- A key and a value of a well-formed list: a short key, and a value that its length field
can say. -/
def WellFormed (kv : Property) : Prop :=
  Short kv.1 ∧
    match kv.2 with
    | .valueString value => value.length ≤ 65535
    | .valueNum _ => True
    | .value0x01 _ => True
    | .valueLen _ => False

/-- The one string that both decoders refuse, by an explicit check of its length. -/
def Blank (kv : Property) : Prop := kv.2 = .valueString []

instance (kv : Property) : Decidable (Blank kv) := inferInstanceAs (Decidable (_ = _))

/-! ## One entry -/

theorem readObjectStep_entryBytes {kv : Property} (h : WellFormed kv) (hblank : ¬ Blank kv)
    (rest : Bytes) : readObjectStep (entryBytes kv ++ rest) = .again rest (some kv) := by
  obtain ⟨key, value⟩ := kv
  obtain ⟨hkey, hvalue⟩ := h
  rw [entryBytes, List.append_assoc, List.append_assoc, readObjectStep_key hkey]
  cases value with
  | valueString value =>
    have hne : value ≠ [] := fun hnil => hblank (congrArg ValueObject.valueString hnil)
    rw [List.cons_append, List.append_assoc]
    exact readObjectValue_string (List.length_pos_iff.mpr hne) hvalue rest
  | valueNum value => exact readObjectValue_num value rest
  | value0x01 value => rfl
  | valueLen value => exact absurd hvalue id

theorem readObjectStep_blank {kv : Property} (h : WellFormed kv) (hblank : Blank kv)
    (rest : Bytes) : readObjectStep (entryBytes kv ++ rest) = .done (-1) := by
  obtain ⟨key, value⟩ := kv
  obtain ⟨hkey, -⟩ := h
  cases hblank
  rw [entryBytes, List.append_assoc, List.append_assoc, readObjectStep_key hkey]
  rfl

theorem storable_wellFormed {kv : Property} (h : Storable kv) : WellFormed kv ∧ ¬ Blank kv := by
  obtain ⟨key, value⟩ := kv
  obtain ⟨hkey, hvalue⟩ := h
  cases value with
  | valueString value =>
    refine ⟨⟨hkey, Nat.le_trans hvalue.2 (by decide)⟩, fun hblank => ?_⟩
    cases hblank
    exact absurd hvalue.1 (by decide)
  | valueNum value => exact ⟨⟨hkey, trivial⟩, fun hblank => nomatch hblank⟩
  | value0x01 value => exact ⟨⟨hkey, trivial⟩, fun hblank => nomatch hblank⟩
  | valueLen value => exact absurd hvalue id

/-- A string that does not fit an `int16_t`, or is empty, has no positive length. -/
theorem readString_not_short {value : Bytes} (h : value.length ≤ 65535) (hshort : ¬ Short value)
    (rest : Bytes) : readString (beBytes 2 value.length ++ (value ++ rest)) = .error .minusOne := by
  have hb : be2se 2 (beBytes 2 value.length ++ (value ++ rest)) =
      .ok (value.length, value ++ rest) :=
    be2se_append (by omega)
  have hwrap : wrap16 value.length ≤ 0 := by
    by_cases hnil : value.length = 0
    · rw [hnil]
      decide
    · unfold Short at hshort
      exact Int.le_of_lt (wrap16_of_ge (by omega) (by omega))
  rw [readString_ok hb, if_pos hwrap]

theorem parseEntry_not_storable {kv : Property} (h : WellFormed kv) (hstorable : ¬ Storable kv)
    (rest : Bytes) : parseEntry (entryBytes kv ++ rest) = .error .minusOne := by
  obtain ⟨key, value⟩ := kv
  obtain ⟨hkey, hvalue⟩ := h
  cases value with
  | valueString value =>
    have hshort : ¬ Short value := fun hshort => hstorable ⟨hkey, hshort⟩
    unfold parseEntry entryBytes
    rw [List.append_assoc, List.append_assoc, readString_short hkey, Parse.ok_bind,
      List.cons_append, List.append_assoc]
    dsimp only
    rw [if_neg (by decide), if_neg (by decide), if_pos rfl, readString_not_short hvalue hshort]
    rfl
  | valueNum value => exact absurd ⟨hkey, trivial⟩ hstorable
  | value0x01 value => exact absurd ⟨hkey, trivial⟩ hstorable
  | valueLen value => exact absurd hvalue id

/-! ## A whole list -/

/-- An object ends at its first empty string with `-1`, whatever stands behind it. -/
theorem readObject_blank {kvs : List Property} (h : ∀ kv ∈ kvs, WellFormed kv)
    (hblank : ∃ kv ∈ kvs, Blank kv) (rest : Bytes) :
    ∀ object, ∃ object', readObject (kvs.flatMap entryBytes ++ rest) object
      = some (-1, object') := by
  induction kvs with
  | nil =>
    obtain ⟨kv, hkv, _⟩ := hblank
    cases hkv
  | cons kv kvs ih =>
    intro object
    have hkv := h kv (List.mem_cons_self ..)
    rw [List.flatMap_cons, List.append_assoc]
    by_cases hfirst : Blank kv
    · have hstep := readObjectStep_blank hkv hfirst (kvs.flatMap entryBytes ++ rest)
      have hne : entryBytes kv ++ (kvs.flatMap entryBytes ++ rest) ≠ [] := by
        rw [entryBytes, List.append_assoc]
        exact List.append_ne_nil_of_left_ne_nil
          (List.ne_nil_of_length_pos (by rw [beBytes_length]; decide)) _
      exact ⟨object, readObject_done hne hstep⟩
    · have hstep := readObjectStep_entryBytes hkv hfirst (kvs.flatMap entryBytes ++ rest)
      have hlater : ∃ kv' ∈ kvs, Blank kv' := by
        obtain ⟨kv', hmem, hkv'⟩ := hblank
        rcases List.mem_cons.mp hmem with heq | hmem
        · exact absurd (heq ▸ hkv') hfirst
        · exact ⟨kv', hmem, hkv'⟩
      rw [readObject_again (ne_nil_of_readObjectStep hstep) hstep]
      exact ih (fun kv' hmem => h kv' (List.mem_cons_of_mem _ hmem)) hlater _

/-- The loop over the entries ends at the first one that it cannot store. -/
theorem parseEntries_not_storable {kvs : List Property} (h : ∀ kv ∈ kvs, WellFormed kv)
    (hnot : ∃ kv ∈ kvs, ¬ Storable kv) (rest : Bytes) :
    ∀ frame, ∃ frame', parseEntries kvs.length (kvs.flatMap entryBytes ++ rest) frame
      = some (-1, frame') := by
  induction kvs with
  | nil =>
    obtain ⟨kv, hkv, _⟩ := hnot
    cases hkv
  | cons kv kvs ih =>
    intro frame
    have hkv := h kv (List.mem_cons_self ..)
    rw [List.length_cons, List.flatMap_cons, List.append_assoc, parseEntries]
    by_cases hfirst : Storable kv
    · have hlater : ∃ kv' ∈ kvs, ¬ Storable kv' := by
        obtain ⟨kv', hmem, hkv'⟩ := hnot
        rcases List.mem_cons.mp hmem with heq | hmem
        · exact absurd hfirst (heq ▸ hkv')
        · exact ⟨kv', hmem, hkv'⟩
      rw [parseEntry_entryBytes hfirst]
      exact ih (fun kv' hmem => h kv' (List.mem_cons_of_mem _ hmem)) hlater _
    · rw [parseEntry_not_storable hkv hfirst]
      exact ⟨frame, rfl⟩

/-- A list with its end marker, in a `@setDataFrame` message with a command and an object
name. -/
def closedAnnouncement (command content : Bytes) (kvs : List Property) : Bytes :=
  announcement command content kvs ++ [0x00, 0x00, 0x09]

/-- What `SetDataFrame` makes of a payload: the return value, and the list after it. -/
def parseFrame (payload : Bytes) (frame : List Property) : Option (Int × List Property) :=
  match parseSetDataFrame payload with
  | .error .minusOne => some (-1, frame)
  | .error .undefined => none
  | .ok (count, p) => parseEntries count p frame

theorem parseFrame_ok {payload p : Bytes} {count : Nat} {frame : List Property}
    (h : parseSetDataFrame payload = .ok (count, p)) :
    parseFrame payload frame = parseEntries count p frame := by
  rw [parseFrame, h]

section

variable {command content : Bytes} {kvs : List Property} {bhSize mhSize : Nat} {s : State}

/-- From a stream: the payload is fetched in one read and parsed, and the frame is what the
parser made. -/
theorem wp_setDataFrame_stream {payload rest out : Bytes} {chunkSize : Nat}
    {Q : Int → State → Stream → Prop}
    (hhdr : (s.buffer .ioBuffer).length = bhSize + mhSize) {rc : Int} {frame : List Property}
    (hparse : parseFrame payload s.globals.setDataFrame = some (rc, frame))
    (hQ : ∀ s' e', s'.globals.setDataFrame = frame → Q rc s' e') :
    wp streamEnv (SetDataFrame.readPayload bhSize mhSize payload.length chunkSize) Q s
      ⟨payload ++ rest, out⟩ := by
  unfold SetDataFrame.readPayload
  unfold parseFrame at hparse
  rw [bind_eq, wp_bind, wp_readWhole_append hhdr, if_neg (by decide), wp_act]
  rw [State.buffer_append, List.drop_left' hhdr, State.append_setDataFrame]
  cases h : parseSetDataFrame payload with
  | error f =>
    rw [h] at hparse
    cases f with
    | minusOne =>
      cases hparse
      exact ⟨-1, _, rfl, hQ _ _ (State.append_setDataFrame ..)⟩
    | undefined => cases hparse
  | ok r =>
    obtain ⟨count, p⟩ := r
    rw [h] at hparse
    exact ⟨rc, _, congrArg (Option.map _) hparse, hQ _ _ rfl⟩

/-- Every pair takes bytes, so a payload that an `int` can measure has not too
many of them. -/
theorem length_le_flatMap_entryBytes (kvs : List Property) :
    kvs.length ≤ (kvs.flatMap entryBytes).length := by
  induction kvs with
  | nil => exact Nat.le_refl 0
  | cons kv kvs ih =>
    have hpos : 0 < entrySize kv := by
      unfold entrySize
      omega
    rw [List.flatMap_cons, List.length_append, List.length_cons, entryBytes_length]
    omega

/-- On a list without an empty string, `read_object` stores its pairs, and so does
`SetDataFrame` if it is not empty and its strings fit an `int16_t`. With an empty
string in the list both return -1, and `SetDataFrame` also without any pair. -/
theorem property_lists_agree (hwf : ∀ kv ∈ kvs, WellFormed kv) (hnodup : (kvs.map Prod.fst).Nodup)
    (hcommand : Short command) (hcontent : Short content)
    (hlt : (closedAnnouncement command content kvs).length < 2 ^ 31)
    (hhdr : (s.buffer .ioBuffer).length = bhSize + mhSize) (chunkSize : Nat) (rest out : Bytes) :
    ((∀ kv ∈ kvs, ¬ Blank kv) →
      readObject (kvs.flatMap entryBytes ++ [0x00, 0x00, 0x09]) [] = some (0, kvs) ∧
      (kvs ≠ [] → (∀ kv ∈ kvs, Storable kv) →
        wp streamEnv (SetDataFrame.readPayload bhSize mhSize
            (closedAnnouncement command content kvs).length chunkSize)
          (fun rc s' _ => rc = 0 ∧ s'.globals.setDataFrame = s.globals.setDataFrame ++ kvs) s
          ⟨closedAnnouncement command content kvs ++ rest, out⟩)) ∧
    ((∃ kv ∈ kvs, Blank kv) →
      (∃ object, readObject (kvs.flatMap entryBytes ++ [0x00, 0x00, 0x09]) []
        = some (-1, object)) ∧
      wp streamEnv (SetDataFrame.readPayload bhSize mhSize
          (closedAnnouncement command content kvs).length chunkSize)
        (fun rc _ _ => rc = -1) s ⟨closedAnnouncement command content kvs ++ rest, out⟩) ∧
    (kvs = [] →
      wp streamEnv (SetDataFrame.readPayload bhSize mhSize
          (closedAnnouncement command content kvs).length chunkSize)
        (fun rc _ _ => rc = -1) s ⟨closedAnnouncement command content kvs ++ rest, out⟩) := by
  -- the opening is read in any case
  have hopening : closedAnnouncement command content kvs
      = opening command content kvs.length ++ (kvs.flatMap entryBytes ++ [0x00, 0x00, 0x09]) := by
    rw [closedAnnouncement, announcement_eq, List.append_assoc]
  have hcount : kvs.length < 2 ^ 31 := by
    have hle := length_le_flatMap_entryBytes kvs
    rw [hopening, List.length_append, List.length_append] at hlt
    omega
  have hparse := parseSetDataFrame_count hcommand hcontent hcount
    (kvs.flatMap entryBytes ++ [0x00, 0x00, 0x09])
  rw [← hopening] at hparse
  refine ⟨fun hnone => ⟨?_, fun hne hstorable => ?_⟩, fun hblank => ⟨?_, ?_⟩, fun hnil => ?_⟩
  · exact readObject_list
      (fun kv hkv rest => readObjectStep_entryBytes (hwf kv hkv) (hnone kv hkv) rest) hnodup
  · rw [if_neg (fun h0 => hne (List.eq_nil_of_length_eq_zero h0))] at hparse
    have hentries : parseEntries kvs.length (kvs.flatMap entryBytes ++ [0x00, 0x00, 0x09])
        s.globals.setDataFrame = some (0, s.globals.setDataFrame ++ kvs) := by
      rw [parseEntries_append, parseEntries_entries hstorable]
      rfl
    exact wp_setDataFrame_stream hhdr ((parseFrame_ok hparse).trans hentries)
      fun s' e' hframe => ⟨rfl, hframe⟩
  · exact readObject_blank hwf hblank _ _
  · obtain ⟨kv, hkv, hempty⟩ := hblank
    rw [if_neg (fun h0 => List.not_mem_nil (List.eq_nil_of_length_eq_zero h0 ▸ hkv))] at hparse
    have hnot : ∃ kv ∈ kvs, ¬ Storable kv :=
      ⟨kv, hkv, fun h => (storable_wellFormed h).2 hempty⟩
    obtain ⟨frame', hentries⟩ := parseEntries_not_storable hwf hnot [0x00, 0x00, 0x09]
      s.globals.setDataFrame
    exact wp_setDataFrame_stream hhdr ((parseFrame_ok hparse).trans hentries) fun _ _ _ => rfl
  · rw [if_pos (by rw [hnil]; rfl)] at hparse
    have hrefused : parseFrame (closedAnnouncement command content kvs) s.globals.setDataFrame
        = some (-1, s.globals.setDataFrame) := by
      rw [parseFrame, hparse]
    exact wp_setDataFrame_stream hhdr hrefused fun _ _ _ => rfl

end

/-- A flag and a name, a list that both decoders take. -/
def flagAndName : List Property :=
  [(chars "f", .value0x01 1), (chars "n", .valueString (chars "x"))]

theorem flagAndName_storable : ∀ kv ∈ flagAndName, Storable kv := by
  intro kv hkv
  rcases List.mem_cons.mp hkv with rfl | hkv
  · exact ⟨by decide, trivial⟩
  · rw [List.mem_singleton.mp hkv]
    exact ⟨by decide, by decide⟩

theorem property_lists_agree_flag :
    readObject (flagAndName.flatMap entryBytes ++ [0x00, 0x00, 0x09]) [] = some (0, flagAndName) ∧
      wp streamEnv (SetDataFrame.readPayload 0 0
          (closedAnnouncement (chars "s") (chars "o") flagAndName).length 4096)
        (fun rc s' _ => rc = 0 ∧ s'.globals.setDataFrame = flagAndName) {}
        ⟨closedAnnouncement (chars "s") (chars "o") flagAndName ++ [], []⟩ := by
  have hwf : ∀ kv ∈ flagAndName, WellFormed kv ∧ ¬ Blank kv :=
    fun kv hkv => storable_wellFormed (flagAndName_storable kv hkv)
  have hcommand : Short (chars "s") := by decide
  have hcontent : Short (chars "o") := by decide
  have hhdr : (({} : State).buffer .ioBuffer).length = 0 + 0 := rfl
  obtain ⟨hobject, hframe⟩ := (property_lists_agree (fun kv hkv => (hwf kv hkv).1) (by decide)
    hcommand hcontent (by decide) hhdr 4096 [] []).1 fun kv hkv => (hwf kv hkv).2
  exact ⟨hobject, hframe (by decide) flagAndName_storable⟩

/-- A well-formed list of one empty string is refused by both, although it says what it
means. -/
theorem blank_refused : WellFormed (chars "n", .valueString []) ∧
    readObject ([(chars "n", .valueString [])].flatMap entryBytes ++ [0x00, 0x00, 0x09]) []
      = some (-1, []) ∧
    wp streamEnv (SetDataFrame.readPayload 0 0 22 4096) (fun rc _ _ => rc = -1) {}
      ⟨closedAnnouncement (chars "s") (chars "o") [(chars "n", .valueString [])], []⟩ := by
  have hwf : WellFormed (chars "n", .valueString []) := ⟨by decide, by decide⟩
  refine ⟨hwf, ?_, ?_⟩
  · exact readObject_done (by decide) (readObjectStep_blank hwf rfl [0x00, 0x00, 0x09])
  · have hexec : (exec streamEnv 20 (SetDataFrame.readPayload 0 0 22 4096) {}
        ⟨closedAnnouncement (chars "s") (chars "o") [(chars "n", .valueString [])], []⟩).map
            Prod.fst
          = some (-1) := rfl
    obtain ⟨⟨rc, s', e'⟩, hrun, hrc⟩ := Option.map_eq_some_iff.mp hexec
    exact ⟨rc, s', e', ⟨20, hrun⟩, hrc⟩

end RtmpServer
