import RtmpServer.Metadata

/-!
# The entries between `SetDataFrame` and `OnMetaData`

The decoder and the encoder of the metadata list are two loops. What the
decoder accepts it has taken apart completely (the `_exact` lemmas), and the
encoder puts the same bytes together again: `metadata_survives`. It also adds
an entry of its own to the global list, so what it sends depends on how many
consumers were served before: `metadata_same_iff`.
-/

namespace RtmpServer

open Coroutine Coroutine.Prog Endian
open Push

/-! ## What was read, byte by byte -/

theorem expect_exact {marker : UInt8} {p q : Bytes} (h : expect marker p = .ok q) :
    p = marker :: q := by
  cases p with
  | nil => cases h
  | cons c p =>
    rw [expect] at h
    by_cases hc : c = marker
    · rw [if_pos hc, Except.ok.injEq] at h
      rw [hc, h]
    · rw [if_neg hc] at h
      cases h

theorem be2se_exact {width n : Nat} {p q : Bytes} (h : be2se width p = .ok (n, q)) :
    p = beBytes width n ++ q ∧ n < 256 ^ width := by
  unfold be2se at h
  by_cases hle : width ≤ p.length
  · rw [if_pos hle, Except.ok.injEq, Prod.mk.injEq] at h
    obtain ⟨hn, hq⟩ := h
    have hlen : (p.take width).length = width := by
      rw [List.length_take]
      omega
    have hbytes := beBytes_ofBeBytes (p.take width)
    have hlt := ofBeBytes_lt (p.take width)
    rw [hlen, hn] at hbytes hlt
    refine ⟨?_, hlt⟩
    rw [hbytes, ← hq, List.take_append_drop]
  · rw [if_neg hle] at h
    cases h

/-- A length that the code takes for positive is the one that came. -/
theorem wrap16_pos {n : Nat} (hlt : n < 256 ^ 2) (hpos : ¬ wrap16 n ≤ 0) : wrap16 n = n := by
  by_cases hle : n ≤ 32767
  · exact wrap16_of_le hle
  · exact absurd (Int.le_of_lt (wrap16_of_ge (by omega) hlt)) hpos

theorem appendUnchecked_exact {n : Nat} {p q value : Bytes}
    (h : appendUnchecked n p = .ok (value, q)) :
    n = value.length ∧ (p = value ++ q ∨ q = [] ∧ value = p ++ [0]) := by
  have hlen := appendUnchecked_length h
  unfold appendUnchecked at h
  by_cases hle : (0 : Int) ≤ n ∧ (n : Int) ≤ p.length + 1
  · rw [if_pos hle, Except.ok.injEq, Prod.mk.injEq, Int.toNat_natCast] at h
    obtain ⟨hvalue, hq⟩ := h
    refine ⟨by omega, ?_⟩
    by_cases hin : n ≤ p.length
    · rw [List.take_append_of_le_length hin] at hvalue
      exact Or.inl (by rw [← hvalue, ← hq, List.take_append_drop])
    · -- the terminating zero is the last byte of it
      have hall : (p ++ [(0 : UInt8)]).length ≤ n := by
        rw [List.length_append, List.length_singleton]
        omega
      rw [List.take_of_length_le hall] at hvalue
      rw [List.drop_eq_nil_of_le (by omega)] at hq
      exact Or.inr ⟨hq.symm, hvalue.symm⟩
  · rw [if_neg hle] at h
    cases h

theorem readString_ok {n : Nat} {q q' : Bytes} (hb : be2se 2 q = .ok (n, q')) :
    readString q = if wrap16 n ≤ 0 then .error .minusOne else appendUnchecked (wrap16 n) q' := by
  rw [readString, be2seLen, hb, Parse.ok_bind]
  dsimp only
  rw [Parse.pure_eq, Parse.ok_bind]
  dsimp only
  by_cases hpos : wrap16 n ≤ 0
  · rw [if_pos hpos, if_pos hpos]
    rfl
  · rw [if_neg hpos, if_neg hpos]

/-- How a string that was read stood in the buffer: all of it, or all but its
last byte, for which the code took the terminating zero. -/
inductive StringCase (p : Bytes) : Bytes → Bytes → Prop where
  | whole {value q : Bytes} (bytes : p = beBytes 2 value.length ++ (value ++ q)) :
    StringCase p value q
  | cut {front : Bytes} (bytes : p = beBytes 2 (front.length + 1) ++ front) :
    StringCase p (front ++ [0]) []

theorem stringCase {p q value : Bytes} (h : readString p = .ok (value, q)) :
    StringCase p value q := by
  cases hb : be2se 2 p with
  | error f =>
    rw [readString, be2seLen, hb] at h
    cases h
  | ok r =>
    obtain ⟨n, p'⟩ := r
    obtain ⟨hp, hlt⟩ := be2se_exact hb
    rw [readString_ok hb] at h
    by_cases hpos : wrap16 n ≤ 0
    · rw [if_pos hpos] at h
      cases h
    · rw [if_neg hpos, wrap16_pos hlt hpos] at h
      obtain ⟨hn, hp' | ⟨rfl, hvalue⟩⟩ := appendUnchecked_exact h
      · exact .whole (by rw [hp, hp', hn])
      · rw [hvalue, List.length_append, List.length_singleton] at hn
        rw [hvalue]
        exact .cut (by rw [hp, hn])

/-- Nothing is left behind a string without its last byte, so where something is
left the string was there. -/
theorem readString_cons_exact {p q value : Bytes} {c : UInt8}
    (h : readString p = .ok (value, c :: q)) :
    p = beBytes 2 value.length ++ (value ++ c :: q) := by
  cases stringCase h with
  | whole bytes => exact bytes

/-- All of an entry but the last byte of its string value, and that is a zero. -/
def CutEntry (p : Bytes) (kv : Property) : Prop :=
  ∃ key front, kv = (key, .valueString (front ++ [0])) ∧
    p = beBytes 2 key.length ++ (key ++ 0x02 :: (beBytes 2 (front.length + 1) ++ front))

/-- An entry that was read was all there, or the terminating zero was taken for
the end of its string. -/
theorem parseEntry_exact {p q : Bytes} {kv : Property} (h : parseEntry p = .ok (kv, q)) :
    p = entryBytes kv ++ q ∨ q = [] ∧ CutEntry p kv := by
  cases entryCase h with
  | @num key q1 p' n hkey hvalue =>
    obtain ⟨hq1, hlt⟩ := be2se_exact hvalue
    have hn : (UInt64.ofNat n).toNat = n := UInt64.toNat_ofNat_of_lt' hlt
    refine Or.inl ?_
    simp [readString_cons_exact hkey, hq1, entryBytes, hn]
  | flag hkey =>
    refine Or.inl ?_
    simp [readString_cons_exact hkey, entryBytes]
  | str hkey hvalue =>
    cases stringCase hvalue with
    | whole bytes =>
      refine Or.inl ?_
      simp [readString_cons_exact hkey, bytes, entryBytes]
    | cut bytes =>
      refine Or.inr ⟨rfl, _, _, rfl, ?_⟩
      rw [readString_cons_exact hkey, bytes]

/-- The payload of a `@setDataFrame` message: its two strings, and the entries with their
count in front of them. -/
def announcement (command content : Bytes) (entries : List Property) : Bytes :=
  0x02 :: (beBytes 2 command.length ++ (command ++
    (0x02 :: (beBytes 2 content.length ++ (content ++
      (0x08 :: (beBytes 4 entries.length ++ entries.flatMap entryBytes)))))))

/-- What stands in front of the entries: the two strings, and the marker with the count. -/
def opening (command content : Bytes) (count : Nat) : Bytes :=
  0x02 :: (beBytes 2 command.length ++ (command ++
    (0x02 :: (beBytes 2 content.length ++ (content ++ (0x08 :: beBytes 4 count))))))

theorem announcement_eq (command content : Bytes) (entries : List Property) :
    announcement command content entries
      = opening command content entries.length ++ entries.flatMap entryBytes := by
  simp [announcement, opening]

theorem parseSetDataFrame_exact {p q : Bytes} {count : Nat}
    (h : parseSetDataFrame p = .ok (count, q)) :
    ∃ command content, p = opening command content count ++ q ∧ Short command ∧ Short content ∧
      0 < count ∧ count < 2 ^ 31 := by
  unfold parseSetDataFrame at h
  obtain ⟨p1, h1, h⟩ := Parse.bind_eq_ok.mp h
  obtain ⟨⟨command, p2⟩, h2, h⟩ := Parse.bind_eq_ok.mp h
  obtain ⟨p3, h3, h⟩ := Parse.bind_eq_ok.mp h
  obtain ⟨⟨content, p4⟩, h4, h⟩ := Parse.bind_eq_ok.mp h
  obtain ⟨p5, h5, h⟩ := Parse.bind_eq_ok.mp h
  obtain ⟨⟨n, p6⟩, h6, h⟩ := Parse.bind_eq_ok.mp h
  obtain ⟨hp5, hlt⟩ := be2se_exact h6
  dsimp only at h
  by_cases hpos : (BitVec.ofNat 32 n).toInt ≤ 0
  · rw [if_pos hpos] at h
    cases h
  · rw [if_neg hpos, Parse.pure_eq] at h
    simp only [Except.ok.injEq, Prod.mk.injEq] at h
    obtain ⟨hcount, hq⟩ := h
    -- a positive `int32_t` is the number that came
    have hn : count = n ∧ 0 < count ∧ count < 2 ^ 31 := by
      have hint : (BitVec.ofNat 32 n).toInt = Int.bmod n (2 ^ 32) := BitVec.toInt_ofNat' n
      rw [← hcount]
      rw [hint, Int.bmod_def] at hpos ⊢
      omega
    refine ⟨command, content, ?_, readString_short_of_ok h2, readString_short_of_ok h4, hn.2⟩
    -- a marker follows on each of the two strings
    rw [expect_exact h3] at h2
    rw [expect_exact h5] at h4
    rw [expect_exact h1, readString_cons_exact h2, readString_cons_exact h4, hp5, ← hn.1, hq]
    simp [opening]

/-! ## What is read back -/

theorem expect_iff {marker : UInt8} {p q : Bytes} : expect marker p = .ok q ↔ p = marker :: q := by
  constructor
  · exact expect_exact
  · rintro rfl
    exact expect_cons marker q

theorem be2se_iff {width n : Nat} {p q : Bytes} :
    be2se width p = .ok (n, q) ↔ n < 256 ^ width ∧ p = beBytes width n ++ q := by
  constructor
  · intro h
    obtain ⟨hp, hlt⟩ := be2se_exact h
    exact ⟨hlt, hp⟩
  · rintro ⟨hlt, rfl⟩
    exact be2se_append hlt

/-- A string without its last byte is read with a zero in its place. -/
theorem readString_cut {front : Bytes} (h : Short (front ++ [0])) :
    readString (beBytes 2 (front.length + 1) ++ front) = .ok (front ++ [0], []) := by
  have hmax := h.2
  rw [List.length_append, List.length_singleton] at hmax
  have hb : be2se 2 (beBytes 2 (front.length + 1) ++ front) = .ok (front.length + 1, front) :=
    be2se_append (by omega)
  have hwrap : wrap16 (front.length + 1 : Nat) = (front.length + 1 : Nat) := wrap16_of_le hmax
  have hall : (front ++ [(0 : UInt8)]).length ≤ front.length + 1 :=
    Nat.le_of_eq List.length_append
  rw [readString_ok hb, hwrap, if_neg (by omega), appendUnchecked, if_pos (by omega),
    Int.toNat_natCast, List.take_of_length_le hall, List.drop_eq_nil_of_le (Nat.le_succ _)]

theorem readString_cons_iff {p q value : Bytes} {c : UInt8} :
    readString p = .ok (value, c :: q) ↔
      Short value ∧ p = beBytes 2 value.length ++ (value ++ c :: q) := by
  constructor
  · intro h
    exact ⟨readString_short_of_ok h, readString_cons_exact h⟩
  · rintro ⟨hvalue, rfl⟩
    exact readString_short hvalue (c :: q)

theorem parseEntry_entryBytes {kv : Property} (h : Storable kv) (rest : Bytes) :
    parseEntry (entryBytes kv ++ rest) = .ok (kv, rest) := by
  obtain ⟨key, value⟩ := kv
  obtain ⟨hkey, hvalue⟩ := h
  unfold parseEntry entryBytes
  rw [List.append_assoc, List.append_assoc, readString_short hkey, Parse.ok_bind]
  cases value with
  | valueString value =>
    rw [List.cons_append, List.append_assoc]
    dsimp only
    rw [if_neg (by decide), if_neg (by decide), if_pos rfl, readString_short hvalue, Parse.ok_bind]
    rfl
  | valueNum value =>
    rw [List.cons_append]
    dsimp only
    rw [if_pos rfl, be2se_uint64, Parse.ok_bind, UInt64.ofNat_toNat]
    rfl
  | value0x01 value =>
    rw [List.cons_append, List.singleton_append]
    dsimp only
    rw [if_neg (by decide), if_pos rfl]
    rfl
  | valueLen value => exact absurd hvalue id

theorem parseEntry_cut {p : Bytes} {kv : Property} (h : Storable kv) (hcut : CutEntry p kv) :
    parseEntry p = .ok (kv, []) := by
  obtain ⟨key, front, rfl, rfl⟩ := hcut
  obtain ⟨hkey, hvalue⟩ := h
  unfold parseEntry
  rw [readString_short hkey, Parse.ok_bind]
  dsimp only
  rw [if_neg (by decide), if_neg (by decide), if_pos rfl, readString_cut hvalue, Parse.ok_bind]
  rfl

/-- An entry is read where its bytes stand, at the end of the buffer also without
the last byte of its string, and nowhere else. -/
theorem parseEntry_iff {p q : Bytes} {kv : Property} :
    parseEntry p = .ok (kv, q) ↔
      Storable kv ∧ (p = entryBytes kv ++ q ∨ q = [] ∧ CutEntry p kv) := by
  constructor
  · intro h
    exact ⟨parseEntry_storable h, parseEntry_exact h⟩
  · rintro ⟨hkv, rfl | ⟨rfl, hcut⟩⟩
    · exact parseEntry_entryBytes hkv q
    · exact parseEntry_cut hkv hcut

/-- The entries go behind those that are in the list already, and which they are does not
depend on that list. -/
theorem parseEntries_append (count : Nat) : ∀ (p : Bytes) (frame : List Property),
    parseEntries count p frame
      = (parseEntries count p []).map fun r => (r.1, frame ++ r.2) := by
  induction count with
  | zero =>
    intro p frame
    rw [parseEntries, parseEntries, Option.map_some, List.append_nil]
  | succ count ih =>
    intro p frame
    rw [parseEntries, parseEntries]
    cases parseEntry p with
    | error f =>
      cases f with
      | minusOne => simp
      | undefined => rfl
    | ok r =>
      obtain ⟨kv, q⟩ := r
      simp only
      rw [ih q (frame ++ [kv]), ih q ([] ++ [kv]), Option.map_map]
      congr 1
      funext r
      simp

theorem parseEntries_entries {entries : List Property} (h : ∀ kv ∈ entries, Storable kv)
    (rest : Bytes) : parseEntries entries.length (entries.flatMap entryBytes ++ rest) []
      = some (0, entries) := by
  induction entries with
  | nil => rfl
  | cons kv entries ih =>
    have hkv := h kv (List.mem_cons_self ..)
    have hentries := fun kv' hmem => h kv' (List.mem_cons_of_mem _ hmem)
    rw [List.length_cons, List.flatMap_cons, List.append_assoc, parseEntries,
      parseEntry_entryBytes hkv]
    simp only
    rw [parseEntries_append, ih hentries]
    rfl

theorem parseSetDataFrame_count {command content : Bytes} {count : Nat} (hcommand : Short command)
    (hcontent : Short content) (hlt : count < 2 ^ 31) (rest : Bytes) :
    parseSetDataFrame (opening command content count ++ rest)
      = if count = 0 then .error .minusOne else .ok (count, rest) := by
  have hint : (BitVec.ofNat 32 count).toInt = count := by
    rw [BitVec.toInt_ofNat', Int.bmod_def]
    omega
  have hbytes : be2se 4 (beBytes 4 count ++ rest) = .ok (count, rest) := be2se_append (by omega)
  unfold parseSetDataFrame opening
  simp only [List.cons_append, List.append_assoc]
  rw [expect_cons, Parse.ok_bind, readString_short hcommand, Parse.ok_bind]
  dsimp only
  rw [expect_cons, Parse.ok_bind, readString_short hcontent, Parse.ok_bind]
  dsimp only
  rw [expect_cons, Parse.ok_bind, hbytes, Parse.ok_bind]
  dsimp only
  rw [hint, Int.toNat_natCast]
  by_cases h0 : count = 0
  · rw [if_pos h0, if_pos (by omega), Parse.throw_eq, Parse.error_bind]
  · rw [if_neg h0, if_neg (by omega), Parse.pure_eq]

theorem parseSetDataFrame_opening {command content : Bytes} {count : Nat}
    (hcommand : Short command) (hcontent : Short content) (h0 : 0 < count) (hlt : count < 2 ^ 31)
    (rest : Bytes) :
    parseSetDataFrame (opening command content count ++ rest) = .ok (count, rest) := by
  rw [parseSetDataFrame_count hcommand hcontent hlt, if_neg (Nat.ne_of_gt h0)]

/-- The opening of a list is read where its bytes stand, and nowhere else. -/
theorem parseSetDataFrame_iff {p q : Bytes} {count : Nat} :
    parseSetDataFrame p = .ok (count, q) ↔
        ∃ command content, p = opening command content count ++ q ∧
      Short command ∧ Short content ∧ 0 < count ∧ count < 2 ^ 31 := by
  constructor
  · exact parseSetDataFrame_exact
  · rintro ⟨command, content, rfl, hcommand, hcontent, h0, hlt⟩
    exact parseSetDataFrame_opening hcommand hcontent h0 hlt q

/-! ## Strings that go on behind the end -/

/-- A length that the code takes, and too few bytes behind it: fewer than the length says. -/
def OverlongString (q : Bytes) : Prop :=
  ∃ n rest, 1 ≤ n ∧ n ≤ 32767 ∧ q = beBytes 2 n ++ rest ∧ rest.length < n

/-- The name of a command that goes on behind the end, after the marker of a string. -/
def OverlongCommand (q : Bytes) : Prop := ∃ q', q = 0x02 :: q' ∧ OverlongString q'

/-- The command of a `SetDataFrame` or its content goes on behind the end. -/
def OverlongOpening (q : Bytes) : Prop :=
  OverlongCommand q ∨ ∃ command q', Short command ∧
    q = 0x02 :: (beBytes 2 command.length ++ (command ++ 0x02 :: q')) ∧ OverlongString q'

/-- The key of an entry or its value goes on behind the end. -/
def OverlongEntry (q : Bytes) : Prop :=
  OverlongString q ∨ ∃ key q', Short key ∧ q = beBytes 2 key.length ++ (key ++ 0x02 :: q') ∧
    OverlongString q'

/-- Fewer than `count` entries in full, and then one that goes on behind the end of the
payload. -/
def OverlongEntries (count : Nat) (q : Bytes) : Prop :=
  ∃ (entries : List Property) (q' : Bytes), entries.length < count ∧
    (∀ kv ∈ entries, Storable kv) ∧ q = entries.flatMap entryBytes ++ q' ∧ OverlongEntry q'

/-- A string of a `SetDataFrame` is announced longer than what is left of the
payload: in front of the entries, or in the first `count` of them. -/
def OverlongSetDataFrame (q : Bytes) : Prop :=
  OverlongOpening q ∨ ∃ command content count q', Short command ∧ Short content ∧ 0 < count ∧
    count < 2 ^ 31 ∧ q = opening command content count ++ q' ∧ OverlongEntries count q'

theorem not_overlongString {value : Bytes} (h : Short value) (q : Bytes) :
    ¬ OverlongString (beBytes 2 value.length ++ (value ++ q)) := by
  obtain ⟨-, hmax⟩ := h
  rintro ⟨n, rest, -, hn, heq, hlong⟩
  obtain ⟨hlength, hrest⟩ := List.append_inj heq (by rw [beBytes_length, beBytes_length])
  -- both lengths fit their two bytes
  have hsame := congrArg ofBeBytes hlength
  rw [ofBeBytes_beBytes, ofBeBytes_beBytes, Nat.mod_eq_of_lt (by omega),
    Nat.mod_eq_of_lt (by omega)] at hsame
  rw [← hrest, List.length_append] at hlong
  omega

theorem not_overlongEntry {kv : Property} (h : Storable kv) (q : Bytes) :
    ¬ OverlongEntry (entryBytes kv ++ q) := by
  obtain ⟨key, value⟩ := kv
  obtain ⟨hkey, hvalue⟩ := h
  rw [entryBytes, List.append_assoc, List.append_assoc]
  rintro (hlong | ⟨key', q', hkey', heq, hlong⟩)
  · exact not_overlongString hkey _ hlong
  · -- the key is the one that is read there, and so is the value
    have hread := readString_short hkey' (0x02 :: q')
    rw [← heq, readString_short hkey, Except.ok.injEq, Prod.mk.injEq] at hread
    obtain ⟨-, hrest⟩ := hread
    cases value with
    | valueString value =>
      rw [List.cons_append, List.cons.injEq, List.append_assoc] at hrest
      rw [← hrest.2] at hlong
      exact not_overlongString hvalue q hlong
    | valueNum value => cases hrest
    | value0x01 value => cases hrest
    | valueLen value => exact hvalue

theorem CutEntry.overlong {p : Bytes} {kv : Property} (hkv : Storable kv) (h : CutEntry p kv) :
    OverlongEntry p := by
  obtain ⟨key, front, rfl, rfl⟩ := h
  obtain ⟨hkey, hvalue⟩ := hkv
  have hmax := hvalue.2
  rw [List.length_append, List.length_singleton] at hmax
  exact Or.inr ⟨key, _, hkey, rfl, front.length + 1, front, Nat.succ_pos _, hmax, rfl,
    Nat.lt_succ_self _⟩

/-- The first entry goes on behind the end, or one of those after it. -/
theorem overlongEntries_succ {count : Nat} {q : Bytes} :
    OverlongEntries (count + 1) q ↔ OverlongEntry q ∨
      ∃ kv q', parseEntry q = .ok (kv, q') ∧ OverlongEntries count q' := by
  constructor
  · rintro ⟨entries, q', hlt, hstorable, rfl, hlong⟩
    cases entries with
    | nil => exact Or.inl hlong
    | cons kv entries =>
      have hkv := hstorable kv (List.mem_cons_self ..)
      refine Or.inr ⟨kv, entries.flatMap entryBytes ++ q', ?_, entries, q',
        Nat.lt_of_succ_lt_succ hlt, fun kv' hmem => hstorable kv' (List.mem_cons_of_mem _ hmem),
        rfl, hlong⟩
      rw [List.flatMap_cons, List.append_assoc]
      exact parseEntry_entryBytes hkv _
  · rintro (hlong | ⟨kv, q1, hentry, entries, q', hlt, hstorable, rfl, hlong⟩)
    · exact ⟨[], q, Nat.succ_pos _, (fun kv h => nomatch h), rfl, hlong⟩
    · obtain ⟨hkv, rfl | ⟨-, hcut⟩⟩ := parseEntry_iff.mp hentry
      · refine ⟨kv :: entries, q', Nat.succ_lt_succ hlt, fun kv' hmem => ?_, ?_, hlong⟩
        · rcases List.mem_cons.mp hmem with heq | hmem
          · rw [heq]
            exact hkv
          · exact hstorable kv' hmem
        · rw [List.flatMap_cons, List.append_assoc]
      · exact ⟨[], q, Nat.succ_pos _, (fun kv h => nomatch h), rfl, hcut.overlong hkv⟩

theorem not_overlongEntries {entries : List Property} (h : ∀ kv ∈ entries, Storable kv)
    (q : Bytes) : ¬ OverlongEntries entries.length (entries.flatMap entryBytes ++ q) := by
  induction entries with
  | nil =>
    rintro ⟨entries, q', hlt, -⟩
    exact Nat.not_lt_zero _ hlt
  | cons kv entries ih =>
    have hkv := h kv (List.mem_cons_self ..)
    rw [List.length_cons, List.flatMap_cons, List.append_assoc, overlongEntries_succ,
      parseEntry_entryBytes hkv]
    rintro (hlong | ⟨kv', q', heq, hlong⟩)
    · exact not_overlongEntry hkv _ hlong
    · cases heq
      exact ih (fun kv' hmem => h kv' (List.mem_cons_of_mem _ hmem)) hlong

/-- When the loop over the entries ends well and none of them goes on behind the
end, it has read `count` of them. -/
theorem parseEntries_exact (count : Nat) :
    ∀ {p : Bytes} {frame frame' : List Property}, ¬ OverlongEntries count p →
      parseEntries count p frame = some (0, frame') →
      ∃ entries rest, p = entries.flatMap entryBytes ++ rest ∧ entries.length = count ∧
        frame' = frame ++ entries ∧ ∀ kv ∈ entries, Storable kv := by
  induction count with
  | zero =>
    intro p frame frame' _ h
    cases h
    exact ⟨[], p, rfl, rfl, (List.append_nil _).symm, fun kv hkv => nomatch hkv⟩
  | succ count ih =>
    intro p frame frame' hno h
    rw [overlongEntries_succ, not_or] at hno
    rw [parseEntries] at h
    cases hentry : parseEntry p with
    | error f =>
      rw [hentry] at h
      cases f with
      | minusOne => cases h
      | undefined => cases h
    | ok r =>
      obtain ⟨kv, q⟩ := r
      rw [hentry] at h
      have hkv := parseEntry_storable hentry
      obtain ⟨entries, rest, hq, hlen, hframe, hstorable⟩ :=
        ih (fun hlong => hno.2 ⟨kv, q, hentry, hlong⟩) h
      refine ⟨kv :: entries, rest, ?_, ?_, ?_, ?_⟩
      · rcases parseEntry_exact hentry with hp | ⟨-, hcut⟩
        · rw [hp, hq, List.flatMap_cons, List.append_assoc]
        · exact absurd (hcut.overlong hkv) hno.1
      · rw [List.length_cons, hlen]
      · rw [hframe, List.append_assoc]
        rfl
      · intro kv' hmem
        rcases List.mem_cons.mp hmem with heq | hmem
        · rw [heq]
          exact hkv
        · exact hstorable kv' hmem

/-! ## What a payload holds -/

/-- All the entries that it announces stand in the payload, in that order and in full. -/
def HoldsList (payload : Bytes) (entries : List Property) : Prop :=
  ∃ command content rest, payload = announcement command content entries ++ rest ∧
    Short command ∧ Short content ∧ 0 < entries.length ∧ entries.length < 2 ^ 31 ∧
    ∀ kv ∈ entries, Storable kv

section

variable {payload q : Bytes} {count : Nat}

/-- Behind an opening that was read, only an entry can go on behind the end. -/
theorem overlongSetDataFrame_iff (h : parseSetDataFrame payload = .ok (count, q)) :
    OverlongSetDataFrame payload ↔ OverlongEntries count q := by
  obtain ⟨command, content, hpayload, hcommand, hcontent, h0, hlt⟩ := parseSetDataFrame_exact h
  constructor
  · rintro ((⟨q', heq, hlong⟩ | ⟨command', q', hcommand', heq, hlong⟩) |
      ⟨command', content', count', q', hcommand', hcontent', h0', hlt', heq, hlong⟩)
    · -- the command is all there
      rw [hpayload, opening, List.cons_append, List.cons.injEq] at heq
      rw [← heq.2, List.append_assoc, List.append_assoc] at hlong
      exact absurd hlong (not_overlongString hcommand _)
    · -- so is the content
      rw [hpayload, opening, List.cons_append, List.cons.injEq, List.append_assoc,
        List.append_assoc] at heq
      have hread := readString_short hcommand' (0x02 :: q')
      rw [← heq.2, readString_short hcommand, Except.ok.injEq, Prod.mk.injEq, List.cons_append,
        List.cons.injEq] at hread
      rw [← hread.2.2, List.append_assoc, List.append_assoc] at hlong
      exact absurd hlong (not_overlongString hcontent _)
    · have hparse := parseSetDataFrame_opening hcommand' hcontent' h0' hlt' q'
      rw [← heq, h, Except.ok.injEq, Prod.mk.injEq] at hparse
      obtain ⟨rfl, rfl⟩ := hparse
      exact hlong
  · intro hlong
    exact Or.inr ⟨command, content, count, q, hcommand, hcontent, h0, hlt, hpayload, hlong⟩

theorem holdsList_iff (h : parseSetDataFrame payload = .ok (count, q)) (entries : List Property) :
    HoldsList payload entries ↔
      ¬ OverlongEntries count q ∧ parseEntries count q [] = some (0, entries) := by
  constructor
  · intro ⟨command, content, rest, hpayload, hcommand, hcontent, h0, hlt, hstorable⟩
    have hparse := parseSetDataFrame_opening hcommand hcontent h0 hlt
      (entries.flatMap entryBytes ++ rest)
    rw [announcement_eq, List.append_assoc] at hpayload
    rw [← hpayload, h, Except.ok.injEq, Prod.mk.injEq] at hparse
    obtain ⟨rfl, rfl⟩ := hparse
    exact ⟨not_overlongEntries hstorable rest, parseEntries_entries hstorable rest⟩
  · intro ⟨hno, hentries⟩
    obtain ⟨command, content, hpayload, hcommand, hcontent, h0, hlt⟩ := parseSetDataFrame_exact h
    obtain ⟨entries', rest, hq, hlen, heq, hstorable⟩ := parseEntries_exact count hno hentries
    rw [List.nil_append] at heq
    subst heq hlen hq
    refine ⟨command, content, rest, ?_, hcommand, hcontent, h0, hlt, hstorable⟩
    rw [hpayload, announcement_eq, List.append_assoc]

end

/-! ## In a run -/

section

variable {ε : Type} {env : Env st ε} {inp : ε → Bytes} {s s' : State} {e e' : ε} {rc : Int}
  {bhSize mhSize chunkSize : Nat} {messageLength : Int} {p : Bytes}

/-- What a call comes to: too little has come in, or there is no opening, or the
loop has gone over the entries and the list is what that left. -/
theorem setDataFrame_cases (hin : Reads env inp) (hp : inp e' = inp e ++ p)
    (hrun : Runs env (SetDataFrame.readPayload bhSize mhSize messageLength chunkSize) s e rc
      s' e') :
    rc = -1 ∧ s'.globals.setDataFrame = s.globals.setDataFrame ∧
        ((s.buffer .ioBuffer ++ p).length : Int) < bhSize + mhSize + messageLength ∨
      (bhSize + mhSize + messageLength : Int) ≤ (s.buffer .ioBuffer ++ p).length ∧
        ((∃ f, parseSetDataFrame ((s.buffer .ioBuffer ++ p).drop (bhSize + mhSize)) = .error f ∧
            rc = -1 ∧ s'.globals.setDataFrame = s.globals.setDataFrame) ∨
          ∃ count q, parseSetDataFrame ((s.buffer .ioBuffer ++ p).drop (bhSize + mhSize))
              = .ok (count, q) ∧
            parseEntries count q s.globals.setDataFrame
              = some (rc, s'.globals.setDataFrame)) := by
  unfold SetDataFrame.readPayload at hrun
  rw [bind_eq, runs_bind] at hrun
  obtain ⟨rc₁, s₁, e₁, hfetch, hrest⟩ := hrun
  obtain ⟨x, hx, hfetched⟩ := wlp_readWhole account_came _ _ _ hfetch
  rcases hfetched with ⟨hrc, hs, hshort⟩ | ⟨hrc, hs, hwhole⟩
  · rw [if_pos hrc] at hrest
    obtain ⟨rfl, rfl, rfl⟩ := runs_ret.mp hrest
    rw [hx.unique hin hp] at hshort
    subst hs
    refine Or.inl ⟨rfl, rfl, ?_⟩
    rw [List.length_append]
    omega
  · rw [hrc, if_neg (by decide)] at hrest
    obtain ⟨hact, rfl⟩ := runs_act.mp hrest
    rw [hx.unique hin hp] at hs hwhole
    subst hs
    refine Or.inr ⟨by rw [List.length_append]; omega, ?_⟩
    rw [State.buffer_append, State.append_setDataFrame] at hact
    cases hparse : parseSetDataFrame ((s.buffer .ioBuffer ++ p).drop (bhSize + mhSize)) with
    | error f =>
      rw [hparse] at hact
      cases f with
      | minusOne =>
        cases hact
        exact Or.inl ⟨_, rfl, rfl, rfl⟩
      | undefined => cases hact
    | ok r =>
      obtain ⟨count, q⟩ := r
      rw [hparse] at hact
      obtain ⟨⟨rc', frame'⟩, hentries, heq⟩ := Option.map_eq_some_iff.mp hact
      cases heq
      exact Or.inr ⟨count, q, rfl, hentries⟩

end

/-! ## From the publisher to the consumers -/

/-- The first `OnMetaData::write_payload` on the list that `s` holds, in the
session of any consumer: it succeeds and pushes these entries. -/
def Sends (s : State) (entries : List Property) : Prop :=
  ∀ {ε : Type} (env : Env st ε) (consumer : State) (e : ε),
    consumer.globals.setDataFrame = s.globals.setDataFrame →
    wp env (OnMetaData.writePayload (chars "onMetaData")) (fun rc t _ => rc = 0 ∧
      t.buffer .ioBuffer = consumer.buffer .ioBuffer ++ (0x02 :: (beBytes 2 10 ++
        (chars "onMetaData" ++ (0x03 :: (entries.flatMap entryBytes ++
          (entryBytes serverEntry ++ [0x00, 0x00, 0x09]))))))) consumer e

/-- The entries of a payload reach the first consumer as they came: same bytes,
same order, with the server's own entry behind them. -/
def Survives (payload : Bytes) (s : State) : Prop :=
  ∃ entries, HoldsList payload entries ∧ Sends s entries

theorem sends_of_storable {s : State} (h : ∀ kv ∈ s.globals.setDataFrame, Storable kv) :
    Sends s s.globals.setDataFrame := by
  intro ε env consumer e hsame
  refine (wp_onMetaData (by rw [hsame]; exact h)).mpr ⟨rfl, ?_⟩
  rw [State.buffer_append, State.setMetaData_buffer, hsame]
  simp [onMetaDataPayload]

/-- An accepted payload survives if and only if it announces no string longer than
what is left of it: the terminating zero was then taken for the last byte of its
last entry. -/
theorem metadata_survives_iff {ε : Type} {env : Env st ε} {inp : ε → Bytes} {s s' : State}
    {e e' : ε} {bhSize mhSize chunkSize : Nat} {messageLength : Int} {p : Bytes}
    (hin : Reads env inp) (hp : inp e' = inp e ++ p) (hempty : s.globals.setDataFrame = [])
    (hrun : Runs env (SetDataFrame.readPayload bhSize mhSize messageLength chunkSize) s e 0
      s' e') :
    Survives ((s.buffer .ioBuffer ++ p).drop (bhSize + mhSize)) s' ↔
      ¬ OverlongSetDataFrame ((s.buffer .ioBuffer ++ p).drop (bhSize + mhSize)) := by
  rcases setDataFrame_cases hin hp hrun with ⟨hrc, -⟩ | ⟨-, ⟨f, -, hrc, -⟩ | ⟨count, q, hparse, h⟩⟩
  · cases hrc
  · cases hrc
  rw [hempty] at h
  rw [overlongSetDataFrame_iff hparse]
  constructor
  · rintro ⟨entries, hlist, -⟩
    exact ((holdsList_iff hparse entries).mp hlist).1
  · intro hno
    refine ⟨_, (holdsList_iff hparse _).mpr ⟨hno, h⟩, sends_of_storable ?_⟩
    refine parseEntries_storable count ?_ h
    intro kv hkv
    cases hkv

/-- A payload with a flag and a number, which is accepted and whose list is stored as it was
announced. -/
theorem metadata_survives_flag : ∃ s' e', Runs (replay answer)
    (SetDataFrame.readPayload 0 0 42 4096) {}
    ([.bytes (announcement (chars "@setDataFrame") (chars "o")
      [(chars "f", .value0x01 1), (chars "n", .valueNum 7)])], []) 0 s' e' ∧
    Survives (announcement (chars "@setDataFrame") (chars "o")
      [(chars "f", .value0x01 1), (chars "n", .valueNum 7)]) s' := by
  have hexec : (exec (replay answer) 20 (SetDataFrame.readPayload 0 0 42 4096) {}
      ([.bytes (announcement (chars "@setDataFrame") (chars "o")
        [(chars "f", .value0x01 1), (chars "n", .valueNum 7)])], [])).map
        (fun r => (r.1, r.2.2.2.flatMap readBytes))
      = some (0, announcement (chars "@setDataFrame") (chars "o")
        [(chars "f", .value0x01 1), (chars "n", .valueNum 7)]) := rfl
  obtain ⟨⟨rc, s', e'⟩, hrun, heq⟩ := Option.map_eq_some_iff.mp hexec
  obtain ⟨rfl, hbytes⟩ := Prod.mk.inj heq
  refine ⟨s', e', ⟨20, hrun⟩,
    (metadata_survives_iff reads_replay hbytes rfl ⟨20, hrun⟩).mpr ?_⟩
  have hstorable : ∀ kv ∈ [(chars "f", ValueObject.value0x01 1), (chars "n", .valueNum 7)],
      Storable kv := by
    intro kv hkv
    rcases List.mem_cons.mp hkv with h | h
    · rw [h]
      exact ⟨by decide, trivial⟩
    · rw [List.mem_singleton.mp h]
      exact ⟨by decide, trivial⟩
  have hlist : HoldsList (announcement (chars "@setDataFrame") (chars "o")
      [(chars "f", .value0x01 1), (chars "n", .valueNum 7)]) _ :=
    ⟨_, _, [], (List.append_nil _).symm, by decide, by decide, by decide, by decide, hstorable⟩
  have hparse : parseSetDataFrame (announcement (chars "@setDataFrame") (chars "o")
      [(chars "f", .value0x01 1), (chars "n", .valueNum 7)]) = .ok (2, _) :=
    parseSetDataFrame_opening (by decide) (by decide) (by decide) (by decide) _
  exact (overlongSetDataFrame_iff hparse).not.mpr ((holdsList_iff hparse _).mp hlist).1

/-- One entry, whose string of one byte is announced to have two: the second one is behind
the end. -/
def cutPayload : Bytes :=
  opening (chars "s") (chars "o") 1 ++
    (beBytes 2 1 ++ (chars "f" ++ 0x02 :: (beBytes 2 2 ++ chars "a")))

/-- It is accepted, and what is stored and sent ends in a zero that never came. -/
theorem metadata_cut : ∃ s' e', Runs (replay answer) (SetDataFrame.readPayload 0 0 20 4096) {}
    ([.bytes cutPayload], []) 0 s' e' ∧
    s'.globals.setDataFrame = [(chars "f", .valueString [0x61, 0])] ∧
    ¬ Survives cutPayload s' := by
  have hexec : (exec (replay answer) 20 (SetDataFrame.readPayload 0 0 20 4096) {}
      ([.bytes cutPayload], [])).map
        (fun r => (r.1, r.2.1.globals.setDataFrame, r.2.2.2.flatMap readBytes))
      = some (0, [(chars "f", .valueString [0x61, 0])], cutPayload) := rfl
  obtain ⟨⟨rc, s', e'⟩, hrun, heq⟩ := Option.map_eq_some_iff.mp hexec
  simp only [Prod.mk.injEq] at heq
  obtain ⟨rfl, hframe, hbytes⟩ := heq
  refine ⟨s', e', ⟨20, hrun⟩, hframe, ?_⟩
  rintro ⟨entries, hlist, -⟩
  have hparse : parseSetDataFrame cutPayload = .ok (1, _) :=
    parseSetDataFrame_opening (by decide) (by decide) (by decide) (by decide) _
  refine ((holdsList_iff hparse entries).mp hlist).1 ?_
  exact ⟨[], _, by decide, (fun kv h => nomatch h), rfl, Or.inr ⟨chars "f", _, by decide, rfl, 2,
    chars "a", by decide, by decide, rfl, by decide⟩⟩

/-- `n` consumers are served one after the other, each into an emptied buffer: the payload
of each. -/
def serveConsumers : Nat → Routine (List Bytes)
  | 0 => return []
  | n + 1 => do
    modify fun s => s.setBuffer .ioBuffer []
    let _ ← OnMetaData.writePayload (chars "onMetaData")
    let payload ← gets fun s => s.buffer .ioBuffer
    let later ← serveConsumers n
    return payload :: later

/-- The payload for the consumer that `n` others were served before: one server entry for
each of them, and its own. -/
def payloadAfter (frame : List Property) (n : Nat) : Bytes :=
  onMetaDataPayload (frame ++ List.replicate (n + 1) serverEntry)

theorem payloadAfter_length (frame : List Property) (n : Nat) :
    (payloadAfter frame n).length = 54 + (frame.map entrySize).sum + 37 * n := by
  have hserver : entrySize serverEntry = 37 := by decide
  rw [payloadAfter, onMetaDataPayload_length, List.map_append, List.sum_append, List.map_replicate,
    hserver, List.sum_replicate_nat]
  omega

/-- Every consumer finds the server entries of those before it in the list. -/
theorem wp_serveConsumers {ε : Type} (env : Env st ε) (e : ε) (n : Nat) :
    ∀ {frame : List Property} {s : State}, s.globals.setDataFrame = frame →
      (∀ kv ∈ frame, Storable kv) →
      wp env (serveConsumers n) (fun payloads s' _ =>
        payloads = (List.range n).map (payloadAfter frame) ∧
        s'.globals.setDataFrame = frame ++ List.replicate n serverEntry) s e := by
  induction n with
  | zero =>
    intro frame s hlist _
    rw [serveConsumers, pure_eq, wp_ret]
    exact ⟨rfl, by rw [hlist, List.replicate_zero, List.append_nil]⟩
  | succ n ih =>
    intro frame s hlist h
    have hnext := storable_append_server h
    have hlist' : (s.setBuffer .ioBuffer []).globals.setDataFrame = frame := hlist
    simp only [serveConsumers, bind_eq, pure_eq, wp_bind, wp_modify]
    rw [wp_onMetaData (by rw [hlist']; exact h), wp_bind, wp_gets, wp_bind, hlist']
    refine wp_mono (@ih (frame ++ [serverEntry]) _ (by simp) hnext)
      fun later s' e' hserved => wp_ret.mpr ?_
    obtain ⟨hlater, hs'⟩ := hserved
    have hshift : ∀ k, payloadAfter (frame ++ [serverEntry]) k = payloadAfter frame (k + 1) := by
      intro k
      rw [payloadAfter, payloadAfter, List.append_assoc, List.replicate_succ (n := k + 1)]
      rfl
    rw [hlater, hs', List.range_succ_eq_map, List.map_cons, List.map_map, List.append_assoc]
    have hfirst : (((s.setBuffer .ioBuffer []).setMetaData (frame ++ [serverEntry])).append
        .ioBuffer (onMetaDataPayload (frame ++ [serverEntry]))).buffer .ioBuffer
          = payloadAfter frame 0 := by simp [payloadAfter]
    exact ⟨congrArg₂ List.cons hfirst (List.map_congr_left fun k _ => hshift k),
      by rw [List.replicate_succ]; rfl⟩

/-- A consumer is sent the metadata that the first one was sent only if it is
the first; the list is left as it was only if nobody is served. -/
theorem metadata_same_iff {ε : Type} (env : Env st ε) (frame : List Property) (n : Nat) (s : State)
    (e : ε) (hframe : ∀ kv ∈ frame, Storable kv) (hlist : s.globals.setDataFrame = frame) :
    (wp env (serveConsumers (n + 1)) (fun payloads _ _ => payloads[n]? = payloads[0]?) s e
        ↔ n = 0) ∧
      (wp env (serveConsumers n) (fun _ s' _ => s'.globals.setDataFrame = frame) s e ↔ n = 0) := by
  constructor
  · have hrun := wp_serveConsumers env e (n + 1) hlist hframe
    constructor
    · intro h
      obtain ⟨payloads, s', e', hr, hsame⟩ := h
      obtain ⟨hpayloads, -⟩ := wlp_of_wp hrun _ _ _ hr
      rw [hpayloads] at hsame
      simp only [List.getElem?_map, List.getElem?_range (Nat.lt_succ_self n),
        List.getElem?_range (Nat.succ_pos n), Option.map_some, Option.some.injEq] at hsame
      have hlen := congrArg List.length hsame
      rw [payloadAfter_length, payloadAfter_length] at hlen
      omega
    · intro h0
      subst h0
      exact wp_mono hrun fun _ _ _ _ => rfl
  · have hrun := wp_serveConsumers env e n hlist hframe
    constructor
    · intro h
      obtain ⟨payloads, s', e', hr, hsame⟩ := h
      obtain ⟨-, hlist'⟩ := wlp_of_wp hrun _ _ _ hr
      have hlen := congrArg List.length (hlist'.symm.trans hsame)
      rw [List.length_append, List.length_replicate] at hlen
      omega
    · intro h0
      subst h0
      exact wp_mono hrun fun _ _ _ h => by rw [h.2, List.replicate_zero, List.append_nil]

/-- The list of a publisher that announced its duration, a number under a short key, can be
stored. -/
theorem duration_storable : ∀ kv ∈ [(chars "duration", ValueObject.valueNum 0)], Storable kv := by
  intro kv hkv
  rw [List.mem_singleton.mp hkv]
  exact ⟨by decide, trivial⟩

theorem metadata_same_first :
    wp streamEnv (serveConsumers (0 + 1)) (fun payloads _ _ => payloads[0]? = payloads[0]?)
        (firstConsumer [(chars "duration", .valueNum 0)]) ⟨[], []⟩ ↔ (0 : Nat) = 0 :=
  (metadata_same_iff streamEnv _ 0 (firstConsumer [(chars "duration", .valueNum 0)]) ⟨[], []⟩
    duration_storable rfl).1

/-- The second consumer is sent two server entries, where the first one was sent one. -/
theorem metadata_second_differs :
    ¬ wp streamEnv (serveConsumers 2) (fun payloads _ _ => payloads[1]? = payloads[0]?)
        (firstConsumer [(chars "duration", .valueNum 0)]) ⟨[], []⟩ := by
  intro h
  obtain ⟨payloads, s', e', hr, hsame⟩ := h
  obtain ⟨hpayloads, -⟩ := wlp_of_wp (wp_serveConsumers _ _ 2
    (s := firstConsumer [(chars "duration", .valueNum 0)]) rfl duration_storable) _ _ _ hr
  rw [hpayloads] at hsame
  simp only [List.getElem?_map, List.getElem?_range (show 1 < 2 from Nat.lt_succ_self 1),
    List.getElem?_range (Nat.succ_pos 1), Option.map_some, Option.some.injEq] at hsame
  have hlen := congrArg List.length hsame
  rw [payloadAfter_length, payloadAfter_length] at hlen
  omega

end RtmpServer
