import RtmpServer.Printing

/-!
# Writing what was read

`read_object` stores numbers, strings and flags. `write_object` knows numbers,
strings and lengths, and has an error branch for the rest. So an object that was
read is written and read back as it was if it has no flag in it, and is refused
with `-1` if it has one: `writeObject_decoded`.

Mirroring note: the hash table gives its entries in any order, so what is written
is any permutation of what is stored. Strings from 32768 bytes on, which the
decoder takes and whose length the encoder puts into an `int16_t`, are left out.
-/

namespace RtmpServer

open Endian Push

/-! ## What is stored -/

/-- An object that `read_object` can have made: every pair can be read, and no key is there
twice. -/
structure DecodedObject (object : List Property) : Prop where
  pair : ∀ kv ∈ object, WellFormed kv ∧ ¬ Blank kv
  keys : (object.map Prod.fst).Nodup

namespace DecodedObject

theorem nil : DecodedObject [] where
  pair _ hkv := nomatch hkv
  keys := List.nodup_nil

theorem insert {object : List Property} {kv : Property} (h : DecodedObject object)
    (hwf : WellFormed kv)
    (hblank : ¬ Blank kv) : DecodedObject (insertProperty object kv) := by
  unfold insertProperty
  by_cases hany : object.any (fun p => decide (p.1 = kv.1)) = true
  · rw [if_pos hany]
    exact h
  · have hnew : kv.1 ∉ object.map Prod.fst := by
      intro hmem
      obtain ⟨p, hp, heq⟩ := List.mem_map.mp hmem
      exact hany (List.any_eq_true.mpr ⟨p, hp, decide_eq_true heq⟩)
    rw [if_neg hany]
    constructor
    · intro kv' hmem
      rcases List.mem_append.mp hmem with hmem | hmem
      · exact h.pair kv' hmem
      · rw [List.mem_singleton.mp hmem]
        exact ⟨hwf, hblank⟩
    · rw [List.map_append, List.map_singleton]
      exact List.nodup_append.mpr ⟨h.keys, List.pairwise_singleton _ _, fun a ha b hb heq =>
        hnew (List.mem_singleton.mp hb ▸ heq ▸ ha)⟩

theorem foldl {p : Bytes} {kvs : List Property} (hbytes : ObjectBytes p kvs) :
    ∀ {object}, DecodedObject object → DecodedObject (kvs.foldl insertProperty object) := by
  induction hbytes with
  | last => exact fun h => h
  | closed q => exact fun h => h
  | pair hwf hblank _ ih => exact fun h => ih (h.insert hwf hblank)
  | next _ _ _ ih => exact ih

theorem perm {object kvs : List Property} (h : DecodedObject object) (hperm : kvs.Perm object) :
    DecodedObject kvs where
  pair kv hkv := h.pair kv (hperm.mem_iff.mp hkv)
  keys := (hperm.map Prod.fst).nodup_iff.mpr h.keys

end DecodedObject

theorem decoded_of_readObject {p : Bytes} {object : List Property}
    (h : readObject p [] = some (0, object)) : DecodedObject object := by
  obtain ⟨kvs, hbytes, rfl⟩ := readObject_accepts_iff.mp h
  exact .foldl hbytes .nil

/-! ## What is written of it -/

/-- The length of the string, if the value is one, fits an `int16_t`. -/
def Fits (kv : Property) : Prop := ∀ value, kv.2 = .valueString value → value.length ≤ 32767

/-- What is stored is of a kind that the encoder knows, unless it is a flag. -/
theorem sendable_of_wellFormed {kv : Property} (hwf : WellFormed kv) (hblank : ¬ Blank kv)
    (hfits : Fits kv) (hflag : ¬ IsFlag kv) : Sendable kv := by
  obtain ⟨key, value⟩ := kv
  obtain ⟨hkey, hvalue⟩ := hwf
  cases value with
  | valueString value =>
    have hne : value ≠ [] := fun hnil => hblank (congrArg ValueObject.valueString hnil)
    exact ⟨hkey, List.length_pos_iff.mpr hne, hfits value rfl⟩
  | valueNum value => exact ⟨hkey, trivial⟩
  | value0x01 value => exact absurd ⟨value, rfl⟩ hflag
  | valueLen value => exact absurd hvalue id

theorem pushProperty_flag {kv : Property} (hkey : Short kv.1) (hflag : IsFlag kv) :
    ∃ bytes, pushProperty pushLen kv = some (bytes, -1) := by
  obtain ⟨key, value⟩ := kv
  obtain ⟨flag, rfl⟩ := hflag
  rw [pushProperty, pushString_short hkey.2]
  exact ⟨_, rfl⟩

/-- The first flag ends the writer with `-1`, whatever comes in front of it and behind it. -/
theorem pushProperties_flag {kvs : List Property} (hkey : ∀ kv ∈ kvs, Short kv.1)
    (hsend : ∀ kv ∈ kvs, ¬ IsFlag kv → Sendable kv) (hflag : ∃ kv ∈ kvs, IsFlag kv) :
    ∃ bytes, pushProperties pushLen kvs = some (bytes, -1) := by
  induction kvs with
  | nil =>
    obtain ⟨kv, hkv, -⟩ := hflag
    cases hkv
  | cons kv kvs ih =>
    rw [pushProperties]
    by_cases hfirst : IsFlag kv
    · obtain ⟨bytes, hbytes⟩ := pushProperty_flag (hkey kv (List.mem_cons_self ..)) hfirst
      rw [hbytes]
      exact ⟨bytes, rfl⟩
    · have hlater : ∃ kv' ∈ kvs, IsFlag kv' := by
        obtain ⟨kv', hmem, hkv'⟩ := hflag
        rcases List.mem_cons.mp hmem with heq | hmem
        · exact absurd (heq ▸ hkv') hfirst
        · exact ⟨kv', hmem, hkv'⟩
      obtain ⟨bytes, hbytes⟩ := ih (fun kv' hmem => hkey kv' (List.mem_cons_of_mem _ hmem))
        (fun kv' hmem => hsend kv' (List.mem_cons_of_mem _ hmem)) hlater
      rw [pushProperty_sendable (hsend kv (List.mem_cons_self ..) hfirst), hbytes]
      exact ⟨_, rfl⟩

/-- An object that was read is written and read back as it was, or it has a flag in
it and is refused. -/
theorem writeObject_decoded {p : Bytes} {object kvs : List Property}
    (hread : readObject p [] = some (0, object)) (hperm : kvs.Perm object)
    (hfits : ∀ kv ∈ object, Fits kv) :
    ((∀ kv ∈ object, ¬ IsFlag kv) →
        ∃ q, writeObject [kvs] = push (0x03 :: q) ∧ readObject q [] = some (0, kvs)) ∧
      ((∃ kv ∈ object, IsFlag kv) → ∃ bytes, writeObject [kvs] = some (bytes, -1)) := by
  have hdecoded : DecodedObject kvs := (decoded_of_readObject hread).perm hperm
  have hkey : ∀ kv ∈ kvs, Short kv.1 := fun kv hkv => (hdecoded.pair kv hkv).1.1
  have hsend : ∀ kv ∈ kvs, ¬ IsFlag kv → Sendable kv := by
    intro kv hkv hflag
    obtain ⟨hwf, hblank⟩ := hdecoded.pair kv hkv
    exact sendable_of_wellFormed hwf hblank (hfits kv (hperm.mem_iff.mp hkv)) hflag
  have hvec : ¬ [kvs].length = 0 := Nat.one_ne_zero
  constructor
  · intro hflag
    have hall : ∀ kv ∈ kvs, Sendable kv := fun kv hkv =>
      hsend kv hkv (hflag kv (hperm.mem_iff.mp hkv))
    refine ⟨kvs.flatMap propertyBytes ++ [0x00, 0x00, 0x09], ?_,
      readObject_pushProperties hall hdecoded.keys⟩
    rw [writeObject, if_neg hvec, pushVec, pushObjects, pushObjects, pushProperties_sendable hall]
    simp
  · rintro ⟨kv, hkv, hflag⟩
    obtain ⟨bytes, hbytes⟩ :=
      pushProperties_flag hkey hsend ⟨kv, hperm.mem_iff.mpr hkv, hflag⟩
    rw [writeObject, if_neg hvec, pushVec, pushObjects, hbytes]
    exact ⟨_, rfl⟩

/-- An object in which `a` is a number and `b` a string. -/
def numberAndString : List Property := [(chars "a", .valueNum 0), (chars "b", .valueString [120])]

/-- Written in the other order, as a map may have it, it is read back all the same. -/
theorem writeObject_decoded_reverse :
    ∃ q, writeObject [numberAndString.reverse] = push (0x03 :: q) ∧
      readObject q [] = some (0, numberAndString.reverse) := by
  have hnumber : WellFormed (chars "a", .valueNum 0) := ⟨by decide, trivial⟩
  have hstring : WellFormed (chars "b", .valueString [120]) := ⟨by decide, by decide⟩
  have hbytes : ObjectBytes (entryBytes (chars "a", .valueNum 0) ++
      (entryBytes (chars "b", .valueString [120]) ++ [0x00, 0x00, 0x09])) numberAndString :=
    .pair hnumber (fun h => nomatch h) (.pair hstring (fun h => nomatch h) .last)
  have hread := readObject_objectBytes hbytes []
  have hfits : ∀ kv ∈ numberAndString, Fits kv := by
    refine List.forall_mem_cons.mpr ⟨(fun _ h => nomatch h), List.forall_mem_singleton.mpr ?_⟩
    rintro _ ⟨⟩
    decide
  have hflags : ∀ kv ∈ numberAndString, ¬ IsFlag kv :=
    List.forall_mem_cons.mpr ⟨(fun ⟨_, h⟩ => nomatch h),
      List.forall_mem_singleton.mpr (fun ⟨_, h⟩ => nomatch h)⟩
  exact (writeObject_decoded hread (List.reverse_perm _) hfits).1 hflags

/-- A flag is read and not written, so an object with one is refused on the way back. -/
theorem writeObject_flag_refused :
    readObject (entryBytes (chars "a", .value0x01 1) ++ [0x00, 0x00, 0x09]) []
        = some (0, [(chars "a", .value0x01 1)]) ∧
      writeObject [[(chars "a", .value0x01 1)]] = some ([0x03, 0x00, 0x01, 97], -1) := by
  have hflag : WellFormed (chars "a", .value0x01 1) := ⟨by decide, trivial⟩
  exact ⟨readObject_objectBytes (.pair hflag (fun h => nomatch h) .last) [], by decide +kernel⟩

end RtmpServer
