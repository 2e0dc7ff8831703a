import RtmpServer.EncodeDecoded

/-!
# Objects behind one another

`write_object` puts 03 in front of each object, 00 00 09 behind each, and 00 00 09
once more behind several. `read_object` has a branch for an object that follows
another one: behind 00 00 09 it looks at two bytes, `end_flag`, goes past them, and
only there expects the 03. But the 03 is the first of the two, so what it compares is
the low byte of the length of the next key, and where that happens to be 03, it goes
on at the key as if a pair began there.

`severalObjects_readsBack_iff` says for which lists the pairs are all found anyway.
There are such lists, with keys of 771 bytes (`shifted`). With two objects it never
happens (`not_reread_two`), nor with keys of at most 767 bytes
(`not_reread_of_keys_le`): the bytes in the pairs do not add up.
-/

namespace RtmpServer

open Endian Push

/-! ## What is written -/

/-- An object behind its marker: its pairs and its end marker. -/
def closedObject (kvs : List Property) : Bytes := kvs.flatMap propertyBytes ++ [0x00, 0x00, 0x09]

/-- Objects with their markers, and one more end marker behind them, as the writer has it
behind several objects. -/
def furtherObjects (vec : List (List Property)) : Bytes :=
  vec.flatMap (fun kvs => 0x03 :: closedObject kvs) ++ [0x00, 0x00, 0x09]

/-- The first of them, and the others behind it. -/
theorem furtherObjects_cons (kvs : List Property) (vec : List (List Property)) :
    furtherObjects (kvs :: vec) = 0x03 :: (closedObject kvs ++ furtherObjects vec) := by
  simp [furtherObjects]

/-- Objects of such pairs are written one after the other, each between its markers. -/
theorem pushObjects_sendable {vec : List (List Property)}
    (h : ∀ kvs ∈ vec, ∀ kv ∈ kvs, Sendable kv) :
    pushObjects pushLen vec = push (vec.flatMap fun kvs => 0x03 :: closedObject kvs) := by
  induction vec with
  | nil => rfl
  | cons kvs vec ih =>
    rw [pushObjects, pushProperties_sendable (h kvs (List.mem_cons_self ..)),
      ih fun kvs' hmem => h kvs' (List.mem_cons_of_mem _ hmem)]
    simp [closedObject]

/-- Several objects are written behind the start marker of the first, with the further ones
behind it. -/
theorem pushVec_several {first second : List Property} {vec : List (List Property)}
    (h : ∀ kvs ∈ first :: second :: vec, ∀ kv ∈ kvs, Sendable kv) :
    pushVec pushLen (first :: second :: vec)
      = push (0x03 :: (closedObject first ++ furtherObjects (second :: vec))) := by
  have hmore : 1 < (first :: second :: vec).length := Nat.succ_lt_succ (Nat.succ_pos _)
  rw [pushVec, pushObjects_sendable h, if_pos hmore, push_andThen_push]
  simp [furtherObjects]

/-! ## What is read -/

/-- The two bytes of a length. -/
theorem beBytes_two (n : Nat) : beBytes 2 n = [UInt8.ofNat (n / 256), UInt8.ofNat n] := rfl

/-- Behind the first object the reader compares the third byte of what follows. -/
theorem readObject_further (hi lo : UInt8) (p : Bytes) (object : List Property) :
    readObject (0x00 :: 0x00 :: 0x09 :: 0x03 :: hi :: lo :: p) object
      = if lo = 0x03 then readObject p object else some (-1, object) := by
  have hb : be2se 2 (0x03 :: hi :: lo :: p) = .ok (768 + hi.toNat, lo :: p) := by
    simp [be2se, ofBeBytes, ofLeBytes]
    omega
  have hend : readObjectEnd (0x09 :: 0x03 :: hi :: lo :: p)
      = if lo = 0x03 then .again p none else .done (-1) := by
    rw [readObjectEnd, if_neg (by decide), if_neg (List.cons_ne_nil _ _), hb]
    exact if_neg (by omega)
  by_cases hlo : lo = 0x03
  · rw [if_pos hlo] at hend ⊢
    exact readObject_next (List.cons_ne_nil _ _) ((readObjectStep_zero _).trans hend)
  · rw [if_neg hlo] at hend ⊢
    exact readObject_done (List.cons_ne_nil _ _) ((readObjectStep_zero _).trans hend)

/-- The first object is read as it was written, and its pairs are all there when its end
marker comes. -/
theorem readObject_first {first : List Property} (hsend : ∀ kv ∈ first, Sendable kv)
    (hnodup : (first.map Prod.fst).Nodup) (p : Bytes) :
    readObject (closedObject first ++ p) [] = readObject (0x00 :: 0x00 :: 0x09 :: p) first := by
  rw [closedObject, List.append_assoc,
    readObject_rounds fun kv hkv rest => readObjectStep_propertyBytes (hsend kv hkv) rest,
    foldl_insertProperty first [] hnodup]
  rfl

/-- What it takes for the other pairs: the first key of the second object has a
length that ends in the byte 03, and the bytes from that key on are an object for
the reader, with all the pairs that are missing in it and no key besides. -/
def Reread : List (List Property) → Prop
  | first :: (kv :: kvs) :: vec => kv.1.length % 256 = 3 ∧
      ∃ read, ObjectBytes ((furtherObjects ((kv :: kvs) :: vec)).drop 3) read ∧
        (read.foldl insertProperty first).Perm (first ++ ((kv :: kvs) :: vec).flatten)
  | _ => False

/-- The further objects with the length of their first key, which is what the reader looks
at. -/
theorem furtherObjects_pair (kv : Property) (kvs : List Property) (vec : List (List Property)) :
    furtherObjects ((kv :: kvs) :: vec) = 0x03 :: UInt8.ofNat (kv.1.length / 256) ::
      UInt8.ofNat kv.1.length :: (furtherObjects ((kv :: kvs) :: vec)).drop 3 := by
  rw [furtherObjects_cons, closedObject, List.flatMap_cons, propertyBytes, beBytes_two]
  rfl

/-- The low byte of a length is the start marker's byte exactly when the length leaves 3. -/
theorem lowByte_iff {n : Nat} : UInt8.ofNat n = 0x03 ↔ n % 256 = 3 := by
  rw [← UInt8.toNat_inj, UInt8.toNat_ofNat']
  rfl

/-- Several objects are read back exactly where the bytes from the second object's first key
on can be reread as they have to be. -/
theorem readObject_several_iff {first second : List Property} {vec : List (List Property)}
    (hsend : ∀ kv ∈ first, Sendable kv) (hnodup : (first.map Prod.fst).Nodup) :
    (∃ object, readObject (closedObject first ++ furtherObjects (second :: vec)) []
          = some (0, object) ∧ object.Perm (first :: second :: vec).flatten) ↔
      Reread (first :: second :: vec) := by
  rw [readObject_first hsend hnodup]
  cases second with
  | nil =>
    -- the two bytes are the marker of the empty object and a zero of its end
    have hbytes : furtherObjects ([] :: vec)
        = 0x03 :: 0x00 :: 0x00 :: 0x09 :: furtherObjects vec := by
      rw [furtherObjects_cons]
      rfl
    rw [hbytes, readObject_further, if_neg (by decide)]
    simp [Reread]
  | cons kv kvs =>
    rw [furtherObjects_pair, readObject_further]
    by_cases hlen : kv.1.length % 256 = 3
    · rw [if_pos (lowByte_iff.mpr hlen)]
      constructor
      · rintro ⟨object, hread, hperm⟩
        obtain ⟨read, hbytes, rfl⟩ := readObject_accepts_iff.mp hread
        exact ⟨hlen, read, hbytes, hperm⟩
      · rintro ⟨-, read, hbytes, hperm⟩
        exact ⟨_, readObject_objectBytes hbytes first, hperm⟩
    · rw [if_neg fun h => hlen (lowByte_iff.mp h)]
      simp [Reread, hlen]

/-! ## When it cannot happen -/

/-- A pair that every reader understands has the same bytes in both descriptions. -/
theorem entryBytes_sendable {kv : Property} (h : Sendable kv) :
    entryBytes kv = propertyBytes kv := by
  obtain ⟨key, value⟩ := kv
  cases value with
  | valueString value => simp [entryBytes, propertyBytes]
  | valueNum value => simp [entryBytes, propertyBytes]
  | valueLen value => exact absurd h.2 id
  | value0x01 value => exact absurd h.2 id

/-- And so have the pairs of an object. -/
theorem flatMap_entryBytes_sendable {kvs : List Property} (h : ∀ kv ∈ kvs, Sendable kv) :
    kvs.flatMap entryBytes = kvs.flatMap propertyBytes := by
  rw [List.flatMap_def, List.flatMap_def,
    List.map_congr_left fun kv hkv => entryBytes_sendable (h kv hkv)]

/-- Inserting only appends, and in the order of the pairs: what is there keeps its place. -/
theorem foldl_insertProperty_sublist (kvs : List Property) :
    ∀ object, ∃ new, new.Sublist kvs ∧ kvs.foldl insertProperty object = object ++ new := by
  induction kvs with
  | nil => exact fun object => ⟨[], .slnil, (List.append_nil object).symm⟩
  | cons kv kvs ih =>
    intro object
    rw [List.foldl_cons]
    unfold insertProperty
    by_cases hany : object.any (fun p => decide (p.1 = kv.1)) = true
    · obtain ⟨new, hsub, heq⟩ := ih object
      rw [if_pos hany]
      exact ⟨new, hsub.cons kv, heq⟩
    · obtain ⟨new, hsub, heq⟩ := ih (object ++ [kv])
      rw [if_neg hany]
      refine ⟨kv :: new, hsub.cons_cons kv, heq.trans ?_⟩
      rw [List.append_assoc, List.singleton_append]

/-- Whoever finds all the missing pairs has read each of them, and perhaps more. -/
theorem read_perm {first rest read : List Property}
    (h : (read.foldl insertProperty first).Perm (first ++ rest)) :
    ∃ more, read.Perm (rest ++ more) := by
  obtain ⟨new, hsub, heq⟩ := foldl_insertProperty_sublist read first
  rw [heq] at h
  have hnew : new.Perm rest := (List.perm_append_left_iff first).mp h
  obtain ⟨more, hmore⟩ := hsub.exists_perm_append
  exact ⟨more, hmore.trans (hnew.append_right more)⟩

/-- What is accepted is longer than its pairs: by an end marker, or by more. -/
theorem ObjectBytes.length {p : Bytes} {kvs : List Property} (h : ObjectBytes p kvs) :
    p.length = (kvs.flatMap entryBytes).length + 3 ∨
      (kvs.flatMap entryBytes).length + 5 ≤ p.length := by
  induction h with
  | last => exact Or.inl rfl
  | closed q =>
    right
    simp only [List.flatMap_nil, List.length_nil, List.length_cons]
    omega
  | pair _ _ _ ih =>
    rw [List.flatMap_cons, List.length_append, List.length_append]
    omega
  | next _ _ _ ih =>
    rw [nextObject, List.length_append]
    simp only [List.length_cons, List.length_append, beBytes_length, List.length_nil]
    omega

/-- Two objects: one byte too many is left for the pairs, so they are never read back. -/
theorem not_reread_two {first second : List Property} (hsend : ∀ kv ∈ second, Sendable kv) :
    ¬ Reread [first, second] := by
  cases second with
  | nil => exact id
  | cons kv kvs =>
    rintro ⟨-, read, hbytes, hperm⟩
    rw [List.flatten_cons, List.flatten_nil, List.append_nil] at hperm
    obtain ⟨more, hread⟩ := read_perm hperm
    have hsum : (read.flatMap entryBytes).length
        = ((kv :: kvs).flatMap propertyBytes).length + (more.flatMap entryBytes).length := by
      rw [← flatMap_entryBytes_sendable hsend, ← List.length_append, ← List.flatMap_append]
      exact (hread.flatMap_right entryBytes).length_eq
    have hlen : ((furtherObjects [kv :: kvs]).drop 3).length
        = ((kv :: kvs).flatMap propertyBytes).length + 4 := by
      rw [List.length_drop, furtherObjects_cons, closedObject, furtherObjects]
      simp only [List.length_cons, List.length_append, List.length_nil, List.flatMap_nil]
      omega
    have hmore : (more.flatMap entryBytes).length ≠ 1 := by
      cases more with
      | nil => exact Nat.zero_ne_one
      | cons kv' more =>
        rw [List.flatMap_cons, List.length_append, entryBytes_length, entrySize]
        omega
    have := hbytes.length
    omega

/-- How often `hi` stands in front of 03, as it does in a key length of `hi * 256 + 3`. -/
def before03 (hi : UInt8) : Bytes → Nat
  | a :: b :: p => (if a = hi ∧ b = 0x03 then 1 else 0) + before03 hi (b :: p)
  | _ => 0

section

variable {hi : UInt8}

/-- Another byte in front adds nothing. -/
theorem before03_cons_of_ne {a : UInt8} (h : a ≠ hi) (p : Bytes) :
    before03 hi (a :: p) = before03 hi p := by
  cases p with
  | nil => rfl
  | cons b p => rw [before03, if_neg fun hab => h hab.1, Nat.zero_add]

/-- What is cut between two bytes that are not such a pair loses none. -/
theorem before03_append {x y : Bytes} (h : y.head? ≠ some 0x03) :
    before03 hi (x ++ y) = before03 hi x + before03 hi y := by
  induction x with
  | nil => simp [before03]
  | cons a x ih =>
    cases x with
    | cons b x =>
      rw [List.cons_append, List.cons_append, before03, before03, ← List.cons_append, ih]
      omega
    | nil =>
      cases y with
      | nil => rfl
      | cons b y =>
        have hb : ¬ (a = hi ∧ b = 0x03) := fun hab => h (congrArg some hab.2)
        rw [List.singleton_append, before03, if_neg hb]
        rfl

/-- To put two stretches together can only add to it, at the seam. -/
theorem before03_append_le (hi : UInt8) (x y : Bytes) :
    before03 hi x + before03 hi y ≤ before03 hi (x ++ y) := by
  induction x with
  | nil => simp [before03]
  | cons a x ih =>
    cases x with
    | cons b x =>
      rw [List.cons_append, List.cons_append, before03, before03, ← List.cons_append]
      omega
    | nil =>
      cases y with
      | nil => exact Nat.le_refl _
      | cons b y =>
        rw [List.singleton_append, before03, before03]
        · omega
        · simp

/-- How often it stands so in the pairs, each by itself. -/
def before03In (hi : UInt8) (kvs : List Property) : Nat :=
  (kvs.map fun kv => before03 hi (entryBytes kv)).sum

/-- Of an accepted buffer, at least as often as in the pairs that it holds. -/
theorem ObjectBytes.before03_le {p : Bytes} {kvs : List Property} (h : ObjectBytes p kvs)
    (hi : UInt8) : before03In hi kvs ≤ before03 hi p := by
  induction h with
  | last => exact Nat.zero_le _
  | closed q => exact Nat.zero_le _
  | @pair kv p kvs _ _ _ ih =>
    have := before03_append_le hi (entryBytes kv) p
    unfold before03In at ih ⊢
    rw [List.map_cons, List.sum_cons]
    omega
  | @next n p kvs _ _ _ ih =>
    have := before03_append_le hi (nextObject n) p
    omega

/-- A pair whose key is not that long does not begin with 03. -/
theorem head_entryBytes {kv : Property} (h : kv.1.length ≤ 767) (p : Bytes) :
    (entryBytes kv ++ p).head? ≠ some 0x03 := by
  rw [entryBytes, beBytes_two]
  intro heq
  have hhead : UInt8.ofNat (kv.1.length / 256) = 0x03 := Option.some.inj heq
  have hnat : (UInt8.ofNat (kv.1.length / 256)).toNat = 3 := congrArg UInt8.toNat hhead
  rw [UInt8.toNat_ofNat'] at hnat
  omega

/-- Of pairs with shorter keys and no 03 behind them, exactly as often as in the pairs. -/
theorem before03_entries {kvs : List Property} (h : ∀ kv ∈ kvs, kv.1.length ≤ 767) {p : Bytes}
    (hp : p.head? ≠ some 0x03) :
    before03 hi (kvs.flatMap entryBytes ++ p) = before03In hi kvs + before03 hi p := by
  induction kvs with
  | nil => simp [before03In]
  | cons kv kvs ih =>
    have hkvs := fun kv' hmem => h kv' (List.mem_cons_of_mem _ hmem)
    have hhead : (kvs.flatMap entryBytes ++ p).head? ≠ some 0x03 := by
      cases kvs with
      | nil => exact hp
      | cons kv' kvs =>
        rw [List.flatMap_cons, List.append_assoc]
        exact head_entryBytes (hkvs kv' (List.mem_cons_self ..)) _
    rw [List.flatMap_cons, List.append_assoc, before03_append hhead, ih hkvs]
    simp only [before03In, List.map_cons, List.sum_cons]
    omega

/-- The markers of the writer add none, because the byte in front of each of them is another
one. -/
theorem before03_furtherObjects (h3 : hi ≠ 0x03) (h9 : hi ≠ 0x09) {vec : List (List Property)}
    (hsend : ∀ kvs ∈ vec, ∀ kv ∈ kvs, Sendable kv)
    (hkeys : ∀ kvs ∈ vec, ∀ kv ∈ kvs, kv.1.length ≤ 767) :
    before03 hi (furtherObjects vec) = before03In hi vec.flatten := by
  have hend : ∀ p, before03 hi (0x00 :: 0x00 :: 0x09 :: p) = before03 hi p := by
    intro p
    have hzero : ¬ ((0x00 : UInt8) = hi ∧ (0x00 : UInt8) = 0x03) := fun h => absurd h.2 (by decide)
    have hnine : ¬ ((0x00 : UInt8) = hi ∧ (0x09 : UInt8) = 0x03) := fun h => absurd h.2 (by decide)
    rw [before03, before03, before03_cons_of_ne h9.symm, if_neg hzero, if_neg hnine, Nat.zero_add,
      Nat.zero_add]
  induction vec with
  | nil => exact hend []
  | cons kvs vec ih =>
    have hkvs := hsend kvs (List.mem_cons_self ..)
    have hvec := ih (fun kvs' hmem => hsend kvs' (List.mem_cons_of_mem _ hmem))
      (fun kvs' hmem => hkeys kvs' (List.mem_cons_of_mem _ hmem))
    have hhead : (0x00 :: 0x00 :: 0x09 :: furtherObjects vec).head? ≠ some 0x03 := by
      rw [List.head?_cons]
      decide
    rw [furtherObjects_cons, before03_cons_of_ne h3.symm, closedObject,
      ← flatMap_entryBytes_sendable hkvs, List.append_assoc]
    refine (before03_entries (hkeys kvs (List.mem_cons_self ..)) hhead).trans ?_
    rw [hend, hvec]
    simp [before03In]

end

/-- The high byte of a key length up to 767 is neither the marker that starts an object nor
the one that ends it. -/
theorem highByte_ne {n : Nat} (hle : n ≤ 767) :
    UInt8.ofNat (n / 256) ≠ 0x03 ∧ UInt8.ofNat (n / 256) ≠ 0x09 := by
  have hhi : (UInt8.ofNat (n / 256)).toNat ≤ 2 := by
    rw [UInt8.toNat_ofNat']
    omega
  constructor
  · intro h
    rw [h] at hhi
    exact absurd hhi (by decide)
  · intro h
    rw [h] at hhi
    exact absurd hhi (by decide)

/-- With keys of at most 767 bytes it never happens: the key length that was
skipped ends in 03, and that byte with the one before it is missing in what is read. -/
theorem not_reread_of_keys_le {vec : List (List Property)}
    (hsend : ∀ kvs ∈ vec, ∀ kv ∈ kvs, Sendable kv)
    (hkeys : ∀ kvs ∈ vec, ∀ kv ∈ kvs, kv.1.length ≤ 767) : ¬ Reread vec := by
  match vec with
  | [] => exact id
  | [_] => exact id
  | _ :: [] :: _ => exact id
  | first :: (kv :: kvs) :: vec =>
    rintro ⟨hlen, read, hbytes, hperm⟩
    have hmem : ∀ kvs' ∈ (kv :: kvs) :: vec, kvs' ∈ first :: (kv :: kvs) :: vec :=
      fun kvs' h => List.mem_cons_of_mem first h
    have hkey : kv.1.length ≤ 767 :=
      hkeys _ (hmem _ (List.mem_cons_self ..)) kv (List.mem_cons_self ..)
    obtain ⟨h3, h9⟩ := highByte_ne hkey
    have hall := before03_furtherObjects h3 h9 (fun kvs' h => hsend kvs' (hmem kvs' h))
      (fun kvs' h => hkeys kvs' (hmem kvs' h))
    rw [furtherObjects_pair, lowByte_iff.mpr hlen] at hall
    generalize UInt8.ofNat (kv.1.length / 256) = hi at h3 hall
    rw [before03_cons_of_ne h3.symm, before03, if_pos ⟨rfl, rfl⟩,
      before03_cons_of_ne h3.symm] at hall
    have hread := hbytes.before03_le hi
    obtain ⟨more, hmore⟩ := read_perm hperm
    have hsum : before03In hi read
        = before03In hi ((kv :: kvs) :: vec).flatten + before03In hi more := by
      unfold before03In
      rw [← List.sum_append, ← List.map_append]
      exact (hmore.map _).sum_nat
    omega

/-! ## What is read back -/

/-- Behind `front` and the first marker, `read_object` finds the pairs of all the
objects. -/
def ReadsBack (written : Push) (front : Bytes) (vec : List (List Property)) : Prop :=
  ∃ p object, written = push (front ++ 0x03 :: p) ∧ readObject p [] = some (0, object) ∧
    object.Perm vec.flatten

/-- A list that is written behind its front is read back if the reader finds its pairs in
what follows. -/
theorem readsBack_push_iff {front p : Bytes} {vec : List (List Property)} :
    ReadsBack (push (front ++ 0x03 :: p)) front vec ↔
      ∃ object, readObject p [] = some (0, object) ∧ object.Perm vec.flatten := by
  constructor
  · rintro ⟨p', object, hpush, hread, hperm⟩
    have hp : p = p' := by simpa [push] using hpush
    exact ⟨object, hp ▸ hread, hperm⟩
  · rintro ⟨object, hread, hperm⟩
    exact ⟨p, object, rfl, hread, hperm⟩

/-- Several objects are read back if and only if what the reader makes of the
bytes from the first key of the second object on happens to be the rest. -/
theorem severalObjects_readsBack_iff (vec : List (List Property)) (htwo : 2 ≤ vec.length)
    (hsend : ∀ kvs ∈ vec, ∀ kv ∈ kvs, Sendable kv) (hnodup : (vec.flatten.map Prod.fst).Nodup) :
    (ReadsBack (writeObject vec) [] vec ↔ Reread vec) ∧
      ∀ (m : SendObjectMessage) (command : Bytes), m.vec = vec →
        pushString m.command = push command →
        (ReadsBack m.writePayload
            (0x02 :: (command ++ 0x00 :: beBytes 8 m.transactionId.toNat)) vec ↔ Reread vec) := by
  match vec, htwo with
  | first :: second :: vec, _ =>
    have hne : ¬ (first :: second :: vec).length = 0 := Nat.succ_ne_zero _
    have hvec := pushVec_several hsend
    have hfirst : (first.map Prod.fst).Nodup := by
      rw [List.flatten_cons, List.map_append] at hnodup
      exact (List.nodup_append.mp hnodup).1
    have hiff : _ ↔ Reread (first :: second :: vec) :=
      readObject_several_iff (hsend first (List.mem_cons_self ..)) hfirst
    constructor
    · rw [writeObject, if_neg hne, hvec, ← List.nil_append (0x03 :: _)]
      exact readsBack_push_iff.trans hiff
    · rintro m command hm hcommand
      rw [SendObjectMessage.writePayload, hm, hcommand, if_neg hne, hvec]
      have hfront : (push [0x02]).andThen ((push command).andThen
          ((push (0x00 :: beBytes 8 m.transactionId.toNat)).andThen
            (push (0x03 :: (closedObject first ++ furtherObjects (second :: vec))))))
          = push (0x02 :: (command ++ 0x00 :: beBytes 8 m.transactionId.toNat) ++
            0x03 :: (closedObject first ++ furtherObjects (second :: vec))) := by simp
      rw [hfront]
      exact readsBack_push_iff.trans hiff

/-! ## A list that is read back -/

/-- A stretch of bytes that can be read both as a part of a key and as pairs. -/
def period : Bytes := [1, 4, 2, 0, 13, 97, 0, 97, 97, 97, 97, 97, 0, 0, 9, 3]

/-- Several such stretches. -/
def periods (n : Nat) : Bytes := (List.replicate n period).flatten

/-- The pair of the second object; its key has 771 bytes, so the low byte of the length is
03. -/
def shiftedFirst : Property :=
  (periods 48 ++ period.take 3, .valueNum 0x0D61006161616161)

/-- The pair of the third object, with a key of the same stretches. -/
def shiftedSecond : Property :=
  (period.drop 2 ++ periods 15 ++ period.take 6, .valueNum 0x6161616161000009)

/-- The string in the pair of the fourth object, with an end marker inside. -/
def shiftedString : Bytes := (period.drop 5).take 10 ++ [0, 0, 9]

/-- The pair of the fourth object. -/
def shiftedThird : Property :=
  (period.drop 1 ++ periods 47 ++ period.take 2, .valueString shiftedString)

/-- Four objects whose pairs are read in another order than they were written. -/
def shifted : List (List Property) :=
  [[(chars "a", .valueNum 0)], [shiftedFirst], [shiftedSecond], [shiftedThird]]

/-- All these pairs can be sent. -/
theorem sendable_shifted : ∀ kvs ∈ shifted, ∀ kv ∈ kvs, Sendable kv := by
  refine List.forall_mem_cons.mpr ⟨?_, List.forall_mem_cons.mpr ⟨?_, List.forall_mem_cons.mpr
    ⟨?_, List.forall_mem_singleton.mpr ?_⟩⟩⟩
  · exact List.forall_mem_singleton.mpr ⟨by decide, trivial⟩
  · exact List.forall_mem_singleton.mpr ⟨by decide +kernel, trivial⟩
  · exact List.forall_mem_singleton.mpr ⟨by decide +kernel, trivial⟩
  · exact List.forall_mem_singleton.mpr ⟨by decide +kernel, (by decide : Short shiftedString)⟩

/-- And no key comes twice. -/
theorem nodup_shifted : (shifted.flatten.map Prod.fst).Nodup := by decide +kernel

/-- They are reread as they have to be. -/
theorem reread_shifted : Reread shifted := by
  have hbytes : (furtherObjects [[shiftedFirst], [shiftedSecond], [shiftedThird]]).drop 3
      = entryBytes shiftedSecond ++ (entryBytes shiftedThird ++ (entryBytes shiftedFirst ++
        0x00 :: 0x00 :: 0x09 :: 0x00 :: 0x00 :: [0x09, 0x00, 0x00, 0x09, 0x00, 0x00, 0x09])) := by
    decide +kernel
  have hfirst : WellFormed shiftedFirst := ⟨by decide +kernel, trivial⟩
  have hsecond : WellFormed shiftedSecond := ⟨by decide +kernel, trivial⟩
  have hthird : WellFormed shiftedThird :=
    ⟨by decide +kernel, (by decide : shiftedString.length ≤ 65535)⟩
  refine ⟨by decide +kernel, [shiftedSecond, shiftedThird, shiftedFirst], ?_, ?_⟩
  · rw [hbytes]
    exact .pair hsecond (fun h => nomatch h) (.pair hthird (fun h => nomatch h)
      (.pair hfirst (fun h => nomatch h) (.closed _)))
  · have hfold := foldl_insertProperty [shiftedSecond, shiftedThird, shiftedFirst]
      [(chars "a", .valueNum 0)] (by decide +kernel)
    have hperm : ([shiftedSecond, shiftedThird] ++ [shiftedFirst]).Perm
        ([shiftedFirst] ++ [shiftedSecond, shiftedThird]) := List.perm_append_comm
    rw [hfold]
    exact hperm.append_left _

theorem severalObjects_readsBack_shifted : ReadsBack (writeObject shifted) [] shifted :=
  (severalObjects_readsBack_iff shifted (by decide) sendable_shifted nodup_shifted).1.mpr
    reread_shifted

/-- Two objects with a number each, which are not, as no two objects are. -/
def twoNumbers : List (List Property) := [[(chars "a", .valueNum 0)], [(chars "b", .valueNum 0)]]

theorem severalObjects_lost : ¬ ReadsBack (writeObject twoNumbers) [] twoNumbers := by
  have hsend : ∀ kvs ∈ twoNumbers, ∀ kv ∈ kvs, Sendable kv :=
    List.forall_mem_cons.mpr ⟨List.forall_mem_singleton.mpr ⟨by decide, trivial⟩,
      List.forall_mem_singleton.mpr (List.forall_mem_singleton.mpr ⟨by decide, trivial⟩)⟩
  have hfirst := hsend _ (List.mem_cons_self ..)
  have hsecond := hsend _ (List.mem_cons_of_mem _ (List.mem_cons_self ..))
  have hvec : writeObject twoNumbers = push ([] ++ 0x03 :: _) := pushVec_several hsend
  rw [hvec, readsBack_push_iff]
  intro h
  exact not_reread_two hsecond ((readObject_several_iff hfirst (List.pairwise_singleton _ _)).mp h)

end RtmpServer
