import Mathlib.Algebra.GroupWithZero.Nat

/-!
# Fixed-width byte orders

The bytes of a number in a given width, least significant first (`leBytes`)
or most significant first (`beBytes`), and back. Reading what was written
gives the number modulo `256 ^ width`; writing what was read gives the bytes.
-/

namespace Endian

/-- The `width` low bytes of `n`, least significant first. What does not fit into the width
is left out. -/
def leBytes : Nat → Nat → List UInt8
  | 0, _ => []
  | width + 1, n => UInt8.ofNat n :: leBytes width (n / 256)

/-- The number that a little-endian byte string of any length stands for. -/
def ofLeBytes : List UInt8 → Nat
  | [] => 0
  | b :: bs => b.toNat + 256 * ofLeBytes bs

/-- The `width` low bytes of `n`, most significant first, as most fields on the wire are
written. -/
def beBytes (width n : Nat) : List UInt8 := (leBytes width n).reverse

/-- The number that a big-endian byte string of any length stands for. -/
def ofBeBytes (bs : List UInt8) : Nat := ofLeBytes bs.reverse

@[simp] theorem leBytes_length (width : Nat) : ∀ n, (leBytes width n).length = width := by
  induction width with
  | zero => intro n; rfl
  | succ width ih => intro n; simp [leBytes, ih]

@[simp] theorem beBytes_length (width n : Nat) : (beBytes width n).length = width := by
  simp [beBytes]

/-- A byte string of a length stands for a number below the power of the length. -/
theorem ofLeBytes_lt (bs : List UInt8) : ofLeBytes bs < 256 ^ bs.length := by
  induction bs with
  | nil => simp [ofLeBytes]
  | cons b bs ih =>
    have hb : b.toNat < 256 := b.toNat_lt
    simp only [ofLeBytes, List.length_cons, Nat.pow_succ]
    omega

theorem ofBeBytes_lt (bs : List UInt8) : ofBeBytes bs < 256 ^ bs.length := by
  simpa [ofBeBytes] using ofLeBytes_lt bs.reverse

/-- Reading back what was written little-endian: the number, cut to the width. -/
theorem ofLeBytes_leBytes (width : Nat) : ∀ n, ofLeBytes (leBytes width n) = n % 256 ^ width := by
  induction width with
  | zero => intro n; simp [leBytes, ofLeBytes, Nat.mod_one]
  | succ width ih =>
    intro n
    have hb : (UInt8.ofNat n).toNat = n % 256 := UInt8.toNat_ofNat
    rw [leBytes, ofLeBytes, ih, hb, Nat.pow_succ, Nat.mul_comm (256 ^ width), Nat.mod_mul]

/-- Reading back what was written big-endian: the number, cut to the width. -/
theorem ofBeBytes_beBytes (width n : Nat) : ofBeBytes (beBytes width n) = n % 256 ^ width := by
  rw [ofBeBytes, beBytes, List.reverse_reverse, ofLeBytes_leBytes]

/-- Writing what was read with its own width gives the same bytes. -/
theorem leBytes_ofLeBytes (bs : List UInt8) : leBytes bs.length (ofLeBytes bs) = bs := by
  induction bs with
  | nil => rfl
  | cons b bs ih =>
    have hb : b.toNat < 256 := b.toNat_lt
    have hq : (b.toNat + 256 * ofLeBytes bs) / 256 = ofLeBytes bs := by omega
    have hr : UInt8.ofNat (b.toNat + 256 * ofLeBytes bs) = b := by
      apply UInt8.toNat_inj.mp
      rw [UInt8.toNat_ofNat']
      omega
    rw [List.length_cons, ofLeBytes, leBytes, hq, hr, ih]

/-- Only the low `width` bytes of a number are written, so it makes no difference to cut it
before. -/
theorem leBytes_mod (width n : Nat) : leBytes width (n % 256 ^ width) = leBytes width n := by
  have h := leBytes_ofLeBytes (leBytes width n)
  rwa [leBytes_length, ofLeBytes_leBytes] at h

theorem beBytes_mod (width n : Nat) : beBytes width (n % 256 ^ width) = beBytes width n := by
  rw [beBytes, leBytes_mod, beBytes]

/-- Writing what was read big-endian with its own width gives the same bytes. -/
theorem beBytes_ofBeBytes (bs : List UInt8) : beBytes bs.length (ofBeBytes bs) = bs := by
  have h := leBytes_ofLeBytes bs.reverse
  rw [List.length_reverse] at h
  rw [beBytes, ofBeBytes, h, List.reverse_reverse]

/-- Through a bit vector of the same width, as the code's integers are, it is still the same
bytes. -/
theorem leBytes_ofNat {n w : Nat} {bs : List UInt8} (hw : 256 ^ n = 2 ^ w) (h : bs.length = n) :
    leBytes n (BitVec.ofNat w (ofLeBytes bs)).toNat = bs := by
  rw [BitVec.toNat_ofNat, ← hw, leBytes_mod, ← h, leBytes_ofLeBytes]

/-- The same big-endian, for the fields that the code keeps in an unsigned integer. -/
theorem beBytes_ofNat {n w : Nat} {bs : List UInt8} (hw : 256 ^ n = 2 ^ w) (h : bs.length = n) :
    beBytes n (BitVec.ofNat w (ofBeBytes bs)).toNat = bs := by
  rw [BitVec.toNat_ofNat, ← hw, beBytes_mod, ← h, beBytes_ofBeBytes]

end Endian
