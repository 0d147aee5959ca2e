/-
  Foundation/Bytes.lean --- byte strings, little-endian integers and `memcpy`.

  Fixed-width integers are laid out by `leBytes` and read back by `ofLe`; the two
  are inverse on the values that fit.  `slice` reads a field at an offset and
  `overlay` is `memcpy` into a buffer: both are what a C program does to a
  packed record.
-/
import Mathlib.Data.List.Basic
import Mathlib.Tactic.Ring

set_option autoImplicit false

namespace EdgeSync.Foundation

/-- A byte string. -/
abbrev Bytes : Type := List UInt8

/-! ## Little-endian integers -/

/-- The `w` low bytes of `v`, least significant first. -/
def leBytes : Nat → Nat → Bytes
  | 0, _ => []
  | w + 1, v => UInt8.ofNat v :: leBytes w (v / 256)

/-- The number a little-endian byte string denotes. -/
def ofLe : Bytes → Nat
  | [] => 0
  | b :: bs => b.toNat + 256 * ofLe bs

@[simp] theorem length_leBytes (w v : Nat) : (leBytes w v).length = w := by
  induction w generalizing v with
  | zero => rfl
  | succ w ih => simp [leBytes, ih]

theorem ofLe_lt (bs : Bytes) : ofLe bs < 256 ^ bs.length := by
  induction bs with
  | nil => simp [ofLe]
  | cons b bs ih =>
    have hb : b.toNat < 256 := b.toNat_lt
    have hle : 256 * (ofLe bs + 1) ≤ 256 * 256 ^ bs.length := Nat.mul_le_mul_left _ ih
    rw [List.length_cons, Nat.pow_succ, ofLe]
    omega

/-- Reading back what was laid out gives the value modulo the width. -/
theorem ofLe_leBytes (w v : Nat) : ofLe (leBytes w v) = v % 256 ^ w := by
  induction w generalizing v with
  | zero => simp [leBytes, ofLe, Nat.mod_one]
  | succ w ih =>
    have hb : (UInt8.ofNat v).toNat = v % 256 := by simp [UInt8.toNat_ofNat']
    rw [leBytes, ofLe, ih, hb, Nat.pow_succ, Nat.mul_comm (256 ^ w), Nat.mod_mul]

theorem ofLe_leBytes_of_lt {w v : Nat} (h : v < 256 ^ w) : ofLe (leBytes w v) = v := by
  rw [ofLe_leBytes, Nat.mod_eq_of_lt h]

/-- Laying out what was read gives the bytes back. -/
theorem leBytes_ofLe (bs : Bytes) : leBytes bs.length (ofLe bs) = bs := by
  induction bs with
  | nil => rfl
  | cons b bs ih =>
    have hb : b.toNat < 256 := b.toNat_lt
    have hdiv : (b.toNat + 256 * ofLe bs) / 256 = ofLe bs := by omega
    have hhead : UInt8.ofNat (b.toNat + 256 * ofLe bs) = b := by
      apply UInt8.toNat_inj.mp
      simp
    rw [List.length_cons, leBytes, ofLe, hdiv, hhead, ih]

theorem leBytes_ofLe_of_length {w : Nat} {bs : Bytes} (h : bs.length = w) :
    leBytes w (ofLe bs) = bs := by
  subst h
  exact leBytes_ofLe bs

/-! ## Fields of a buffer -/

/-- The `len` bytes of `bs` from offset `off` on. -/
def slice (bs : Bytes) (off len : Nat) : Bytes := (bs.drop off).take len

@[simp] theorem length_slice (bs : Bytes) (off len : Nat) :
    (slice bs off len).length = min len (bs.length - off) := by
  simp [slice]

theorem length_slice_of_le {bs : Bytes} {off len : Nat} (h : off + len ≤ bs.length) :
    (slice bs off len).length = len := by
  rw [length_slice]
  omega

/-- A field wholly inside the first part. -/
theorem slice_append_left {x y : Bytes} {off len : Nat} (h : off + len ≤ x.length) :
    slice (x ++ y) off len = slice x off len := by
  have h1 : off ≤ x.length := by omega
  have h2 : len ≤ (x.drop off).length := by rw [List.length_drop]; omega
  rw [slice, slice, List.drop_append_of_le_length h1, List.take_append_of_le_length h2]

/-- A field wholly inside the second part. -/
theorem slice_append_right {x y : Bytes} {off len : Nat} (h : x.length ≤ off) :
    slice (x ++ y) off len = slice y (off - x.length) len := by
  rw [slice, slice, List.drop_append, List.drop_eq_nil_of_le h, List.nil_append]

@[simp] theorem slice_zero_length (x : Bytes) : slice x 0 x.length = x := by
  simp [slice]

/-- The first part, as a field. -/
theorem slice_append_self {x y : Bytes} {len : Nat} (h : len = x.length) :
    slice (x ++ y) 0 len = x := by
  subst h
  rw [slice_append_left (by omega), slice_zero_length]

/-- Adjacent fields make one field. -/
theorem slice_append_slice (bs : Bytes) (off m n : Nat) :
    slice bs off m ++ slice bs (off + m) n = slice bs off (m + n) := by
  rw [slice, slice, slice, List.take_add, List.drop_drop]

theorem take_slice {bs : Bytes} {off m n : Nat} (h : m ≤ n) :
    (slice bs off n).take m = slice bs off m := by
  rw [slice, slice, List.take_take, Nat.min_eq_left h]

theorem slice_slice {bs : Bytes} {off len i n : Nat} (h : i + n ≤ len) :
    slice (slice bs off len) i n = slice bs (off + i) n := by
  rw [slice, slice, slice, List.drop_take, List.take_take, List.drop_drop,
    Nat.min_eq_left (by omega)]

/-! ## Writing into a buffer -/

/-- `memcpy(buf + off, data, data.length)`. -/
def overlay (buf : Bytes) (off : Nat) (data : Bytes) : Bytes :=
  buf.take off ++ data ++ buf.drop (off + data.length)

@[simp] theorem overlay_nil (buf : Bytes) (off : Nat) : overlay buf off [] = buf := by
  simp [overlay]

/-- Overwriting the middle part of a concatenation. -/
theorem overlay_append {x y z data : Bytes} {off : Nat} (hx : x.length = off)
    (hy : y.length = data.length) : overlay (x ++ (y ++ z)) off data = x ++ (data ++ z) := by
  subst hx
  rw [overlay, ← hy, List.take_left', List.append_assoc]
  · congr 2
    rw [← List.drop_drop, List.drop_left', List.drop_left']
    · rfl
    · rfl
  · rfl

/-- Overwriting the first part of a concatenation. -/
theorem overlay_append_zero {y z data : Bytes} (hy : y.length = data.length) :
    overlay (y ++ z) 0 data = data ++ z := by
  have h := @overlay_append [] y z data 0 rfl hy
  simpa only [List.nil_append] using h

end EdgeSync.Foundation
