/-
  Foundation/Nor.lean --- NOR flash memory and a flash part as a device.

  Programming NOR flash can only clear bits: what a write leaves is the bitwise
  AND of what was there and what was written.  Erasing sets whole sectors to
  0xFF.  The part answers three calls.  Under an event other than `run` a write
  may end after any prefix of its bytes, with an error reported (`fail`) or with
  the power gone (`cut`, `tear`); an erase may stop after any number of sectors
  (`fail`, `tear`), while `cut` happens before it or after it and never inside.
-/
import Mathlib.Tactic.SplitIfs
import EdgeSync.Foundation.Bytes
import EdgeSync.Foundation.Wp

set_option autoImplicit false

namespace EdgeSync.Foundation

/-- The contents of a flash part, by address. -/
abbrev Memory : Type := Nat → UInt8

namespace Memory

/-- Program `data` at `addr`: each byte is ANDed in. -/
def program (m : Memory) (addr : Nat) (data : Bytes) : Memory := fun i =>
  if addr ≤ i then
    match data[i - addr]? with
    | some b => m i &&& b
    | none => m i
  else m i

/-- Erase the `len` bytes at `addr`. -/
def erase (m : Memory) (addr len : Nat) : Memory := fun i =>
  if addr ≤ i ∧ i < addr + len then 0xFF else m i

/-- The `len` bytes at `addr`. -/
def bytesAt (m : Memory) (addr len : Nat) : Bytes := (List.range len).map fun i => m (addr + i)

@[simp] theorem length_bytesAt (m : Memory) (addr len : Nat) :
    (m.bytesAt addr len).length = len := by
  simp [bytesAt]

@[simp] theorem bytesAt_zero (m : Memory) (addr : Nat) : m.bytesAt addr 0 = [] := rfl

theorem getElem?_bytesAt (m : Memory) (addr : Nat) {len i : Nat} (h : i < len) :
    (m.bytesAt addr len)[i]? = some (m (addr + i)) := by
  simp [bytesAt, h]

/-- Reading depends on the bytes read only. -/
theorem bytesAt_congr {m m' : Memory} {addr addr' len : Nat}
    (h : ∀ i, i < len → m (addr + i) = m' (addr' + i)) :
    m.bytesAt addr len = m'.bytesAt addr' len := by
  simp only [bytesAt, List.map_inj_left, List.mem_range]
  exact h

theorem bytesAt_add (m : Memory) (addr n k : Nat) :
    m.bytesAt addr (n + k) = m.bytesAt addr n ++ m.bytesAt (addr + n) k := by
  simp [bytesAt, List.range_add, Nat.add_assoc, Function.comp_def]

theorem take_bytesAt {m : Memory} {addr n k : Nat} (h : n ≤ k) :
    (m.bytesAt addr k).take n = m.bytesAt addr n := by
  obtain ⟨j, rfl⟩ := Nat.exists_eq_add_of_le h
  rw [bytesAt_add, List.take_append_of_le_length (by simp), List.take_of_length_le (by simp)]

theorem drop_bytesAt (m : Memory) (addr n k : Nat) :
    (m.bytesAt addr k).drop n = m.bytesAt (addr + n) (k - n) := by
  by_cases h : n ≤ k
  · obtain ⟨j, rfl⟩ := Nat.exists_eq_add_of_le h
    rw [bytesAt_add, Nat.add_sub_cancel_left, List.drop_left' (by simp)]
  · rw [Nat.sub_eq_zero_of_le (by omega), List.drop_eq_nil_of_le (by simp; omega), bytesAt_zero]

theorem slice_bytesAt {m : Memory} {addr off n len : Nat} (h : off + n ≤ len) :
    slice (m.bytesAt addr len) off n = m.bytesAt (addr + off) n := by
  rw [slice, drop_bytesAt, take_bytesAt (by omega)]

/-- A memory holds `data` at `addr` as soon as it agrees with it byte by byte. -/
theorem bytesAt_eq_iff {m : Memory} {addr : Nat} {data : Bytes} :
    m.bytesAt addr data.length = data ↔
      ∀ i (h : i < data.length), m (addr + i) = data[i] := by
  constructor
  · intro h i hi
    have hget := getElem?_bytesAt m addr hi
    rw [h, List.getElem?_eq_getElem hi] at hget
    exact (Option.some.inj hget).symm
  · intro h
    apply List.ext_getElem (by simp)
    intro i h1 h2
    simpa [bytesAt] using h i h2

/-! ## Programming -/

@[simp] theorem program_nil (m : Memory) (addr : Nat) : m.program addr [] = m := by
  funext i
  simp [program]

theorem program_of_lt {m : Memory} {addr i : Nat} {data : Bytes} (h : i < addr) :
    m.program addr data i = m i := by
  simp [program, Nat.not_le.mpr h]

theorem program_of_ge {m : Memory} {addr i : Nat} {data : Bytes} (h : addr + data.length ≤ i) :
    m.program addr data i = m i := by
  have hnone : data[i - addr]? = none := List.getElem?_eq_none (by omega)
  simp [program, hnone]

theorem program_at {m : Memory} {addr i : Nat} {data : Bytes} (h : i < data.length) :
    m.program addr data (addr + i) = m (addr + i) &&& data[i] := by
  have hget : data[i]? = some data[i] := List.getElem?_eq_getElem h
  simp [program, hget]

theorem and_ff (b : UInt8) : (0xFF : UInt8) &&& b = b := by
  apply UInt8.toBitVec_inj.mp
  have h : (0xFF : UInt8).toBitVec = BitVec.allOnes 8 := rfl
  rw [UInt8.toBitVec_and, h, BitVec.allOnes_and]

/-- Programming erased flash stores the data. -/
theorem program_at_of_erased {m : Memory} {addr i : Nat} {data : Bytes} (h : i < data.length)
    (hff : m (addr + i) = 0xFF) : m.program addr data (addr + i) = data[i] := by
  rw [program_at h, hff, and_ff]

/-- The part of a write that did not land can be ignored byte by byte. -/
theorem program_take {m : Memory} {addr i n : Nat} {data : Bytes} (h : addr + n ≤ i) :
    m.program addr (data.take n) i = m i := by
  apply program_of_ge
  rw [List.length_take]
  omega

theorem program_take_at {m : Memory} {addr i n : Nat} {data : Bytes} (hi : i < n) :
    m.program addr (data.take n) (addr + i) = m.program addr data (addr + i) := by
  simp [program, hi]

/-! ## Erasing -/

theorem erase_of_mem {m : Memory} {addr len i : Nat} (h1 : addr ≤ i) (h2 : i < addr + len) :
    m.erase addr len i = 0xFF := by
  simp [erase, h1, h2]

theorem erase_of_lt {m : Memory} {addr len i : Nat} (h : i < addr) :
    m.erase addr len i = m i := by
  simp [erase, Nat.not_le.mpr h]

theorem erase_of_ge {m : Memory} {addr len i : Nat} (h : addr + len ≤ i) :
    m.erase addr len i = m i := by
  simp [erase, Nat.not_lt.mpr h]

end Memory

/-! ## The flash part -/

/-- The calls of a flash driver. -/
inductive FlashCall where
  | read (addr len : Nat)
  | write (addr : Nat) (data : Bytes)
  | erase (addr len : Nat)
  deriving DecidableEq, Repr

/-- A read yields the bytes, or nothing when it failed; a write and an erase
report whether they worked. -/
def FlashReply : FlashCall → Type
  | .read _ _ => Option Bytes
  | .write _ _ => Bool
  | .erase _ _ => Bool

/-- What happens during a call. -/
inductive FlashEvent where
  /-- the call works -/
  | run
  /-- the call reports an error after its first `n` bytes (an erase: `n` sectors) -/
  | fail (n : Nat)
  /-- the power goes after the first `n` bytes; an erase is before (`0`) or behind it -/
  | cut (n : Nat)
  /-- the power goes inside an erase, after `n` sectors; elsewhere as `cut` -/
  | tear (n : Nat)
  deriving DecidableEq, Repr

/-- A flash part of `size` bytes in sectors of `sector` bytes.  Calls outside
the part are refused with an error. -/
def flashDevice (size sector : Nat) : Device FlashCall FlashReply Memory FlashEvent where
  respond m
    | .read addr len, ev =>
        if addr + len ≤ size then
          match ev with
          | .run => .reply (some (m.bytesAt addr len)) m
          | .fail _ => .reply none m
          | .cut _ => .cut m
          | .tear _ => .cut m
        else .reply none m
    | .write addr data, ev =>
        if addr + data.length ≤ size then
          match ev with
          | .run => .reply true (m.program addr data)
          | .fail n => .reply false (m.program addr (data.take n))
          | .cut n => .cut (m.program addr (data.take n))
          | .tear n => .cut (m.program addr (data.take n))
        else .reply false m
    | .erase addr len, ev =>
        if addr + len ≤ size then
          match ev with
          | .run => .reply true (m.erase addr len)
          | .fail n => .reply false (m.erase addr (min len (n * sector)))
          | .cut n => .cut (if n = 0 then m else m.erase addr len)
          | .tear n => .cut (m.erase addr (min len (n * sector)))
        else .reply false m
  calm := .run

end EdgeSync.Foundation
