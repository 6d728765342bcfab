import Mathlib.Tactic
import Mathlib.Data.List.GetD

/-!
# Little-endian byte strings and a byte memory

Numbers are stored in memory as little-endian byte strings.  The first part
of this module gives the two conversions and their round trips.

The second part is a memory of 64-bit addresses that hold one byte each.  A
block of bytes is read by `slice` and stored by `overwrite`; the block may wrap
around the end of the address space.  The facts collected here are the usual
ones: what is read back from a block just stored, and that a store leaves every
block apart from it alone.
-/

namespace Hvexec
namespace ByteMemory

/-! ## Little-endian byte strings -/

/-- The number that a byte string denotes, least significant byte first. -/
def leNat : List (BitVec 8) → Nat
  | [] => 0
  | b :: bs => b.toNat + 256 * leNat bs

/-- The `n` least significant bytes of a number, least significant first. -/
def leBytes : Nat → Nat → List (BitVec 8)
  | 0, _ => []
  | n + 1, v => BitVec.ofNat 8 v :: leBytes n (v / 256)

@[simp] theorem length_leBytes (n v : Nat) :
    (leBytes n v).length = n := by
  induction n generalizing v with
  | zero =>
      rfl
  | succ n ih =>
      simp [leBytes, ih]

/-- Decoding what was encoded keeps the number modulo the bytes kept. -/
theorem leNat_leBytes (n v : Nat) :
    leNat (leBytes n v) = v % 256 ^ n := by
  induction n generalizing v with
  | zero =>
      simp [leBytes, leNat, Nat.mod_one]
  | succ n ih =>
      have hsplit :
          v % (256 * 256 ^ n) = v % 256 + 256 * (v / 256 % 256 ^ n) :=
        Nat.mod_mul
      rw [leBytes, leNat, ih, pow_succ', hsplit]
      rfl

theorem leNat_lt (bs : List (BitVec 8)) :
    leNat bs < 256 ^ bs.length := by
  induction bs with
  | nil =>
      simp [leNat]
  | cons b bs ih =>
      have hb : b.toNat < 256 := b.isLt
      simp only [leNat, List.length_cons, pow_succ']
      omega

/-- Encoding what was decoded gives the byte string back. -/
theorem leBytes_leNat (bs : List (BitVec 8)) :
    leBytes bs.length (leNat bs) = bs := by
  induction bs with
  | nil =>
      rfl
  | cons b bs ih =>
      have hb : b.toNat < 256 := b.isLt
      have hdiv : (b.toNat + 256 * leNat bs) / 256 = leNat bs := by
        omega
      have hhead : BitVec.ofNat 8 (b.toNat + 256 * leNat bs) = b := by
        apply BitVec.eq_of_toNat_eq
        simp only [BitVec.toNat_ofNat]
        omega
      simp only [List.length_cons, leNat, leBytes, hdiv, ih, hhead]

/-- Only the bytes kept matter. -/
theorem leBytes_mod (n v : Nat) :
    leBytes n (v % 256 ^ n) = leBytes n v := by
  have h := leBytes_leNat (leBytes n v)
  rwa [length_leBytes, leNat_leBytes] at h

/-! ## A memory of 64-bit addresses -/

/-- The `n` bytes stored from address `a` on. -/
def slice (m : BitVec 64 → BitVec 8) (a : BitVec 64) : Nat → List (BitVec 8)
  | 0 => []
  | n + 1 => m a :: slice m (a + 1) n

/-- The memory after the bytes `bs` were stored from address `a` on. -/
def overwrite
    (m : BitVec 64 → BitVec 8)
    (a : BitVec 64)
    (bs : List (BitVec 8)) :
    BitVec 64 → BitVec 8 :=
  fun x => bs.getD (x - a).toNat (m x)

@[simp] theorem length_slice
    (m : BitVec 64 → BitVec 8) (a : BitVec 64) (n : Nat) :
    (slice m a n).length = n := by
  induction n generalizing a with
  | zero =>
      rfl
  | succ n ih =>
      simp [slice, ih]

/-- One step and then `j` more are `j + 1` steps. -/
theorem add_one_ofNat (a : BitVec 64) (j : Nat) :
    a + 1 + BitVec.ofNat 64 j = a + BitVec.ofNat 64 (j + 1) := by
  bv_omega

/-- An offset is added as a number when the sum does not wrap around. -/
theorem toNat_add_ofNat {a : BitVec 64} {j : Nat} (h : a.toNat + j < 2 ^ 64) :
    (a + BitVec.ofNat 64 j).toNat = a.toNat + j := by
  rw [BitVec.toNat_add, BitVec.toNat_ofNat, Nat.add_mod_mod, Nat.mod_eq_of_lt h]

/-- A block depends only on the bytes it covers. -/
theorem slice_congr
    {m m' : BitVec 64 → BitVec 8} {a : BitVec 64} {n : Nat}
    (h : ∀ j < n, m (a + BitVec.ofNat 64 j) = m' (a + BitVec.ofNat 64 j)) :
    slice m a n = slice m' a n := by
  induction n generalizing a with
  | zero =>
      rfl
  | succ n ih =>
      have hhead : m a = m' a := by
        simpa using h 0 (by omega)
      have htail : slice m (a + 1) n = slice m' (a + 1) n := by
        apply ih
        intro j hj
        rw [add_one_ofNat]
        exact h (j + 1) (by omega)
      rw [slice, slice, hhead, htail]

theorem slice_eq_of_bytes
    {m : BitVec 64 → BitVec 8} {a : BitVec 64} {bs : List (BitVec 8)}
    (h : ∀ j < bs.length,
      m (a + BitVec.ofNat 64 j) = bs.getD j 0) :
    slice m a bs.length = bs := by
  induction bs generalizing a with
  | nil =>
      rfl
  | cons b bs ih =>
      have hhead : m a = b := by
        simpa using h 0 (by simp)
      have htail : slice m (a + 1) bs.length = bs := by
        apply ih
        intro j hj
        rw [add_one_ofNat]
        simpa using h (j + 1) (by simpa using hj)
      rw [List.length_cons, slice, hhead, htail]

/-- Byte `j` of a block. -/
theorem slice_getD
    (m : BitVec 64 → BitVec 8) (a : BitVec 64) (d : BitVec 8)
    {n j : Nat} (hj : j < n) :
    (slice m a n).getD j d = m (a + BitVec.ofNat 64 j) := by
  induction n generalizing a j with
  | zero =>
      omega
  | succ n ih =>
      cases j with
      | zero =>
          simp [slice]
      | succ j =>
          rw [slice, List.getD_cons_succ, ih (a + 1) (by omega), add_one_ofNat]

/-- Outside the stored block nothing changes. -/
theorem overwrite_of_le
    {m : BitVec 64 → BitVec 8} {a x : BitVec 64} {bs : List (BitVec 8)}
    (h : bs.length ≤ (x - a).toNat) :
    overwrite m a bs x = m x := by
  exact List.getD_eq_default _ _ h

/-- Inside the stored block the stored bytes are found. -/
theorem overwrite_of_lt
    (m : BitVec 64 → BitVec 8) {a x : BitVec 64} {bs : List (BitVec 8)}
    (d : BitVec 8)
    (h : (x - a).toNat < bs.length) :
    overwrite m a bs x = bs.getD (x - a).toNat d := by
  rw [overwrite, List.getD_eq_getElem _ _ h, List.getD_eq_getElem _ _ h]

@[simp] theorem overwrite_nil
    (m : BitVec 64 → BitVec 8) (a : BitVec 64) :
    overwrite m a [] = m := by
  funext x
  simp [overwrite]

/-- A block is stored byte by byte, lowest address first. -/
theorem overwrite_cons
    (m : BitVec 64 → BitVec 8) (a : BitVec 64)
    (b : BitVec 8) (bs : List (BitVec 8))
    (hlen : bs.length < 2 ^ 64) :
    overwrite m a (b :: bs) =
      overwrite (Function.update m a b) (a + 1) bs := by
  funext x
  by_cases hx : x = a
  · subst x
    have hge : bs.length ≤ (a - (a + 1)).toNat := by
      bv_omega
    rw [overwrite_of_le hge]
    simp [overwrite]
  · have hpos : (x - a).toNat = (x - (a + 1)).toNat + 1 := by
      bv_omega
    simp [overwrite, hpos, Function.update_of_ne hx]

/-- What was stored is read back. -/
theorem slice_overwrite_same
    (m : BitVec 64 → BitVec 8) (a : BitVec 64) (bs : List (BitVec 8))
    (hlen : bs.length ≤ 2 ^ 64) :
    slice (overwrite m a bs) a bs.length = bs := by
  apply slice_eq_of_bytes
  intro j hj
  have hoff : (a + BitVec.ofNat 64 j - a).toNat = j := by
    bv_omega
  rw [overwrite_of_lt m 0 (by omega), hoff]

/-- A block apart from the stored one is read as before. -/
theorem slice_overwrite_apart
    (m : BitVec 64 → BitVec 8) (a b : BitVec 64)
    (bs : List (BitVec 8)) (n : Nat)
    (h : ∀ j < n, bs.length ≤ (b + BitVec.ofNat 64 j - a).toNat) :
    slice (overwrite m a bs) b n = slice m b n :=
  slice_congr fun j hj => overwrite_of_le (h j hj)

/-- Storing what is there changes nothing. -/
theorem overwrite_slice (m : BitVec 64 → BitVec 8) (a : BitVec 64) (n : Nat) :
    overwrite m a (slice m a n) = m := by
  funext x
  by_cases hx : (x - a).toNat < n
  · have hback : a + BitVec.ofNat 64 (x - a).toNat = x := by
      rw [BitVec.ofNat_toNat, BitVec.setWidth_eq]
      bv_omega
    rw [overwrite_of_lt m 0 (by rw [length_slice]; exact hx), slice_getD m a 0 hx, hback]
  · apply overwrite_of_le
    rw [length_slice]
    omega

end ByteMemory
end Hvexec
