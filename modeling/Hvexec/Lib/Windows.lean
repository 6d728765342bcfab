import Hvexec.Lib.ByteMemory

/-!
# Windows on a memory

An address space shows some of the bytes of a memory, each at an address of its own:
`Windows` gives the place behind an address, where there is one.  What is seen through
windows is a partial memory.

Where neighbours in the address space are neighbours in the memory behind it, whoever has
the place of the first byte reads and stores whole buffers and strings there, and this is
what is seen at the addresses.
-/

namespace Hvexec
namespace ByteMemory

/-- The place in memory behind an address. -/
abbrev Windows := BitVec 64 → Option (BitVec 64)

/-- What is seen through windows. -/
def look (w : Windows) (m : BitVec 64 → BitVec 8) : BitVec 64 → Option (BitVec 8) :=
  fun a => (w a).map m

/-- Every place is seen at one address, and what is seen in a row lies in a row. -/
structure Linear (w : Windows) : Prop where
  inj : ∀ a b x, w a = some x → w b = some x → a = b
  next : ∀ a x y, w a = some x → w (a + 1) = some y → y = x + 1

/-! ## Partial memories -/

/-- The `n` bytes from an address on, if all are there. -/
def bytesFrom (v : BitVec 64 → Option (BitVec 8)) : BitVec 64 → Nat → Option (List (BitVec 8))
  | _, 0 => some []
  | a, n + 1 => (v a).bind fun b => (bytesFrom v (a + 1) n).map (b :: ·)

/-- The string at an address, of which at most `n` bytes are looked at, if all of these
are there. -/
def stringFrom (v : BitVec 64 → Option (BitVec 8)) : Nat → BitVec 64 → Option (List (BitVec 8))
  | 0, _ => some []
  | n + 1, a =>
      (v a).bind fun b => if b = 0 then some [] else (stringFrom v n (a + 1)).map (b :: ·)

/-- The string at an address of a total memory. -/
def cString (m : BitVec 64 → BitVec 8) : Nat → BitVec 64 → List (BitVec 8)
  | 0, _ => []
  | n + 1, a => if m a = 0 then [] else m a :: cString m n (a + 1)

/-- The partial memory after bytes were stored from an address on. -/
def storeFrom (v : BitVec 64 → Option (BitVec 8)) (a : BitVec 64) (bs : List (BitVec 8)) :
    BitVec 64 → Option (BitVec 8) :=
  fun b => if (b - a).toNat < bs.length then some (bs.getD (b - a).toNat 0) else v b

/-- The memory behind windows after bytes were stored one by one, if all places are there. -/
def putBytes (w : Windows) :
    (BitVec 64 → BitVec 8) → BitVec 64 → List (BitVec 8) → Option (BitVec 64 → BitVec 8)
  | m, _, [] => some m
  | m, a, b :: bs => (w a).bind fun x => putBytes w (Function.update m x b) (a + 1) bs

theorem bytesFrom_eq_some {v : BitVec 64 → Option (BitVec 8)} :
    ∀ {bs : List (BitVec 8)} {a : BitVec 64},
      (∀ i (hi : i < bs.length), v (a + BitVec.ofNat 64 i) = some (bs.get ⟨i, hi⟩)) →
      bytesFrom v a bs.length = some bs
  | [], _, _ => rfl
  | b :: bs, a, h => by
      have hhead := h 0 (Nat.succ_pos _)
      rw [BitVec.add_zero] at hhead
      have htail : bytesFrom v (a + 1) bs.length = some bs :=
        bytesFrom_eq_some fun i hi => by
          rw [add_one_ofNat]
          exact h (i + 1) (Nat.succ_lt_succ hi)
      rw [List.length_cons, bytesFrom, hhead, Option.bind_some, htail]
      rfl

/-- Bytes that lie in a row behind the windows are stored at once. -/
theorem putBytes_eq_overwrite {w : Windows} :
    ∀ {bs : List (BitVec 8)} {m : BitVec 64 → BitVec 8} {a x : BitVec 64},
      bs.length ≤ 2 ^ 64 →
      (∀ i < bs.length, w (a + BitVec.ofNat 64 i) = some (x + BitVec.ofNat 64 i)) →
      putBytes w m a bs = some (overwrite m x bs)
  | [], m, _, x, _, _ => by
      rw [putBytes, overwrite_nil]
  | b :: bs, m, a, x, hlen, h => by
      rw [List.length_cons] at hlen
      have hhead := h 0 (Nat.succ_pos _)
      rw [BitVec.add_zero, BitVec.add_zero] at hhead
      rw [putBytes, hhead, Option.bind_some, overwrite_cons m x b bs (by omega)]
      refine putBytes_eq_overwrite (by omega) fun i hi => ?_
      rw [add_one_ofNat, add_one_ofNat]
      exact h (i + 1) (Nat.succ_lt_succ hi)

theorem isSome_of_bytesFrom {v : BitVec 64 → Option (BitVec 8)} :
    ∀ {n : Nat} {a : BitVec 64} {bs : List (BitVec 8)}, bytesFrom v a n = some bs →
      ∀ i < n, (v (a + BitVec.ofNat 64 i)).isSome
  | 0, _, _, _, i, hi => absurd hi (Nat.not_lt_zero i)
  | n + 1, a, bs, h, i, hi => by
      obtain ⟨b, hb, hrest⟩ := Option.bind_eq_some_iff.mp h
      obtain ⟨bs', hbs', _⟩ := Option.map_eq_some_iff.mp hrest
      cases i with
      | zero =>
          rw [BitVec.add_zero, hb]
          rfl
      | succ i =>
          rw [← add_one_ofNat]
          exact isSome_of_bytesFrom hbs' i (by omega)

theorem exists_bytesFrom {v : BitVec 64 → Option (BitVec 8)} :
    ∀ {n : Nat} {a : BitVec 64}, (∀ i < n, (v (a + BitVec.ofNat 64 i)).isSome) →
      ∃ bs, bytesFrom v a n = some bs
  | 0, _, _ => ⟨[], rfl⟩
  | n + 1, a, h => by
      obtain ⟨b, hb⟩ := Option.isSome_iff_exists.mp (h 0 (Nat.succ_pos n))
      rw [BitVec.add_zero] at hb
      obtain ⟨bs, hbs⟩ : ∃ bs, bytesFrom v (a + 1) n = some bs :=
        exists_bytesFrom fun i hi => by
          rw [add_one_ofNat]
          exact h (i + 1) (Nat.succ_lt_succ hi)
      exact ⟨b :: bs, by rw [bytesFrom, hb, Option.bind_some, hbs, Option.map_some]⟩

@[simp] theorem storeFrom_nil (v : BitVec 64 → Option (BitVec 8)) (a : BitVec 64) :
    storeFrom v a [] = v := by
  funext b
  simp [storeFrom]

/-- The bytes that are looked at decide. -/
theorem bytesFrom_congr {v v' : BitVec 64 → Option (BitVec 8)} :
    ∀ {n : Nat} {a : BitVec 64},
      (∀ i < n, v' (a + BitVec.ofNat 64 i) = v (a + BitVec.ofNat 64 i)) →
      bytesFrom v' a n = bytesFrom v a n
  | 0, _, _ => rfl
  | n + 1, a, h => by
      have hhead := h 0 (Nat.succ_pos n)
      rw [BitVec.add_zero] at hhead
      have htail : bytesFrom v' (a + 1) n = bytesFrom v (a + 1) n :=
        bytesFrom_congr fun i hi => by
          rw [add_one_ofNat]
          exact h (i + 1) (Nat.succ_lt_succ hi)
      rw [bytesFrom, bytesFrom, hhead, htail]

/-- The first bytes of a buffer. -/
theorem bytesFrom_take {v : BitVec 64 → Option (BitVec 8)} :
    ∀ {n k : Nat} {a : BitVec 64} {bs : List (BitVec 8)},
      bytesFrom v a n = some bs → k ≤ n → bytesFrom v a k = some (bs.take k)
  | _, 0, _, _, _, _ => by
      rw [bytesFrom, List.take_zero]
  | 0, k + 1, _, _, _, hk => absurd hk (Nat.not_succ_le_zero k)
  | n + 1, k + 1, a, bs, h, hk => by
      obtain ⟨b, hb, hrest⟩ := Option.bind_eq_some_iff.mp h
      obtain ⟨bs', hbs', rfl⟩ := Option.map_eq_some_iff.mp hrest
      rw [bytesFrom, hb, Option.bind_some, bytesFrom_take hbs' (Nat.le_of_succ_le_succ hk)]
      rfl

/-- A string that is there with its end, as far as it is looked at. -/
theorem stringFrom_of_bytesFrom {v : BitVec 64 → Option (BitVec 8)} :
    ∀ {s : List (BitVec 8)} {a : BitVec 64} (n : Nat), 0 ∉ s →
      bytesFrom v a (s.length + 1) = some (s ++ [0]) → stringFrom v n a = some (s.take n)
  | _, _, 0, _, _ => rfl
  | [], a, n + 1, _, h => by
      obtain ⟨b, hb, hrest⟩ := Option.bind_eq_some_iff.mp h
      obtain ⟨bs, _, hbs⟩ := Option.map_eq_some_iff.mp hrest
      obtain rfl : b = 0 := (List.cons.inj hbs).1
      rw [stringFrom, hb, Option.bind_some, if_pos rfl]
      rfl
  | c :: s, a, n + 1, hzero, h => by
      obtain ⟨b, hb, hrest⟩ := Option.bind_eq_some_iff.mp h
      obtain ⟨bs, hbs, heq⟩ := Option.map_eq_some_iff.mp hrest
      obtain ⟨rfl, rfl⟩ := List.cons.inj heq
      obtain ⟨hne, hzero⟩ := not_or.mp (mt List.mem_cons.mpr hzero)
      rw [stringFrom, hb, Option.bind_some, if_neg (Ne.symm hne),
        stringFrom_of_bytesFrom n hzero hbs]
      rfl

/-- What was stored is there. -/
theorem bytesFrom_storeFrom (v : BitVec 64 → Option (BitVec 8)) (a : BitVec 64)
    {bs : List (BitVec 8)} (h : bs.length ≤ 2 ^ 64) :
    bytesFrom (storeFrom v a bs) a bs.length = some bs := by
  refine bytesFrom_eq_some fun i hi => ?_
  have hoff : (a + BitVec.ofNat 64 i - a).toNat = i := by
    bv_omega
  rw [storeFrom, hoff, if_pos hi, List.getD_eq_getElem _ _ hi]
  rfl

/-! ## Buffers and strings behind windows -/

section Behind

variable {w : Windows} {m : BitVec 64 → BitVec 8}

theorem isSome_look (w : Windows) (m : BitVec 64 → BitVec 8) (a : BitVec 64) :
    (look w m a).isSome = (w a).isSome := by
  rw [look, Option.isSome_map]

theorem look_eq_some_iff {a : BitVec 64} {b : BitVec 8} :
    look w m a = some b ↔ ∃ x, w a = some x ∧ m x = b :=
  Option.map_eq_some_iff

/-- The bytes of a buffer lie in a row behind its first byte. -/
theorem Linear.behind (h : Linear w) {a x : BitVec 64} (hx : w a = some x) :
    ∀ {n : Nat}, (∀ i ≤ n, (w (a + BitVec.ofNat 64 i)).isSome) →
      w (a + BitVec.ofNat 64 n) = some (x + BitVec.ofNat 64 n)
  | 0, _ => by
      rw [BitVec.add_zero, BitVec.add_zero]
      exact hx
  | n + 1, hall => by
      have hlast := h.behind hx (n := n) fun i hi => hall i (by omega)
      obtain ⟨y, hy⟩ := Option.isSome_iff_exists.mp (hall (n + 1) le_rfl)
      have hstep : a + BitVec.ofNat 64 n + 1 = a + BitVec.ofNat 64 (n + 1) := by
        bv_omega
      rw [← hstep] at hy ⊢
      rw [hy, h.next _ _ _ hlast hy]
      exact congrArg some (by bv_omega)

/-- A buffer behind the place of its first byte. -/
theorem slice_of_bytesFrom (h : Linear w) :
    ∀ {n : Nat} {a x : BitVec 64} {bs : List (BitVec 8)}, w a = some x →
      bytesFrom (look w m) a n = some bs → slice m x n = bs
  | 0, _, _, _, _, hbs => Option.some.inj hbs
  | n + 1, a, x, bs, hx, hbs => by
      obtain ⟨b, hb, hrest⟩ := Option.bind_eq_some_iff.mp hbs
      obtain ⟨bs', hbs', rfl⟩ := Option.map_eq_some_iff.mp hrest
      obtain ⟨x', hx', rfl⟩ := look_eq_some_iff.mp hb
      obtain rfl : x = x' := Option.some.inj (hx.symm.trans hx')
      rw [slice]
      cases n with
      | zero =>
          rw [← Option.some.inj hbs', slice]
      | succ n =>
          have hnext := isSome_of_bytesFrom hbs' 0 (Nat.succ_pos n)
          rw [BitVec.add_zero, isSome_look] at hnext
          obtain ⟨y, hy⟩ := Option.isSome_iff_exists.mp hnext
          obtain rfl := h.next a x y hx hy
          rw [slice_of_bytesFrom h hy hbs']

/-- The string behind the place of its first byte. -/
theorem cString_of_stringFrom (h : Linear w) :
    ∀ {n : Nat} {a x : BitVec 64} {s : List (BitVec 8)}, w a = some x →
      stringFrom (look w m) n a = some s → cString m n x = s
  | 0, _, _, _, _, hs => Option.some.inj hs
  | n + 1, a, x, s, hx, hs => by
      obtain ⟨b, hb, hrest⟩ := Option.bind_eq_some_iff.mp hs
      obtain ⟨x', hx', rfl⟩ := look_eq_some_iff.mp hb
      obtain rfl : x = x' := Option.some.inj (hx.symm.trans hx')
      rw [cString]
      split_ifs at hrest ⊢ with hzero
      · exact Option.some.inj hrest
      · obtain ⟨s', hs', rfl⟩ := Option.map_eq_some_iff.mp hrest
        cases n with
        | zero =>
            rw [← Option.some.inj hs', cString]
        | succ n =>
            obtain ⟨c, hc, _⟩ := Option.bind_eq_some_iff.mp hs'
            obtain ⟨y, hy, _⟩ := look_eq_some_iff.mp hc
            obtain rfl := h.next a x y hx hy
            rw [cString_of_stringFrom h hy hs']

/-- **Storing behind windows** is seen at the addresses of the buffer and nowhere else. -/
theorem look_overwrite (h : Linear w) {a x : BitVec 64} {bs : List (BitVec 8)}
    (hx : w a = some x)
    (hall : ∀ i < bs.length, (w (a + BitVec.ofNat 64 i)).isSome) :
    look w (overwrite m x bs) = storeFrom (look w m) a bs := by
  have hbehind : ∀ i < bs.length, w (a + BitVec.ofNat 64 i) = some (x + BitVec.ofNat 64 i) :=
    fun i hi => h.behind hx fun j hj => hall j (by omega)
  funext b
  rw [storeFrom]
  split_ifs with hin
  · have hb : a + BitVec.ofNat 64 (b - a).toNat = b := by
      rw [BitVec.ofNat_toNat, BitVec.setWidth_eq]
      bv_omega
    have hplace := hbehind _ hin
    rw [hb] at hplace
    have hoff : (x + BitVec.ofNat 64 (b - a).toNat - x).toNat = (b - a).toNat := by
      bv_omega
    rw [look, hplace, Option.map_some, overwrite_of_lt m 0 (by rw [hoff]; exact hin), hoff]
  · rw [look, look]
    cases hy : w b with
    | none => rfl
    | some y =>
        rw [Option.map_some, Option.map_some]
        refine congrArg some (overwrite_of_le (not_lt.mp fun hcon => hin ?_))
        -- the place is that of a byte of the buffer, and seen at one address
        have hplace := hbehind _ hcon
        have hback : x + BitVec.ofNat 64 (y - x).toNat = y := by
          rw [BitVec.ofNat_toNat, BitVec.setWidth_eq]
          bv_omega
        rw [hback] at hplace
        have hsame := h.inj _ _ y hplace hy
        have hoff : (b - a).toNat = (y - x).toNat := by
          rw [← hsame]
          bv_omega
        omega

/-- A place that is seen nowhere keeps its byte when a buffer is stored. -/
theorem overwrite_of_unseen (h : Linear w) {a x y : BitVec 64} {bs : List (BitVec 8)}
    (hx : w a = some x) (hall : ∀ i < bs.length, (w (a + BitVec.ofNat 64 i)).isSome)
    (hy : ∀ b, w b ≠ some y) :
    overwrite m x bs y = m y := by
  refine overwrite_of_le (not_lt.mp fun hcon => ?_)
  have hplace := h.behind hx (n := (y - x).toNat) fun i hi => hall i (by omega)
  have hback : x + BitVec.ofNat 64 (y - x).toNat = y := by
    rw [BitVec.ofNat_toNat, BitVec.setWidth_eq]
    bv_omega
  rw [hback] at hplace
  exact hy _ hplace

/-- One byte. -/
theorem look_update (h : Linear w) {a x : BitVec 64} (hx : w a = some x) (b : BitVec 8) :
    look w (Function.update m x b) = Function.update (look w m) a (some b) := by
  funext c
  by_cases hc : c = a
  · subst hc
    rw [look, hx, Option.map_some, Function.update_self, Function.update_self]
  · rw [Function.update_of_ne hc, look, look]
    cases hy : w c with
    | none => rfl
    | some y =>
        rw [Option.map_some, Option.map_some, Function.update_of_ne]
        rintro rfl
        exact hc (h.inj _ _ y hy hx)

end Behind

end ByteMemory
end Hvexec
