import Hvexec.Arguments
import Mathlib.Data.Nat.Digits.Lemmas

/-!
# Numbers in the guest's library

`itoa` prints the digits of a number from the last one on and turns them round; `atoi` reads
them from the first one on.  An `int` has 32 bits and wraps.
-/

namespace Hvexec

/-! ## atoi -/

/-- The loop of `atoi` over the characters. -/
def atoiLoop (res : BitVec 32) : List Byte → BitVec 32
  | [] => res
  | c :: str => atoiLoop (res * 10 + c.signExtend 32 - 48) str

/-- `atoi` of the characters before the zero; 45 is '-'. -/
def atoi (str : List Byte) : BitVec 32 :=
  if str.head? = some 45 then -1 * atoiLoop 0 str.tail else 1 * atoiLoop 0 str

theorem atoiLoop_append (res : BitVec 32) (xs ys : List Byte) :
    atoiLoop res (xs ++ ys) = atoiLoop (atoiLoop res xs) ys := by
  induction xs generalizing res with
  | nil =>
      rfl
  | cons x xs ih =>
      exact ih _

/-! ## reverse -/

/-- The loop of `reverse`: two characters change places. -/
def reverseLoop (str : List Byte) (start stop : Nat) : List Byte :=
  if start < stop then
    reverseLoop ((str.set stop (str.getD start 0)).set start (str.getD stop 0)) (start + 1)
      (stop - 1)
  else str
termination_by stop - start

def reverse (str : List Byte) (length : Nat) : List Byte :=
  reverseLoop str 0 (length - 1)

/-- What is between the two indices is turned round. -/
theorem reverseLoop_eq (front mid rest : List Byte) :
    reverseLoop (front ++ (mid ++ rest)) front.length (front.length + mid.length - 1) =
      front ++ (mid.reverse ++ rest) := by
  induction mid using List.bidirectionalRec generalizing front rest with
  | nil =>
      rw [reverseLoop, if_neg (by simp)]
      rfl
  | singleton a =>
      rw [reverseLoop, if_neg (by simp)]
      rfl
  | cons_append a mid b ih =>
      have hlist : front ++ (a :: (mid ++ [b]) ++ rest) = front ++ a :: (mid ++ b :: rest) := by
        simp
      have hstop : front.length + (a :: (mid ++ [b])).length - 1 =
          front.length + (mid.length + 1) := by
        simp
      have hfirst : (front ++ a :: (mid ++ b :: rest)).getD front.length 0 = a := by
        rw [List.getD_append_right _ _ _ _ le_rfl, Nat.sub_self]
        rfl
      have hlast : (front ++ a :: (mid ++ b :: rest)).getD (front.length + (mid.length + 1)) 0 =
          b := by
        rw [List.getD_append_right _ _ _ _ (Nat.le_add_right _ _), Nat.add_sub_cancel_left,
          List.getD_cons_succ, List.getD_append_right _ _ _ _ le_rfl, Nat.sub_self]
        rfl
      have hswap : ((front ++ a :: (mid ++ b :: rest)).set (front.length + (mid.length + 1))
          a).set front.length b = front ++ [b] ++ (mid ++ a :: rest) := by
        rw [List.set_append_right _ _ (Nat.le_add_right _ _), Nat.add_sub_cancel_left,
          List.set_cons_succ, List.set_append_right _ _ le_rfl, Nat.sub_self,
          List.set_append_right _ _ le_rfl, Nat.sub_self]
        simp
      have hnext : front.length + (mid.length + 1) - 1 =
          (front ++ [b]).length + mid.length - 1 := by
        rw [List.length_append, List.length_singleton]
        omega
      have hlength : front.length + 1 = (front ++ [b]).length := by
        rw [List.length_append, List.length_singleton]
      rw [hlist, hstop, reverseLoop, if_pos (by omega), hfirst, hlast, hswap, hnext, hlength, ih]
      simp

/-- The first characters are turned round. -/
theorem reverse_append (str rest : List Byte) :
    reverse (str ++ rest) str.length = str.reverse ++ rest := by
  have hloop := reverseLoop_eq [] str rest
  rw [List.length_nil, Nat.zero_add] at hloop
  exact hloop

/-! ## itoa -/

/-- The character of a digit. -/
def digitChar (rem : BitVec 32) : Byte :=
  (if 9 < rem.toInt then rem - 10 + 97 else rem + 48).setWidth 8

/-- The loop of `itoa` over the digits, the last one first. -/
def itoaLoop (base : BitVec 32) : Nat → BitVec 32 → Option (List Byte)
  | 0, num => if num = 0 then some [] else none
  | n + 1, num =>
      if num = 0 then some []
      else if base = 0 then none
      else (itoaLoop base n (num.sdiv base)).map (digitChar (num.srem base) :: ·)

/-- `itoa`: the bytes that are stored.  A division by zero stops the program, and a base that
does not make the number smaller has no end. -/
def itoa (num base : BitVec 32) : Option (List Byte) :=
  if num = 0 then some [48, 0]
  else
    let isNegative := num.toInt < 0 ∧ base = 10
    (itoaLoop base 32 (if isNegative then -num else num)).map fun digits =>
      let str := if isNegative then digits ++ [45] else digits
      reverse (str ++ [0]) str.length

theorem itoaLoop_zero (base : BitVec 32) (n : Nat) : itoaLoop base n 0 = some [] := by
  cases n with
  | zero =>
      rfl
  | succ n =>
      rfl

/-- The digits of a number that is not negative, in a base that has characters for them. -/
theorem itoaLoop_eq {base : BitVec 32} (hbase : 2 ≤ base.toNat) (hbase' : base.toNat ≤ 36) :
    ∀ {n : Nat} {num : BitVec 32}, num.toNat < 2 ^ 31 → num.toNat < 2 ^ n →
      itoaLoop base n num =
        some ((Nat.digits base.toNat num.toNat).map fun d => digitChar (BitVec.ofNat 32 d)) := by
  intro n
  have hnil : Nat.digits base.toNat (0 : BitVec 32).toNat = [] := Nat.digits_zero _
  induction n with
  | zero =>
      intro num _ hn
      have hzero : num = 0 := BitVec.eq_of_toNat_eq (by simpa using hn)
      rw [hzero, itoaLoop_zero, hnil, List.map_nil]
  | succ n ih =>
      intro num hnum hn
      by_cases hzero : num = 0
      · rw [hzero, itoaLoop_zero, hnil, List.map_nil]
      · have hpos : 0 < num.toNat :=
          Nat.pos_of_ne_zero fun hcon => hzero (BitVec.eq_of_toNat_eq hcon)
        have hmsb : num.msb = false := BitVec.msb_eq_false_iff_two_mul_lt.mpr (by omega)
        have hmsb' : base.msb = false := BitVec.msb_eq_false_iff_two_mul_lt.mpr (by omega)
        have hdiv : (num.sdiv base).toNat = num.toNat / base.toNat := by
          rw [BitVec.sdiv_eq, hmsb, hmsb']
          exact BitVec.toNat_udiv
        have hrem : num.srem base = BitVec.ofNat 32 (num.toNat % base.toNat) := by
          rw [BitVec.srem_eq, hmsb, hmsb']
          refine BitVec.eq_of_toNat_eq ?_
          have hlt : num.toNat % base.toNat < base.toNat := Nat.mod_lt _ (by omega)
          have hsmall : num.toNat % base.toNat < 2 ^ 32 := by
            omega
          exact BitVec.toNat_umod.trans (Nat.mod_eq_of_lt hsmall).symm
        have hle : num.toNat / base.toNat ≤ num.toNat / 2 :=
          Nat.div_le_div_left hbase (by decide)
        have hhalf : num.toNat / base.toNat < 2 ^ n := by
          rw [Nat.pow_succ] at hn
          omega
        have hbase_ne : base ≠ 0 := by
          rintro rfl
          exact absurd hbase (by decide)
        rw [itoaLoop, if_neg hzero, if_neg hbase_ne, ih (by omega) (by omega), hdiv,
          Option.map_some, hrem, Nat.digits_def' (by omega) hpos, List.map_cons]

/-! ## There and back -/

/-- A decimal digit is read back. -/
theorem signExtend_digitChar :
    ∀ d < 10, (digitChar (BitVec.ofNat 32 d)).signExtend 32 = BitVec.ofNat 32 d + 48 := by
  decide

theorem digitChar_ne :
    ∀ d < 10, digitChar (BitVec.ofNat 32 d) ≠ 0 ∧ digitChar (BitVec.ofNat 32 d) ≠ 45 := by
  decide

/-- `atoi` evaluates the digits. -/
theorem atoiLoop_digits {ds : List Nat} (hds : ∀ d ∈ ds, d < 10) :
    atoiLoop 0 (ds.map fun d => digitChar (BitVec.ofNat 32 d)).reverse =
      BitVec.ofNat 32 (Nat.ofDigits 10 ds) := by
  induction ds with
  | nil =>
      rfl
  | cons d ds ih =>
      obtain ⟨hd, hrest⟩ := List.forall_mem_cons.mp hds
      rw [List.map_cons, List.reverse_cons, atoiLoop_append, ih hrest, atoiLoop, atoiLoop,
        signExtend_digitChar d hd, Nat.ofDigits_cons]
      generalize Nat.ofDigits 10 ds = x
      bv_omega

/-- The characters of a number without its sign.  The remainders of `-2 ^ 31`, which is its own
negation, are negative. -/
theorem itoaLoop_ten {num : BitVec 32} (hnum : num.toNat ≤ 2 ^ 31) :
    ∃ digits, itoaLoop 10 32 num = some digits ∧ digits.length ≤ 10 ∧ 0 ∉ digits ∧
      (num.toNat < 2 ^ 31 → 45 ∉ digits) ∧ atoiLoop 0 digits.reverse = num := by
  by_cases hlt : num.toNat < 2 ^ 31
  · have hds : ∀ d ∈ Nat.digits 10 num.toNat, d < 10 := fun d hd =>
      Nat.digits_lt_base (by decide) hd
    refine ⟨_, itoaLoop_eq (by decide) (by decide) hlt (by omega), ?_, ?_, fun _ => ?_, ?_⟩
    · rw [List.length_map]
      exact (Nat.digits_length_le_iff (by decide) _).mpr (lt_of_lt_of_le hlt (by decide))
    · intro hcon
      obtain ⟨d, hd, heq⟩ := List.mem_map.mp hcon
      exact (digitChar_ne d (hds d hd)).1 heq
    · intro hcon
      obtain ⟨d, hd, heq⟩ := List.mem_map.mp hcon
      exact (digitChar_ne d (hds d hd)).2 heq
    · show atoiLoop 0 ((Nat.digits 10 num.toNat).map _).reverse = num
      rw [atoiLoop_digits hds, Nat.ofDigits_digits, BitVec.ofNat_toNat, BitVec.setWidth_eq]
  · have hmin : num = 0x80000000 := BitVec.eq_of_toNat_eq (Nat.le_antisymm hnum (not_lt.mp hlt))
    rw [hmin]
    exact ⟨[40, 44, 42, 45, 40, 44, 41, 44, 47, 46], by decide, by decide, by decide,
      fun hcon => absurd hcon (by decide), by decide⟩

/-- **`atoi` reads what `itoa` prints.** -/
theorem atoi_itoa (num : BitVec 32) :
    ∃ str : CString, itoa num 10 = some str.stored ∧ str.bytes.length ≤ 11 ∧
      atoi str.bytes = num := by
  by_cases hzero : num = 0
  · rw [hzero]
    exact ⟨⟨[48], by decide⟩, rfl, by decide, by decide⟩
  by_cases hneg : num.toInt < 0
  · have hge : 2 ^ 31 ≤ num.toNat := by
      rw [BitVec.toInt_eq_toNat_cond] at hneg
      split at hneg <;> omega
    have hle : (-num).toNat ≤ 2 ^ 31 := by
      rw [BitVec.toNat_neg]
      omega
    obtain ⟨digits, hloop, hlen, hnul, _, hvalue⟩ := itoaLoop_ten hle
    refine ⟨⟨45 :: digits.reverse, ?_⟩, ?_, ?_, ?_⟩
    · rw [List.mem_cons, List.mem_reverse]
      exact fun hcon => hcon.elim (by decide) hnul
    · have hreverse := reverse_append (digits ++ [45]) [0]
      rw [List.reverse_append] at hreverse
      simp only [itoa, if_neg hzero, hneg, and_self, if_true, hloop, Option.map_some, hreverse]
      rfl
    · rw [List.length_cons, List.length_reverse]
      omega
    · have hhead : (45 :: digits.reverse).head? = some (45 : Byte) := rfl
      have hneg_one : (-1 : BitVec 32) * -num = num :=
        (BitVec.neg_mul_neg 1 num).trans (BitVec.one_mul num)
      rw [atoi, if_pos hhead, List.tail_cons, hvalue, hneg_one]
  · have hlt : num.toNat < 2 ^ 31 := by
      rw [BitVec.toInt_eq_toNat_cond] at hneg
      split at hneg <;> omega
    obtain ⟨digits, hloop, hlen, hnul, hminus, hvalue⟩ := itoaLoop_ten hlt.le
    refine ⟨⟨digits.reverse, by rwa [List.mem_reverse]⟩, ?_, ?_, ?_⟩
    · simp only [itoa, if_neg hzero, hneg, false_and, if_false, hloop, Option.map_some,
        reverse_append]
      rfl
    · rw [List.length_reverse]
      omega
    · have hhead : digits.reverse.head? ≠ some 45 := fun hcon =>
        hminus hlt (List.mem_reverse.mp (List.mem_of_head? hcon))
      rw [atoi, if_neg hhead, hvalue]
      exact BitVec.one_mul num

end Hvexec
