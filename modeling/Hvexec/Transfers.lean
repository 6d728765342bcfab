import Hvexec.PhysMemory

/-!
# Transfers to and from guest memory

`vm_mem_write` and `vm_mem_read` look up each byte by itself.  A transfer goes on
through adjacent regions, wherever their host memory lies, and stops at the first
address without a region; `runLength` is how far it gets.  What was written is read
back, and nothing else changes.

The counters of the two functions are of type `int`; the lists of bytes here stand
for buffers of at most INT_MAX bytes outside the memory of the guest.
-/

namespace Hvexec

open ByteMemory IntervalList

/-- How many of `n` addresses from `gpa` on a transfer passes. -/
def runLength (l : List MemRegion) : U64 → Nat → Nat
  | _, 0 => 0
  | gpa, n + 1 => if gpaToHva l gpa = 0 then 0 else runLength l (gpa + 1) n + 1

section RunLength

variable {l : List MemRegion}

theorem runLength_le (gpa : U64) (n : Nat) : runLength l gpa n ≤ n := by
  induction n generalizing gpa with
  | zero =>
      exact le_rfl
  | succ n ih =>
      rw [runLength]
      split_ifs
      · exact Nat.zero_le _
      · exact Nat.succ_le_succ (ih (gpa + 1))

/-- The addresses passed are registered. -/
theorem inRegion_of_lt_runLength (h : RegionsOk l) (hhost : HostOk l) {gpa : U64} {n j : Nat}
    (hj : j < runLength l gpa n) :
    InRegion l (gpa + BitVec.ofNat 64 j) := by
  induction n generalizing gpa j with
  | zero =>
      simp [runLength] at hj
  | succ n ih =>
      rw [runLength] at hj
      split_ifs at hj with hnull
      · omega
      · cases j with
        | zero =>
            rw [BitVec.add_zero]
            exact (gpaToHva_ne_zero_iff h hhost gpa).mp hnull
        | succ j =>
            rw [← add_one_ofNat]
            exact ih (by omega)

/-- The transfer stops at an address without a region. -/
theorem not_inRegion_runLength (h : RegionsOk l) (hhost : HostOk l) {gpa : U64} {n : Nat}
    (hlt : runLength l gpa n < n) :
    ¬ InRegion l (gpa + BitVec.ofNat 64 (runLength l gpa n)) := by
  induction n generalizing gpa with
  | zero =>
      omega
  | succ n ih =>
      rw [runLength] at hlt ⊢
      split_ifs at hlt ⊢ with hnull
      · rw [BitVec.add_zero, ← gpaToHva_ne_zero_iff h hhost]
        exact not_not.mpr hnull
      · rw [← add_one_ofNat]
        exact ih (by omega)

/-- It passes as many addresses as there are registered ones in a row. -/
theorem runLength_isGreatest (h : RegionsOk l) (hhost : HostOk l) (gpa : U64) (n : Nat) :
    IsGreatest {k | k ≤ n ∧ ∀ j < k, InRegion l (gpa + BitVec.ofNat 64 j)}
      (runLength l gpa n) := by
  refine ⟨⟨runLength_le gpa n, fun j hj => inRegion_of_lt_runLength h hhost hj⟩, ?_⟩
  rintro k ⟨hk, hall⟩
  by_contra hcon
  push Not at hcon
  exact not_inRegion_runLength h hhost (lt_of_lt_of_le hcon hk) (hall _ hcon)

/-- The addresses passed do not wrap around. -/
theorem runLength_wrap (h : RegionsOk l) (hhost : HostOk l) (gpa : U64) (n : Nat) :
    gpa.toNat + runLength l gpa n < 2 ^ 64 := by
  induction n generalizing gpa with
  | zero =>
      exact gpa.isLt
  | succ n ih =>
      rw [runLength]
      split_ifs with hnull
      · exact gpa.isLt
      · have hnext := ih (gpa + 1)
        rw [((gpaToHva_ne_zero_iff h hhost gpa).mp hnull).toNat_succ h] at hnext
        omega

end RunLength

section Transfer

variable {σ : VmMem}

theorem vmMemWrite_count (σ : VmMem) (buf : List Byte) (gpa : U64) :
    (vmMemWrite σ gpa buf).1 = runLength σ.memRegions gpa buf.length := by
  induction buf generalizing σ gpa with
  | nil =>
      rfl
  | cons b buf ih =>
      rw [vmMemWrite, List.length_cons, runLength]
      dsimp only
      split_ifs with hnull
      · rfl
      · rw [ih]

theorem vmMemRead_of_null {gpa : U64} (hnull : gpaToHva σ.memRegions gpa = 0)
    (out : List Byte) :
    vmMemRead σ gpa out = (0, out) := by
  cases out with
  | nil =>
      rfl
  | cons b out =>
      rw [vmMemRead]
      dsimp only
      rw [if_pos hnull]

/-- What a write stored, as far as it got. -/
theorem holds_vmMemWrite (h : RegionsOk σ.memRegions) (hhost : HostOk σ.memRegions)
    (buf : List Byte) (gpa : U64) :
    Holds (vmMemWrite σ gpa buf).2 gpa (buf.take (vmMemWrite σ gpa buf).1) := by
  have hcount := vmMemWrite_count σ buf gpa
  have hle := runLength_le (l := σ.memRegions) gpa buf.length
  intro y hlo hhi
  rw [List.length_take, Nat.min_eq_left (by omega)] at hhi
  rw [(byteAt_vmMemWrite buf gpa h hhost).2, if_pos ⟨hlo, hhi⟩, List.getD_eq_getElem?_getD,
    List.getD_eq_getElem?_getD, List.getElem?_take_of_lt (by omega)]

/-- A read after a write gets as far, and finds what was stored. -/
theorem vmMemRead_vmMemWrite (h : RegionsOk σ.memRegions) (hhost : HostOk σ.memRegions)
    (buf : List Byte) (gpa : U64) {out : List Byte} (hlen : out.length = buf.length) :
    vmMemRead (vmMemWrite σ gpa buf).2 gpa out =
      ((vmMemWrite σ gpa buf).1,
        buf.take (vmMemWrite σ gpa buf).1 ++ out.drop (vmMemWrite σ gpa buf).1) := by
  have hcount := vmMemWrite_count σ buf gpa
  have hle := runLength_le (l := σ.memRegions) gpa buf.length
  have hwrap := runLength_wrap h hhost gpa buf.length
  have htake : (buf.take (vmMemWrite σ gpa buf).1).length = (vmMemWrite σ gpa buf).1 := by
    rw [List.length_take]
    omega
  have hread := (holds_vmMemWrite h hhost buf gpa).read_append
    (by rw [htake, hcount]; exact hwrap) (by rw [htake]; omega : _ ≤ out.length)
  rw [htake] at hread
  -- behind what was stored the read stops, or the buffer ends
  have hstop : vmMemRead (vmMemWrite σ gpa buf).2
      (gpa + BitVec.ofNat 64 (vmMemWrite σ gpa buf).1) (out.drop (vmMemWrite σ gpa buf).1) =
      (0, out.drop (vmMemWrite σ gpa buf).1) := by
    rcases Nat.lt_or_ge (vmMemWrite σ gpa buf).1 buf.length with hlt | hge
    · apply vmMemRead_of_null
      rw [memRegions_vmMemWrite, hcount]
      rw [hcount] at hlt
      by_contra hne
      exact not_inRegion_runLength h hhost hlt ((gpaToHva_ne_zero_iff h hhost _).mp hne)
    · rw [List.drop_of_length_le (by omega)]
      rfl
  rw [hread, hstop]
  rfl

end Transfer

/-- **Write and read.**  In every state of a run, whatever the memory holds, a write
stores the longest part of the buffer whose addresses are registered, changes no
other byte of the guest, and is read back. -/
theorem vmMemWrite_vmMemRead
    (mem : U64 → Byte) (ops : List MemOp) (mem' : U64 → Byte)
    (hbelow : RegionsBelow (MemOp.run (VmMem.init mem) ops).memRegions)
    (hhost : HostOk (MemOp.run (VmMem.init mem) ops).memRegions)
    (gpa : U64) (buf : List Byte) :
    let σ : VmMem := { MemOp.run (VmMem.init mem) ops with mem := mem' }
    let w := vmMemWrite σ gpa buf
    IsGreatest
        {k | k ≤ buf.length ∧ ∀ j < k, InRegion σ.memRegions (gpa + BitVec.ofNat 64 j)}
        w.1 ∧
      (∀ i < w.1, w.2.byteAt (gpa + BitVec.ofNat 64 i) = buf[i]?) ∧
      (∀ y, (∀ i < w.1, y ≠ gpa + BitVec.ofNat 64 i) → w.2.byteAt y = σ.byteAt y) ∧
      ∀ out : List Byte, out.length = buf.length →
        vmMemRead w.2 gpa out = (w.1, buf.take w.1 ++ out.drop w.1) := by
  intro σ w
  have h : RegionsOk σ.memRegions := (regionInv_run (regionInv_init mem) hbelow).ok
  have hcount : w.1 = runLength σ.memRegions gpa buf.length := vmMemWrite_count σ buf gpa
  have hle := runLength_le (l := σ.memRegions) gpa buf.length
  have hwrap := runLength_wrap h hhost gpa buf.length
  have hbytes := (byteAt_vmMemWrite buf gpa h hhost).2
  have hsum : ∀ i < w.1, (gpa + BitVec.ofNat 64 i).toNat = gpa.toNat + i := by
    intro i hi
    exact toNat_add_ofNat (by omega)
  refine ⟨?_, ?_, ?_, fun out hlen => vmMemRead_vmMemWrite h hhost buf gpa hlen⟩
  · rw [hcount]
    exact runLength_isGreatest h hhost gpa buf.length
  · intro i hi
    rw [hbytes, hsum i hi, if_pos ⟨Nat.le_add_right _ _, Nat.add_lt_add_left hi _⟩,
      Nat.add_sub_cancel_left, List.getD_eq_getElem?_getD, List.getElem?_eq_getElem (by omega)]
    rfl
  · intro y hy
    rw [hbytes, if_neg]
    rintro ⟨hlo, hhi⟩
    have hlt : y.toNat - gpa.toNat < w.1 := by
      have : y.toNat < gpa.toNat + w.1 := hhi
      omega
    apply hy _ hlt
    apply BitVec.eq_of_toNat_eq
    rw [hsum _ hlt]
    omega

theorem hostOk_mixedRun : HostOk (MemOp.run (VmMem.init fun _ => 0) mixedRun).memRegions := by
  constructor
  · decide +kernel
  · unfold Apart
    decide +kernel

/-- A transfer that runs into the hole behind the data of `mixedRun`. -/
theorem vmMemWrite_vmMemRead_mixedRun :
    let σ : VmMem := { MemOp.run (VmMem.init fun _ => 0) mixedRun with mem := fun _ => 7 }
    let w := vmMemWrite σ 0xAFFE [1, 2, 3, 4]
    w.1 = 2 ∧
      (∀ y, (∀ i < w.1, y ≠ 0xAFFE + BitVec.ofNat 64 i) → w.2.byteAt y = σ.byteAt y) ∧
      ∀ out : List Byte, out.length = 4 →
        vmMemRead w.2 0xAFFE out = (w.1, [1, 2, 3, 4].take w.1 ++ out.drop w.1) := by
  have h := vmMemWrite_vmMemRead (fun _ => 0) mixedRun (fun _ => 7)
    (by unfold RegionsBelow; decide +kernel) hostOk_mixedRun 0xAFFE [1, 2, 3, 4]
  refine ⟨?_, h.2.2.1, h.2.2.2⟩
  rw [vmMemWrite_count]
  decide +kernel

end Hvexec
