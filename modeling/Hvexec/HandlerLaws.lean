import Hvexec.VcpuRun

/-!
# What an emulated instruction reads and skips

The handlers of emu.c stand in for one instruction each.  Afterwards the guest goes
on behind it, so RIP moves by the length that the processor reports; and all that
RDMSR, WRMSR and CPUID read are 32-bit registers.

The handlers know the lengths of their instructions by heart, and `emu_mov_cr`
returns early without moving RIP at all.  `emu_cpuid` compares all of RAX where the
others look at the lower half.
-/

namespace Hvexec

/-! ## The length of an instruction -/

/-- The exits that one instruction of the guest causes and a handler completes. -/
def ExitReason.completes : ExitReason → Bool
  | .vmcall => true
  | .rdmsr => true
  | .wrmsr => true
  | .movCr => true
  | .cpuid => true
  | _ => false

/-- `VMCS_RO_VMEXIT_INSTR_LEN`. -/
def Vcpu.exitInstrLen (v : Vcpu) : U64 :=
  v.readVmcs .roVmexitInstrLen

/-- The loop stops, or RIP has moved by the length of the instruction. -/
def SkipsInstr (v : Vcpu) (h : Handled) : Prop :=
  h.stop = true ∨ rreg h.vcpu .rip = rreg v .rip + v.exitInstrLen

/-- The exit is a MOV to CR0. -/
def MovToCr0 (v : Vcpu) : Prop :=
  v.readVmcs .roExitQualific &&& 0xf = 0 ∧ v.readVmcs .roExitQualific &&& 0xf0 = 0

/-- The length that a handler takes for granted is the one reported.  No handler
moves RIP past another MOV_CR. -/
def LengthKnown (v : Vcpu) : ExitReason → Prop
  | .rdmsr => (rreg v .rcx).setWidth 32 = msrEfer → v.exitInstrLen = 2
  | .wrmsr => (rreg v .rcx).setWidth 32 = msrEfer → v.exitInstrLen = 2
  | .movCr =>
      (MovToCr0 v → v.exitInstrLen = 3) ∧ (¬ MovToCr0 v → v.exitInstrLen = 0)
  | .cpuid => v.exitInstrLen = 2
  | _ => True

section Rip

variable (v : Vcpu)

theorem rip_emuRdmsr (h : (rreg v .rcx).setWidth 32 = msrEfer) :
    (emuRdmsr v).1 = 0 ∧ rreg (emuRdmsr v).2 .rip = rreg v .rip + 2 := by
  simp only [emuRdmsr, if_pos h, rreg_wreg]
  exact ⟨trivial, rfl⟩

theorem rip_emuWrmsr (h : (rreg v .rcx).setWidth 32 = msrEfer) :
    (emuWrmsr v).1 = 0 ∧ rreg (emuWrmsr v).2 .rip = rreg v .rip + 2 := by
  simp only [emuWrmsr, if_pos h, rreg_wreg, rreg_writeVmcs]
  exact ⟨trivial, rfl⟩

theorem rip_emuCpuid :
    (emuCpuid v).1 = 0 ∧ rreg (emuCpuid v).2 .rip = rreg v .rip + 2 := by
  simp only [emuCpuid, rreg_wreg, if_true, true_and]
  split_ifs
  · simp [rreg_wreg]
  · simp [rreg_wreg]
  · rfl

theorem rip_emuMovCr (h : MovToCr0 v) :
    (emuMovCr v).1 = 0 ∧ rreg (emuMovCr v).2 .rip = rreg v .rip + 3 := by
  simp only [emuMovCr, if_pos h.1, if_neg (not_not.mpr h.2), rreg_wreg, if_true, true_and]
  split_ifs
  · simp [rreg_wreg, rreg_writeVmcs]
  · simp [rreg_wreg, rreg_writeVmcs]
  · simp [rreg_wreg, rreg_writeVmcs]

/-- Every other access to a control register is left as it is. -/
theorem emuMovCr_of_not (h : ¬ MovToCr0 v) : emuMovCr v = (0, v) := by
  unfold MovToCr0 at h
  by_cases hcr0 : v.readVmcs .roExitQualific &&& 0xf = 0
  · have hmov : v.readVmcs .roExitQualific &&& 0xf0 ≠ 0 := fun hcon => h ⟨hcr0, hcon⟩
    simp only [emuMovCr, if_pos hcr0, if_pos hmov]
  · simp only [emuMovCr, if_neg hcr0]

end Rip

/-- A handler that goes on and moves RIP by `n` is right about `n`. -/
theorem skipsInstr_iff {v : Vcpu} {r : Int × Vcpu} {n : U64}
    (h : r.1 = 0 ∧ rreg r.2 .rip = rreg v .rip + n) :
    SkipsInstr v (otherExit r) ↔ v.exitInstrLen = n := by
  simp only [SkipsInstr, otherExit, h.1, h.2, ne_eq, not_true_eq_false, decide_false,
    Bool.false_eq_true, false_or]
  rw [BitVec.add_right_inj, eq_comm]

theorem skipsInstr_of_stop {v w : Vcpu} : SkipsInstr v (otherExit (1, w)) :=
  Or.inl rfl

/-- **One exit**: the instruction is skipped exactly when its length is known. -/
theorem skipsInstr_handleExit_iff (ops : PluginOps) (interactive : Bool) (e : VmExit)
    (hreason : e.reason.completes = true) :
    SkipsInstr e.vcpu (handleExit ops interactive e) ↔ LengthKnown e.vcpu e.reason := by
  unfold handleExit
  cases hcase : e.reason with
  | vmcall =>
      simp [LengthKnown, SkipsInstr, otherExit, rreg_wreg, Vcpu.exitInstrLen]
  | rdmsr =>
      by_cases hecx : (rreg e.vcpu .rcx).setWidth 32 = msrEfer
      · simpa only [LengthKnown, hecx, true_imp_iff] using
          skipsInstr_iff (rip_emuRdmsr e.vcpu hecx)
      · simp only [LengthKnown, hecx, false_imp_iff, iff_true, emuRdmsr, if_false]
        exact skipsInstr_of_stop
  | wrmsr =>
      by_cases hecx : (rreg e.vcpu .rcx).setWidth 32 = msrEfer
      · simpa only [LengthKnown, hecx, true_imp_iff] using
          skipsInstr_iff (rip_emuWrmsr e.vcpu hecx)
      · simp only [LengthKnown, hecx, false_imp_iff, iff_true, emuWrmsr, if_false]
        exact skipsInstr_of_stop
  | movCr =>
      by_cases hcr0 : MovToCr0 e.vcpu
      · simpa only [LengthKnown, hcr0, true_imp_iff, not_true_eq_false, false_imp_iff,
          and_true] using skipsInstr_iff (rip_emuMovCr e.vcpu hcr0)
      · simp only [LengthKnown, hcr0, false_imp_iff, not_false_eq_true, true_imp_iff,
          true_and, emuMovCr_of_not e.vcpu hcr0]
        exact skipsInstr_iff ⟨rfl, (BitVec.add_zero _).symm⟩
  | cpuid =>
      exact skipsInstr_iff (rip_emuCpuid e.vcpu)
  | excNmi => simp [hcase, ExitReason.completes] at hreason
  | irq => simp [hcase, ExitReason.completes] at hreason
  | hlt => simp [hcase, ExitReason.completes] at hreason
  | eptViolation => simp [hcase, ExitReason.completes] at hreason
  | tripleFault => simp [hcase, ExitReason.completes] at hreason
  | other reason => simp [hcase, ExitReason.completes] at hreason

/-- **Skipping by length.**  In every run of the loop an emulated instruction is
skipped exactly when its handler knows its length. -/
theorem vcpuRun_skipsInstr_iff (ops : PluginOps) (interactive : Bool)
    (es : List (Option VmExit)) {k : Nat} {h : Handled}
    (hk : (vcpuRun ops interactive es)[k]? = some h) :
    ∃ e, es[k]? = some (some e) ∧
      (e.reason.completes = true →
        (SkipsInstr e.vcpu h ↔ LengthKnown e.vcpu e.reason)) := by
  obtain ⟨e, he, rfl, _⟩ := vcpuRun_getElem hk
  exact ⟨e, he, skipsInstr_handleExit_iff ops interactive e⟩

/-- An exit at `0x8000` from an instruction of three bytes. -/
def exitAt (reason : ExitReason) (rax exitQualific : U64) : VmExit where
  reason := reason
  vcpu :=
    { regs := fun r => if r = .rip then 0x8000 else if r = .rax then rax else 0
      vmcs := fun f =>
        if f = .roVmexitInstrLen then 3
        else if f = .roExitQualific then exitQualific else 0 }
  vm := VmMem.init fun _ => 0
  entry₀ := 0
  env := ⟨0, fun _ => ⟨0, 0⟩, fun _ => 0, fun _ => 0, 0⟩

theorem vcpuRun_skipsInstr_iff_movCr0 :
    let e := exitAt .movCr 0x31 0
    (vcpuRun noPlugin false [some e])[0]? = some (handleExit noPlugin false e) ∧
      SkipsInstr e.vcpu (handleExit noPlugin false e) := by
  have hrun : (vcpuRun noPlugin false [some (exitAt .movCr 0x31 0)])[0]? =
      some (handleExit noPlugin false (exitAt .movCr 0x31 0)) := by
    simp only [vcpuRun]
    split_ifs <;> rfl
  obtain ⟨e, he, hiff⟩ :=
    vcpuRun_skipsInstr_iff noPlugin false [some (exitAt .movCr 0x31 0)] hrun
  obtain rfl : exitAt .movCr 0x31 0 = e := Option.some.inj (Option.some.inj he)
  exact ⟨hrun, (hiff rfl).mpr ⟨fun _ => rfl, fun hcon => absurd ⟨rfl, rfl⟩ hcon⟩⟩

/-- After a MOV to CR4 the guest is resumed at the same instruction. -/
theorem movCr4_not_skipped :
    let e := exitAt .movCr 0x2000 4
    (handleExit noPlugin false e).stop = false ∧
      rreg (handleExit noPlugin false e).vcpu .rip = rreg e.vcpu .rip ∧
      ¬ SkipsInstr e.vcpu (handleExit noPlugin false e) := by
  have hcr4 : ¬ MovToCr0 (exitAt .movCr 0x2000 4).vcpu := by
    unfold MovToCr0
    decide
  have hcode : handleExit noPlugin false (exitAt .movCr 0x2000 4) =
      otherExit (0, (exitAt .movCr 0x2000 4).vcpu) :=
    congrArg otherExit (emuMovCr_of_not _ hcr4)
  refine ⟨?_, ?_, fun hskip => ?_⟩
  · rw [hcode]
    rfl
  · rw [hcode]
    rfl
  · rcases hskip with hstop | hrip
    · rw [hcode] at hstop
      exact absurd hstop (by decide)
    · rw [hcode] at hrip
      exact absurd hrip (by decide)

/-! ## The width of an operand -/

/-- The lower half of a register. -/
def low32 (v : Vcpu) (r : Reg) : BitVec 32 :=
  (rreg v r).setWidth 32

/-- Two states that differ only in the upper halves of RAX, RCX and RDX. -/
structure SameLow (v w : Vcpu) : Prop where
  vmcs : v.vmcs = w.vmcs
  regs : ∀ r, r ≠ .rax → r ≠ .rcx → r ≠ .rdx → rreg v r = rreg w r
  low : ∀ r, low32 v r = low32 w r

/-- What the guest can tell of an emulated RDMSR, WRMSR or CPUID by looking at 32-bit
registers. -/
structure SameOutcome (h h' : Handled) : Prop where
  stop : h.stop = h'.stop
  efer : h.vcpu.readVmcs .guestIa32Efer = h'.vcpu.readVmcs .guestIa32Efer
  rip : rreg h.vcpu .rip = rreg h'.vcpu .rip
  rax : low32 h.vcpu .rax = low32 h'.vcpu .rax
  rbx : low32 h.vcpu .rbx = low32 h'.vcpu .rbx
  rcx : low32 h.vcpu .rcx = low32 h'.vcpu .rcx
  rdx : low32 h.vcpu .rdx = low32 h'.vcpu .rdx

/-- CPUID takes the same branch in both states, or the two branches leave the same
EDX. -/
structure SameLeaf (v w : Vcpu) : Prop where
  count : rreg v .rax = 0x80000000 ↔ rreg w .rax = 0x80000000
  features : low32 v .rdx = 0x20000000 ∨
    (rreg v .rax = 0x80000001 ↔ rreg w .rax = 0x80000001)

section Width

variable {v w : Vcpu}

theorem SameLow.readVmcs (h : SameLow v w) (f : VmcsField) : v.readVmcs f = w.readVmcs f := by
  rw [Vcpu.readVmcs, Vcpu.readVmcs, h.vmcs]

theorem SameLow.rip (h : SameLow v w) : rreg v .rip = rreg w .rip :=
  h.regs .rip (by decide) (by decide) (by decide)

theorem low32_wreg (v : Vcpu) (r r' : Reg) (x : U64) :
    low32 (wreg v r x) r' = if r' = r then x.setWidth 32 else low32 v r' := by
  rw [low32, rreg_wreg]
  split_ifs <;> rfl

theorem low32_writeVmcs (v : Vcpu) {r : Reg} (hr : r ≠ .cr0) (f : VmcsField) (x : U64) :
    low32 (v.writeVmcs f x) r = low32 v r := by
  rw [low32, rreg_writeVmcs, if_neg fun hcon => hr hcon.1]
  rfl

/-- Equal lower halves of two handled exits that moved on alike. -/
theorem sameOutcome_of_low {r r' : Int × Vcpu}
    (hstop : r.1 = r'.1)
    (hefer : r.2.readVmcs .guestIa32Efer = r'.2.readVmcs .guestIa32Efer)
    (hrip : rreg r.2 .rip = rreg r'.2 .rip)
    (hlow : ∀ x ∈ [Reg.rax, .rbx, .rcx, .rdx], low32 r.2 x = low32 r'.2 x) :
    SameOutcome (otherExit r) (otherExit r') := by
  refine ⟨?_, hefer, hrip, hlow .rax (by simp), hlow .rbx (by simp), hlow .rcx (by simp),
    hlow .rdx (by simp)⟩
  simp only [otherExit, hstop]

theorem SameLow.sameOutcome_stop (h : SameLow v w) (n : Int) :
    SameOutcome (otherExit (n, v)) (otherExit (n, w)) :=
  sameOutcome_of_low rfl (h.readVmcs _) h.rip fun x _ => h.low x

/-- RDMSR reads ECX only. -/
theorem SameLow.emuRdmsr (h : SameLow v w) :
    SameOutcome (otherExit (emuRdmsr v)) (otherExit (emuRdmsr w)) := by
  have hecx : (rreg v .rcx).setWidth 32 = (rreg w .rcx).setWidth 32 := h.low .rcx
  unfold Hvexec.emuRdmsr
  simp only [hecx, h.readVmcs]
  split_ifs with hmsr
  · apply sameOutcome_of_low
    · rfl
    · simp [readVmcs_wreg, h.readVmcs]
    · simp [rreg_wreg, h.rip]
    · simp [low32_wreg, h.low]
  · exact h.sameOutcome_stop 1

/-- WRMSR reads EAX, ECX and EDX only. -/
theorem SameLow.emuWrmsr (h : SameLow v w) :
    SameOutcome (otherExit (emuWrmsr v)) (otherExit (emuWrmsr w)) := by
  have hecx : (rreg v .rcx).setWidth 32 = (rreg w .rcx).setWidth 32 := h.low .rcx
  have hvalue : wrmsrValue v = wrmsrValue w := by
    have heax : (rreg v .rax).setWidth 32 = (rreg w .rax).setWidth 32 := h.low .rax
    have hedx : (rreg v .rdx).setWidth 32 = (rreg w .rdx).setWidth 32 := h.low .rdx
    simp only [wrmsrValue, heax, hedx]
  unfold Hvexec.emuWrmsr
  simp only [hecx, hvalue]
  split_ifs with hmsr
  · apply sameOutcome_of_low
    · rfl
    · simp [readVmcs_wreg, readVmcs_writeVmcs]
    · simp [rreg_wreg, rreg_writeVmcs, h.rip]
    · simp [low32_wreg, low32_writeVmcs, h.low]
  · exact h.sameOutcome_stop 1

/-- CPUID compares all of RAX with the numbers of its two leaves. -/
theorem low32_emuCpuid (v : Vcpu) :
    low32 (emuCpuid v).2 .rax =
        (if rreg v .rax = 0x80000000 then 0x80000001 else low32 v .rax) ∧
      low32 (emuCpuid v).2 .rdx =
        (if rreg v .rax = 0x80000001 then 0x20000000 else low32 v .rdx) ∧
      low32 (emuCpuid v).2 .rbx = low32 v .rbx ∧
      low32 (emuCpuid v).2 .rcx = low32 v .rcx := by
  by_cases hcount : rreg v .rax = 0x80000000
  · simp [emuCpuid, hcount, low32_wreg]
  · by_cases hfeatures : rreg v .rax = 0x80000001
    · simp [emuCpuid, hfeatures, low32_wreg]
    · simp only [emuCpuid, if_neg hcount, if_neg hfeatures]
      simp [low32_wreg]

theorem efer_emuCpuid (v : Vcpu) :
    (emuCpuid v).2.readVmcs .guestIa32Efer = v.readVmcs .guestIa32Efer := by
  simp only [emuCpuid]
  split_ifs <;> simp [readVmcs_wreg]

/-- Two states that agree on `x` get the same answer exactly when both tests say the
same, or when the answer is `x`. -/
theorem ite_answer_eq_iff {α : Type} {p q : Prop} [Decidable p] [Decidable q] {x y : α} :
    ((if p then y else x) = if q then y else x) ↔ x = y ∨ (p ↔ q) := by
  by_cases hp : p
  · by_cases hq : q <;> simp [hp, hq, eq_comm]
  · by_cases hq : q <;> simp [hp, hq]

/-- CPUID looks at the upper half of RAX. -/
theorem SameLow.emuCpuid_iff (h : SameLow v w) :
    SameOutcome (otherExit (emuCpuid v)) (otherExit (emuCpuid w)) ↔ SameLeaf v w := by
  obtain ⟨hrax, hrdx, hrbx, hrcx⟩ := low32_emuCpuid v
  obtain ⟨hrax', hrdx', hrbx', hrcx'⟩ := low32_emuCpuid w
  -- the first leaf is not the number of leaves that it returns
  have hleaf : low32 (emuCpuid v).2 .rax = low32 (emuCpuid w).2 .rax ↔
      (rreg v .rax = 0x80000000 ↔ rreg w .rax = 0x80000000) := by
    rw [hrax, hrax', h.low .rax, ite_answer_eq_iff]
    refine or_iff_right_of_imp fun hone => iff_of_false ?_ ?_
    · intro hcon
      have := h.low .rax
      rw [hone, low32, hcon] at this
      exact absurd this (by decide)
    · intro hcon
      rw [low32, hcon] at hone
      exact absurd hone (by decide)
  have hedx : low32 (emuCpuid v).2 .rdx = low32 (emuCpuid w).2 .rdx ↔
      low32 v .rdx = 0x20000000 ∨
        (rreg v .rax = 0x80000001 ↔ rreg w .rax = 0x80000001) := by
    rw [hrdx, hrdx', ← h.low .rdx, ite_answer_eq_iff]
  constructor
  · intro hout
    exact ⟨hleaf.mp hout.rax, hedx.mp hout.rdx⟩
  · intro hsame
    apply sameOutcome_of_low
    · exact (rip_emuCpuid v).1.trans (rip_emuCpuid w).1.symm
    · rw [efer_emuCpuid, efer_emuCpuid, h.readVmcs]
    · rw [(rip_emuCpuid v).2, (rip_emuCpuid w).2, h.rip]
    · simp only [List.forall_mem_cons, List.not_mem_nil, false_imp_iff, implies_true, and_true]
      exact ⟨hleaf.mpr hsame.count, by rw [hrbx, hrbx', h.low], by rw [hrcx, hrcx', h.low],
        hedx.mpr hsame.features⟩

end Width

/-- **Operands of 32 bits.**  Two states that differ only in the upper halves of RAX,
RCX and RDX get the same answer from RDMSR and WRMSR, and from CPUID exactly when its
comparisons with RAX come out the same or make no difference. -/
theorem handleExit_sameOutcome_iff (ops : PluginOps) (interactive : Bool) (e : VmExit)
    (w : Vcpu) (hlow : SameLow e.vcpu w)
    (hreason : e.reason = .rdmsr ∨ e.reason = .wrmsr ∨ e.reason = .cpuid) :
    SameOutcome (handleExit ops interactive e)
        (handleExit ops interactive { e with vcpu := w }) ↔
      (e.reason = .cpuid → SameLeaf e.vcpu w) := by
  unfold handleExit
  rcases hreason with hcase | hcase | hcase
  · simp only [hcase, reduceCtorEq, false_imp_iff, iff_true]
    exact hlow.emuRdmsr
  · simp only [hcase, reduceCtorEq, false_imp_iff, iff_true]
    exact hlow.emuWrmsr
  · simp only [hcase, true_imp_iff]
    exact hlow.emuCpuid_iff

/-- The state of an exit with other bits in the upper half of RAX. -/
theorem sameLow_exitAt (reason : ExitReason) (rax rax' q : U64)
    (h : rax.setWidth 32 = rax'.setWidth 32) :
    SameLow (exitAt reason rax q).vcpu (exitAt reason rax' q).vcpu := by
  refine ⟨rfl, fun r hrax _ _ => ?_, fun r => ?_⟩
  · cases r <;> first | rfl | exact absurd rfl hrax
  · cases r <;> first | rfl | exact h

theorem handleExit_sameOutcome_iff_leaf7 :
    SameOutcome (handleExit noPlugin false (exitAt .cpuid 7 0))
      (handleExit noPlugin false (exitAt .cpuid 0x100000007 0)) :=
  (handleExit_sameOutcome_iff noPlugin false (exitAt .cpuid 7 0) _
    (sameLow_exitAt .cpuid 7 0x100000007 0 (by decide)) (Or.inr (Or.inr rfl))).mpr
    fun _ => ⟨by decide, Or.inr (by decide)⟩

/-- The same leaf, with a bit left over in the upper half of RAX. -/
theorem cpuid_not_sameOutcome :
    SameLow (exitAt .cpuid 0x80000000 0).vcpu (exitAt .cpuid 0x180000000 0).vcpu ∧
      ¬ SameOutcome (handleExit noPlugin false (exitAt .cpuid 0x80000000 0))
        (handleExit noPlugin false (exitAt .cpuid 0x180000000 0)) := by
  refine ⟨sameLow_exitAt _ _ _ _ (by decide), fun hout => ?_⟩
  have hrax := hout.rax
  revert hrax
  decide

end Hvexec
