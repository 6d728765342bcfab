import Hvexec.Vcpu

/-!
# Emulated instructions

The handlers of emu.c for RDMSR, WRMSR, moves to control registers and CPUID.
A handler returns a flag that stops the exit loop, and the processor after it.

Long mode involves three registers: EFER, CR0 and the VM-entry controls.  The
processor enters the guest only when they agree (`LongModeOk`).  Turning paging
on keeps them in agreement, but the other writes do not look: what each exit has
to satisfy for the agreement to last is `KeepsLongMode`, and over a whole run
this condition is exact.
-/

namespace Hvexec

/-- `vmx_get_guest_reg`; the identifiers outside of 0 to 15 read as zero. -/
def vmxGetGuestReg (v : Vcpu) (ident : Nat) : U64 :=
  match ident with
  | 0 => rreg v .rax
  | 1 => rreg v .rcx
  | 2 => rreg v .rdx
  | 3 => rreg v .rbx
  | 4 => rreg v .rsp
  | 5 => rreg v .rbp
  | 6 => rreg v .rsi
  | 7 => rreg v .rdi
  | 8 => rreg v .r8
  | 9 => rreg v .r9
  | 10 => rreg v .r10
  | 11 => rreg v .r11
  | 12 => rreg v .r12
  | 13 => rreg v .r13
  | 14 => rreg v .r14
  | 15 => rreg v .r15
  | _ => 0

/-- The number of the MSR EFER. -/
def msrEfer : BitVec 32 := 0xc0000080

def eferSce : U64 := 0x000000001
def eferLme : U64 := 0x000000100
def eferLma : U64 := 0x000000400
def eferNxe : U64 := 0x000000800

/-- `VM_ENTRY_GUEST_LMA`. -/
def vmEntryGuestLma : U64 := 0x200

def emuRdmsr (v : Vcpu) : Int × Vcpu :=
  let ecx := (rreg v .rcx).setWidth 32
  if ecx = msrEfer then
    let efer := v.readVmcs .guestIa32Efer
    let v := wreg v .rax ((efer.setWidth 32).setWidth 64)
    let v := wreg v .rdx (((efer >>> 32).setWidth 32).setWidth 64)
    (0, wreg v .rip (rreg v .rip + 2))
  else (1, v)

/-- The value that WRMSR writes, EDX and EAX. -/
def wrmsrValue (v : Vcpu) : U64 :=
  let eax := (rreg v .rax).setWidth 32
  let edx := (rreg v .rdx).setWidth 32
  (edx.setWidth 64 <<< 32) ||| eax.setWidth 64

def emuWrmsr (v : Vcpu) : Int × Vcpu :=
  let ecx := (rreg v .rcx).setWidth 32
  if ecx = msrEfer then
    let v := v.writeVmcs .guestIa32Efer (wrmsrValue v)
    (0, wreg v .rip (rreg v .rip + 2))
  else (1, v)

/-- The register that a move to a control register reads. -/
def movCrValue (v : Vcpu) : U64 :=
  vmxGetGuestReg v (((v.readVmcs .roExitQualific) >>> 8) &&& 0xf).toNat

def emuMovCr (v : Vcpu) : Int × Vcpu :=
  let exitQualification := v.readVmcs .roExitQualific
  if exitQualification &&& 0xf = 0 then
    if exitQualification &&& 0xf0 ≠ 0x00 then (0, v)
    else
      let regval := movCrValue v
      let v := v.writeVmcs .ctrlCr0Shadow regval
      let v := wreg v .cr0 regval
      let v :=
        if regval &&& 0x80000000 ≠ 0 then
          let efer := v.readVmcs .guestIa32Efer
          if efer &&& eferLme ≠ 0 then
            let efer := efer ||| (eferLma ||| eferNxe ||| eferSce)
            let v := v.writeVmcs .guestIa32Efer efer
            let entryctls := v.readVmcs .ctrlVmentryControls
            v.writeVmcs .ctrlVmentryControls (entryctls ||| vmEntryGuestLma)
          else v
        else v
      (0, wreg v .rip (rreg v .rip + 3))
  -- CR4, CR8 and every other register: nothing is emulated
  else (0, v)

def emuCpuid (v : Vcpu) : Int × Vcpu :=
  let rax := rreg v .rax
  let v :=
    if rax = 0x80000000 then wreg v .rax 0x80000001
    else if rax = 0x80000001 then wreg v .rdx (1 <<< 29)
    else v
  (0, wreg v .rip (rreg v .rip + 2))

/-! ## Long mode -/

namespace Vcpu

/-- EFER.LME. -/
def lme (v : Vcpu) : Bool := (v.readVmcs .guestIa32Efer)[8]

/-- EFER.LMA. -/
def lma (v : Vcpu) : Bool := (v.readVmcs .guestIa32Efer)[10]

/-- CR0.PG. -/
def pg (v : Vcpu) : Bool := (v.readVmcs .guestCr0)[31]

/-- The VM-entry control "IA-32e mode guest". -/
def ia32eGuest (v : Vcpu) : Bool := (v.readVmcs .ctrlVmentryControls)[9]

end Vcpu

/-- What the processor checks before it enters the guest. -/
structure LongModeOk (v : Vcpu) : Prop where
  entry : v.ia32eGuest = v.lma
  active : v.lma = true ↔ v.lme = true ∧ v.pg = true

instance (v : Vcpu) : Decidable (LongModeOk v) :=
  decidable_of_iff (v.ia32eGuest = v.lma ∧ (v.lma = true ↔ v.lme = true ∧ v.pg = true))
    ⟨fun h => ⟨h.1, h.2⟩, fun h => ⟨h.1, h.2⟩⟩

/-- The exits that are emulated. -/
inductive EmuKind
  | rdmsr | wrmsr | movCr | cpuid
deriving DecidableEq

/-- An exit: the guest's registers, which the guest may have changed at will, and
the qualification that the processor reports. -/
structure EmuExit where
  kind : EmuKind
  regs : Reg → U64
  exitQualific : U64

namespace EmuExit

/-- The processor when the handler is called.  CR0 is not among the registers
that the guest changes without an exit. -/
def enter (v : Vcpu) (x : EmuExit) : Vcpu :=
  { v with regs := x.regs }.writeVmcs .roExitQualific x.exitQualific

def handle (v : Vcpu) : EmuKind → Int × Vcpu
  | .rdmsr => emuRdmsr v
  | .wrmsr => emuWrmsr v
  | .movCr => emuMovCr v
  | .cpuid => emuCpuid v

/-- The processor after an exit was handled. -/
def step (v : Vcpu) (x : EmuExit) : Int × Vcpu :=
  handle (x.enter v) x.kind

/-- The states after each exit of a run, which ends when a handler says so. -/
def states (v : Vcpu) : List EmuExit → List Vcpu
  | [] => []
  | x :: xs =>
      let r := x.step v
      if r.1 ≠ 0 then [r.2] else r.2 :: states r.2 xs

end EmuExit

/-! ## What keeps the registers in agreement -/

/-- A write to EFER leaves LMA as it is, and LME while paging is on; paging is not
turned off in long mode.  The state is the one in which the handler is called. -/
def KeepsLongMode (v : Vcpu) : EmuKind → Prop
  | .wrmsr =>
      (rreg v .rcx).setWidth 32 = msrEfer →
        (wrmsrValue v)[10] = v.lma ∧
          (v.pg = true → (wrmsrValue v)[8] = v.lme)
  | .movCr =>
      v.readVmcs .roExitQualific &&& 0xf = 0 →
        v.readVmcs .roExitQualific &&& 0xf0 = 0 →
          v.lma = true → (movCrValue v)[31] = true
  | .rdmsr => True
  | .cpuid => True

/-- Testing a bit with a mask. -/
theorem and_twoPow_ne_zero (x : U64) (i : Nat) (hi : i < 64) :
    x &&& BitVec.twoPow 64 i ≠ 0 ↔ x.getLsbD i = true := by
  rw [BitVec.and_twoPow]
  cases hbit : x.getLsbD i with
  | false =>
      simp
  | true =>
      simp only [if_true, iff_true]
      intro hcon
      have hget := congrArg (fun y : U64 => y.getLsbD i) hcon
      simp [hi] at hget

theorem and_pg_ne_zero (x : U64) :
    x &&& 0x80000000 ≠ 0 ↔ x[31] = true :=
  and_twoPow_ne_zero x 31 (by decide)

theorem and_eferLme_ne_zero (x : U64) :
    x &&& eferLme ≠ 0 ↔ x[8] = true :=
  and_twoPow_ne_zero x 8 (by decide)

theorem longModeOk_iff (v : Vcpu) :
    LongModeOk v ↔
      v.ia32eGuest = v.lma ∧ (v.lma = true ↔ v.lme = true ∧ v.pg = true) :=
  ⟨fun h => ⟨h.entry, h.active⟩, fun h => ⟨h.1, h.2⟩⟩

section Fields

variable (v : Vcpu) (r : Reg) (f : VmcsField) (x : U64)

@[simp] theorem lma_wreg : (wreg v r x).lma = v.lma := by
  simp [Vcpu.lma, readVmcs_wreg]

@[simp] theorem lme_wreg : (wreg v r x).lme = v.lme := by
  simp [Vcpu.lme, readVmcs_wreg]

@[simp] theorem ia32eGuest_wreg : (wreg v r x).ia32eGuest = v.ia32eGuest := by
  simp [Vcpu.ia32eGuest, readVmcs_wreg]

@[simp] theorem pg_wreg :
    (wreg v r x).pg = if r = .cr0 then x[31] else v.pg := by
  by_cases hr : r = .cr0 <;> simp [Vcpu.pg, readVmcs_wreg, hr]

@[simp] theorem lma_writeVmcs :
    (v.writeVmcs f x).lma = if f = .guestIa32Efer then x[10] else v.lma := by
  by_cases hf : f = .guestIa32Efer
  · simp [Vcpu.lma, readVmcs_writeVmcs, hf]
  · simp [Vcpu.lma, readVmcs_writeVmcs, hf, Ne.symm hf]

@[simp] theorem lme_writeVmcs :
    (v.writeVmcs f x).lme = if f = .guestIa32Efer then x[8] else v.lme := by
  by_cases hf : f = .guestIa32Efer
  · simp [Vcpu.lme, readVmcs_writeVmcs, hf]
  · simp [Vcpu.lme, readVmcs_writeVmcs, hf, Ne.symm hf]

@[simp] theorem pg_writeVmcs :
    (v.writeVmcs f x).pg = if f = .guestCr0 then x[31] else v.pg := by
  by_cases hf : f = .guestCr0
  · simp [Vcpu.pg, readVmcs_writeVmcs, hf]
  · simp [Vcpu.pg, readVmcs_writeVmcs, hf, Ne.symm hf]

@[simp] theorem ia32eGuest_writeVmcs :
    (v.writeVmcs f x).ia32eGuest =
      if f = .ctrlVmentryControls then x[9] else v.ia32eGuest := by
  by_cases hf : f = .ctrlVmentryControls
  · simp [Vcpu.ia32eGuest, readVmcs_writeVmcs, hf]
  · simp [Vcpu.ia32eGuest, readVmcs_writeVmcs, hf, Ne.symm hf]

end Fields

/-- A field that plays no part may be written. -/
theorem longModeOk_writeVmcs_iff {v : Vcpu} {f : VmcsField} (x : U64)
    (hefer : f ≠ .guestIa32Efer) (hcr0 : f ≠ .guestCr0)
    (hctl : f ≠ .ctrlVmentryControls) :
    LongModeOk (v.writeVmcs f x) ↔ LongModeOk v := by
  rw [longModeOk_iff, longModeOk_iff]
  simp [hefer, hcr0, hctl]

/-- A register other than CR0 may be written. -/
theorem longModeOk_wreg_iff {v : Vcpu} {r : Reg} (x : U64) (hr : r ≠ .cr0) :
    LongModeOk (wreg v r x) ↔ LongModeOk v := by
  rw [longModeOk_iff, longModeOk_iff]
  simp [hr]

theorem longModeOk_emuRdmsr (v : Vcpu) :
    LongModeOk (emuRdmsr v).2 ↔ LongModeOk v := by
  simp only [emuRdmsr]
  split_ifs
  · rw [longModeOk_wreg_iff _ (by decide), longModeOk_wreg_iff _ (by decide),
      longModeOk_wreg_iff _ (by decide)]
  · rfl

theorem longModeOk_emuCpuid (v : Vcpu) :
    LongModeOk (emuCpuid v).2 ↔ LongModeOk v := by
  simp only [emuCpuid]
  rw [longModeOk_wreg_iff _ (by decide)]
  split_ifs
  · rw [longModeOk_wreg_iff _ (by decide)]
  · rw [longModeOk_wreg_iff _ (by decide)]
  · rfl

/-- A write to EFER keeps the agreement exactly under its condition. -/
theorem longModeOk_emuWrmsr_iff {v : Vcpu} (h : LongModeOk v) :
    LongModeOk (emuWrmsr v).2 ↔ KeepsLongMode v .wrmsr := by
  by_cases hecx : (rreg v .rcx).setWidth 32 = msrEfer
  · have hstep : (emuWrmsr v).2 =
        wreg (v.writeVmcs .guestIa32Efer (wrmsrValue v)) .rip
          (rreg (v.writeVmcs .guestIa32Efer (wrmsrValue v)) .rip + 2) := by
      simp only [emuWrmsr, if_pos hecx]
    rw [hstep, longModeOk_iff]
    simp only [KeepsLongMode, hecx, true_imp_iff, ia32eGuest_wreg, lma_wreg, lme_wreg,
      pg_wreg, ia32eGuest_writeVmcs, lma_writeVmcs, lme_writeVmcs, pg_writeVmcs,
      reduceCtorEq, if_true, if_false, h.entry]
    have hactive := h.active
    cases hlma : v.lma with
    | false =>
        cases hpg : v.pg with
        | false =>
            cases (wrmsrValue v)[10] <;> simp
        | true =>
            have hlme : v.lme = false := by
              simpa [hlma, hpg] using hactive
            cases (wrmsrValue v)[10] <;> simp [hlme]
    | true =>
        obtain ⟨hlme, hpg⟩ := hactive.mp hlma
        cases (wrmsrValue v)[10] <;> simp [hlme, hpg]
  · have hstep : (emuWrmsr v).2 = v := by
      simp only [emuWrmsr, if_neg hecx]
    rw [hstep]
    exact ⟨fun _ hcon => absurd hcon hecx, fun _ => h⟩

/-- A move to CR0 keeps the agreement exactly under its condition: turning paging
on sets LMA and the entry control, turning it off does not clear them. -/
theorem longModeOk_emuMovCr_iff {v : Vcpu} (h : LongModeOk v) :
    LongModeOk (emuMovCr v).2 ↔ KeepsLongMode v .movCr := by
  by_cases hcr0 : v.readVmcs .roExitQualific &&& 0xf = 0
  · by_cases hmov : v.readVmcs .roExitQualific &&& 0xf0 = 0
    · have hkeeps : KeepsLongMode v .movCr ↔
          (v.lma = true → (movCrValue v)[31] = true) := by
        simp only [KeepsLongMode, hcr0, hmov, true_imp_iff]
      have hentry := h.entry
      have hactive := h.active
      rw [hkeeps]
      simp only [emuMovCr, if_pos hcr0, if_neg (not_not.mpr hmov), and_pg_ne_zero,
        and_eferLme_ne_zero]
      rw [longModeOk_wreg_iff _ (by decide), longModeOk_iff]
      cases hpg : (movCrValue v)[31] with
      | false =>
          -- paging is off, and nothing else changes
          cases hlma : v.lma <;> simp [hentry, hlma, hpg]
      | true =>
          have hefer : ((wreg (v.writeVmcs .ctrlCr0Shadow (movCrValue v)) .cr0
              (movCrValue v)).readVmcs .guestIa32Efer)[8] = v.lme := by
            simp [readVmcs_wreg, readVmcs_writeVmcs, Vcpu.lme]
          simp only [if_true, hefer]
          cases hlme : v.lme with
          | false =>
              have hlma : v.lma = false := by
                simpa [hlme] using hactive
              simp [hentry, hlma, hlme]
          | true =>
              -- LMA and the entry control are set together
              simp [hpg, eferLma, eferNxe, eferSce, vmEntryGuestLma, hefer, hlme]
    · have hstep : (emuMovCr v).2 = v := by
        simp only [emuMovCr, if_pos hcr0, if_pos hmov]
      rw [hstep]
      exact ⟨fun _ _ hcon => absurd hcon hmov, fun _ => h⟩
  · have hstep : (emuMovCr v).2 = v := by
      simp only [emuMovCr, if_neg hcr0]
    rw [hstep]
    exact ⟨fun _ hcon => absurd hcon hcr0, fun _ => h⟩

/-- **One exit** keeps the agreement exactly under its condition. -/
theorem longModeOk_handle_iff {v : Vcpu} (h : LongModeOk v) (kind : EmuKind) :
    LongModeOk (EmuExit.handle v kind).2 ↔ KeepsLongMode v kind := by
  cases kind with
  | rdmsr =>
      exact (longModeOk_emuRdmsr v).trans ⟨fun _ => trivial, fun _ => h⟩
  | wrmsr =>
      exact longModeOk_emuWrmsr_iff h
  | movCr =>
      exact longModeOk_emuMovCr_iff h
  | cpuid =>
      exact (longModeOk_emuCpuid v).trans ⟨fun _ => trivial, fun _ => h⟩

/-- What the guest does between exits does not matter. -/
theorem longModeOk_enter_iff (v : Vcpu) (x : EmuExit) :
    LongModeOk (x.enter v) ↔ LongModeOk v := by
  rw [EmuExit.enter, longModeOk_writeVmcs_iff _ (by decide) (by decide) (by decide),
    longModeOk_iff, longModeOk_iff]
  rfl

/-- Every exit of a run, up to the one that stops it, satisfies its condition in
the state in which its handler is called. -/
def StepsKeepLongMode (v : Vcpu) : List EmuExit → Prop
  | [] => True
  | x :: xs =>
      KeepsLongMode (x.enter v) x.kind ∧
        ((x.step v).1 = 0 → StepsKeepLongMode (x.step v).2 xs)

/-- **Every run** keeps the agreement exactly when each exit satisfies its
condition. -/
theorem longModeOk_states_iff {v : Vcpu} (h : LongModeOk v) (xs : List EmuExit) :
    (∀ w ∈ EmuExit.states v xs, LongModeOk w) ↔ StepsKeepLongMode v xs := by
  induction xs generalizing v with
  | nil =>
      simp [EmuExit.states, StepsKeepLongMode]
  | cons x xs ih =>
      have hstep : LongModeOk (x.step v).2 ↔ KeepsLongMode (x.enter v) x.kind :=
        longModeOk_handle_iff ((longModeOk_enter_iff v x).mpr h) x.kind
      simp only [EmuExit.states, StepsKeepLongMode]
      by_cases hcode : (x.step v).1 = 0
      · simp only [hcode, ne_eq, not_true_eq_false, if_false, List.forall_mem_cons,
          true_imp_iff]
        constructor
        · rintro ⟨hhead, htail⟩
          exact ⟨hstep.mp hhead, (ih hhead).mp htail⟩
        · rintro ⟨hhead, htail⟩
          have hok := hstep.mpr hhead
          exact ⟨hok, (ih hok).mpr htail⟩
      · simp only [ne_eq, hcode, not_false_eq_true, if_true, List.mem_singleton, forall_eq,
          false_imp_iff, and_true]
        exact hstep

/-- `vcpu_setup_ia32` leaves the three registers in agreement. -/
theorem longModeOk_vcpuSetupIa32
    (v : Vcpu) (σ : VmMem) (enableNativeMsr : BitVec 32 → Bool) :
    LongModeOk (vcpuSetupIa32 v σ enableNativeMsr).2.1 := by
  rw [longModeOk_iff]
  simp [vcpuSetupIa32, setupRegs, setupVmcs, Vcpu.lma, Vcpu.lme, Vcpu.pg,
    Vcpu.ia32eGuest, readVmcs_wreg, readVmcs_writeVmcs]

/-- **Long mode over runs.**  From the state that `vcpu_setup_ia32` sets up, the
entry control, EFER and CR0 agree in every state reached exactly when no exit
writes another LMA to EFER, writes another LME while paging is on, or turns
paging off in long mode. -/
theorem longMode_consistent_iff
    (v : Vcpu) (σ : VmMem) (enableNativeMsr : BitVec 32 → Bool) (xs : List EmuExit) :
    let v₀ := (vcpuSetupIa32 v σ enableNativeMsr).2.1
    (∀ w ∈ v₀ :: EmuExit.states v₀ xs,
      w.ia32eGuest = w.lma ∧ (w.lma = true ↔ w.lme = true ∧ w.pg = true)) ↔
      StepsKeepLongMode v₀ xs := by
  intro v₀
  have h : LongModeOk v₀ := longModeOk_vcpuSetupIa32 v σ enableNativeMsr
  simp only [← longModeOk_iff, List.forall_mem_cons, h, true_and]
  exact longModeOk_states_iff h xs

/-- The guest sets EFER.LME, turns paging on and turns it off again. -/
def pagingOffAgain : List EmuExit :=
  [⟨.wrmsr, fun r => if r = .rcx then 0xc0000080 else if r = .rax then 0x100 else 0, 0⟩,
    ⟨.movCr, fun r => if r = .rax then 0x80000033 else 0, 0⟩,
    ⟨.movCr, fun r => if r = .rax then 0x33 else 0, 0⟩]

theorem longMode_inconsistent_pagingOffAgain :
    let v₀ := (vcpuSetupIa32 ⟨fun _ => 0, fun _ => 0⟩ (VmMem.init fun _ => 0)
      fun _ => true).2.1
    ¬ ∀ w ∈ v₀ :: EmuExit.states v₀ pagingOffAgain,
      w.ia32eGuest = w.lma ∧ (w.lma = true ↔ w.lme = true ∧ w.pg = true) := by
  decide +kernel

end Hvexec
