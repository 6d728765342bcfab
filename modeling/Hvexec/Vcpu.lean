import Hvexec.VmMem

/-!
# The virtual processor

Registers and VMCS fields of the virtual processor, as far as the program reads
or writes them, and the parts of vcpu.c that set it up.  `HV_X86_CR0` is the
guest's CR0 of the VMCS under another name; the hypervisor's calls that read and
write the two kinds of fields are taken to succeed.
-/

namespace Hvexec

open ByteMemory

/-- `CONF_INIT_NUM_PAGES`. -/
def confInitNumPages : BitVec 32 := 16

/-- `CONF_START_ADDR`. -/
def confStartAddr : U64 := 0x8000

/-- `CONF_STACK_ADDR`. -/
def confStackAddr : U64 := 0x7000

/-- The registers, `HV_X86_RIP` and so on. -/
inductive Reg
  | rip | rflags | rax | rcx | rdx | rbx | rsi | rdi | rsp | rbp
  | r8 | r9 | r10 | r11 | r12 | r13 | r14 | r15
  | cr0
deriving DecidableEq

/-- The fields of the VMCS, `VMCS_CTRL_PIN_BASED` and so on. -/
inductive VmcsField
  | ctrlPinBased | ctrlCpuBased | ctrlCpuBased2
  | ctrlVmentryControls | ctrlVmexitControls | ctrlExcBitmap
  | ctrlCr0Mask | ctrlCr0Shadow | guestCr0 | guestCr3
  | ctrlCr4Mask | ctrlCr4Shadow | guestCr4
  | guestCs | guestCsBase | guestCsLimit | guestCsAr
  | guestDs | guestDsBase | guestDsLimit | guestDsAr
  | guestEs | guestEsBase | guestEsLimit | guestEsAr
  | guestFs | guestFsBase | guestFsLimit | guestFsAr
  | guestGs | guestGsBase | guestGsLimit | guestGsAr
  | guestSs | guestSsBase | guestSsLimit | guestSsAr
  | guestTr | guestTrBase | guestTrLimit | guestTrAr
  | guestLdtr | guestLdtrBase | guestLdtrLimit | guestLdtrAr
  | guestGdtrBase | guestGdtrLimit | guestIdtrBase | guestIdtrLimit
  | guestIa32Efer
  | roExitReason | roExitQualific | roVmexitInstrLen | roIdtVectorInfo
deriving DecidableEq

/-- The state of the virtual processor. -/
structure Vcpu where
  regs : Reg → U64
  vmcs : VmcsField → U64

namespace Vcpu

/-- `hv_vmx_vcpu_read_vmcs`. -/
def readVmcs (v : Vcpu) (f : VmcsField) : U64 :=
  v.vmcs f

/-- `hv_vmx_vcpu_write_vmcs`. -/
def writeVmcs (v : Vcpu) (f : VmcsField) (x : U64) : Vcpu :=
  { v with vmcs := Function.update v.vmcs f x }

end Vcpu

/-- `hv_vcpu_read_register` and `rreg`. -/
def rreg (v : Vcpu) : Reg → U64
  | .cr0 => v.vmcs .guestCr0
  | r => v.regs r

/-- `hv_vcpu_write_register` and `wreg`. -/
def wreg (v : Vcpu) (r : Reg) (x : U64) : Vcpu :=
  match r with
  | .cr0 => v.writeVmcs .guestCr0 x
  | r => { v with regs := Function.update v.regs r x }

section ReadWrite

variable (v : Vcpu) (r r' : Reg) (f f' : VmcsField) (x : U64)

theorem rreg_wreg :
    rreg (wreg v r x) r' = if r' = r then x else rreg v r' := by
  cases r <;> cases r' <;> rfl

theorem rreg_writeVmcs :
    rreg (v.writeVmcs f x) r = if r = .cr0 ∧ f = .guestCr0 then x else rreg v r := by
  cases r <;> simp [rreg, Vcpu.writeVmcs, Function.update_apply, eq_comm]

theorem readVmcs_wreg :
    (wreg v r x).readVmcs f =
      if r = .cr0 ∧ f = .guestCr0 then x else v.readVmcs f := by
  cases r <;> simp [wreg, Vcpu.readVmcs, Vcpu.writeVmcs, Function.update_apply]

theorem readVmcs_writeVmcs :
    (v.writeVmcs f x).readVmcs f' = if f' = f then x else v.readVmcs f' :=
  Function.update_apply v.vmcs f x f'

end ReadWrite

/-! ## vcpu_setup_ia32 -/

/-- The fields that `vcpu_setup_ia32` writes, in order. -/
def setupVmcs : List (VmcsField × U64) :=
  [(.ctrlPinBased, 0x3f), (.ctrlCpuBased, 0xb5186dfa), (.ctrlCpuBased2, 0xaa),
    (.ctrlVmentryControls, 0x91ff), (.ctrlVmexitControls, 0x236fff),
    (.ctrlExcBitmap, 0x40000),
    (.ctrlCr0Mask, 0xe0000031), (.ctrlCr0Shadow, 0x21), (.guestCr0, 0x31),
    (.guestCr3, 0x0),
    (.ctrlCr4Mask, 0x2000), (.ctrlCr4Shadow, 0x0), (.guestCr4, 0x2000),
    (.guestCs, 0x10), (.guestCsBase, 0x0), (.guestCsLimit, 0xffffffff),
    (.guestCsAr, 0xc09b),
    (.guestDs, 0x18), (.guestDsBase, 0x0), (.guestDsLimit, 0xffffffff),
    (.guestDsAr, 0xc093),
    (.guestEs, 0x18), (.guestEsBase, 0xffffffff), (.guestEsLimit, 0xffffffff),
    (.guestEsAr, 0xc093),
    (.guestFs, 0x0), (.guestFsBase, 0x0), (.guestFsLimit, 0xffff), (.guestFsAr, 0x93),
    (.guestGs, 0x0), (.guestGsBase, 0x0), (.guestGsLimit, 0xffff), (.guestGsAr, 0x93),
    (.guestSs, 0x18), (.guestSsBase, 0x0), (.guestSsLimit, 0xffffffff),
    (.guestSsAr, 0xc093),
    (.guestTr, 0x0), (.guestTrBase, 0x0), (.guestTrLimit, 0x0), (.guestTrAr, 0x8b),
    (.guestLdtr, 0x0), (.guestLdtrBase, 0x0), (.guestLdtrLimit, 0xffff),
    (.guestLdtrAr, 0x82),
    (.guestGdtrBase, 0x0), (.guestGdtrLimit, 0x1f),
    (.guestIdtrBase, 0x0), (.guestIdtrLimit, 0xffff),
    (.guestIa32Efer, 0x0)]

/-- The MSRs that the guest may use natively, in the order of the calls. -/
def nativeMsrs : List (BitVec 32) :=
  [0xc0000082, 0xc0000083, 0xc0000081, 0xc0000084, 0xc0000102, 0xc0000101, 0xc0000100,
    0x174, 0x175, 0x176, 0x010, 0xc0000103]

/-- The registers that `vcpu_setup_ia32` writes, in order. -/
def setupRegs : List (Reg × U64) :=
  [(.rip, confStartAddr), (.rflags, 0x2), (.rax, 0), (.rcx, 0), (.rdx, 0), (.rbx, 0),
    (.rsi, 0), (.rdi, 0), (.rsp, confStackAddr - 4), (.rbp, 0)]

/-- The GDT and the PML4 word that `vcpu_setup_ia32` writes to guest memory. -/
def setupMem (σ : VmMem) : VmMem :=
  let gdtGpa : U64 := 0
  let null : U64 := 0x0000000000000000
  let code : U64 := 0x00cf9a000000ffff
  let data : U64 := 0x00cf92000000ffff
  let σ := writeU64 σ gdtGpa null
  let σ := writeU64 σ (gdtGpa + 8) null
  let σ := writeU64 σ (gdtGpa + 16) code
  let σ := writeU64 σ (gdtGpa + 24) data
  (vmMemWrite σ (confStackAddr - 4) (leBytes 4 σ.pml4Gpa.toNat)).2

/-- `enableNativeMsr` says for which MSRs `hv_vcpu_enable_native_msr` succeeds. -/
def vcpuSetupIa32 (v : Vcpu) (σ : VmMem) (enableNativeMsr : BitVec 32 → Bool) :
    Int × Vcpu × VmMem :=
  let err := if nativeMsrs.all enableNativeMsr then 0 else 1
  let v := setupVmcs.foldl (fun v w => v.writeVmcs w.1 w.2) v
  let v := setupRegs.foldl (fun v w => wreg v w.1 w.2) v
  (err, v, setupMem σ)

/-! ## The stack -/

def push (v : Vcpu) (σ : VmMem) (val : List Byte) : Int × Vcpu × VmMem :=
  let stackAddr := rreg v .rsp - BitVec.ofNat 64 val.length
  let r := vmMemWrite σ stackAddr val
  if r.1 ≠ val.length then (-1, v, r.2)
  else (0, wreg v .rsp stackAddr, r.2)

def push64 (v : Vcpu) (σ : VmMem) (val : U64) : Int × Vcpu × VmMem :=
  push v σ (leBytes 8 val.toNat)

end Hvexec
