import Hvexec.AddressSpace
import Hvexec.VcpuRun
import Hvexec.Lib.Descriptor

/-!
# The boot code

boot.asm from the first `pop` to the `ret` into the application, and the part of the
processor that it needs: segments, the table of descriptors, the task register, the control
registers behind the masks of the VMCS, and the exits that `vcpu_run` handles.

An instruction is executed where its bytes are found, in the mode that it was assembled
for.  `none` stands for a fault, for an exit that stops the loop, and for what boot.asm does
not come to.
-/

namespace Hvexec

open ByteMemory

/-! ## Instructions -/

/-- The segment registers, and TR. -/
inductive Seg
  | cs | ss | ds | es | fs | gs | tr
deriving DecidableEq

namespace Seg

def selector : Seg → VmcsField
  | cs => .guestCs
  | ss => .guestSs
  | ds => .guestDs
  | es => .guestEs
  | fs => .guestFs
  | gs => .guestGs
  | tr => .guestTr

def base : Seg → VmcsField
  | cs => .guestCsBase
  | ss => .guestSsBase
  | ds => .guestDsBase
  | es => .guestEsBase
  | fs => .guestFsBase
  | gs => .guestGsBase
  | tr => .guestTrBase

def limit : Seg → VmcsField
  | cs => .guestCsLimit
  | ss => .guestSsLimit
  | ds => .guestDsLimit
  | es => .guestEsLimit
  | fs => .guestFsLimit
  | gs => .guestGsLimit
  | tr => .guestTrLimit

def ar : Seg → VmcsField
  | cs => .guestCsAr
  | ss => .guestSsAr
  | ds => .guestDsAr
  | es => .guestEsAr
  | fs => .guestFsAr
  | gs => .guestGsAr
  | tr => .guestTrAr

/-- The fields of the VMCS for a segment. -/
def fields (seg : Seg) : List VmcsField :=
  [seg.selector, seg.base, seg.limit, seg.ar]

end Seg

/-- The instructions of boot.asm.  Those at its start are the ones of `bootEntry`; from
`pushImm` on they are assembled for 64-bit mode. -/
inductive BootAsm
  | entry (i : BootInstr)
  | popEbx
  | movEaxCr4
  | movCr4Eax
  | movEaxCr0
  | movCr0Eax
  | movEax (imm : BitVec 32)
  | movEcx (imm : BitVec 32)
  | orEax (imm : BitVec 32)
  | addEax (imm : BitVec 32)
  | rdmsr
  | wrmsr
  | lgdt (label : BitVec 32)
  | lidt (label : BitVec 32)
  | movAx (label : BitVec 32)
  | movSegAx (seg : Seg)
  | storeDword (imm : BitVec 32)
  | storeEbx
  | storeWord (imm : BitVec 16)
  | ltr (label : BitVec 32)
  | jmpFar (sel : BitVec 16) (label : BitVec 32)
  | pushImm (imm : BitVec 32)
  | pushRax
  | movMem (r : Reg) (label : BitVec 32)
  | movImm (r : Reg) (imm : BitVec 32)
  | ret
  | hlt

/-- What follows `BITS 64`. -/
def BootAsm.bits64 : BootAsm → Bool
  | pushImm _ => true
  | pushRax => true
  | movMem _ _ => true
  | movImm _ _ => true
  | ret => true
  | hlt => true
  | _ => false

/-! ## The processor -/

/-- What `vcpu_run` handles an exit with. -/
structure Monitor where
  ops : PluginOps
  interactive : Bool
  entry₀ : U64
  env : SyscallEnv

/-- The processor and the memory of the guest. -/
structure Machine where
  vcpu : Vcpu
  vm : VmMem

/-- What is read of a control register: the bits of the mask are those of the shadow. -/
def maskedCr (mask shadow cr : U64) : U64 :=
  (shadow &&& mask) ||| (cr &&& ~~~mask)

namespace Machine

variable (s : Machine)

/-- In long mode L of the code segment selects 64-bit mode. -/
def is64 : Bool :=
  s.vcpu.lma && (s.vcpu.readVmcs .guestCsAr)[13]

def eax : BitVec 32 :=
  (rreg s.vcpu .rax).setWidth 32

def next (len : Nat) : Machine :=
  { s with vcpu := wreg s.vcpu .rip (rreg s.vcpu .rip + BitVec.ofNat 64 len) }

/-- The host byte behind a linear address.  Long mode looks it up in the tables at CR3;
there is no paging before. -/
def windows : Windows :=
  if s.vcpu.pg = false then
    fun a =>
      let hva := gpaToHva s.vm.memRegions a
      if hva = 0 then none else some hva
  else if s.vcpu.lma then
    { s.vm with pml4Gpa := entryFrame (s.vcpu.readVmcs .guestCr3) }.windows
  else fun _ => none

/-- The linear address of `n` bytes in a segment; 64-bit mode has no bases and limits. -/
def linear (seg : Seg) (off : U64) (n : Nat) : Option U64 :=
  if s.is64 then some off
  else
    let off := off.setWidth 32
    if off.toNat + n ≤ (s.vcpu.readVmcs seg.limit).toNat + 1 then
      some (((s.vcpu.readVmcs seg.base).setWidth 32 + off).setWidth 64)
    else none

def loadLinear (a : U64) (n : Nat) : Option (List Byte) :=
  bytesFrom (look s.windows s.vm.mem) a n

def storeLinear (a : U64) (bs : List Byte) : Option Machine :=
  (putBytes s.windows s.vm.mem a bs).map fun mem => { s with vm := { s.vm with mem := mem } }

def load (seg : Seg) (off : U64) (n : Nat) : Option (List Byte) :=
  (s.linear seg off n).bind fun a => s.loadLinear a n

def store (seg : Seg) (off : U64) (bs : List Byte) : Option Machine :=
  (s.linear seg off bs.length).bind fun a => s.storeLinear a bs

/-- The stack pointer has the width that B of the stack segment says. -/
def wrapSp (x : U64) : U64 :=
  if s.is64 then x
  else if (s.vcpu.readVmcs .guestSsAr)[14] then (x.setWidth 32).setWidth 64
  else (x.setWidth 16).setWidth 64

def sp : U64 :=
  s.wrapSp (rreg s.vcpu .rsp)

/-- The bits above the stack pointer stay. -/
def setSp (x : U64) : Machine :=
  { s with vcpu := wreg s.vcpu .rsp (rreg s.vcpu .rsp - s.sp + s.wrapSp x) }

def pop (n : Nat) : Option (U64 × Machine) :=
  (s.load .ss s.sp n).map fun bs =>
    (BitVec.ofNat 64 (leNat bs), s.setSp (s.sp + BitVec.ofNat 64 n))

def push (n : Nat) (x : U64) : Option Machine :=
  let top := s.wrapSp (s.sp - BitVec.ofNat 64 n)
  (s.store .ss top (leBytes n x.toNat)).map fun s => s.setSp top

/-- An exit.  The loop handles it, and the processor enters the guest again if its
registers agree. -/
def exit (w : Monitor) (reason : ExitReason) (qualific : U64) : Option Machine :=
  let e : VmExit :=
    ⟨reason, s.vcpu.writeVmcs .roExitQualific qualific, s.vm, w.entry₀, w.env⟩
  let h := handleExit w.ops w.interactive e
  if h.stop = false ∧ LongModeOk h.vcpu then some { s with vcpu := h.vcpu } else none

/-- A move to a control register exits when it changes a bit of the mask. -/
def movToCr (w : Monitor) (len : Nat) (mask shadow cr : VmcsField) (qualific : U64) :
    Option Machine :=
  let x := s.eax.setWidth 64
  let m := s.vcpu.readVmcs mask
  if x &&& m ≠ s.vcpu.readVmcs shadow &&& m then s.exit w .movCr qualific
  else some ({ s with
    vcpu := s.vcpu.writeVmcs cr ((s.vcpu.readVmcs cr &&& m) ||| (x &&& ~~~m)) }.next len)

/-! ## Descriptors -/

/-- The address of a descriptor of the GDT and its `n` bytes. -/
def descriptorAt (sel : BitVec 16) (n : Nat) : Option (U64 × List Byte) :=
  let off := sel.toNat / 8 * 8
  let a := s.vcpu.readVmcs .guestGdtrBase + BitVec.ofNat 64 off
  if sel[2] = true ∨ off = 0 ∨ (s.vcpu.readVmcs .guestGdtrLimit).toNat + 1 < off + n then none
  else (s.loadLinear a n).map fun bs => (a, bs)

end Machine

/-- What the processor requires of the segment at privilege level zero. -/
def Seg.accepts (seg : Seg) (sel : BitVec 16) (d : Descriptor) : Bool :=
  if seg = .tr then d.present && !d.codeOrData && decide (d.type = 9)
  else
    d.present && d.codeOrData && d.accessed &&
      match seg with
      | .cs => d.code && decide (d.dpl = 0) && decide (sel.toNat % 4 = 0) &&
          !(d.flags[1] && d.flags[2])
      | .ss => !d.code && d.permits && decide (d.dpl = 0) && decide (sel.toNat % 4 = 0)
      | _ => !d.code || d.permits

/-- A segment register and its hidden part. -/
def setSeg (v : Vcpu) (seg : Seg) (sel : BitVec 16) (base : U64) (d : Descriptor) : Vcpu :=
  let v := v.writeVmcs seg.selector (sel.setWidth 64)
  let v := v.writeVmcs seg.base base
  let v := v.writeVmcs seg.limit (d.lastOffset.setWidth 64)
  v.writeVmcs seg.ar (d.accessRights.setWidth 64)

section SetSeg

variable (v : Vcpu) (seg : Seg) (sel : BitVec 16) (base : U64) (d : Descriptor)

/-- The four fields are different ones. -/
theorem readVmcs_setSeg :
    (setSeg v seg sel base d).readVmcs seg.selector = sel.setWidth 64 ∧
      (setSeg v seg sel base d).readVmcs seg.base = base ∧
      (setSeg v seg sel base d).readVmcs seg.limit = d.lastOffset.setWidth 64 ∧
      (setSeg v seg sel base d).readVmcs seg.ar = d.accessRights.setWidth 64 := by
  cases seg <;>
    simp [setSeg, readVmcs_writeVmcs, Seg.selector, Seg.base, Seg.limit, Seg.ar]

theorem readVmcs_setSeg_of_not_mem {f : VmcsField} (hf : f ∉ seg.fields) :
    (setSeg v seg sel base d).readVmcs f = v.readVmcs f := by
  simp only [Seg.fields, List.mem_cons, List.not_mem_nil, or_false, not_or] at hf
  simp [setSeg, readVmcs_writeVmcs, hf]

theorem rreg_setSeg (r : Reg) : rreg (setSeg v seg sel base d) r = rreg v r := by
  cases seg <;> simp [setSeg, rreg_writeVmcs, Seg.selector, Seg.base, Seg.limit, Seg.ar]

end SetSeg

namespace Machine

variable (s : Machine)

def loadSeg (seg : Seg) (sel : BitVec 16) : Option Machine :=
  (s.descriptorAt sel 8).bind fun r =>
    let d := Descriptor.ofBytes r.2
    if seg.accepts sel d then
      some { s with vcpu := setSeg s.vcpu seg sel (d.base.setWidth 64) d }
    else none

/-- The descriptor of a task has 16 bytes in long mode, and is marked as busy. -/
def loadTr (sel : BitVec 16) : Option Machine :=
  (s.descriptorAt sel 16).bind fun r =>
    let d := Descriptor.ofBytes r.2
    let high := BitVec.ofNat 32 (leNat ((r.2.drop 8).take 4))
    let busy := { d with access := d.access ||| 2 }
    if Seg.tr.accepts sel d then
      (s.storeLinear (r.1 + 5) [busy.access]).map fun s =>
        { s with vcpu := setSeg s.vcpu .tr sel (high ++ d.base) busy }
    else none

/-! ## What an instruction does -/

/-- The instruction has `len` bytes. -/
def exec (w : Monitor) (len : Nat) : BootAsm → Option Machine
  | .entry .popEax =>
      (s.pop 4).map fun r => { r.2 with vcpu := wreg r.2.vcpu .rax r.1 }.next len
  | .entry (.movToMem label) =>
      (s.store .ds (label.setWidth 64) (leBytes 4 s.eax.toNat)).map fun s => s.next len
  | .entry .movCr3Eax =>
      some ({ s with vcpu := s.vcpu.writeVmcs .guestCr3 (s.eax.setWidth 64) }.next len)
  | .entry .pushEax => (s.push 4 (s.eax.setWidth 64)).map fun s => s.next len
  | .popEbx => (s.pop 4).map fun r => { r.2 with vcpu := wreg r.2.vcpu .rbx r.1 }.next len
  | .movEaxCr4 =>
      let x := maskedCr (s.vcpu.readVmcs .ctrlCr4Mask) (s.vcpu.readVmcs .ctrlCr4Shadow)
        (s.vcpu.readVmcs .guestCr4)
      some ({ s with vcpu := wreg s.vcpu .rax ((x.setWidth 32).setWidth 64) }.next len)
  | .movCr4Eax => s.movToCr w len .ctrlCr4Mask .ctrlCr4Shadow .guestCr4 4
  | .movEaxCr0 =>
      let x := maskedCr (s.vcpu.readVmcs .ctrlCr0Mask) (s.vcpu.readVmcs .ctrlCr0Shadow)
        (s.vcpu.readVmcs .guestCr0)
      some ({ s with vcpu := wreg s.vcpu .rax ((x.setWidth 32).setWidth 64) }.next len)
  | .movCr0Eax => s.movToCr w len .ctrlCr0Mask .ctrlCr0Shadow .guestCr0 0
  | .movEax imm => some ({ s with vcpu := wreg s.vcpu .rax (imm.setWidth 64) }.next len)
  | .movEcx imm => some ({ s with vcpu := wreg s.vcpu .rcx (imm.setWidth 64) }.next len)
  | .orEax imm =>
      some ({ s with vcpu := wreg s.vcpu .rax ((s.eax ||| imm).setWidth 64) }.next len)
  | .addEax imm =>
      some ({ s with vcpu := wreg s.vcpu .rax ((s.eax + imm).setWidth 64) }.next len)
  -- the MSRs that the guest may use natively cause no exit
  | .rdmsr =>
      if (rreg s.vcpu .rcx).setWidth 32 ∈ nativeMsrs then none else s.exit w .rdmsr 0
  | .wrmsr =>
      if (rreg s.vcpu .rcx).setWidth 32 ∈ nativeMsrs then none else s.exit w .wrmsr 0
  | .lgdt label =>
      (s.load .ds (label.setWidth 64) 6).map fun bs =>
        let v := s.vcpu.writeVmcs .guestGdtrLimit (BitVec.ofNat 64 (leNat (bs.take 2)))
        { s with vcpu := v.writeVmcs .guestGdtrBase (BitVec.ofNat 64 (leNat (bs.drop 2))) }.next
          len
  | .lidt label =>
      (s.load .ds (label.setWidth 64) 6).map fun bs =>
        let v := s.vcpu.writeVmcs .guestIdtrLimit (BitVec.ofNat 64 (leNat (bs.take 2)))
        { s with vcpu := v.writeVmcs .guestIdtrBase (BitVec.ofNat 64 (leNat (bs.drop 2))) }.next
          len
  | .movAx label =>
      (s.load .ds (label.setWidth 64) 2).map fun bs =>
        let ax : BitVec 16 := BitVec.ofNat 16 (leNat bs)
        let x := (rreg s.vcpu .rax).extractLsb' 16 48 ++ ax
        { s with vcpu := wreg s.vcpu .rax x }.next len
  | .movSegAx seg => (s.loadSeg seg (s.eax.setWidth 16)).map fun s => s.next len
  | .storeDword imm =>
      (s.store .ds (s.eax.setWidth 64) (leBytes 4 imm.toNat)).map fun s => s.next len
  | .storeEbx =>
      let ebx := (rreg s.vcpu .rbx).setWidth 32
      (s.store .ds (s.eax.setWidth 64) (leBytes 4 ebx.toNat)).map fun s => s.next len
  | .storeWord imm =>
      (s.store .ds (s.eax.setWidth 64) (leBytes 2 imm.toNat)).map fun s => s.next len
  | .ltr label =>
      (s.load .ds (label.setWidth 64) 2).bind fun bs =>
        (s.loadTr (BitVec.ofNat 16 (leNat bs))).map fun s => s.next len
  | .jmpFar sel label =>
      (s.loadSeg .cs sel).map fun s =>
        { s with vcpu := wreg s.vcpu .rip (label.setWidth 64) }
  | .pushImm imm => (s.push 8 (imm.signExtend 64)).map fun s => s.next len
  | .pushRax => (s.push 8 (rreg s.vcpu .rax)).map fun s => s.next len
  | .movMem r label =>
      (s.load .ds (label.signExtend 64) 8).map fun bs =>
        { s with vcpu := wreg s.vcpu r (BitVec.ofNat 64 (leNat bs)) }.next len
  | .movImm r imm => some ({ s with vcpu := wreg s.vcpu r (imm.signExtend 64) }.next len)
  | .ret =>
      (s.pop 8).bind fun r =>
        if Canonical r.1 then some { r.2 with vcpu := wreg r.2.vcpu .rip r.1 } else none
  | .hlt => s.exit w .hlt 0

/-- The bytes of the instruction are fetched, and it is executed. -/
def step (w : Monitor) (asm : BootAsm → List Byte) (i : BootAsm) : Option Machine :=
  if s.is64 ≠ i.bits64 then none
  else
    (s.load .cs (rreg s.vcpu .rip) (asm i).length).bind fun bs =>
      if bs = asm i then s.exec w (asm i).length i else none

def run (w : Monitor) (asm : BootAsm → List Byte) : List BootAsm → Machine → Option Machine
  | [], s => some s
  | i :: is, s => (s.step w asm i).bind (run w asm is)

end Machine
/-! ## The text of boot.asm -/

/-- The labels that depend on the lengths of the instructions. -/
structure Labels where
  bits64 : BitVec 32
  halt : BitVec 32
  gdtHdr : BitVec 32

namespace Labels

variable (l : Labels)

def gdt : BitVec 32 :=
  l.gdtHdr + 6

def idtHdr : BitVec 32 :=
  l.gdt + 56

/-- The IDT is empty. -/
def idt : BitVec 32 :=
  l.idtHdr + 6

def ssSel : BitVec 32 :=
  l.idt

def tssSel : BitVec 32 :=
  l.ssSel + 2

def appEntry : BitVec 32 :=
  l.tssSel + 2

def appArgc : BitVec 32 :=
  l.appEntry + 8

def appArgv : BitVec 32 :=
  l.appEntry + 16

end Labels

/-- `TSS_BASE`. -/
def tssBase : BitVec 32 := 0x7000

/-- `TSS_LIMIT`. -/
def tssLimit : BitVec 32 := 0x67

/-- The control registers, up to the move that turns paging on. -/
def bootPaging : List BootAsm :=
  [.movEaxCr4, .orEax 0b10100000, .orEax 0b11000000000, .movCr4Eax,
    .movEcx 0xC0000080, .rdmsr, .orEax 0b100000000, .wrmsr,
    .movEaxCr0, .orEax 0x80000000, .orEax 0b10, .movCr0Eax]

/-- The tables and the data segments. -/
def bootSegments (l : Labels) : List BootAsm :=
  [.lgdt l.gdtHdr, .lidt l.idtHdr, .movAx l.ssSel,
    .movSegAx .ss, .movSegAx .ds, .movSegAx .es, .movSegAx .fs, .movSegAx .gs]

/-- `n` words of zeros after the one that EAX points to. -/
def zeroDwords : Nat → List BootAsm
  | 0 => []
  | n + 1 => .addEax 0x4 :: .storeDword 0x0 :: zeroDwords n

/-- The task segment: RSP0, the upper word of RSP0, RSP1 and RSP2, two reserved words, IST1 to
IST7, two reserved words, and the address of the I/O map. -/
def bootTask : List BootAsm :=
  [.movEax tssBase, .storeDword 0x0, .addEax 0x4, .popEbx, .storeEbx] ++
    zeroDwords (1 + 4 + 2 + 14 + 2) ++
    [.addEax 0x4, .storeWord 0x0, .addEax 0x2, .storeWord 0x0]

def bootCode32 (l : Labels) : List BootAsm :=
  (bootEntry l.appEntry).map .entry ++ bootPaging ++ bootSegments l ++ bootTask ++
    [.ltr l.tssSel, .jmpFar 0b00001000 l.bits64]

def bootCode64 (l : Labels) : List BootAsm :=
  [.pushImm l.halt, .movMem .rax l.appEntry, .pushRax,
    .movImm .rax 0, .movImm .rbx 0, .movImm .rcx 0, .movImm .rdx 0,
    .movMem .rdi l.appArgc, .movMem .rsi l.appArgv, .ret]

/-- What is executed, up to the jump to the application. -/
def bootCode (l : Labels) : List BootAsm :=
  bootCode32 l ++ bootCode64 l

/-! ## Its data -/

/-- `dw`. -/
def dw (x : U64) : List Byte :=
  leBytes 2 x.toNat

/-- `dd`. -/
def dd (x : U64) : List Byte :=
  leBytes 4 x.toNat

/-- `GDT_ENTRY base, limit, flags, type`. -/
def gdtEntry (base limit : U64) (flags type : Byte) : List Byte :=
  dw (limit &&& 0xffff) ++ dw (base &&& 0xffff) ++
    [((base >>> 16) &&& 0xff).setWidth 8, type ||| ((flags <<< 4) &&& 0xf0),
      (flags &&& (0xf0 : Byte)) ||| ((limit >>> 16) &&& 0x0f).setWidth 8,
      (base >>> 24).setWidth 8]

theorem dw_and_mask (x : U64) :
    dw (x &&& 0xffff) = [x.extractLsb' 0 8, x.extractLsb' 8 8] := by
  have hlow : (x &&& 0xffff).toNat = x.toNat % 2 ^ 16 := by
    rw [BitVec.toNat_and]
    exact Nat.and_two_pow_sub_one_eq_mod _ 16
  have hfst : BitVec.ofNat 8 (x &&& 0xffff).toNat = x.extractLsb' 0 8 := by
    apply BitVec.eq_of_toNat_eq
    rw [hlow, BitVec.toNat_ofNat, BitVec.extractLsb'_toNat, Nat.shiftRight_zero]
    omega
  have hsnd : BitVec.ofNat 8 ((x &&& 0xffff).toNat / 256) = x.extractLsb' 8 8 := by
    apply BitVec.eq_of_toNat_eq
    rw [hlow, BitVec.toNat_ofNat, BitVec.extractLsb'_toNat, Nat.shiftRight_eq_div_pow]
    omega
  show [_, _] = _
  rw [hfst, hsnd]

/-- `GDT_ENTRY` packs a descriptor. -/
theorem gdtEntry_eq_bytes (base limit : U64) (flags type : Byte) :
    gdtEntry base limit flags type =
      Descriptor.bytes ⟨base.setWidth 32, limit.setWidth 20, type ||| (flags <<< 4),
        (flags >>> 4).setWidth 4⟩ := by
  have hpart : ∀ (x : U64) (w s : Nat), s + 8 ≤ w → w ≤ 64 →
      (x.setWidth w).extractLsb' s 8 = x.extractLsb' s 8 := by
    intro x w s hs hw
    ext i hi
    simp
    omega
  have hbyte : ∀ (x : U64) (s : Nat), (x >>> s).setWidth 8 = x.extractLsb' s 8 := by
    intro x s
    ext i hi
    simp
  have hmasked : ∀ x : U64, ((x >>> 16) &&& 0xff).setWidth 8 = x.extractLsb' 16 8 := by
    intro x
    rw [← hbyte]
    ext i hi
    interval_cases i <;> simp
  have haccess : type ||| ((flags <<< 4) &&& (0xf0 : Byte)) = type ||| (flags <<< 4) := by
    ext i hi
    interval_cases i <;> simp
  have hflags : (flags &&& (0xf0 : Byte)) ||| ((limit >>> 16) &&& 0x0f).setWidth 8 =
      (flags >>> 4).setWidth 4 ++ (limit.setWidth 20).extractLsb' 16 4 := by
    apply BitVec.eq_of_getLsbD_eq
    intro i hi
    rw [BitVec.getLsbD_append]
    interval_cases i <;> simp
  rw [gdtEntry, dw_and_mask, dw_and_mask, hmasked, haccess, hflags, hbyte]
  unfold Descriptor.bytes
  rw [hpart limit 20 0 (by decide) (by decide), hpart limit 20 8 (by decide) (by decide),
    hpart base 32 0 (by decide) (by decide), hpart base 32 8 (by decide) (by decide),
    hpart base 32 16 (by decide) (by decide), hpart base 32 24 (by decide) (by decide)]
  rfl

/-- The fields of a descriptor, whatever comes behind it. -/
theorem ofBytes_gdtEntry (base limit : U64) (flags type : Byte) (rest : List Byte) :
    Descriptor.ofBytes (gdtEntry base limit flags type ++ rest) =
      ⟨base.setWidth 32, limit.setWidth 20, type ||| (flags <<< 4),
        (flags >>> 4).setWidth 4⟩ := by
  rw [gdtEntry_eq_bytes]
  exact Descriptor.ofBytes_bytes _
/-- `TSS_ENTRY base, limit, flags, type`. -/
def tssEntry (base limit : U64) (flags type : Byte) : List Byte :=
  gdtEntry base limit flags type ++ dd (base >>> 32) ++ dd 0

def executeRead : Byte := 0b1011
def readWrite : Byte := 0b0011
def ring0CodeData64 : Byte := 0b10101001
def ring3CodeData64 : Byte := 0b10101111
def tssType : Byte := 0b1001
def tssFlags : Byte := 0b00001000

/-- The GDT. -/
def bootGdt : List Byte :=
  gdtEntry 0 0 0 0 ++ gdtEntry 0 0xffffff ring0CodeData64 executeRead ++
    gdtEntry 0 0xffffff ring0CodeData64 readWrite ++
    tssEntry (tssBase.setWidth 64) (tssLimit.setWidth 64) tssFlags tssType ++
    gdtEntry 0 0xffffff ring3CodeData64 executeRead ++
    gdtEntry 0 0xffffff ring3CodeData64 readWrite

/-- What lies between `halt` and the labels of `bootEntry`.  The limit of the IDT is counted
from the GDT on. -/
def bootTables (l : Labels) : List Byte :=
  dw 55 ++ dd (l.gdt.setWidth 64) ++ bootGdt ++ dw 61 ++ dd (l.idt.setWidth 64) ++
    dw 0b00010000 ++ dw 0b00011000

theorem length_bootTables (l : Labels) : (bootTables l).length = 72 :=
  rfl

/-- `content` is boot.asm, assembled by `asm` with `l` as its labels.  The lengths are those
of the instructions that `emu.c` steps over. -/
structure Assembled (asm : BootAsm → List Byte) (l : Labels) (content : List Byte) : Prop where
  content : content =
    (bootCode l ++ [BootAsm.hlt]).flatMap asm ++ bootTables l ++ List.replicate 24 0
  bits64 : l.bits64.toNat = 0x8000 + ((bootCode32 l).flatMap asm).length
  halt : l.halt.toNat = 0x8000 + ((bootCode l).flatMap asm).length
  gdtHdr : l.gdtHdr.toNat = 0x8000 + ((bootCode l ++ [BootAsm.hlt]).flatMap asm).length
  rdmsr : (asm .rdmsr).length = 2
  wrmsr : (asm .wrmsr).length = 2
  movCr0Eax : (asm .movCr0Eax).length = 3

end Hvexec
