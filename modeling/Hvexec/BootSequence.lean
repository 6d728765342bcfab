import Hvexec.ArgvLayout
import Hvexec.BootRules

/-!
# From the hand-over to the application

`main` leaves the virtual processor in 32-bit mode before the first instruction of boot.asm,
with the entry point, argc and argv on the stack.  The code turns on long mode, which takes
three exits, loads the segments and the task register, and returns into the application.
-/

namespace Hvexec

open ByteMemory IntervalList

/-! ## The hand-over -/

/-- The machine is where the boot code is. -/
structure Handing (s : Machine) (b : Boot) : Prop where
  vm : s.vm = b.vm
  eax : s.eax = b.eax
  rsp : rreg s.vcpu .rsp = b.esp.setWidth 64
  cr3 : s.vcpu.readVmcs .guestCr3 = b.cr3.setWidth 64

/-- Something is held everywhere in the first pages. -/
theorem LowMem.exists_holds {σ : VmMem} {hva gpa : U64} (h : LowMem σ hva) {n : Nat}
    (hlow : gpa.toNat + n ≤ 0x10000) :
    ∃ bs, bs.length = n ∧ Holds σ gpa bs := by
  refine ⟨(List.range n).map fun k => σ.mem (hva + (gpa + BitVec.ofNat 64 k)), by simp,
    fun y hlo hhi => ?_⟩
  rw [List.length_map, List.length_range] at hhi
  have hhi' : y.toNat < MemRegion.hi ⟨0, 16, hva⟩ := by
    simp [MemRegion.hi]
    omega
  have hback : gpa + BitVec.ofNat 64 (y.toNat - gpa.toNat) = y := by
    apply BitVec.eq_of_toNat_eq
    rw [toNat_add_ofNat (by omega)]
    omega
  rw [byteAt_of_mem h.regions h.host h.first (Nat.zero_le _) hhi',
    List.getD_eq_getElem _ _ (by simp; omega), List.getElem_map, List.getElem_range, hback]
  exact congrArg (fun z => some (σ.mem (hva + z))) (BitVec.sub_zero y)

section HandOver

variable {m : MainRun} {content : List Byte} {asm : BootAsm → List Byte}
  {code is rest : List BootAsm} {w : Monitor} {s : Machine} {b : Boot} {label : BitVec 32}

theorem toNat_setWidth_64 (x : BitVec 32) : (x.setWidth 64).toNat = x.toNat := by
  rw [BitVec.toNat_setWidth]
  omega

/-- A word is popped. -/
theorem Handing.pop (hb : Handing s b) (h : m.AppLoaded content)
    (hr : Running m asm code s (.entry .popEax :: is)) (hmode : s.is64 = false)
    (hesp : b.esp.toNat + 4 ≤ 0x8000) :
    ∃ s', Runs m asm code w [.entry .popEax] is [.rax, .rsp] [] s s' ∧
      Handing s' (b.step .popEax) := by
  have hwide := toNat_setWidth_64 b.esp
  obtain ⟨bs, hlen, hbs⟩ : ∃ bs, bs.length = 4 ∧ Holds s.vm (b.esp.setWidth 64) bs :=
    (hr.low.lowMem h.toLoaded).exists_holds (by omega)
  rw [← hb.rsp] at hbs
  obtain ⟨s', hruns, hrax, hrsp, hvm⟩ := hr.popReg (w := w) h (r := .rax) hmode rfl (by decide)
    (by decide) (by decide) hbs hlen (by rw [hb.rsp]; omega)
  refine ⟨s', hruns, hvm.trans hb.vm, ?_, ?_, ?_⟩
  · -- the bytes of the word
    have hword : leNat bs = (readU32 b.vm (b.esp.setWidth 64)).toNat := by
      have hbytes := leBytes_readU32 hbs hlen (by rw [hb.rsp]; omega)
      rw [← hbytes, leNat_leBytes, hb.vm, hb.rsp]
      exact Nat.mod_eq_of_lt (BitVec.isLt _)
    rw [Machine.eax, hrax, hword]
    apply BitVec.eq_of_toNat_eq
    rw [BitVec.toNat_setWidth, BitVec.toNat_ofNat]
    have hlt := (readU32 b.vm (b.esp.setWidth 64)).isLt
    show _ = (readU32 b.vm (b.esp.setWidth 64)).toNat
    omega
  · rw [hrsp, hb.rsp]
    apply BitVec.eq_of_toNat_eq
    have hnext : (b.esp + 4).toNat = b.esp.toNat + 4 := by
      rw [BitVec.toNat_add]
      exact Nat.mod_eq_of_lt (by simp; omega)
    rw [toNat_add_ofNat (by omega), hwide, toNat_setWidth_64]
    exact hnext.symm
  · rw [hruns.vmcs _ (by simp), hb.cr3]
    rfl

/-- A word is stored behind the text. -/
theorem Handing.store (hb : Handing s b) (h : m.AppLoaded content)
    (hr : Running m asm code s (.entry (.movToMem label) :: is)) (hmode : s.is64 = false)
    (hlo : 0x8000 + (code.flatMap asm).length ≤ label.toNat)
    (hhi : label.toNat + 4 ≤ 0x10000) :
    ∃ s', Runs m asm code w [.entry (.movToMem label)] is [] [] s s' ∧
      Handing s' (b.step (.movToMem label)) := by
  have hwide := toNat_setWidth_64 label
  have hend : (label.setWidth 64).toNat + (leBytes 4 s.eax.toNat).length ≤ 0x10000 := by
    rw [length_leBytes]
    omega
  have hds : Seg.ds ∈ [Seg.cs, .ss, .ds] := by
    simp
  obtain ⟨s', hruns, hvm⟩ := hr.storeBytes (w := w) h hds hmode rfl hend (Or.inr (by omega))
  refine ⟨s', hruns, ?_, ?_, ?_, ?_⟩
  · rw [hvm, hb.vm, hb.eax]
    rfl
  · rw [Machine.eax, hruns.regs _ (by simp) (by decide)]
    exact hb.eax
  · rw [hruns.regs _ (by simp) (by decide)]
    exact hb.rsp
  · rw [hruns.vmcs _ (by simp)]
    exact hb.cr3

/-- **The words of the stack are copied**, as the boot code copies them. -/
theorem Handing.storeWords (h : m.AppLoaded content) :
    ∀ {n : Nat} {s : Machine} {b : Boot} {label : BitVec 32}, Handing s b →
      Running m asm code s ((storeWords label n).map .entry ++ rest) → s.is64 = false →
      b.esp.toNat + 4 * n ≤ 0x8000 → 0x8000 + (code.flatMap asm).length ≤ label.toNat →
      label.toNat + 4 * n ≤ 0x10000 →
      ∃ s', Runs m asm code w ((storeWords label n).map .entry) rest [.rax, .rsp] [] s s' ∧
        Handing s' (b.run (storeWords label n))
  | 0, s, b, label, hb, hr, _, _, _, _ =>
      ⟨s, ⟨rfl, hr, fun _ _ _ => rfl, fun _ _ => rfl⟩, hb⟩
  | n + 1, s, b, label, hb, hr, hmode, hesp, hlo, hhi => by
      have hfour : (4 : BitVec 32).toNat = 4 := rfl
      have hnext : ∀ x : BitVec 32, x.toNat + 4 < 2 ^ 32 → (x + 4).toNat = x.toNat + 4 := by
        intro x hx
        rw [BitVec.toNat_add, hfour]
        omega
      obtain ⟨s₁, hpop, hb₁⟩ := hb.pop (w := w) h hr hmode (by omega)
      have hmode₁ : s₁.is64 = false := (hpop.is64 (by simp) (by simp)).trans hmode
      obtain ⟨s₂, hstore, hb₂⟩ := hb₁.store (w := w) h hpop.after hmode₁ hlo (by omega)
      have hmode₂ : s₂.is64 = false := (hstore.is64 (by simp) (by simp)).trans hmode₁
      have hesp₂ : ((b.step .popEax).step (.movToMem label)).esp = b.esp + 4 := rfl
      obtain ⟨s', hrest, hb'⟩ := Handing.storeWords h hb₂ hstore.after hmode₂
        (by rw [hesp₂, hnext _ (by omega)]; omega) (by rw [hnext _ (by omega)]; omega)
        (by rw [hnext _ (by omega)]; omega)
      exact ⟨s', ((hpop.trans hstore).trans hrest).mono (by simp) (by simp), hb'⟩

/-- CR3 is loaded. -/
theorem Handing.loadCr3 (hb : Handing s b) (h : m.AppLoaded content)
    (hr : Running m asm code s (.entry .movCr3Eax :: is)) (hmode : s.is64 = false)
    (hpg : s.vcpu.pg = false) :
    ∃ s', Runs m asm code w [.entry .movCr3Eax] is [] [.guestCr3] s s' ∧
      Handing s' (b.step .movCr3Eax) := by
  have hcr3 : (s.vcpu.writeVmcs .guestCr3 (s.eax.setWidth 64)).pg = false := by
    rw [pg_writeVmcs, if_neg (by decide), hpg]
  have hother : ∀ f, f ∉ [VmcsField.guestCr3] →
      (s.vcpu.writeVmcs .guestCr3 (s.eax.setWidth 64)).readVmcs f = s.vcpu.readVmcs f := by
    intro f hf
    rw [List.mem_singleton] at hf
    rw [readVmcs_writeVmcs, if_neg hf]
  have hsame : ∀ r, r ∉ ([] : List Reg) →
      rreg (s.vcpu.writeVmcs .guestCr3 (s.eax.setWidth 64)) r = rreg s.vcpu r := by
    intro r _
    simp [rreg_writeVmcs]
  obtain ⟨s', hruns, hvm, hfields, hregs⟩ := hr.setVcpu (w := w) h hmode rfl
    (hr.low.setVcpu_off hcr3) (hr.flat.setVcpu hother (by decide)) (hsame _ (by simp)) hsame hother
  refine ⟨s', hruns, hvm.trans hb.vm, ?_, ?_, ?_⟩
  · rw [Machine.eax, hruns.regs _ (by simp) (by decide)]
    exact hb.eax
  · rw [hruns.regs _ (by simp) (by decide)]
    exact hb.rsp
  · rw [hfields, readVmcs_writeVmcs, if_pos rfl, hb.eax]
    rfl

/-- A word is pushed. -/
theorem Handing.push (hb : Handing s b) (h : m.AppLoaded content)
    (hr : Running m asm code s (.entry .pushEax :: is)) (hmode : s.is64 = false)
    (hlo : 4 ≤ b.esp.toNat) (hhi : b.esp.toNat ≤ 0x8000) :
    ∃ s', Runs m asm code w [.entry .pushEax] is [.rsp] [] s s' ∧
      Handing s' (b.step .pushEax) := by
  have hwide := toNat_setWidth_64 b.esp
  obtain ⟨s', hruns, hrsp, hvm⟩ := hr.pushWord (w := w) h (n := 4) (x := s.eax.setWidth 64)
    hmode rfl (by rw [hb.rsp]; omega) (by rw [hb.rsp]; omega)
  have htop : b.esp.setWidth 64 - BitVec.ofNat 64 4 = (b.esp - 4).setWidth 64 := by
    bv_omega
  refine ⟨s', hruns, ?_, ?_, ?_, ?_⟩
  · rw [hvm, hb.vm, hb.rsp, hb.eax, htop, toNat_setWidth_64]
    rfl
  · rw [Machine.eax, hruns.regs _ (by simp) (by decide)]
    exact hb.eax
  · rw [hrsp, hb.rsp, htop]
    rfl
  · rw [hruns.vmcs _ (by simp)]
    exact hb.cr3

end HandOver

/-! ## Where boot.asm starts -/

/-- The fields are as `vcpu_setup_ia32` sets them up. -/
def IsSetUp (v : Vcpu) : Prop :=
  ∀ p ∈ setupVmcs, v.readVmcs p.1 = p.2

theorem isSetUp_vcpuSetupIa32 (v : Vcpu) (σ : VmMem) (enableNativeMsr : BitVec 32 → Bool) :
    IsSetUp (vcpuSetupIa32 v σ enableNativeMsr).2.1 := by
  intro p hp
  fin_cases hp <;> rfl

section Start

variable {σ τ : VmMem} {hva : U64}

theorem IsSetUp.pg {v : Vcpu} (h : IsSetUp v) : v.pg = false := by
  have hcr0 : v.readVmcs .guestCr0 = 0x31 := h (.guestCr0, 0x31) (by decide)
  rw [Vcpu.pg, hcr0]
  decide

theorem IsSetUp.lma {v : Vcpu} (h : IsSetUp v) : v.lma = false := by
  have hefer : v.readVmcs .guestIa32Efer = 0 := h (.guestIa32Efer, 0) (by decide)
  rw [Vcpu.lma, hefer]
  decide

/-- Arguments that end with the first pages are written there. -/
theorem LowMem.setArgs_same : ∀ {args : List CString} {σ : VmMem} {argvAddr argsAddr : U64},
    LowMem σ hva → argvAddr.toNat + 8 * args.length ≤ 0x10000 →
    argsEnd argsAddr.toNat args ≤ 0x10000 →
    Hvexec.setArgs σ argvAddr argsAddr args = some τ → SameButLow σ τ hva
  | [], σ, _, _, _, _, _, hset => by
      obtain rfl := Option.some.inj hset
      exact SameButLow.refl σ hva
  | str :: args, σ, argvAddr, argsAddr, h, hargv, hargs, hset => by
      rw [List.length_cons] at hargv
      rw [argsEnd] at hargs
      have hend := le_argsEnd (argsAddr.toNat + (str.bytes.length + 1)) args
      have height : (8 : U64).toNat = 8 := rfl
      have hlen_ptr : (leBytes 8 argsAddr.toNat).length = 8 := length_leBytes 8 _
      have hlen_str := str.length_stored
      obtain ⟨_, hptr⟩ := h.write_low
        (show argvAddr.toNat + (leBytes 8 argsAddr.toNat).length ≤ 0x10000 by omega)
      have h' := h.write argvAddr (leBytes 8 argsAddr.toNat)
      obtain ⟨_, hstr⟩ := h'.write_low
        (show argsAddr.toNat + str.stored.length ≤ 0x10000 by omega)
      rw [Hvexec.setArgs] at hset
      dsimp only at hset
      split_ifs at hset
      refine (hptr.trans hstr).trans (LowMem.setArgs_same (h'.write argsAddr str.stored) ?_ ?_ hset)
      · rw [BitVec.toNat_add, height]
        omega
      · rw [BitVec.toNat_add, BitVec.toNat_ofNat, Nat.mod_eq_of_lt (by omega),
          Nat.mod_eq_of_lt (by omega)]
        exact hargs

/-- A push changes RSP and the first pages. -/
theorem push64_frame {v : Vcpu} (h : LowMem σ hva) {sp : U64} (hsp : rreg v .rsp = sp)
    (hlo : 8 ≤ sp.toNat) (hhi : sp.toNat ≤ 0x8000) (val : U64) :
    let p := push64 v σ val
    SameButLow σ p.2.2 hva ∧ (∀ f, p.2.1.readVmcs f = v.readVmcs f) ∧
      ∀ r, r ≠ .rsp → rreg p.2.1 r = rreg v r := by
  intro p
  have hlen : (leBytes 8 val.toNat).length = 8 := length_leBytes 8 val.toNat
  have hnext : (sp - 8).toNat = sp.toNat - 8 := by
    bv_omega
  obtain ⟨hcount, hsame⟩ := h.write_low
    (show (sp - 8).toNat + (leBytes 8 val.toNat).length ≤ 0x10000 by omega)
  have hp : p = (0, wreg v .rsp (sp - 8),
      (vmMemWrite σ (sp - 8) (leBytes 8 val.toNat)).2) := by
    show push v σ (leBytes 8 val.toNat) = _
    rw [push, hsp, hlen]
    exact if_neg (not_not.mpr (hcount.trans hlen))
  rw [hp]
  refine ⟨hsame, fun f => ?_, fun r hr => ?_⟩
  · simp [readVmcs_wreg]
  · simp [rreg_wreg, hr]

end Start

namespace MainRun

variable {m : MainRun} {out : Vcpu × VmMem} {content : List Byte}

/-- The arguments are laid and the three numbers are pushed: nothing from the stack on is
written after the arguments, and of the processor only RSP. -/
theorem Ok.pushed (hok : m.Ok out) (hargs : ArgsFit m.args) :
    ∃ σ, setArgs m.afterApp.vm confArgvAddr confArgsAddr m.args = some σ ∧
      SameButLow m.afterApp.vm out.2 m.answer.valloc ∧
      (∀ {x : U64} {bs : List Byte}, Holds σ x bs → 0x7000 ≤ x.toNat → Holds out.2 x bs) ∧
      (∀ f, out.1.readVmcs f = m.afterSetup.2.1.readVmcs f) ∧
      ∀ r, r ≠ .rsp → rreg out.1 r = rreg m.afterSetup.2.1 r := by
  have hlaunch := hok.launch
  unfold MainRun.launch at hlaunch
  split_ifs at hlaunch
  obtain ⟨σ, hset, rfl⟩ := Option.map_eq_some_iff.mp hlaunch
  obtain ⟨hlow, _⟩ := hok.afterApp_low
  have hstart : confStartAddr.toNat = 0x8000 := rfl
  obtain ⟨hargv, hend⟩ := hargs
  have hsame := hlow.setArgs_same (by omega) (by omega) hset
  have hlow' : LowMem σ m.answer.valloc := hlow.congr hsame.memRegions
  have hargv_sp : confStackAddr - 4 - 8 = (0x6FF4 : U64) := by
    decide
  have hargc_sp : (0x6FF4 - 8 : U64) = 0x6FEC := by
    decide
  obtain ⟨hsp₁, hlow₁, _, hkeep₁⟩ :=
    push64_low hlow' m.afterSetup_rsp (by decide) (by decide) confArgvAddr
  obtain ⟨hsame₁, hvmcs₁, hregs₁⟩ :=
    push64_frame hlow' m.afterSetup_rsp (by decide) (by decide) confArgvAddr
  rw [hargv_sp] at hsp₁
  obtain ⟨hsp₂, hlow₂, _, hkeep₂⟩ := push64_low hlow₁ hsp₁ (by decide) (by decide)
    (BitVec.ofNat 64 m.args.length)
  obtain ⟨hsame₂, hvmcs₂, hregs₂⟩ := push64_frame hlow₁ hsp₁ (by decide) (by decide)
    (BitVec.ofNat 64 m.args.length)
  rw [hargc_sp] at hsp₂
  obtain ⟨_, _, _, hkeep₃⟩ := push64_low hlow₂ hsp₂ (by decide) (by decide) m.afterApp.entryoff
  obtain ⟨hsame₃, hvmcs₃, hregs₃⟩ :=
    push64_frame hlow₂ hsp₂ (by decide) (by decide) m.afterApp.entryoff
  have hsp : (confStackAddr - 4).toNat = 0x6FFC := rfl
  have hsp' : (0x6FF4 : U64).toNat = 0x6FF4 := rfl
  have hsp'' : (0x6FEC : U64).toNat = 0x6FEC := rfl
  unfold MainRun.pushAll
  dsimp only
  refine ⟨σ, hset, ((hsame.trans hsame₁).trans hsame₂).trans hsame₃, fun hx hge => ?_,
    fun f => ?_, fun r hr => ?_⟩
  · exact hkeep₃ (hkeep₂ (hkeep₁ hx (by omega)) (by omega)) (by omega)
  · rw [hvmcs₃, hvmcs₂, hvmcs₁]
  · rw [hregs₃ r hr, hregs₂ r hr, hregs₁ r hr]

/-- **Where boot.asm starts**: the kernel is in its place, and the processor is as
`vcpu_setup_ia32` left it, but for RSP. -/
theorem Ok.bootStart (hok : m.Ok out) (hargs : ArgsFit m.args) :
    SameButLow m.afterApp.vm out.2 m.answer.valloc ∧
      Holds out.2 0x8000 m.kernel.content ∧
      IsSetUp out.1 ∧ rreg out.1 .rip = 0x8000 := by
  obtain ⟨σ, hset, hsame, hkeep, hvmcs, hregs⟩ := hok.pushed hargs
  obtain ⟨hlow, _, hkernel⟩ := hok.afterApp_low
  have hstart : confStartAddr.toNat = 0x8000 := rfl
  -- the arguments end before the kernel
  obtain ⟨hargv, hend⟩ := hargs
  obtain ⟨_, _, _, hbytes⟩ := setArgs_spec hlow.regions hlow.host hset
  have hkernel' : Holds σ 0x8000 m.kernel.content := by
    refine hkernel.congr fun y hy _ => ?_
    have hnone : BlockWrites.overlay
        (argBlocks confArgvAddr.toNat confArgsAddr.toNat m.args) y.toNat = none := by
      rw [BlockWrites.overlay_eq_none_iff]
      intro w hw hcon
      have hbounds := bounds_of_mem_argBlocks hw
      have hlt := hcon.2
      omega
    rw [hbytes, hnone, Option.none_or]
  refine ⟨hsame, hkeep hkernel' (by decide), fun p hp => ?_, ?_⟩
  · rw [hvmcs]
    exact isSetUp_vcpuSetupIa32 _ _ _ p hp
  · rw [hregs _ (by decide)]
    rfl

/-- Pointer `i` and string `i` are in their places, while no pointer reaches a string. -/
theorem Ok.holds_arg (hok : m.Ok out) (hargs : ArgsFit m.args) (hshort : m.args.length ≤ 32)
    {i : Nat} (hi : i < m.args.length) :
    Holds out.2 (confArgvAddr + BitVec.ofNat 64 (8 * i)) (leBytes 8 (strAddr m.args i)) ∧
      Holds out.2 (BitVec.ofNat 64 (strAddr m.args i)) (m.args.get ⟨i, hi⟩).stored ∧
      0x7200 ≤ strAddr m.args i ∧
      strAddr m.args i + (m.args.get ⟨i, hi⟩).stored.length ≤ 0x8000 := by
  obtain ⟨σ, hset, _, hkeep, _⟩ := hok.pushed hargs
  obtain ⟨hlow, _⟩ := hok.afterApp_low
  obtain ⟨hargv, hend, hbytes⟩ := setArgs_argvBlocks hlow.regions hlow.host hset
  have hargv_lo : confArgvAddr.toNat = 0x7100 := rfl
  have hargs_lo : confArgsAddr.toNat = 0x7200 := rfl
  have hstart : confStartAddr.toNat = 0x8000 := rfl
  have hle := le_strAddr m.args hi.le
  have hle_next := strAddr_le m.args (i + 1)
  have hnext : strAddr m.args (i + 1) =
      strAddr m.args i + (m.args.get ⟨i, hi⟩).stored.length := by
    rw [strAddr, List.take_succ_eq_append_getElem hi, argsEnd_append, CString.length_stored]
    rfl
  obtain ⟨_, hend'⟩ := hargs
  have hslot : (confArgvAddr + BitVec.ofNat 64 (8 * i)).toNat = confArgvAddr.toNat + 8 * i :=
    toNat_add_ofNat (by omega)
  have haddr : (BitVec.ofNat 64 (strAddr m.args i)).toNat = strAddr m.args i := by
    rw [BitVec.toNat_ofNat]
    omega
  exact ⟨hkeep (holds_pointer hbytes hargv hi (by omega)) (by omega),
    hkeep (holds_string hbytes hend hi (by omega)) (by omega), by omega, by omega⟩

end MainRun

/-- Part of the bytes that are held. -/
theorem Holds.part {σ : VmMem} {x : U64} {bs : List Byte} (h : Holds σ x bs) {k n : Nat}
    (hwrap : x.toNat + bs.length < 2 ^ 64) (hk : k + n ≤ bs.length) :
    Holds σ (x + BitVec.ofNat 64 k) ((bs.drop k).take n) := by
  have hsplit : bs = bs.take k ++ ((bs.drop k).take n ++ (bs.drop k).drop n) := by
    rw [List.take_append_drop, List.take_append_drop]
  have hlen : (bs.take k).length = k := by
    rw [List.length_take]
    omega
  have hnext : (x + BitVec.ofNat 64 k).toNat = x.toNat + k :=
    toNat_add_ofNat (by omega)
  rw [hsplit] at h
  rw [Holds.append (by rw [← hsplit]; exact hwrap), hlen] at h
  exact ((Holds.append (by
    rw [hnext, List.take_append_drop, List.length_drop]
    omega)).mp h.2).1

/-- **The hand-over, executed.**  The words of the stack are behind the tables, CR3 names the
PML4, and its address is all that is left on the stack. -/
theorem bootEntry_runs {m : MainRun} {content : List Byte} {asm : BootAsm → List Byte}
    {code rest : List BootAsm} {w : Monitor} {label : BitVec 32} {out : Vcpu × VmMem}
    (h : m.AppLoaded content) (hok : m.Ok out)
    (hr : Running m asm code ⟨out.1, out.2⟩ ((bootEntry label).map .entry ++ rest))
    (hset : IsSetUp out.1)
    (hlo : 0x8000 + (code.flatMap asm).length ≤ label.toNat)
    (hhi : label.toNat + 24 ≤ 0x10000) :
    ∃ s, Runs m asm code w ((bootEntry label).map .entry) rest [.rax, .rsp] [.guestCr3]
        ⟨out.1, out.2⟩ s ∧
      rreg s.vcpu .rsp = 0x6FFC ∧ s.vcpu.readVmcs .guestCr3 = m.afterInit.2.pml4Gpa ∧
      Holds s.vm (label.setWidth 64) ((leBytes 8 m.afterApp.entryoff.toNat ++
        leBytes 8 m.args.length) ++ leBytes 8 confArgvAddr.toNat) ∧
      Holds s.vm 0x6FFC (leBytes 4 m.afterInit.2.pml4Gpa.toNat) ∧
      ∀ {x : U64} {bs : List Byte}, Holds out.2 x bs → 0x7000 ≤ x.toNat →
        x.toNat + bs.length ≤ label.toNat → Holds s.vm x bs := by
  obtain ⟨hrsp, hlow, hnums, hroot⟩ := hok.stack
  have hpg := hset.pg
  have hmode : Machine.is64 ⟨out.1, out.2⟩ = false := by
    rw [Machine.is64, hset.lma]
    rfl
  have hesp : (Boot.start out.1 out.2).esp = 0x6FE4 := by
    rw [Boot.start, hrsp]
    rfl
  have hb : Handing ⟨out.1, out.2⟩ (Boot.start out.1 out.2) := by
    refine ⟨rfl, rfl, ?_, ?_⟩
    · rw [hesp]
      exact hrsp
    · have hzero : out.1.readVmcs .guestCr3 = 0 := hset (.guestCr3, 0) (by decide)
      show out.1.readVmcs .guestCr3 = ((out.1.readVmcs .guestCr3).setWidth 32).setWidth 64
      rw [hzero]
      rfl
  rw [bootEntry_eq, List.map_append, List.append_assoc] at hr
  have hstack : (Boot.start out.1 out.2).esp.setWidth 64 = (0x6FE4 : U64) := by
    rw [hesp]
    decide
  -- the three numbers
  obtain ⟨s₁, hwords, hb₁⟩ := Handing.storeWords (w := w) h hb hr hmode
    (by rw [hesp]; decide) hlo (by omega)
  have hlabel : 0x8000 ≤ label.toNat := by
    omega
  obtain ⟨hlow₁, hesp₁, _, hheld, hkeep₁⟩ := Boot.run_storeWords (n := 6)
    (show LowMem (Boot.start out.1 out.2).vm _ from hlow) (by rw [hstack]; exact hnums)
    (by simp) (by rw [hesp]; decide) hlabel (by omega)
  have hroot₁ := hkeep₁ hroot
    (by rw [length_leBytes]; exact le_trans (by decide) (Nat.le_of_add_right_le hlo))
  generalize hb₁_def : (Boot.start out.1 out.2).run (storeWords label 6) = b₁ at *
  have hesp₁' : b₁.esp = 0x6FFC :=
    BitVec.eq_of_toNat_eq (by rw [hesp₁, hesp]; rfl)
  have hmode₁ : s₁.is64 = false := (hwords.is64 (by simp) (by simp)).trans hmode
  -- CR3
  obtain ⟨s₂, hpop, hb₂⟩ := hb₁.pop (w := w) h hwords.after hmode₁ (by rw [hesp₁']; decide)
  have hmode₂ : s₂.is64 = false := (hpop.is64 (by simp) (by simp)).trans hmode₁
  have hpg₂ : s₂.vcpu.pg = false := by
    rw [Vcpu.pg, hpop.vmcs _ (by simp), hwords.vmcs _ (by simp)]
    exact hpg
  obtain ⟨s₃, hcr3, hb₃⟩ := hb₂.loadCr3 (w := w) h hpop.after hmode₂ hpg₂
  have hmode₃ : s₃.is64 = false := (hcr3.is64 (by simp) (by simp)).trans hmode₂
  have hesp₃ : ((b₁.step .popEax).step .movCr3Eax).esp = b₁.esp + 4 := rfl
  obtain ⟨s₄, hpush, hb₄⟩ := hb₃.push (w := w) h hcr3.after hmode₃
    (by rw [hesp₃, hesp₁']; decide) (by rw [hesp₃, hesp₁']; decide)
  obtain ⟨hcr3_eq, hesp₄, hroot₄, hkeep₄⟩ := Boot.run_root hlow₁ hesp₁' hroot₁ hok.root
  have hrun : b₁.run [.popEax, .movCr3Eax, .pushEax] =
      (((b₁.step .popEax).step .movCr3Eax).step .pushEax) := rfl
  rw [hrun] at hcr3_eq hesp₄ hroot₄ hkeep₄
  rw [bootEntry_eq, List.map_append]
  refine ⟨s₄, (hwords.trans ((hpop.trans hcr3).trans hpush)).mono (by simp) (by simp), ?_, ?_,
    ?_, ?_, ?_⟩
  · rw [hb₄.rsp, hesp₄]
    rfl
  · rw [hb₄.cr3, hcr3_eq]
  · rw [hb₄.vm]
    exact hkeep₄ hheld (by rw [toNat_setWidth_64]; omega)
  · rw [hb₄.vm]
    exact hroot₄
  · intro x bs hx hge hle
    rw [hb₄.vm]
    exact hkeep₄ (hkeep₁ hx hle) hge

/-! ## Long mode -/

section Paging

variable {m : MainRun} {content : List Byte} {asm : BootAsm → List Byte}
  {code is rest : List BootAsm} {w : Monitor} {s : Machine}

/-- The handler of RDMSR for EFER. -/
theorem emuRdmsr_efer {v : Vcpu} (hecx : (rreg v .rcx).setWidth 32 = msrEfer) :
    otherExit (emuRdmsr v) = otherExit ((0 : Int),
      wreg (wreg (wreg v .rax (((v.readVmcs .guestIa32Efer).setWidth 32).setWidth 64)) .rdx
        (((v.readVmcs .guestIa32Efer >>> 32).setWidth 32).setWidth 64)) .rip
        (rreg v .rip + 2)) := by
  unfold emuRdmsr
  dsimp only
  rw [if_pos hecx]
  simp [rreg_wreg]

theorem emuWrmsr_efer {v : Vcpu} (hecx : (rreg v .rcx).setWidth 32 = msrEfer) :
    otherExit (emuWrmsr v) = otherExit ((0 : Int),
      wreg (v.writeVmcs .guestIa32Efer (wrmsrValue v)) .rip (rreg v .rip + 2)) := by
  unfold emuWrmsr
  dsimp only
  rw [if_pos hecx]
  simp [rreg_writeVmcs]

/-- The handler of a move to CR0 that turns paging on, while EFER.LME is set. -/
theorem emuMovCr_paging {v : Vcpu} (hqualific : v.readVmcs .roExitQualific = 0)
    (hpg : rreg v .rax &&& 0x80000000 ≠ 0)
    (hlme : v.readVmcs .guestIa32Efer &&& eferLme ≠ 0) :
    otherExit (emuMovCr v) = otherExit ((0 : Int),
      wreg ((((v.writeVmcs .ctrlCr0Shadow (rreg v .rax)).writeVmcs .guestCr0
        (rreg v .rax)).writeVmcs .guestIa32Efer
          (v.readVmcs .guestIa32Efer ||| (eferLma ||| eferNxe ||| eferSce))).writeVmcs
        .ctrlVmentryControls (v.readVmcs .ctrlVmentryControls ||| vmEntryGuestLma)) .rip
        (rreg v .rip + 3)) := by
  have hval : movCrValue v = rreg v .rax := by
    rw [movCrValue, hqualific]
    rfl
  have hcr0 : wreg (v.writeVmcs .ctrlCr0Shadow (rreg v .rax)) .cr0 (rreg v .rax) =
      (v.writeVmcs .ctrlCr0Shadow (rreg v .rax)).writeVmcs .guestCr0 (rreg v .rax) := rfl
  have hefer : ((v.writeVmcs .ctrlCr0Shadow (rreg v .rax)).writeVmcs .guestCr0
      (rreg v .rax)).readVmcs .guestIa32Efer = v.readVmcs .guestIa32Efer := by
    simp [readVmcs_writeVmcs]
  unfold emuMovCr
  dsimp only
  rw [hqualific, hval, if_pos (by decide), if_neg (by decide), if_pos hpg, hcr0, hefer,
    if_pos hlme]
  simp [readVmcs_writeVmcs, rreg_writeVmcs]

/-- What the instructions before the write to EFER leave in the control registers. -/
structure PagingOff (s : Machine) : Prop where
  cr0 : s.vcpu.readVmcs .guestCr0 = 0x31
  cr0Mask : s.vcpu.readVmcs .ctrlCr0Mask = 0xe0000031
  cr0Shadow : s.vcpu.readVmcs .ctrlCr0Shadow = 0x21
  entry : s.vcpu.readVmcs .ctrlVmentryControls = 0x91ff

theorem PagingOff.of_runs {is rest : List BootAsm} {rs : List Reg} {fs : List VmcsField}
    {s' : Machine} (h : PagingOff s) (hruns : Runs m asm code w is rest rs fs s s')
    (hfs : ∀ f ∈ [VmcsField.guestCr0, .ctrlCr0Mask, .ctrlCr0Shadow, .ctrlVmentryControls],
      f ∉ fs) :
    PagingOff s' where
  cr0 := (hruns.vmcs _ (hfs _ (by simp))).trans h.cr0
  cr0Mask := (hruns.vmcs _ (hfs _ (by simp))).trans h.cr0Mask
  cr0Shadow := (hruns.vmcs _ (hfs _ (by simp))).trans h.cr0Shadow
  entry := (hruns.vmcs _ (hfs _ (by simp))).trans h.entry

theorem PagingOff.pg (h : PagingOff s) : s.vcpu.pg = false := by
  rw [Vcpu.pg, h.cr0]
  decide

theorem Machine.eax_of_rax {x : BitVec 32} (hrax : rreg s.vcpu .rax = x.setWidth 64) :
    s.eax = x := by
  rw [Machine.eax, hrax]
  exact BitVec.setWidth_setWidth_of_le _ (by decide)

/-- `or eax, imm`. -/
theorem Running.orEax {x imm : BitVec 32} (h : m.AppLoaded content)
    (hr : Running m asm code s (.orEax imm :: is)) (hmode : s.is64 = false)
    (hrax : rreg s.vcpu .rax = x.setWidth 64) :
    ∃ s', Runs m asm code w [.orEax imm] is [.rax] [] s s' ∧
      rreg s'.vcpu .rax = (x ||| imm).setWidth 64 ∧ s'.vm = s.vm := by
  obtain ⟨s', hruns, hrax', hvm⟩ := hr.setReg (w := w) h hmode rfl (by decide) (by decide)
  rw [Machine.eax_of_rax hrax] at hrax'
  exact ⟨s', hruns, hrax', hvm⟩

/-- Outside long mode the processor enters the guest. -/
theorem longModeOk_of_off {v : Vcpu} (hentry : v.readVmcs .ctrlVmentryControls = 0x91ff)
    (hcr0 : v.readVmcs .guestCr0 = 0x31)
    (hefer : v.readVmcs .guestIa32Efer = 0 ∨ v.readVmcs .guestIa32Efer = 0x100) :
    LongModeOk v := by
  rw [longModeOk_iff, Vcpu.ia32eGuest, Vcpu.lma, Vcpu.lme, Vcpu.pg, hentry, hcr0]
  rcases hefer with h | h
  · rw [h]
    decide
  · rw [h]
    decide

/-- CR4 gets PAE and PGE. -/
theorem Running.pae (h : m.AppLoaded content)
    (hr : Running m asm code s ([.movEaxCr4, .orEax 0b10100000, .orEax 0b11000000000,
      .movCr4Eax] ++ rest))
    (hmode : s.is64 = false)
    (hcr4 : s.vcpu.readVmcs .guestCr4 = 0x2000)
    (hmask : s.vcpu.readVmcs .ctrlCr4Mask = 0x2000)
    (hshadow : s.vcpu.readVmcs .ctrlCr4Shadow = 0) :
    ∃ s', Runs m asm code w [.movEaxCr4, .orEax 0b10100000, .orEax 0b11000000000, .movCr4Eax]
        rest [.rax] [.guestCr4] s s' ∧
      s'.vcpu.readVmcs .guestCr4 = 0x26A0 ∧ s'.vm = s.vm := by
  have hread : maskedCr (0x2000 : U64) 0 0x2000 = 0 := by
    decide
  obtain ⟨s₁, h₁, hrax₁, hvm₁⟩ := hr.setReg (w := w) h hmode rfl (by decide) (by decide)
  have hmode₁ : s₁.is64 = false := (h₁.is64 (by simp) (by simp)).trans hmode
  rw [hcr4, hmask, hshadow, hread] at hrax₁
  obtain ⟨s₂, h₂, hrax₂, hvm₂⟩ := h₁.after.orEax (w := w) h hmode₁ hrax₁
  have hmode₂ : s₂.is64 = false := (h₂.is64 (by simp) (by simp)).trans hmode₁
  obtain ⟨s₃, h₃, hrax₃, hvm₃⟩ := h₂.after.orEax (w := w) h hmode₂ hrax₂
  have hmode₃ : s₃.is64 = false := (h₃.is64 (by simp) (by simp)).trans hmode₂
  have hruns₃ := (h₁.trans h₂).trans h₃
  have hfield : ∀ f, s₃.vcpu.readVmcs f = s.vcpu.readVmcs f :=
    fun f => hruns₃.vmcs f (by simp)
  have hexec : s₃.exec w (asm .movCr4Eax).length .movCr4Eax =
      some ({ s₃ with vcpu := s₃.vcpu.writeVmcs .guestCr4 0x26A0 }.next
        (asm .movCr4Eax).length) := by
    show s₃.movToCr w _ .ctrlCr4Mask .ctrlCr4Shadow .guestCr4 4 = _
    unfold Machine.movToCr
    dsimp only
    rw [Machine.eax_of_rax hrax₃, hfield, hfield, hfield, hcr4, hmask, hshadow,
      if_neg (by decide)]
    rfl
  have hother : ∀ f, f ∉ [VmcsField.guestCr4] →
      (s₃.vcpu.writeVmcs .guestCr4 0x26A0).readVmcs f = s₃.vcpu.readVmcs f := by
    intro f hf
    rw [List.mem_singleton] at hf
    rw [readVmcs_writeVmcs, if_neg hf]
  have hsame : ∀ r, r ∉ ([] : List Reg) →
      rreg (s₃.vcpu.writeVmcs .guestCr4 0x26A0) r = rreg s₃.vcpu r := by
    intro r _
    simp [rreg_writeVmcs]
  obtain ⟨s₄, h₄, hvm₄, hfields₄, _⟩ := h₃.after.setVcpu h hmode₃ hexec
    (h₃.after.low.setVcpu hother (by decide)) (h₃.after.flat.setVcpu hother (by decide))
    (hsame _ (by simp)) hsame hother
  refine ⟨s₄, (hruns₃.trans h₄).mono (by simp) (by simp), ?_, ?_⟩
  · rw [hfields₄, readVmcs_writeVmcs, if_pos rfl]
  · rw [hvm₄, hvm₃, hvm₂, hvm₁]

theorem PagingOff.longModeOk {v : Vcpu} {fs : List VmcsField} (h : PagingOff s)
    (hvmcs : ∀ f, f ∉ fs → v.readVmcs f = s.vcpu.readVmcs f)
    (hentry : .ctrlVmentryControls ∉ fs) (hcr0 : .guestCr0 ∉ fs)
    (hefer : v.readVmcs .guestIa32Efer = 0 ∨ v.readVmcs .guestIa32Efer = 0x100) :
    LongModeOk v ∧ v.pg = false := by
  have hcr0' := (hvmcs _ hcr0).trans h.cr0
  refine ⟨longModeOk_of_off ((hvmcs _ hentry).trans h.entry) hcr0' hefer, ?_⟩
  rw [Vcpu.pg, hcr0']
  decide

/-- RDMSR exits, and reads EFER as it is. -/
theorem Running.rdmsrEfer (h : m.AppLoaded content)
    (hr : Running m asm code s (.rdmsr :: is)) (hlen : (asm .rdmsr).length = 2)
    (hmode : s.is64 = false) (hoff : PagingOff s)
    (hecx : (rreg s.vcpu .rcx).setWidth 32 = msrEfer)
    (hefer : s.vcpu.readVmcs .guestIa32Efer = 0) :
    ∃ s', Runs m asm code w [.rdmsr] is [.rax, .rdx] [.roExitQualific] s s' ∧
      rreg s'.vcpu .rax = (0 : BitVec 32).setWidth 64 ∧ rreg s'.vcpu .rdx = 0 ∧
      s'.vm = s.vm := by
  have hvmcs : ∀ f, f ∉ [VmcsField.roExitQualific] →
      (wreg (wreg (wreg (s.vcpu.writeVmcs .roExitQualific 0) .rax 0) .rdx 0) .rip
        (rreg s.vcpu .rip + 2)).readVmcs f = s.vcpu.readVmcs f := by
    intro f hf
    rw [List.mem_singleton] at hf
    simp [readVmcs_wreg, readVmcs_writeVmcs, hf]
  obtain ⟨hok, hpg⟩ := hoff.longModeOk hvmcs (by simp) (by simp)
    (Or.inl ((hvmcs _ (by simp)).trans hefer))
  have hexec : s.exec w (asm .rdmsr).length .rdmsr = s.exit w .rdmsr 0 := by
    show (if (rreg s.vcpu .rcx).setWidth 32 ∈ nativeMsrs then none else s.exit w .rdmsr 0) = _
    rw [hecx, if_neg (by decide)]
  have hhandle : handleExit w.ops w.interactive
      ⟨.rdmsr, s.vcpu.writeVmcs .roExitQualific 0, s.vm, w.entry₀, w.env⟩ = otherExit (0,
        wreg (wreg (wreg (s.vcpu.writeVmcs .roExitQualific 0) .rax 0) .rdx 0) .rip
          (rreg s.vcpu .rip + 2)) := by
    have hefer' : (s.vcpu.writeVmcs .roExitQualific 0).readVmcs .guestIa32Efer = 0 := by
      rw [readVmcs_writeVmcs, if_neg (by decide), hefer]
    have hrip : rreg (s.vcpu.writeVmcs .roExitQualific 0) .rip = rreg s.vcpu .rip := by
      simp [rreg_writeVmcs]
    have hrcx : (rreg (s.vcpu.writeVmcs .roExitQualific 0) .rcx).setWidth 32 = msrEfer := by
      rw [rreg_writeVmcs, if_neg (by simp), hecx]
    show otherExit (emuRdmsr (s.vcpu.writeVmcs .roExitQualific 0)) = _
    rw [emuRdmsr_efer hrcx, hefer', hrip]
    rfl
  refine ⟨_, hr.exits h hmode hexec hhandle hok (hr.low.setVcpu_off hpg)
    (hr.flat.setVcpu hvmcs (by decide)) ?_ ?_ hvmcs, ?_, ?_, rfl⟩
  · simp [rreg_wreg, hlen]
  · intro r hr' hrip
    simp only [List.mem_cons, List.not_mem_nil, or_false, not_or] at hr'
    simp [rreg_wreg, rreg_writeVmcs, hr', hrip]
  · simp [rreg_wreg]
  · simp [rreg_wreg]

/-- WRMSR exits, and sets EFER.LME. -/
theorem Running.wrmsrEfer (h : m.AppLoaded content)
    (hr : Running m asm code s (.wrmsr :: is)) (hlen : (asm .wrmsr).length = 2)
    (hmode : s.is64 = false) (hoff : PagingOff s)
    (hecx : (rreg s.vcpu .rcx).setWidth 32 = msrEfer)
    (hrax : rreg s.vcpu .rax = 0x100) (hrdx : rreg s.vcpu .rdx = 0) :
    ∃ s', Runs m asm code w [.wrmsr] is [] [.roExitQualific, .guestIa32Efer] s s' ∧
      s'.vcpu.readVmcs .guestIa32Efer = 0x100 ∧ s'.vm = s.vm := by
  have hvmcs : ∀ f, f ∉ [VmcsField.roExitQualific, .guestIa32Efer] →
      (wreg ((s.vcpu.writeVmcs .roExitQualific 0).writeVmcs .guestIa32Efer 0x100) .rip
        (rreg s.vcpu .rip + 2)).readVmcs f = s.vcpu.readVmcs f := by
    intro f hf
    simp only [List.mem_cons, List.not_mem_nil, or_false, not_or] at hf
    simp [readVmcs_wreg, readVmcs_writeVmcs, hf]
  have hefer : (wreg ((s.vcpu.writeVmcs .roExitQualific 0).writeVmcs .guestIa32Efer 0x100) .rip
      (rreg s.vcpu .rip + 2)).readVmcs .guestIa32Efer = 0x100 := by
    simp [readVmcs_wreg, readVmcs_writeVmcs]
  obtain ⟨hok, hpg⟩ := hoff.longModeOk hvmcs (by simp) (by simp) (Or.inr hefer)
  have hexec : s.exec w (asm .wrmsr).length .wrmsr = s.exit w .wrmsr 0 := by
    show (if (rreg s.vcpu .rcx).setWidth 32 ∈ nativeMsrs then none else s.exit w .wrmsr 0) = _
    rw [hecx, if_neg (by decide)]
  have hhandle : handleExit w.ops w.interactive
      ⟨.wrmsr, s.vcpu.writeVmcs .roExitQualific 0, s.vm, w.entry₀, w.env⟩ = otherExit (0,
        wreg ((s.vcpu.writeVmcs .roExitQualific 0).writeVmcs .guestIa32Efer 0x100) .rip
          (rreg s.vcpu .rip + 2)) := by
    have hreg : ∀ r, r ≠ .cr0 →
        rreg (s.vcpu.writeVmcs .roExitQualific 0) r = rreg s.vcpu r := by
      intro r _
      simp [rreg_writeVmcs]
    have hrcx : (rreg (s.vcpu.writeVmcs .roExitQualific 0) .rcx).setWidth 32 = msrEfer := by
      rw [hreg _ (by decide), hecx]
    have hvalue : wrmsrValue (s.vcpu.writeVmcs .roExitQualific 0) = 0x100 := by
      rw [wrmsrValue, hreg _ (by decide), hreg _ (by decide), hrax, hrdx]
      decide
    show otherExit (emuWrmsr (s.vcpu.writeVmcs .roExitQualific 0)) = _
    rw [emuWrmsr_efer hrcx, hvalue, hreg _ (by decide)]
  refine ⟨_, hr.exits h hmode hexec hhandle hok (hr.low.setVcpu_off hpg)
    (hr.flat.setVcpu hvmcs (by decide)) ?_ ?_ hvmcs, hefer, rfl⟩
  · simp [rreg_wreg, hlen]
  · intro r _ hrip
    simp [rreg_wreg, rreg_writeVmcs, hrip]

/-- The fields with paging on, in long mode. -/
structure PagingOn (v : Vcpu) : Prop where
  cr0 : v.readVmcs .guestCr0 = 0x80000023
  efer : v.readVmcs .guestIa32Efer = 0xD01
  entry : v.readVmcs .ctrlVmentryControls = 0x93ff

theorem PagingOn.lma {v : Vcpu} (h : PagingOn v) : v.lma = true := by
  rw [Vcpu.lma, h.efer]
  decide

theorem PagingOn.longModeOk {v : Vcpu} (h : PagingOn v) : LongModeOk v := by
  rw [longModeOk_iff, Vcpu.ia32eGuest, Vcpu.lma, Vcpu.lme, Vcpu.pg, h.entry, h.efer, h.cr0]
  decide

/-- The processor after the exit of the move to CR0. -/
def pagingOn (v : Vcpu) : Vcpu :=
  let v' := (v.writeVmcs .roExitQualific 0).writeVmcs .ctrlCr0Shadow 0x80000023
  let v' := (v'.writeVmcs .guestCr0 0x80000023).writeVmcs .guestIa32Efer 0xD01
  wreg (v'.writeVmcs .ctrlVmentryControls 0x93ff) .rip (rreg v .rip + 3)

/-- The move to CR0 exits, and the handler turns long mode on. -/
theorem Running.movCr0 (h : m.AppLoaded content)
    (hr : Running m asm code s (.movCr0Eax :: is)) (hlen : (asm .movCr0Eax).length = 3)
    (hmode : s.is64 = false) (hoff : PagingOff s)
    (hrax : rreg s.vcpu .rax = (0x80000023 : BitVec 32).setWidth 64)
    (hefer : s.vcpu.readVmcs .guestIa32Efer = 0x100)
    (hcr3 : entryFrame (s.vcpu.readVmcs .guestCr3) = s.vm.pml4Gpa) :
    ∃ s', Runs m asm code w [.movCr0Eax] is [.cr0] [.roExitQualific, .ctrlCr0Shadow, .guestCr0,
        .guestIa32Efer, .ctrlVmentryControls] s s' ∧ PagingOn s'.vcpu ∧ s'.vm = s.vm := by
  have hvmcs : ∀ f, f ∉ [VmcsField.roExitQualific, .ctrlCr0Shadow, .guestCr0,
      .guestIa32Efer, .ctrlVmentryControls] →
      (pagingOn s.vcpu).readVmcs f = s.vcpu.readVmcs f := by
    intro f hf
    simp only [List.mem_cons, List.not_mem_nil, or_false, not_or] at hf
    simp [pagingOn, readVmcs_wreg, readVmcs_writeVmcs, hf]
  have hon : PagingOn (pagingOn s.vcpu) := by
    constructor <;> simp [pagingOn, readVmcs_wreg, readVmcs_writeVmcs]
  have hexec : s.exec w (asm .movCr0Eax).length .movCr0Eax = s.exit w .movCr 0 := by
    show s.movToCr w _ .ctrlCr0Mask .ctrlCr0Shadow .guestCr0 0 = _
    unfold Machine.movToCr
    dsimp only
    rw [Machine.eax_of_rax hrax, hoff.cr0Mask, hoff.cr0Shadow, if_pos (by decide)]
  have hhandle : handleExit w.ops w.interactive
      ⟨.movCr, s.vcpu.writeVmcs .roExitQualific 0, s.vm, w.entry₀, w.env⟩ =
        otherExit (0, pagingOn s.vcpu) := by
    have hreg : ∀ r, rreg (s.vcpu.writeVmcs .roExitQualific 0) r = rreg s.vcpu r := by
      intro r
      simp [rreg_writeVmcs]
    have hfield : ∀ f, f ≠ .roExitQualific →
        (s.vcpu.writeVmcs .roExitQualific 0).readVmcs f = s.vcpu.readVmcs f := by
      intro f hf
      rw [readVmcs_writeVmcs, if_neg hf]
    show otherExit (emuMovCr (s.vcpu.writeVmcs .roExitQualific 0)) = _
    rw [emuMovCr_paging (by rw [readVmcs_writeVmcs, if_pos rfl])
      (by rw [hreg, hrax]; decide) (by rw [hfield _ (by decide), hefer]; decide), hreg, hreg,
      hfield _ (by decide), hfield _ (by decide), hrax, hefer, hoff.entry]
    rfl
  refine ⟨_, hr.exits h hmode hexec hhandle hon.longModeOk ⟨hr.low.same, fun _ => ⟨hon.lma, ?_⟩⟩
    (hr.flat.setVcpu hvmcs (by decide)) ?_ ?_ hvmcs, hon, rfl⟩
  · show entryFrame ((pagingOn s.vcpu).readVmcs .guestCr3) = _
    rw [hvmcs _ (by simp)]
    exact hcr3
  · simp [pagingOn, rreg_wreg, hlen]
  · intro r hr' hrip
    rw [List.mem_singleton] at hr'
    simp [pagingOn, rreg_wreg, rreg_writeVmcs, hr', hrip]

/-- The fields that turning on long mode writes. -/
def pagingFields : List VmcsField :=
  [.guestCr4, .roExitQualific, .guestIa32Efer, .ctrlCr0Shadow, .guestCr0, .ctrlVmentryControls]

/-- **Long mode is turned on**, through three exits. -/
theorem bootPaging_runs (h : m.AppLoaded content)
    (hr : Running m asm code s (bootPaging ++ rest))
    (hset : ∀ p ∈ setupVmcs, p.1 ≠ .guestCr3 → s.vcpu.readVmcs p.1 = p.2)
    (hrdmsr : (asm .rdmsr).length = 2) (hwrmsr : (asm .wrmsr).length = 2)
    (hmovCr0 : (asm .movCr0Eax).length = 3)
    (hcr3 : entryFrame (s.vcpu.readVmcs .guestCr3) = s.vm.pml4Gpa) :
    ∃ s', Runs m asm code w bootPaging rest [.rax, .rcx, .rdx, .cr0] pagingFields s s' ∧
      PagingOn s'.vcpu ∧ s'.vcpu.readVmcs .guestCr4 = 0x26A0 ∧ s'.vm = s.vm := by
  have hoff : PagingOff s :=
    ⟨hset (.guestCr0, 0x31) (by decide) (by decide),
      hset (.ctrlCr0Mask, 0xe0000031) (by decide) (by decide),
      hset (.ctrlCr0Shadow, 0x21) (by decide) (by decide),
      hset (.ctrlVmentryControls, 0x91ff) (by decide) (by decide)⟩
  have hefer : s.vcpu.readVmcs .guestIa32Efer = 0 :=
    hset (.guestIa32Efer, 0) (by decide) (by decide)
  have hmode : s.is64 = false := by
    rw [Machine.is64, Vcpu.lma, hefer]
    simp
  -- CR4
  obtain ⟨s₁, h₁, hcr4, hvm₁⟩ := Running.pae (w := w) h hr hmode
    (hset (.guestCr4, 0x2000) (by decide) (by decide))
    (hset (.ctrlCr4Mask, 0x2000) (by decide) (by decide))
    (hset (.ctrlCr4Shadow, 0x0) (by decide) (by decide))
  have hmode₁ : s₁.is64 = false := (h₁.is64 (by simp) (by simp)).trans hmode
  -- EFER
  obtain ⟨s₂, h₂, hrcx₂, hvm₂⟩ := h₁.after.setReg (w := w) h hmode₁ rfl (by decide) (by decide)
  have hmode₂ : s₂.is64 = false := (h₂.is64 (by simp) (by simp)).trans hmode₁
  have hecx₂ : (rreg s₂.vcpu .rcx).setWidth 32 = msrEfer := by
    rw [hrcx₂]
    decide
  have hruns₂ := h₁.trans h₂
  obtain ⟨s₃, h₃, hrax₃, hrdx₃, hvm₃⟩ := h₂.after.rdmsrEfer (w := w) h hrdmsr hmode₂
    (hoff.of_runs hruns₂ (by simp)) hecx₂ ((hruns₂.vmcs _ (by simp)).trans hefer)
  have hmode₃ : s₃.is64 = false := (h₃.is64 (by simp) (by simp)).trans hmode₂
  obtain ⟨s₄, h₄, hrax₄, hvm₄⟩ := h₃.after.orEax (w := w) h hmode₃ hrax₃
  have hmode₄ : s₄.is64 = false := (h₄.is64 (by simp) (by simp)).trans hmode₃
  have hruns₄ := (hruns₂.trans h₃).trans h₄
  have hecx₄ : (rreg s₄.vcpu .rcx).setWidth 32 = msrEfer := by
    rw [h₄.regs _ (by simp) (by decide), h₃.regs _ (by simp) (by decide), hecx₂]
  have hrdx₄ : rreg s₄.vcpu .rdx = 0 :=
    (h₄.regs _ (by simp) (by decide)).trans hrdx₃
  obtain ⟨s₅, h₅, hefer₅, hvm₅⟩ := h₄.after.wrmsrEfer (w := w) h hwrmsr hmode₄
    (hoff.of_runs hruns₄ (by simp)) hecx₄ (hrax₄.trans (by decide)) hrdx₄
  have hruns₅ := hruns₄.trans h₅
  have hoff₅ := hoff.of_runs hruns₅ (by simp)
  have hmode₅ : s₅.is64 = false := by
    rw [Machine.is64, Vcpu.lma, hefer₅]
    simp
  -- CR0
  obtain ⟨s₆, h₆, hrax₆, hvm₆⟩ := h₅.after.setReg (w := w) h hmode₅ rfl (by decide) (by decide)
  have hmode₆ : s₆.is64 = false := (h₆.is64 (by simp) (by simp)).trans hmode₅
  have hread : maskedCr (0xe0000031 : U64) 0x21 0x31 = 0x21 := by
    decide
  rw [hoff₅.cr0, hoff₅.cr0Mask, hoff₅.cr0Shadow, hread] at hrax₆
  obtain ⟨s₇, h₇, hrax₇, hvm₇⟩ := h₆.after.orEax (w := w) h hmode₆ hrax₆
  have hmode₇ : s₇.is64 = false := (h₇.is64 (by simp) (by simp)).trans hmode₆
  obtain ⟨s₈, h₈, hrax₈, hvm₈⟩ := h₇.after.orEax (w := w) h hmode₇ hrax₇
  have hmode₈ : s₈.is64 = false := (h₈.is64 (by simp) (by simp)).trans hmode₇
  have hcr0 := (h₆.trans h₇).trans h₈
  have hruns₈ := hruns₅.trans hcr0
  have hvm₈' : s₈.vm = s.vm := by
    rw [hvm₈, hvm₇, hvm₆, hvm₅, hvm₄, hvm₃, hvm₂, hvm₁]
  obtain ⟨s₉, h₉, hon, hvm₉⟩ := h₈.after.movCr0 (w := w) h hmovCr0 hmode₈
    (hoff₅.of_runs hcr0 (by simp)) (hrax₈.trans (by decide)) ((hcr0.vmcs _ (by simp)).trans hefer₅)
    (by rw [hruns₈.vmcs _ (by simp), hvm₈', hcr3])
  have hruns₉ := hruns₈.trans h₉
  refine ⟨s₉, hruns₉.mono (by simp) (by simp [pagingFields]), hon, ?_, hvm₉.trans hvm₈'⟩
  rw [h₉.vmcs _ (by simp), hcr0.vmcs _ (by simp), h₅.vmcs _ (by simp), h₄.vmcs _ (by simp),
    h₃.vmcs _ (by simp), h₂.vmcs _ (by simp), hcr4]

end Paging

end Hvexec
