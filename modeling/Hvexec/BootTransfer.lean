import Hvexec.Application
import Hvexec.BootSegments
import Hvexec.MachoParser

/-!
# The jump to the application

In 64-bit mode boot.asm leaves the address of its `hlt` on the stack, loads argc and argv, and
returns into the application.  `Entered` says how the application finds the machine, and
`boot_enters` that boot.asm, started where `main` leaves the processor, always comes there.
-/

namespace Hvexec

open ByteMemory IntervalList

/-! ## 64-bit mode -/

section Jump

variable {m : MainRun} {content : List Byte} {asm : BootAsm → List Byte}
  {code is rest : List BootAsm} {w : Monitor} {s : Machine} {l : Labels}

theorem signExtend_of_low {x : BitVec 32} (hx : x.toNat < 0x10000) :
    x.signExtend 64 = x.setWidth 64 := by
  apply BitVec.signExtend_eq_setWidth_of_msb_false
  rw [BitVec.msb_eq_false_iff_two_mul_lt]
  omega

/-- A register is loaded from behind the tables. -/
theorem Running.movMem (h : m.AppLoaded content) {r : Reg} {label : BitVec 32} {x : U64}
    (hr : Running m asm code s (.movMem r label :: is)) (hmode : s.is64 = true)
    (hcr0 : r ≠ .cr0) (hrip : r ≠ .rip)
    (hx : Holds s.vm (label.setWidth 64) (leBytes 8 x.toNat)) (hlow : label.toNat + 8 ≤ 0x10000) :
    ∃ s', Runs m asm code w [.movMem r label] is [r] [] s s' ∧
      rreg s'.vcpu r = x ∧ s'.vm = s.vm := by
  have hds : Seg.ds ∈ [Seg.cs, .ss, .ds] := by
    simp
  have hload := hr.load h hds hx (by rw [toNat_setWidth_64, length_leBytes]; exact hlow)
  rw [length_leBytes] at hload
  have hval : BitVec.ofNat 64 (leNat (leBytes 8 x.toNat)) = x := by
    rw [leNat_leBytes, Nat.mod_eq_of_lt (show x.toNat < 256 ^ 8 from x.isLt), BitVec.ofNat_toNat,
      BitVec.setWidth_eq]
  refine hr.setReg h hmode ?_ hcr0 hrip
  show (s.load .ds (label.signExtend 64) 8).map _ = _
  rw [signExtend_of_low (by omega), hload, Option.map_some, hval]

/-- Eight bytes are pushed. -/
theorem Running.push64 (h : m.AppLoaded content) {i : BootAsm} {x : U64}
    (hr : Running m asm code s (i :: is)) (hmode : s.is64 = i.bits64)
    (hexec : s.exec w (asm i).length i = (s.push 8 x).map fun s => s.next (asm i).length)
    (hlo : 8 ≤ (rreg s.vcpu .rsp).toNat) (hhi : (rreg s.vcpu .rsp).toNat ≤ 0x8000) :
    ∃ s', Runs m asm code w [i] is [.rsp] [] s s' ∧
      rreg s'.vcpu .rsp = rreg s.vcpu .rsp - 8 ∧
      Holds s'.vm (rreg s.vcpu .rsp - 8) (leBytes 8 x.toNat) ∧
      KeepsOutside ((rreg s.vcpu .rsp).toNat - 8) (rreg s.vcpu .rsp).toNat s.vm s'.vm := by
  have hlen : (leBytes 8 x.toNat).length = 8 := length_leBytes 8 x.toNat
  have htop : (rreg s.vcpu .rsp - BitVec.ofNat 64 8).toNat = (rreg s.vcpu .rsp).toNat - 8 := by
    bv_omega
  obtain ⟨s', hruns, hrsp, hvm⟩ := hr.pushWord h hmode hexec hlo hhi
  refine ⟨s', hruns, hrsp, ?_, fun y bs hy hout => ?_⟩
  · rw [hvm]
    exact (hr.low.lowMem h.toLoaded).holds_write (by omega)
  · rw [hvm]
    exact hr.holds_write h hy (by omega) (by omega)

/-- The registers that are zero when the application starts. -/
def zeroRegs : List Reg :=
  [.rax, .rbx, .rcx, .rdx]

/-- `mov r, 0`, for several registers. -/
theorem Running.zeroRegs (h : m.AppLoaded content) :
    ∀ {rs : List Reg} {s : Machine},
      Running m asm code s (rs.map (fun r => .movImm r 0) ++ rest) → s.is64 = true →
      (∀ r ∈ rs, r ∈ Hvexec.zeroRegs) →
      ∃ s', Runs m asm code w (rs.map fun r => .movImm r 0) rest rs [] s s' ∧
        (∀ r ∈ rs, rreg s'.vcpu r = 0) ∧ s'.vm = s.vm
  | [], s, hr, _, _ => ⟨s, ⟨rfl, hr, fun _ _ _ => rfl, fun _ _ => rfl⟩, by simp, rfl⟩
  | r :: rs, s, hr, hmode, hrs => by
      have hhead : r ∈ Hvexec.zeroRegs := hrs r List.mem_cons_self
      have hgeneral : ∀ r ∈ Hvexec.zeroRegs, r ≠ .cr0 ∧ r ≠ .rip := by
        decide
      obtain ⟨s₁, h₁, hzero₁, hvm₁⟩ := hr.setReg (w := w) h hmode rfl (hgeneral r hhead).1
        (hgeneral r hhead).2
      obtain ⟨s₂, h₂, hzero₂, hvm₂⟩ := Running.zeroRegs h h₁.after
        ((h₁.is64 (by simp) (by simp)).trans hmode) fun r hr => hrs r (List.mem_cons_of_mem _ hr)
      refine ⟨s₂, h₁.trans h₂, fun r' hr' => ?_, hvm₂.trans hvm₁⟩
      by_cases hin : r' ∈ rs
      · exact hzero₂ r' hin
      · obtain rfl : r' = r := (List.mem_cons.mp hr').resolve_right hin
        rw [h₂.regs _ hin (hgeneral _ hhead).2, hzero₁]
        rfl

/-- What comes before the `ret`. -/
def bootJump (l : Labels) : List BootAsm :=
  [.pushImm l.halt] ++ [.movMem .rax l.appEntry] ++ [.pushRax] ++
    zeroRegs.map (fun r => .movImm r 0) ++ [.movMem .rdi l.appArgc] ++ [.movMem .rsi l.appArgv]

theorem bootCode64_eq (l : Labels) : bootCode64 l = bootJump l ++ [.ret] :=
  rfl

/-- **The words of the stack and the registers of the application.** -/
theorem bootJump_runs (h : m.AppLoaded content) {entry argc argv : U64}
    (hr : Running m asm code s (bootJump l ++ rest)) (hmode : s.is64 = true)
    (hrsp : rreg s.vcpu .rsp = 0x7000)
    (hhalt : l.halt.toNat < 0x10000) (hentry : 0x7000 ≤ l.appEntry.toNat)
    (hlow : l.appEntry.toNat + 24 ≤ 0x10000)
    (hnums : Holds s.vm (l.appEntry.setWidth 64)
      ((leBytes 8 entry.toNat ++ leBytes 8 argc.toNat) ++ leBytes 8 argv.toNat)) :
    ∃ s', Runs m asm code w (bootJump l) rest
        ([.rsp] ++ zeroRegs ++ [.rdi, .rsi]) [] s s' ∧
      rreg s'.vcpu .rsp = 0x6FF0 ∧ rreg s'.vcpu .rdi = argc ∧ rreg s'.vcpu .rsi = argv ∧
      (∀ r ∈ zeroRegs, rreg s'.vcpu r = 0) ∧
      Holds s'.vm 0x6FF0 (leBytes 8 entry.toNat) ∧ Holds s'.vm 0x6FF8 (leBytes 8 l.halt.toNat) ∧
      KeepsOutside 0x6FF0 0x7000 s.vm s'.vm := by
  have hwide := toNat_setWidth_64 l.appEntry
  have hlen := fun x : U64 => length_leBytes 8 x.toNat
  have hargc_at : l.appArgc.toNat = l.appEntry.toNat + 8 := by
    unfold Labels.appArgc
    bv_omega
  have hargv_at : l.appArgv.toNat = l.appEntry.toNat + 16 := by
    unfold Labels.appArgv
    bv_omega
  have hargc_wide := toNat_setWidth_64 l.appArgc
  have hargv_wide := toNat_setWidth_64 l.appArgv
  have hargc_eq : l.appEntry.setWidth 64 + BitVec.ofNat 64 8 = l.appArgc.setWidth 64 := by
    bv_omega
  have hargv_eq : l.appEntry.setWidth 64 + BitVec.ofNat 64 16 = l.appArgv.setWidth 64 := by
    bv_omega
  rw [Holds.append (by simp only [List.length_append, hlen]; omega),
    Holds.append (by simp only [List.length_append, hlen]; omega), List.length_append, hlen,
    hlen, hargc_eq, hargv_eq] at hnums
  obtain ⟨⟨hentry_held, hargc_held⟩, hargv_held⟩ := hnums
  have hrsp_toNat : (0x7000 : U64).toNat = 0x7000 := rfl
  have htop₁ : (0x7000 - 8 : U64) = 0x6FF8 := by
    decide
  have htop₃ : (0x6FF8 - 8 : U64) = 0x6FF0 := by
    decide
  -- the address of `halt`, and the entry point
  obtain ⟨s₁, h₁, hrsp₁, hhalt₁, hkeep₁⟩ := hr.push64 (w := w) h hmode rfl
    (by rw [hrsp]; decide) (by rw [hrsp]; decide)
  rw [hrsp, htop₁] at hrsp₁ hhalt₁
  rw [hrsp] at hkeep₁
  rw [signExtend_of_low hhalt, toNat_setWidth_64] at hhalt₁
  have hmode₁ : s₁.is64 = true := (h₁.is64 (by simp) (by simp)).trans hmode
  have hentry₁ := hkeep₁ _ _ hentry_held (Or.inr (by omega))
  obtain ⟨s₂, h₂, hrax₂, hvm₂⟩ := h₁.after.movMem (w := w) h hmode₁ (by decide) (by decide) hentry₁
    (by omega)
  have hmode₂ : s₂.is64 = true := (h₂.is64 (by simp) (by simp)).trans hmode₁
  have hrsp₂ : rreg s₂.vcpu .rsp = 0x6FF8 :=
    (h₂.regs _ (by simp) (by decide)).trans hrsp₁
  obtain ⟨s₃, h₃, hrsp₃, hentry₃, hkeep₃⟩ := h₂.after.push64 (w := w) h hmode₂ rfl
    (by rw [hrsp₂]; decide) (by rw [hrsp₂]; decide)
  rw [hrsp₂, htop₃] at hrsp₃
  rw [hrsp₂, htop₃, hrax₂] at hentry₃
  rw [hrsp₂, hvm₂] at hkeep₃
  have hhalt₃ := hkeep₃ _ _ hhalt₁ (Or.inr (by decide))
  have hkeep : KeepsOutside 0x6FF0 0x7000 s.vm s₃.vm :=
    (hkeep₁.mono (by decide) (by decide)).trans (hkeep₃.mono (by decide) (by decide))
  have hmode₃ : s₃.is64 = true := (h₃.is64 (by simp) (by simp)).trans hmode₂
  -- the registers
  have hr₃ : Running m asm code s₃ (zeroRegs.map (fun r => .movImm r 0) ++
      ([.movMem .rdi l.appArgc] ++ ([.movMem .rsi l.appArgv] ++ rest))) :=
    h₃.after
  obtain ⟨s₄, h₄, hzero₄, hvm₄⟩ := Running.zeroRegs (w := w) h hr₃ hmode₃ fun _ hr => hr
  have hmode₄ : s₄.is64 = true := (h₄.is64 (by simp) (by simp)).trans hmode₃
  obtain ⟨s₅, h₅, hrdi₅, hvm₅⟩ := h₄.after.movMem (w := w) h hmode₄ (by decide) (by decide)
    (by rw [hvm₄]; exact hkeep _ _ hargc_held (Or.inr (by omega))) (by omega)
  have hmode₅ : s₅.is64 = true := (h₅.is64 (by simp) (by simp)).trans hmode₄
  obtain ⟨s₆, h₆, hrsi₆, hvm₆⟩ := h₅.after.movMem (w := w) h hmode₅ (by decide) (by decide)
    (by rw [hvm₅, hvm₄]; exact hkeep _ _ hargv_held (Or.inr (by omega))) (by omega)
  have hruns := (((((h₁.trans h₂).trans h₃).trans h₄).trans h₅).trans h₆)
  have hvm : s₆.vm = s₃.vm := by
    rw [hvm₆, hvm₅, hvm₄]
  refine ⟨s₆, hruns.mono (by decide) (by simp), ?_, ?_, hrsi₆, fun r hr' => ?_, ?_, ?_, ?_⟩
  · rw [h₆.regs _ (by simp) (by decide), h₅.regs _ (by simp) (by decide),
      h₄.regs _ (by decide) (by decide), hrsp₃]
  · rw [h₆.regs _ (by simp) (by decide), hrdi₅]
  · have hother : ∀ r ∈ zeroRegs, r ∉ [Reg.rdi] ∧ r ∉ [Reg.rsi] ∧ r ≠ .rip := by
      decide
    obtain ⟨hrdi, hrsi, hrip⟩ := hother r hr'
    rw [h₆.regs _ hrsi hrip, h₅.regs _ hrdi hrip, hzero₄ r hr']
  · rw [hvm]
    exact hentry₃
  · rw [hvm]
    exact hhalt₃
  · rw [hvm]
    exact hkeep

/-- `ret`. -/
theorem Running.ret (h : m.AppLoaded content) (hr : Running m asm code s (.ret :: is))
    (hmode : s.is64 = true) {sp x : U64} (hrsp : rreg s.vcpu .rsp = sp)
    (hx : Holds s.vm sp (leBytes 8 x.toNat)) (hlow : sp.toNat + 8 < 0x10000) :
    Machine.run w asm [.ret] s =
      if Canonical x then some ⟨wreg (wreg s.vcpu .rsp (sp + 8)) .rip x, s.vm⟩ else none := by
  have hlen : (leBytes 8 x.toNat).length = 8 := length_leBytes 8 x.toNat
  have hnext : (sp + BitVec.ofNat 64 8).toNat = sp.toNat + 8 :=
    toNat_add_ofNat (by omega)
  have hsp : s.sp = sp := (s.wrapSp_of_lt (by rw [hrsp]; omega)).trans hrsp
  have hss : Seg.ss ∈ [Seg.cs, .ss, .ds] := by
    simp
  have hload := hr.load h hss hx (by omega)
  rw [hlen] at hload
  have hval : BitVec.ofNat 64 (leNat (leBytes 8 x.toNat)) = x := by
    rw [leNat_leBytes, Nat.mod_eq_of_lt (show x.toNat < 256 ^ 8 from x.isLt), BitVec.ofNat_toNat,
      BitVec.setWidth_eq]
  have hpop : s.pop 8 = some (x, ⟨wreg s.vcpu .rsp (sp + 8), s.vm⟩) := by
    rw [Machine.pop, hsp, hload, Option.map_some, hval, s.setSp_of_lt (by rw [hrsp]; omega)
      (by omega)]
    rfl
  rw [Machine.run, hr.step_eq h hmode]
  show ((s.pop 8).bind _).bind _ = _
  rw [hpop, Option.bind_some]
  dsimp only
  split_ifs
  · rfl
  · rfl

end Jump

/-! ## The run of boot.asm -/

/-- Once there is a PML4, it stays. -/
theorem mapGva_pml4Gpa {σ : VmMem} (hroot : σ.pml4 ≠ 0) (gva npages gpa : U64)
    (env : MapGvaEnv) :
    (mapGva σ gva npages gpa env).2.pml4Gpa = σ.pml4Gpa := by
  simp only [mapGva, if_neg hroot]
  refine mapGvaLoop_invariant (P := fun τ => τ.pml4Gpa = σ.pml4Gpa) ?_ ?_ env _ 0 0 _ _ rfl
  · intro τ x v hτ
    rw [writeU64_pml4Gpa]
    exact hτ
  · intro τ x a hτ
    rw [vmMemAlloc_vm]
    exact (RegionOp.step_frame τ (.vmMemAlloc 1 a)).2.2.trans hτ

namespace MainRun

variable {m : MainRun} {out : Vcpu × VmMem} {content : List Byte} {asm : BootAsm → List Byte}
  {l : Labels} {w : Monitor}

/-- The PML4 is that of `vm_mem_init`. -/
theorem AppLoaded.root (h : m.AppLoaded content) :
    m.afterApp.vm.pml4Gpa = m.afterInit.2.pml4Gpa ∧ m.afterInit.2.pml4Gpa = 0x10000 := by
  have hinit := h.afterInitState
  obtain ⟨T, _, hok, _⟩ := hinit.init.tables
  obtain ⟨mem, hstate⟩ := hinit.state
  have hregion := RegionOp.step_frame m.afterKernel.2
    (.mapGpa imageAddr (Hvexec.numPages m.load.stSize) m.load.mmap m.load.mapGpa)
  refine ⟨?_, root_eq hinit.init m.pages⟩
  have happ : m.afterApp.vm = (mapGva (RegionOp.step m.afterKernel.2
      (.mapGpa imageAddr (Hvexec.numPages m.load.stSize) m.load.mmap m.load.mapGpa)) imageAddr
        (Hvexec.numPages m.load.stSize) imageAddr m.load.mapGva).2 :=
    (loadMachObj_eq_run h.app).1
  rw [happ, mapGva_pml4Gpa, hregion.2.2, hstate]
  rw [hregion.2.1, hstate]
  exact hok.root

/-- The text of boot.asm, and where its data is. -/
theorem Ok.bootText (hok : m.Ok out) (hasm : Assembled asm l m.kernel.content)
    {σ : VmMem} (hkernel : Holds σ 0x8000 m.kernel.content) :
    let text := (bootCode l ++ [BootAsm.hlt]).flatMap asm
    Holds σ 0x8000 text ∧ Holds σ (l.gdtHdr.setWidth 64) (bootTables l) ∧
      l.gdtHdr.toNat = 0x8000 + text.length ∧ l.gdtHdr.toNat + 96 ≤ 0x10000 := by
  intro text
  have hfit := hok.kernel
  have hstart : (0x8000 : U64).toNat = 0x8000 := rfl
  have hgdtHdr : l.gdtHdr.toNat = 0x8000 + text.length := hasm.gdtHdr
  have hlen := congrArg List.length hasm.content
  simp only [List.length_append, length_bootTables, List.length_replicate] at hlen
  have htext : text.length = (List.flatMap asm (bootCode l ++ [BootAsm.hlt])).length := rfl
  have hat : (0x8000 : U64) + BitVec.ofNat 64 text.length = l.gdtHdr.setWidth 64 := by
    apply BitVec.eq_of_toNat_eq
    rw [toNat_add_ofNat (by omega), toNat_setWidth_64, hgdtHdr, hstart]
  rw [hasm.content, Holds.append (by
      simp only [List.length_append, length_bootTables, List.length_replicate]; omega),
    Holds.append (by simp only [List.length_append, length_bootTables]; omega)] at hkernel
  refine ⟨hkernel.1.1, ?_, hgdtHdr, by omega⟩
  rw [← hat]
  exact hkernel.1.2

/-- `main` leaves the processor in front of the first instruction. -/
theorem Ok.running (hok : m.Ok out) (hargs : ArgsFit m.args)
    (hasm : Assembled asm l m.kernel.content) :
    Running m asm (bootCode l ++ [.hlt]) ⟨out.1, out.2⟩ (bootCode l ++ [.hlt]) := by
  obtain ⟨hsame, hkernel, hset, hrip⟩ := hok.bootStart hargs
  obtain ⟨htext, _, hgdtHdr, hlow⟩ := hok.bootText hasm hkernel
  refine ⟨⟨hsame, fun hpg => ?_⟩, ?_, by omega, htext, [], rfl, hrip⟩
  · rw [hset.pg] at hpg
    cases hpg
  · have hflat : ∀ seg ∈ [Seg.cs, Seg.ss, Seg.ds],
        (seg.base, (0 : U64)) ∈ setupVmcs ∧ (seg.limit, (0xffffffff : U64)) ∈ setupVmcs := by
      decide
    intro seg hseg
    exact ⟨hset _ (hflat seg hseg).1, hset _ (hflat seg hseg).2⟩

end MainRun

/-- The fields of the VMCS while the application runs: paging in long mode, and the segments
of boot.asm. -/
structure AppVmcs (v : Vcpu) : Prop where
  paging : PagingOn v
  cr4 : v.readVmcs .guestCr4 = 0x26A0
  cs : v.readVmcs .guestCs = 0x8
  data : ∀ seg ∈ [Seg.ss, .ds, .es, .fs, .gs], v.readVmcs seg.selector = 0x10
  tr : v.readVmcs .guestTr = 0x18
  trBase : v.readVmcs .guestTrBase = tssBase.setWidth 64
  trLimit : v.readVmcs .guestTrLimit = tssLimit.setWidth 64

theorem AppVmcs.congr {v v' : Vcpu} (h : AppVmcs v)
    (heq : ∀ f, v'.readVmcs f = v.readVmcs f) :
    AppVmcs v' where
  paging := ⟨(heq _).trans h.paging.cr0, (heq _).trans h.paging.efer,
    (heq _).trans h.paging.entry⟩
  cr4 := (heq _).trans h.cr4
  cs := (heq _).trans h.cs
  data := fun seg hseg => (heq _).trans (h.data seg hseg)
  tr := (heq _).trans h.tr
  trBase := (heq _).trans h.trBase
  trLimit := (heq _).trans h.trLimit

section Run

variable {m : MainRun} {out : Vcpu × VmMem} {content : List Byte} {asm : BootAsm → List Byte}
  {l : Labels} {w : Monitor} {s : Machine}

/-- The far jump leads to the next instruction. -/
theorem Assembled.label_eq (hasm : Assembled asm l m.kernel.content)
    (hr : Running m asm (bootCode l ++ [.hlt]) s
      ([.jmpFar 0b00001000 l.bits64] ++ (bootCode64 l ++ [.hlt]))) :
    l.bits64.setWidth 64 =
      rreg s.vcpu .rip + BitVec.ofNat 64 (asm (.jmpFar 0b00001000 l.bits64)).length := by
  obtain ⟨done, hdone, hrip⟩ := hr.rip
  have hpre : done ++ [.jmpFar 0b00001000 l.bits64] = bootCode32 l := by
    have heq : (done ++ [.jmpFar 0b00001000 l.bits64]) ++ (bootCode64 l ++ [.hlt]) =
        bootCode32 l ++ (bootCode64 l ++ [.hlt]) := by
      rw [List.append_assoc, ← hdone, bootCode, List.append_assoc]
    exact List.append_cancel_right heq
  have hlen := congrArg List.length (congrArg (List.flatMap asm) hpre)
  rw [List.flatMap_append, List.flatMap_singleton, List.length_append] at hlen
  have hbits64 := hasm.bits64
  have hstart : (0x8000 : U64).toNat = 0x8000 := rfl
  have hlt := l.bits64.isLt
  apply BitVec.eq_of_toNat_eq
  rw [toNat_setWidth_64, hrip, BitVec.add_assoc, BitVec.ofNat_add_ofNat,
    toNat_add_ofNat (by omega), hstart, hlen]
  exact hbits64

/-- **The 32-bit part of boot.asm**: long mode, the segments and the task. -/
theorem boot32_runs (h : m.AppLoaded content) (hok : m.Ok out) (hargs : ArgsFit m.args)
    (hasm : Assembled asm l m.kernel.content) (w : Monitor) :
    ∃ s rs fs, Runs m asm (bootCode l ++ [.hlt]) w (bootCode32 l) (bootCode64 l ++ [.hlt]) rs fs
        ⟨out.1, out.2⟩ s ∧
      s.is64 = true ∧ AppVmcs s.vcpu ∧ rreg s.vcpu .rsp = 0x7000 ∧
      Holds s.vm (l.appEntry.setWidth 64) ((leBytes 8 m.afterApp.entryoff.toNat ++
        leBytes 8 m.args.length) ++ leBytes 8 confArgvAddr.toNat) ∧
      Holds s.vm 0x7000
        (leBytes 4 0 ++ leBytes 4 m.afterInit.2.pml4Gpa.toNat ++ List.replicate 96 0) ∧
      ∀ (x : U64) (bs : List Byte), Holds out.2 x bs → 0x7068 ≤ x.toNat →
        x.toNat + bs.length ≤ 0x8000 → Holds s.vm x bs := by
  obtain ⟨_, hkernel, hset, _⟩ := hok.bootStart hargs
  obtain ⟨_, htables, hgdtHdr, hlow⟩ := hok.bootText hasm hkernel
  obtain ⟨hroot, hroot_eq⟩ := h.root
  have hcode : bootCode l ++ [BootAsm.hlt] = (bootEntry l.appEntry).map .entry ++
      (bootPaging ++ (bootSegments l ++ (bootTask ++ ([.ltr l.tssSel] ++
        ([.jmpFar 0b00001000 l.bits64] ++ (bootCode64 l ++ [.hlt])))))) := by
    rw [bootCode, bootCode32]
    simp only [List.append_assoc, List.cons_append, List.nil_append]
  have hr : Running m asm (bootCode l ++ [.hlt]) ⟨out.1, out.2⟩ _ :=
    hcode ▸ hok.running hargs hasm
  have hgdt : l.gdt.toNat = l.gdtHdr.toNat + 6 := by
    unfold Labels.gdt
    bv_omega
  have hentry : l.appEntry.toNat = l.gdtHdr.toNat + 72 := by
    unfold Labels.appEntry Labels.tssSel Labels.ssSel Labels.idt Labels.idtHdr
    bv_omega
  have hgdtHdr_wide := toNat_setWidth_64 l.gdtHdr
  have hgdt_wide := toNat_setWidth_64 l.gdt
  have hentry_wide := toNat_setWidth_64 l.appEntry
  have htables_len := length_bootTables l
  -- the words of the stack
  obtain ⟨s₁, h₁, hrsp₁, hcr3₁, hnums₁, hroot₁, hkeep₁⟩ :=
    bootEntry_runs (w := w) h hok hr hset (by omega) (by omega)
  have htables₁ := hkeep₁ htables (by omega) (by omega)
  have hroot_vm₁ : s₁.vm.pml4Gpa = m.afterInit.2.pml4Gpa :=
    h₁.after.low.same.pml4Gpa.trans hroot
  -- long mode
  obtain ⟨s₂, h₂, hon₂, hcr4₂, hvm₂⟩ := bootPaging_runs (w := w) h h₁.after
    (fun p hp hne => by rw [h₁.vmcs p.1 (by simpa using hne), hset p hp])
    hasm.rdmsr hasm.wrmsr hasm.movCr0Eax
    (by rw [hcr3₁, hroot_vm₁, hroot_eq]; decide)
  have hmode₂ : s₂.is64 = false := by
    have har : s₂.vcpu.readVmcs .guestCsAr = 0xc09b := by
      rw [h₂.vmcs _ (by decide), h₁.vmcs _ (by decide)]
      exact hset (.guestCsAr, 0xc09b) (by decide)
    rw [Machine.is64, har]
    exact Bool.and_false _
  -- the segments and the task
  obtain ⟨s₃, h₃, hg₃, hdata₃, hvm₃⟩ := bootSegments_runs (w := w) h h₂.after hmode₂
    (by rw [hvm₂]; exact htables₁) (by omega)
  have hmode₃ : s₃.is64 = false := (h₃.is64 (by decide) (by decide)).trans hmode₂
  have hrsp₃ : rreg s₃.vcpu .rsp = 0x6FFC := by
    rw [h₃.regs _ (by decide) (by decide), h₂.regs _ (by decide) (by decide), hrsp₁]
  have hvm₃' : s₃.vm = s₁.vm := hvm₃.trans hvm₂
  obtain ⟨s₄, h₄, hrsp₄, htask₄, hkeep₄⟩ := bootTask_runs (w := w) h h₃.after hmode₃ hrsp₃
    (by rw [hvm₃']; exact hroot₁) (length_leBytes _ _)
  rw [hvm₃'] at hkeep₄
  have hmode₄ : s₄.is64 = false := (h₄.is64 (by simp) (by simp)).trans hmode₃
  have hg₄ : GdtLoaded l s₄ :=
    ⟨(h₄.vmcs _ (by simp)).trans hg₃.base, (h₄.vmcs _ (by simp)).trans hg₃.limit⟩
  obtain ⟨_, hgdt₄, _, _, htss₄⟩ :=
    bootTables_parts (hkeep₄ _ _ htables₁ (Or.inr (by omega))) (by omega)
  obtain ⟨s₅, h₅, htr₅, htrBase₅, htrLimit₅, hkeep₅⟩ := Running.ltr (w := w) h h₄.after hmode₄ hg₄
    hgdt₄ htss₄ (by omega) (by omega)
  have hmode₅ : s₅.is64 = false := (h₅.is64 (by decide) (by decide)).trans hmode₄
  have hg₅ : GdtLoaded l s₅ :=
    ⟨(h₅.vmcs _ (by decide)).trans hg₄.base, (h₅.vmcs _ (by decide)).trans hg₄.limit⟩
  -- 64-bit mode
  have hcs₅ : Holds s₅.vm (l.gdt.setWidth 64 + BitVec.ofNat 64 8) ((bootGdt.drop 8).take 8) := by
    have hat : (l.gdt.setWidth 64 + BitVec.ofNat 64 8).toNat = l.gdt.toNat + 8 := by
      rw [toNat_add_ofNat (by omega), hgdt_wide]
    refine hkeep₅ _ _ (hgdt₄.part (by rw [hgdt_wide]; show _ + 56 < _; omega) (by decide)) ?_
    rw [hat]
    exact Or.inl (show l.gdt.toNat + 8 + 8 ≤ _ by omega)
  have hlater := (h₃.trans h₄).trans h₅
  have hlma₅ : s₅.vcpu.lma = true := by
    rw [Vcpu.lma, hlater.vmcs _ (by decide)]
    exact hon₂.lma
  obtain ⟨s₆, h₆, hcs₆, hmode₆, hvm₆⟩ := Running.jmpFar (w := w) h h₅.after hmode₅ hg₅ hcs₅
    (by omega) hlma₅ (hasm.label_eq h₅.after)
  have hlate := hlater.trans h₆
  have hruns := ((((h₁.trans h₂).trans h₃).trans h₄).trans h₅).trans h₆
  have hcode₃₂ : bootCode32 l = (bootEntry l.appEntry).map .entry ++ bootPaging ++
      bootSegments l ++ bootTask ++ [.ltr l.tssSel] ++ [.jmpFar 0b00001000 l.bits64] := by
    rw [bootCode32]
    simp only [List.append_assoc, List.cons_append, List.nil_append]
  refine ⟨s₆, _, _, hcode₃₂ ▸ hruns, hmode₆, ?_, ?_, ?_, ?_, ?_⟩
  · have hdata_apart : ∀ seg ∈ [Seg.ss, .ds, .es, .fs, .gs],
        seg.selector ∉ ([] ++ Seg.tr.fields) ++ Seg.cs.fields := by
      decide
    have hdata := (h₄.trans h₅).trans h₆
    constructor
    · constructor
      · rw [hlate.vmcs _ (by decide), hon₂.cr0]
      · rw [hlate.vmcs _ (by decide), hon₂.efer]
      · rw [hlate.vmcs _ (by decide), hon₂.entry]
    · rw [hlate.vmcs _ (by decide), hcr4₂]
    · exact hcs₆
    · intro seg hseg
      rw [hdata.vmcs _ (hdata_apart seg hseg), hdata₃ seg hseg]
    · rw [h₆.vmcs _ (by decide), htr₅]
    · rw [h₆.vmcs _ (by decide), htrBase₅]
    · rw [h₆.vmcs _ (by decide), htrLimit₅]
  · rw [h₆.regs _ (by simp) (by decide), h₅.regs _ (by simp) (by decide), hrsp₄]
  · rw [hvm₆]
    exact hkeep₅ _ _ (hkeep₄ _ _ hnums₁ (Or.inr (by omega))) (Or.inr (by omega))
  · rw [hvm₆]
    refine hkeep₅ _ _ htask₄ (Or.inl ?_)
    simp only [List.length_append, length_leBytes, List.length_replicate]
    show 0x7000 + _ ≤ _
    omega
  · intro x bs hx hlo hhi
    rw [hvm₆]
    exact hkeep₅ _ _ (hkeep₄ _ _ (hkeep₁ hx (by omega) (by omega)) (Or.inr hlo))
      (Or.inl (by omega))

end Run

/-- **How the application finds the machine**: at its entry point in 64-bit mode, on the
tables that `vm_mem_init` built, with argc, argv, and a return address that leads to `hlt`.
`σ` is the memory that `main` leaves. -/
structure Entered (m : MainRun) (asm : BootAsm → List Byte) (l : Labels) (σ : VmMem)
    (s : Machine) : Prop where
  rip : rreg s.vcpu .rip = m.afterApp.entryoff
  mode : s.is64 = true
  vmcs : AppVmcs s.vcpu
  windows : s.windows = s.vm.windows
  argc : rreg s.vcpu .rdi = BitVec.ofNat 64 m.args.length
  argv : rreg s.vcpu .rsi = confArgvAddr
  zero : ∀ r ∈ zeroRegs, rreg s.vcpu r = 0
  rsp : rreg s.vcpu .rsp = 0x6FF8
  ret : Holds s.vm 0x6FF8 (leBytes 8 l.halt.toNat)
  halt : Holds s.vm (l.halt.setWidth 64) (asm .hlt)
  task : Holds s.vm 0x7000
    (leBytes 4 0 ++ leBytes 4 s.vm.pml4Gpa.toNat ++ List.replicate 96 0)
  args : ∀ (x : U64) (bs : List Byte), Holds σ x bs → 0x7068 ≤ x.toNat →
    x.toNat + bs.length ≤ 0x8000 → Holds s.vm x bs
  low : LowSpace m s

/-- What `main` of the application is given: its pointers, in the order of the arguments, and
the string behind each of them. -/
def SeesArgs (args : List CString) (s : Machine) : Prop :=
  ∀ i (hi : i < args.length), ∃ p : U64,
    s.load .ds (rreg s.vcpu .rsi + BitVec.ofNat 64 (8 * i)) 8 = some (leBytes 8 p.toNat) ∧
      s.load .ds p (args.get ⟨i, hi⟩).stored.length = some (args.get ⟨i, hi⟩).stored

section Enter

variable {m : MainRun} {out : Vcpu × VmMem} {content : List Byte} {asm : BootAsm → List Byte}
  {l : Labels} {σ : VmMem} {s : Machine} {a : U64} {bs : List Byte}

/-- The application reads the first pages where they are. -/
theorem Entered.load (he : Entered m asm l σ s) (h : m.AppLoaded content) (hbs : Holds s.vm a bs)
    (hlow : a.toNat + bs.length ≤ 0x10000) :
    s.load .ds a bs.length = some bs := by
  rw [Machine.load, Machine.linear, if_pos he.mode, Option.bind_some]
  exact he.low.loadLinear h hbs hlow

theorem Entered.seesArgs (he : Entered m asm l out.2 s) (h : m.AppLoaded content) (hok : m.Ok out)
    (hargs : ArgsFit m.args) (hshort : m.args.length ≤ 32) :
    SeesArgs m.args s := by
  have hargv_lo : confArgvAddr.toNat = 0x7100 := rfl
  intro i hi
  obtain ⟨hptr, hstr, hlo, hhi⟩ := hok.holds_arg hargs hshort hi
  have hslot : (confArgvAddr + BitVec.ofNat 64 (8 * i)).toNat = confArgvAddr.toNat + 8 * i :=
    toNat_add_ofNat (by omega)
  have haddr : (BitVec.ofNat 64 (strAddr m.args i)).toNat = strAddr m.args i := by
    rw [BitVec.toNat_ofNat]
    omega
  have hlen : (leBytes 8 (strAddr m.args i)).length = 8 := length_leBytes 8 _
  have hptr' := he.load h (he.args _ _ hptr (by omega) (by omega)) (by omega)
  rw [hlen] at hptr'
  refine ⟨BitVec.ofNat 64 (strAddr m.args i), ?_, ?_⟩
  · rw [he.argv, haddr]
    exact hptr'
  · exact he.load h (he.args _ _ hstr (by omega) (by omega)) (by omega)

/-- boot.asm runs to its end, and the application is entered. -/
theorem bootCode_run (h : m.AppLoaded content) (hok : m.Ok out) (hargs : ArgsFit m.args)
    (hasm : Assembled asm l m.kernel.content) (w : Monitor) :
    ∃ s, Entered m asm l out.2 s ∧
      Machine.run w asm (bootCode l) ⟨out.1, out.2⟩ =
        if Canonical m.afterApp.entryoff then some s else none := by
  obtain ⟨_, hkernel, _⟩ := hok.bootStart hargs
  obtain ⟨_, _, hgdtHdr, hlow⟩ := hok.bootText hasm hkernel
  obtain ⟨hroot, hroot_eq⟩ := h.root
  have hentry : l.appEntry.toNat = l.gdtHdr.toNat + 72 := by
    unfold Labels.appEntry Labels.tssSel Labels.ssSel Labels.idt Labels.idtHdr Labels.gdt
    bv_omega
  have hentry_wide := toNat_setWidth_64 l.appEntry
  have hhalt : l.halt.toNat ≤ l.gdtHdr.toNat := by
    rw [hasm.halt, hasm.gdtHdr, List.flatMap_append, List.length_append]
    omega
  have hcount : (BitVec.ofNat 64 m.args.length : U64).toNat = m.args.length := by
    have hargv := hargs.1
    have hstart : confStartAddr.toNat = 0x8000 := rfl
    rw [BitVec.toNat_ofNat]
    omega
  obtain ⟨s₁, rs, fs, h₁, hmode₁, hvmcs₁, hrsp₁, hnums₁, htask₁, hargs₁⟩ :=
    boot32_runs h hok hargs hasm w
  rw [← hcount] at hnums₁
  have hr₁ := h₁.after
  rw [bootCode64_eq, List.append_assoc] at hr₁
  obtain ⟨s₂, h₂, hrsp₂, hrdi₂, hrsi₂, hzero₂, hentry₂, hhalt₂, hkeep₂⟩ :=
    bootJump_runs (w := w) h hr₁ hmode₁ hrsp₁ (by omega) (by omega) (by omega) hnums₁
  have hmode₂ : s₂.is64 = true := (h₂.is64 (by simp) (by simp)).trans hmode₁
  have hret := h₂.after.ret (w := w) h hmode₂ hrsp₂ hentry₂ (by decide)
  have hvmcs₂ : AppVmcs s₂.vcpu := hvmcs₁.congr fun f => h₂.vmcs f (by simp)
  -- what the return changes
  have hfield : ∀ f, (wreg (wreg s₂.vcpu .rsp 0x6FF8) .rip m.afterApp.entryoff).readVmcs f =
      s₂.vcpu.readVmcs f := by
    intro f
    simp [readVmcs_wreg]
  have hreg : ∀ r, r ≠ .rsp → r ≠ .rip →
      rreg (wreg (wreg s₂.vcpu .rsp 0x6FF8) .rip m.afterApp.entryoff) r = rreg s₂.vcpu r := by
    intro r hrsp hrip
    simp [rreg_wreg, hrsp, hrip]
  have hvm₂ : s₂.vm.pml4Gpa = m.afterInit.2.pml4Gpa :=
    h₂.after.low.same.pml4Gpa.trans hroot
  refine ⟨⟨wreg (wreg s₂.vcpu .rsp 0x6FF8) .rip m.afterApp.entryoff, s₂.vm⟩, ?_, ?_⟩
  · constructor
    · simp [rreg_wreg]
    · rw [Machine.is64, Vcpu.lma, hfield, hfield]
      exact hmode₂
    · exact hvmcs₂.congr hfield
    · have hpg : s₂.vcpu.pg = true := by
        rw [Vcpu.pg, hvmcs₂.paging.cr0]
        decide
      obtain ⟨hlma, hcr3⟩ := h₂.after.low.root hpg
      rw [Machine.windows, Vcpu.pg, Vcpu.lma, hfield, hfield, hfield, hcr3]
      rw [Vcpu.pg] at hpg
      rw [Vcpu.lma] at hlma
      rw [hpg, if_neg (by decide), if_pos hlma]
    · rw [hreg _ (by decide) (by decide), hrdi₂]
    · rw [hreg _ (by decide) (by decide), hrsi₂]
    · intro r hr
      have hother : ∀ r ∈ zeroRegs, r ≠ .rsp ∧ r ≠ .rip := by
        decide
      rw [hreg r (hother r hr).1 (hother r hr).2, hzero₂ r hr]
    · simp [rreg_wreg]
    · exact hhalt₂
    · have htext := h₂.after.text
      have hstart : (0x8000 : U64).toNat = 0x8000 := rfl
      have hlen := congrArg List.length
        (List.flatMap_append (f := asm) : (bootCode l ++ [BootAsm.hlt]).flatMap asm = _)
      rw [List.flatMap_singleton, List.length_append] at hlen
      have hhalt_eq := hasm.halt
      have hat : (0x8000 : U64) + BitVec.ofNat 64 ((bootCode l).flatMap asm).length =
          l.halt.setWidth 64 := by
        apply BitVec.eq_of_toNat_eq
        rw [toNat_add_ofNat (by omega), toNat_setWidth_64, hhalt_eq, hstart]
      rw [List.flatMap_append, List.flatMap_singleton,
        Holds.append (by rw [List.length_append]; omega), hat] at htext
      exact htext.2
    · rw [hvm₂]
      exact hkeep₂ _ _ htask₁ (Or.inr (by decide))
    · intro x bs hx hlo hhi
      exact hkeep₂ _ _ (hargs₁ x bs hx hlo hhi) (Or.inr (by omega))
    · exact h₂.after.low.setVcpu (fun f (_ : f ∉ []) => hfield f) (by simp)
  · have hcode : bootCode l = (bootCode32 l ++ bootJump l) ++ [.ret] := by
      rw [bootCode, bootCode64_eq, List.append_assoc]
    have htop : (0x6FF0 + 8 : U64) = 0x6FF8 := by
      decide
    rw [hcode, Machine.run_append (h₁.trans h₂).run, hret, htop]

end Enter

/-- **boot.asm enters the application.**  From every state that `main` leaves, with the
arguments below the kernel, it comes to its last instruction without a fault, and returns into
the application if the entry point is an address at all.  Up to 32 arguments are then what
`main` of the application reads. -/
theorem boot_enters
    (m : MainRun) (content : List Byte) (out : Vcpu × VmMem) (h : m.AppLoaded content)
    (hok : m.Ok out) (hargs : ArgsFit m.args)
    (asm : BootAsm → List Byte) (l : Labels) (hasm : Assembled asm l m.kernel.content)
    (w : Monitor) :
    ∃ s, Entered m asm l out.2 s ∧ (m.args.length ≤ 32 → SeesArgs m.args s) ∧
      Machine.run w asm (bootCode l) ⟨out.1, out.2⟩ =
        if Canonical m.afterApp.entryoff then some s else none := by
  obtain ⟨s, hentered, hrun⟩ := bootCode_run h hok hargs hasm w
  exact ⟨s, hentered, hentered.seesArgs h hok hargs, hrun⟩

/-! ## boot.asm as x86 code -/

/-- The number of a segment register in an instruction. -/
def Seg.number : Seg → Byte
  | .es => 0
  | .cs => 1
  | .ss => 2
  | .ds => 3
  | .fs => 4
  | .gs => 5
  | .tr => 0

/-- The number of a register in an instruction. -/
def Reg.number : Reg → Byte
  | .rcx => 1
  | .rdx => 2
  | .rbx => 3
  | .rsi => 6
  | .rdi => 7
  | _ => 0

/-- The encodings of the instructions. -/
def x86 : BootAsm → List Byte
  | .entry .popEax => [0x58]
  | .entry (.movToMem label) => 0xA3 :: leBytes 4 label.toNat
  | .entry .movCr3Eax => [0x0F, 0x22, 0xD8]
  | .entry .pushEax => [0x50]
  | .popEbx => [0x5B]
  | .movEaxCr4 => [0x0F, 0x20, 0xE0]
  | .movCr4Eax => [0x0F, 0x22, 0xE0]
  | .movEaxCr0 => [0x0F, 0x20, 0xC0]
  | .movCr0Eax => [0x0F, 0x22, 0xC0]
  | .movEax imm => 0xB8 :: leBytes 4 imm.toNat
  | .movEcx imm => 0xB9 :: leBytes 4 imm.toNat
  | .orEax imm => 0x0D :: leBytes 4 imm.toNat
  | .addEax imm => 0x05 :: leBytes 4 imm.toNat
  | .rdmsr => [0x0F, 0x32]
  | .wrmsr => [0x0F, 0x30]
  | .lgdt label => [0x0F, 0x01, 0x15] ++ leBytes 4 label.toNat
  | .lidt label => [0x0F, 0x01, 0x1D] ++ leBytes 4 label.toNat
  | .movAx label => [0x66, 0xA1] ++ leBytes 4 label.toNat
  | .movSegAx seg => [0x8E, 0xC0 + 8 * seg.number]
  | .storeDword imm => [0xC7, 0x00] ++ leBytes 4 imm.toNat
  | .storeEbx => [0x89, 0x18]
  | .storeWord imm => [0x66, 0xC7, 0x00] ++ leBytes 2 imm.toNat
  | .ltr label => [0x0F, 0x00, 0x1D] ++ leBytes 4 label.toNat
  | .jmpFar sel label => 0xEA :: leBytes 4 label.toNat ++ leBytes 2 sel.toNat
  | .pushImm imm => 0x68 :: leBytes 4 imm.toNat
  | .pushRax => [0x50]
  | .movMem r label => [0x48, 0x8B, 0x04 + 8 * r.number, 0x25] ++ leBytes 4 label.toNat
  | .movImm r imm => [0x48, 0xC7, 0xC0 + r.number] ++ leBytes 4 imm.toNat
  | .ret => [0xC3]
  | .hlt => [0xF4]

/-- The labels of `kernelFile`. -/
def kernelLabels : Labels where
  bits64 := 0x81A7
  halt := 0x81E2
  gdtHdr := 0x81E3

/-- boot.asm, assembled. -/
def kernelFile : List Byte :=
  (bootCode kernelLabels ++ [BootAsm.hlt]).flatMap x86 ++ bootTables kernelLabels ++
    List.replicate 24 0

theorem kernelFile_assembled : Assembled x86 kernelLabels kernelFile where
  content := rfl
  bits64 := by decide +kernel
  halt := by decide +kernel
  gdtHdr := by decide +kernel
  rdmsr := rfl
  wrmsr := rfl
  movCr0Eax := rfl

/-- `bootRun` with boot.asm as its kernel. -/
def kernelRun : MainRun :=
  { bootRun with kernel := ⟨true, true, 0x50000000, kernelFile⟩ }

theorem kernelRun_loaded : kernelRun.Loaded :=
  MainRun.loaded_of_fresh bootSetUp_fresh (by decide) rfl rfl (by decide) (by decide +kernel)

theorem kernelRun_ok : ∃ out, kernelRun.Ok out := by
  have hloaded := kernelRun_loaded
  obtain ⟨σ, hargs⟩ : ∃ σ,
      setArgs kernelRun.afterApp.vm confArgvAddr confArgsAddr kernelRun.args = some σ :=
    hloaded.afterApp_low.1.setArgs_fits (by decide) (by decide)
  refine ⟨MainRun.pushAll kernelRun.afterSetup.2.1 σ (BitVec.ofNat 64 kernelRun.args.length)
    kernelRun.afterApp.entryoff, hloaded, ?_, bootSetUp_fresh.root_low⟩
  have hsetup : kernelRun.afterSetup.1 = 0 := by
    rfl
  unfold MainRun.launch
  rw [if_neg (not_not.mpr hloaded.init), if_neg (not_not.mpr hsetup),
    if_neg (not_not.mpr hloaded.load), if_neg (not_not.mpr hloaded.app),
    MainRun.afterArgs, hargs]
  rfl

theorem kernelRun_appLoaded : kernelRun.AppLoaded (List.replicate 5 0) :=
  ⟨kernelRun_loaded, kernelRun_loaded.mappedFile bootSetUp_mappedFile (by decide) (by decide),
    by decide⟩

theorem kernelRun_entryoff : kernelRun.afterApp.entryoff = 0x100000100 := by
  have hfails := (loadMachObj_code_eq_zero_iff kernelRun.entryoff₀).mp kernelRun_loaded.app
  rw [MainRun.afterApp, entryoff_of_not_mappingFails hfails]
  decide

theorem boot_enters_kernelRun :
    ∃ out s, kernelRun.launch = some out ∧ Entered kernelRun x86 kernelLabels out.2 s ∧
      SeesArgs kernelRun.args s ∧
      Machine.run ⟨noPlugin, false, 0, quietEnv⟩ x86 (bootCode kernelLabels) ⟨out.1, out.2⟩ =
        some s := by
  obtain ⟨out, hok⟩ := kernelRun_ok
  obtain ⟨s, hentered, hsees, hrun⟩ := boot_enters kernelRun _ out kernelRun_appLoaded hok
    ⟨by decide, by decide⟩ x86 kernelLabels kernelFile_assembled ⟨noPlugin, false, 0, quietEnv⟩
  refine ⟨out, s, hok.launch, hentered, hsees (by decide), hrun.trans ?_⟩
  rw [kernelRun_entryoff, if_pos (by decide)]

end Hvexec
