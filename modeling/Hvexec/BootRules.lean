import Hvexec.BootAsm

/-!
# Rules for the boot code

Everything that boot.asm reads and writes lies in the first pages, where the tables map each
address to itself: turning paging on changes nothing there (`LowSpace.windows`).  So while
the text of the kernel stays as it is, the next instruction is the one that is fetched, and
there is one rule for each kind of instruction.
-/

namespace Hvexec

open ByteMemory IntervalList

/-! ## The first pages -/

/-- Only the first pages were written since the loads, and with paging on the tables of
`map_gva` are used. -/
structure LowSpace (m : MainRun) (s : Machine) : Prop where
  same : SameButLow m.afterApp.vm s.vm m.answer.valloc
  root : s.vcpu.pg = true →
    s.vcpu.lma = true ∧ entryFrame (s.vcpu.readVmcs .guestCr3) = s.vm.pml4Gpa

section Low

variable {m : MainRun} {content : List Byte} {s : Machine} {a : U64} {bs : List Byte}

theorem LowSpace.lowMem (hs : LowSpace m s) (h : m.Loaded) : LowMem s.vm m.answer.valloc :=
  h.afterApp_low.1.congr hs.same.memRegions

/-- **The first pages are where they are**, with paging and without. -/
theorem LowSpace.windows (hs : LowSpace m s) (h : m.AppLoaded content)
    (ha : a.toNat < 0x10000) :
    s.windows a = some (gpaToHva s.vm.memRegions a) ∧
      gpaToHva s.vm.memRegions a ≠ 0 := by
  obtain ⟨T, happ, _⟩ := h.start hs.same
  obtain ⟨hlo, hhi, _⟩ := m.firstRegion_bounds
  have hin : InRegion m.appRegions a :=
    ⟨m.firstRegion, List.mem_cons_self, hlo ▸ Nat.zero_le _, hhi ▸ ha⟩
  have hnull := (gpaToHva_ne_zero_iff happ.tables.regions happ.tables.host a).mpr
    (happ.inRegion hin)
  refine ⟨?_, hnull⟩
  rw [Machine.windows]
  cases hpg : s.vcpu.pg with
  | false =>
      rw [if_pos rfl]
      exact if_neg hnull
  | true =>
      obtain ⟨hlma, hroot⟩ := hs.root hpg
      rw [if_neg (by decide), if_pos hlma, hroot]
      exact happ.windows_of_mem hin

theorem LowSpace.look (hs : LowSpace m s) (h : m.AppLoaded content)
    (ha : a.toNat < 0x10000) :
    look s.windows s.vm.mem a = s.vm.byteAt a := by
  obtain ⟨hwindow, hnull⟩ := hs.windows h ha
  rw [ByteMemory.look, hwindow, VmMem.byteAt, if_neg hnull]
  rfl

/-- What the first pages hold is loaded. -/
theorem LowSpace.loadLinear (hs : LowSpace m s) (h : m.AppLoaded content)
    (hbs : Holds s.vm a bs) (hlow : a.toNat + bs.length ≤ 0x10000) :
    s.loadLinear a bs.length = some bs := by
  refine bytesFrom_eq_some fun i hi => ?_
  have hsum : (a + BitVec.ofNat 64 i).toNat = a.toNat + i :=
    toNat_add_ofNat (by omega)
  rw [hs.look h (by omega), hbs _ (by omega) (by omega), hsum, Nat.add_sub_cancel_left,
    List.getD_eq_getElem _ _ hi]
  rfl

/-- A store to the first pages is one of `vm_mem_write`. -/
theorem LowSpace.storeLinear (hs : LowSpace m s) (h : m.AppLoaded content)
    (hlow : a.toNat + bs.length ≤ 0x10000) :
    s.storeLinear a bs = some { s with vm := (vmMemWrite s.vm a bs).2 } := by
  have hmem := hs.lowMem h.toLoaded
  have hhi : a.toNat + bs.length ≤ MemRegion.hi ⟨0, 16, m.answer.valloc⟩ := by
    simpa [MemRegion.hi] using hlow
  have hrow := consecutive_of_mem a hmem.regions hmem.host hmem.first (Nat.zero_le _) hhi
  rw [vmMemWrite_of_mem a hmem.regions hmem.host hmem.first bs (Nat.zero_le _) hhi,
    Machine.storeLinear, putBytes_eq_overwrite (by omega) fun i hi => ?_]
  · rfl
  · have hsum : (a + BitVec.ofNat 64 i).toNat = a.toNat + i :=
      toNat_add_ofNat (by omega)
    rw [(hs.windows h (by omega)).1, (hrow i hi).1]

/-- Without paging the tables do not matter. -/
theorem LowSpace.setVcpu_off (hs : LowSpace m s) {v : Vcpu} (hoff : v.pg = false) :
    LowSpace m { s with vcpu := v } := by
  refine ⟨hs.same, fun hpg => ?_⟩
  rw [hoff] at hpg
  cases hpg

/-- Fields may be written that the tables do not depend on. -/
theorem LowSpace.setVcpu (hs : LowSpace m s) {v : Vcpu} {fs : List VmcsField}
    (hvmcs : ∀ f, f ∉ fs → v.readVmcs f = s.vcpu.readVmcs f)
    (hfs : ∀ f ∈ [VmcsField.guestCr0, .guestIa32Efer, .guestCr3], f ∉ fs) :
    LowSpace m { s with vcpu := v } := by
  refine ⟨hs.same, fun hpg => ?_⟩
  have hcr0 := hvmcs _ (hfs .guestCr0 (by simp))
  have hefer := hvmcs _ (hfs .guestIa32Efer (by simp))
  have hcr3 := hvmcs _ (hfs .guestCr3 (by simp))
  have hroot := hs.root (by rwa [Vcpu.pg, ← hcr0])
  rwa [Vcpu.lma, ← hefer, ← hcr3] at hroot

theorem LowSpace.write (hs : LowSpace m s) (h : m.AppLoaded content)
    (hlow : a.toNat + bs.length ≤ 0x10000) :
    SameButLow m.afterApp.vm (vmMemWrite s.vm a bs).2 m.answer.valloc :=
  hs.same.trans ((hs.lowMem h.toLoaded).write_low hlow).2

end Low

/-! ## Running boot.asm -/

/-- The segments of the code, the stack and the data begin at zero and have no end. -/
def Flat (s : Machine) : Prop :=
  ∀ seg ∈ [Seg.cs, Seg.ss, Seg.ds],
    s.vcpu.readVmcs seg.base = 0 ∧ s.vcpu.readVmcs seg.limit = 0xffffffff

/-- The machine is in front of `rest` in the text `code` of the kernel. -/
structure Running (m : MainRun) (asm : BootAsm → List Byte) (code : List BootAsm)
    (s : Machine) (rest : List BootAsm) : Prop where
  low : LowSpace m s
  flat : Flat s
  fits : 0x8000 + (code.flatMap asm).length ≤ 0x10000
  text : Holds s.vm 0x8000 (code.flatMap asm)
  rip : ∃ done, code = done ++ rest ∧
    rreg s.vcpu .rip = 0x8000 + BitVec.ofNat 64 (done.flatMap asm).length

/-- The instructions `is`, of which `rest` is what follows, lead from `s` to `s'`.  They change
no registers but `rs` and RIP and no fields but `fs`. -/
structure Runs (m : MainRun) (asm : BootAsm → List Byte) (code : List BootAsm) (w : Monitor)
    (is rest : List BootAsm) (rs : List Reg) (fs : List VmcsField) (s s' : Machine) :
    Prop where
  run : Machine.run w asm is s = some s'
  after : Running m asm code s' rest
  regs : ∀ r, r ∉ rs → r ≠ .rip → rreg s'.vcpu r = rreg s.vcpu r
  vmcs : ∀ f, f ∉ fs → s'.vcpu.readVmcs f = s.vcpu.readVmcs f

theorem Machine.run_append {w : Monitor} {asm : BootAsm → List Byte} {is is' : List BootAsm}
    {s s' : Machine} (h : Machine.run w asm is s = some s') :
    Machine.run w asm (is ++ is') s = Machine.run w asm is' s' := by
  induction is generalizing s with
  | nil =>
      rw [Option.some.inj h]
      rfl
  | cons i is ih =>
      obtain ⟨t, hstep, hrest⟩ := Option.bind_eq_some_iff.mp h
      rw [List.cons_append, Machine.run, hstep, Option.bind_some]
      exact ih hrest

/-- A stack pointer below the end of the first pages has one width and the other. -/
theorem Machine.wrapSp_of_lt (s : Machine) {x : U64} (hx : x.toNat < 0x10000) :
    s.wrapSp x = x := by
  have hwidth : ∀ n, 16 ≤ n → ((x.setWidth n).setWidth 64) = x := by
    intro n hn
    apply BitVec.eq_of_toNat_eq
    have hpow : 2 ^ 16 ≤ 2 ^ n := Nat.pow_le_pow_right (by decide) hn
    rw [BitVec.toNat_setWidth, BitVec.toNat_setWidth, Nat.mod_eq_of_lt (a := x.toNat) (by omega)]
    omega
  unfold Machine.wrapSp
  split_ifs
  · rfl
  · exact hwidth 32 (by decide)
  · exact hwidth 16 (by decide)

theorem Machine.setSp_of_lt (s : Machine) {x : U64} (hsp : (rreg s.vcpu .rsp).toNat < 0x10000)
    (hx : x.toNat < 0x10000) :
    s.setSp x = { s with vcpu := wreg s.vcpu .rsp x } := by
  rw [Machine.setSp, Machine.sp, s.wrapSp_of_lt hsp, s.wrapSp_of_lt hx, BitVec.sub_self,
    BitVec.zero_add]

section Running

variable {m : MainRun} {content : List Byte} {asm : BootAsm → List Byte}
  {code is is' mid rest : List BootAsm} {w : Monitor} {i : BootAsm}
  {rs rs' : List Reg} {fs fs' : List VmcsField} {s s' s'' : Machine} {a : U64}
  {bs : List Byte}

theorem Runs.trans (h : Runs m asm code w is mid rs fs s s')
    (h' : Runs m asm code w is' rest rs' fs' s' s'') :
    Runs m asm code w (is ++ is') rest (rs ++ rs') (fs ++ fs') s s'' where
  run := (Machine.run_append h.run).trans h'.run
  after := h'.after
  regs := by
    intro r hr hrip
    rw [List.mem_append, not_or] at hr
    rw [h'.regs r hr.2 hrip, h.regs r hr.1 hrip]
  vmcs := by
    intro f hf
    rw [List.mem_append, not_or] at hf
    rw [h'.vmcs f hf.2, h.vmcs f hf.1]

theorem Runs.mono (h : Runs m asm code w is rest rs fs s s') (hrs : rs ⊆ rs') (hfs : fs ⊆ fs') :
    Runs m asm code w is rest rs' fs' s s' :=
  ⟨h.run, h.after, fun r hr => h.regs r fun hcon => hr (hrs hcon),
    fun f hf => h.vmcs f fun hcon => hf (hfs hcon)⟩

theorem Runs.is64 (h : Runs m asm code w is rest rs fs s s') (hefer : .guestIa32Efer ∉ fs)
    (har : .guestCsAr ∉ fs) :
    s'.is64 = s.is64 := by
  rw [Machine.is64, Machine.is64, Vcpu.lma, Vcpu.lma, h.vmcs _ hefer, h.vmcs _ har]

/-- Fields may be written that are not those of the three segments. -/
theorem Flat.setVcpu (hf : Flat s) {v : Vcpu}
    (hvmcs : ∀ f, f ∉ fs → v.readVmcs f = s.vcpu.readVmcs f)
    (hfs : ∀ seg ∈ [Seg.cs, Seg.ss, Seg.ds], seg.base ∉ fs ∧ seg.limit ∉ fs) :
    Flat { s with vcpu := v } := by
  intro seg hseg
  obtain ⟨hbase, hlimit⟩ := hfs seg hseg
  obtain ⟨hzero, hmax⟩ := hf seg hseg
  exact ⟨(hvmcs _ hbase).trans hzero, (hvmcs _ hlimit).trans hmax⟩

/-- A segment that begins at zero and has no end may be loaded. -/
theorem Flat.setSeg (hf : Flat s) {seg : Seg} {sel : BitVec 16} {d : Descriptor}
    (hlimit : d.lastOffset = 0xffffffff) :
    Flat { s with vcpu := Hvexec.setSeg s.vcpu seg sel 0 d } := by
  intro seg' hseg'
  obtain ⟨_, hbase, hlimit', _⟩ := readVmcs_setSeg s.vcpu seg sel 0 d
  by_cases hsame : seg' = seg
  · subst hsame
    exact ⟨hbase, hlimit'.trans (by rw [hlimit]; rfl)⟩
  · obtain ⟨hzero, hmax⟩ := hf seg' hseg'
    have hne : seg'.base ∉ seg.fields ∧ seg'.limit ∉ seg.fields := by
      revert hsame
      cases seg' <;> cases seg <;> decide
    exact ⟨(readVmcs_setSeg_of_not_mem _ _ _ _ _ hne.1).trans hzero,
      (readVmcs_setSeg_of_not_mem _ _ _ _ _ hne.2).trans hmax⟩

theorem Flat.linear (hf : Flat s) {seg : Seg} (hseg : seg ∈ [Seg.cs, Seg.ss, Seg.ds]) {n : Nat}
    (hlow : a.toNat + n ≤ 0x10000) :
    s.linear seg a n = some a := by
  obtain ⟨hbase, hlimit⟩ := hf seg hseg
  have hmax : (0xffffffff : U64).toNat = 0xffffffff := rfl
  have hoff : (a.setWidth 32).toNat = a.toNat := by
    rw [BitVec.toNat_setWidth]
    omega
  unfold Machine.linear
  split_ifs with h64
  · rfl
  · dsimp only
    rw [hlimit, hbase, hmax, hoff, if_pos (by omega)]
    refine congrArg some (BitVec.eq_of_toNat_eq ?_)
    rw [BitVec.toNat_setWidth, BitVec.toNat_add, hoff]
    simp
    omega

namespace Running

variable (hr : Running m asm code s (i :: is))

/-- What the first pages hold is loaded, through any of the three segments. -/
theorem load {rest : List BootAsm} (hr : Running m asm code s rest) (h : m.AppLoaded content)
    {seg : Seg} (hseg : seg ∈ [Seg.cs, Seg.ss, Seg.ds]) (hbs : Holds s.vm a bs)
    (hlow : a.toNat + bs.length ≤ 0x10000) :
    s.load seg a bs.length = some bs := by
  rw [Machine.load, hr.flat.linear hseg hlow, Option.bind_some]
  exact hr.low.loadLinear h hbs hlow

theorem store {rest : List BootAsm} (hr : Running m asm code s rest) (h : m.AppLoaded content)
    {seg : Seg} (hseg : seg ∈ [Seg.cs, Seg.ss, Seg.ds])
    (hlow : a.toNat + bs.length ≤ 0x10000) :
    s.store seg a bs = some { s with vm := (vmMemWrite s.vm a bs).2 } := by
  rw [Machine.store, hr.flat.linear hseg hlow, Option.bind_some]
  exact hr.low.storeLinear h hlow

include hr

/-- RIP in front of an instruction, and behind it. -/
theorem rip_bounds :
    (rreg s.vcpu .rip).toNat + (asm i).length ≤ 0x8000 + (code.flatMap asm).length ∧
      Holds s.vm (rreg s.vcpu .rip) (asm i) := by
  obtain ⟨done, hcode, hrip⟩ := hr.rip
  have hfits := hr.fits
  have hbytes : code.flatMap asm =
      done.flatMap asm ++ (asm i ++ is.flatMap asm) := by
    rw [hcode, List.flatMap_append, List.flatMap_cons]
  have hlen := congrArg List.length hbytes
  simp only [List.length_append] at hlen
  have hstart : (0x8000 : U64).toNat = 0x8000 := rfl
  have htoNat : (rreg s.vcpu .rip).toNat = 0x8000 + (done.flatMap asm).length := by
    rw [hrip, toNat_add_ofNat (by omega), hstart]
  have htext := hr.text
  rw [hbytes, Holds.append (by rw [hstart, List.length_append, List.length_append]; omega),
    ← hrip, Holds.append (by rw [htoNat, List.length_append]; omega)] at htext
  exact ⟨by omega, htext.2.1⟩

/-- The instruction is fetched. -/
theorem step_eq (h : m.AppLoaded content) (hmode : s.is64 = i.bits64) :
    s.step w asm i = s.exec w (asm i).length i := by
  obtain ⟨hend, hbytes⟩ := hr.rip_bounds
  have hfits := hr.fits
  rw [Machine.step, if_neg (not_not.mpr hmode),
    hr.load h (by simp) hbytes (by omega), Option.bind_some, if_pos rfl]

theorem rip_next {len : Nat} (hlen : len = (asm i).length)
    (hrip : rreg s'.vcpu .rip = rreg s.vcpu .rip + BitVec.ofNat 64 len) :
    ∃ done, code = done ++ is ∧
      rreg s'.vcpu .rip = 0x8000 + BitVec.ofNat 64 (done.flatMap asm).length := by
  obtain ⟨done, hcode, hat⟩ := hr.rip
  refine ⟨done ++ [i], by simp [hcode], ?_⟩
  rw [hrip, hat, hlen, List.flatMap_append, List.length_append, BitVec.add_assoc,
    BitVec.ofNat_add_ofNat]
  simp

/-- An instruction that the machine executes, and what it keeps. -/
theorem runs (h : m.AppLoaded content) (hmode : s.is64 = i.bits64)
    (hexec : s.exec w (asm i).length i = some s')
    (hlow : LowSpace m s') (hflat : Flat s')
    (htext : Holds s'.vm 0x8000 (code.flatMap asm))
    (hrip : rreg s'.vcpu .rip = rreg s.vcpu .rip + BitVec.ofNat 64 (asm i).length)
    (hregs : ∀ r, r ∉ rs → r ≠ .rip → rreg s'.vcpu r = rreg s.vcpu r)
    (hvmcs : ∀ f, f ∉ fs → s'.vcpu.readVmcs f = s.vcpu.readVmcs f) :
    Runs m asm code w [i] is rs fs s s' where
  run := by
    rw [Machine.run, hr.step_eq h hmode, hexec, Option.bind_some]
    rfl
  after := ⟨hlow, hflat, hr.fits, htext, hr.rip_next rfl hrip⟩
  regs := hregs
  vmcs := hvmcs

/-! ### One rule for each kind of instruction -/

/-- The fields are the same, and at most the first pages were written. -/
theorem low_of_vmcs (hvmcs : ∀ f, s'.vcpu.readVmcs f = s.vcpu.readVmcs f)
    (hsame : SameButLow m.afterApp.vm s'.vm m.answer.valloc) :
    LowSpace m s' := by
  refine ⟨hsame, fun hpg => ?_⟩
  have hroot := hr.low.root (by rwa [Vcpu.pg, hvmcs] at hpg)
  rwa [Vcpu.lma, hvmcs, hvmcs, hsame.pml4Gpa, ← hr.low.same.pml4Gpa]

theorem flat_of_vmcs (hvmcs : ∀ f, s'.vcpu.readVmcs f = s.vcpu.readVmcs f) : Flat s' := by
  intro seg hseg
  rw [hvmcs, hvmcs]
  exact hr.flat seg hseg

/-- The instruction writes fields, and registers. -/
theorem setVcpu (h : m.AppLoaded content) {v : Vcpu} (hmode : s.is64 = i.bits64)
    (hexec : s.exec w (asm i).length i = some ({ s with vcpu := v }.next (asm i).length))
    (hlow : LowSpace m { s with vcpu := v }) (hflat : Flat { s with vcpu := v })
    (hrip : rreg v .rip = rreg s.vcpu .rip)
    (hregs : ∀ r, r ∉ rs → rreg v r = rreg s.vcpu r)
    (hvmcs : ∀ f, f ∉ fs → v.readVmcs f = s.vcpu.readVmcs f) :
    ∃ s', Runs m asm code w [i] is rs fs s s' ∧ s'.vm = s.vm ∧
      (∀ f, s'.vcpu.readVmcs f = v.readVmcs f) ∧
      ∀ r, r ≠ .rip → rreg s'.vcpu r = rreg v r := by
  have hnext : ∀ f, (Machine.next { s with vcpu := v } (asm i).length).vcpu.readVmcs f =
      v.readVmcs f := by
    intro f
    simp [Machine.next, readVmcs_wreg]
  have hreg : ∀ r, r ≠ .rip →
      rreg (Machine.next { s with vcpu := v } (asm i).length).vcpu r = rreg v r := by
    intro r hr'
    simp [Machine.next, rreg_wreg, hr']
  refine ⟨_, hr.runs h hmode hexec ⟨hlow.same, fun hpg => ?_⟩ (fun seg hseg => ?_) hr.text ?_
    (fun r hr' hne => (hreg r hne).trans (hregs r hr')) fun f hf => (hnext f).trans (hvmcs f hf),
    rfl, hnext, hreg⟩
  · rw [Vcpu.lma, hnext, hnext]
    rw [Vcpu.pg, hnext] at hpg
    exact hlow.root hpg
  · rw [hnext, hnext]
    exact hflat seg hseg
  · rw [← hrip]
    simp [Machine.next, rreg_wreg]

/-- The instruction writes a register. -/
theorem setReg (h : m.AppLoaded content) {r : Reg} {x : U64} (hmode : s.is64 = i.bits64)
    (hexec : s.exec w (asm i).length i =
      some ({ s with vcpu := wreg s.vcpu r x }.next (asm i).length))
    (hcr0 : r ≠ .cr0) (hrip : r ≠ .rip) :
    ∃ s', Runs m asm code w [i] is [r] [] s s' ∧ rreg s'.vcpu r = x ∧ s'.vm = s.vm := by
  have hvmcs : ∀ f, f ∉ ([] : List VmcsField) →
      (wreg s.vcpu r x).readVmcs f = s.vcpu.readVmcs f := by
    intro f _
    simp [readVmcs_wreg, hcr0]
  have hother : ∀ r', r' ∉ [r] → rreg (wreg s.vcpu r x) r' = rreg s.vcpu r' := by
    intro r' hr'
    rw [List.mem_singleton] at hr'
    rw [rreg_wreg, if_neg hr']
  obtain ⟨s', hruns, hvm, _, hregs⟩ := hr.setVcpu h hmode hexec (hr.low.setVcpu hvmcs (by simp))
    (hr.flat.setVcpu hvmcs (by simp)) (by simp [rreg_wreg, hrip.symm]) hother hvmcs
  refine ⟨s', hruns, ?_, hvm⟩
  rw [hregs r hrip, rreg_wreg, if_pos rfl]

/-- The instruction exits, the loop handles the exit and goes on. -/
theorem exits (h : m.AppLoaded content) {reason : ExitReason} {qualific : U64} {v : Vcpu}
    (hmode : s.is64 = i.bits64)
    (hexec : s.exec w (asm i).length i = s.exit w reason qualific)
    (hhandle : handleExit w.ops w.interactive
      ⟨reason, s.vcpu.writeVmcs .roExitQualific qualific, s.vm, w.entry₀, w.env⟩ =
        otherExit (0, v))
    (hok : LongModeOk v) (hlow : LowSpace m { s with vcpu := v })
    (hflat : Flat { s with vcpu := v })
    (hrip : rreg v .rip = rreg s.vcpu .rip + BitVec.ofNat 64 (asm i).length)
    (hregs : ∀ r, r ∉ rs → r ≠ .rip → rreg v r = rreg s.vcpu r)
    (hvmcs : ∀ f, f ∉ fs → v.readVmcs f = s.vcpu.readVmcs f) :
    Runs m asm code w [i] is rs fs s { s with vcpu := v } := by
  have hexit : s.exit w reason qualific = some { s with vcpu := v } := by
    unfold Machine.exit
    dsimp only
    rw [hhandle]
    exact if_pos ⟨rfl, hok⟩
  exact hr.runs h hmode (hexec.trans hexit) hlow hflat hr.text hrip hregs hvmcs

/-- What lies apart from a write to the first pages is kept. -/
theorem holds_write (h : m.AppLoaded content) {x : U64} {bs' : List Byte}
    (hx : Holds s.vm x bs') (hlow : a.toNat + bs.length ≤ 0x10000)
    (hapart : a.toNat + bs.length ≤ x.toNat ∨ x.toNat + bs'.length ≤ a.toNat) :
    Holds (vmMemWrite s.vm a bs).2 x bs' := by
  have hmem := hr.low.lowMem h.toLoaded
  rcases hapart with habove | hbelow
  · exact hmem.holds_above hx hlow habove
  · exact hmem.holds_below hx hbelow

/-- The instruction stores bytes apart from the text. -/
theorem storeBytes (h : m.AppLoaded content) {seg : Seg}
    (hseg : seg ∈ [Seg.cs, Seg.ss, Seg.ds]) (hmode : s.is64 = i.bits64)
    (hexec : s.exec w (asm i).length i =
      (s.store seg a bs).map fun s => s.next (asm i).length)
    (hlow : a.toNat + bs.length ≤ 0x10000)
    (hapart : a.toNat + bs.length ≤ 0x8000 ∨
      0x8000 + (code.flatMap asm).length ≤ a.toNat) :
    ∃ s', Runs m asm code w [i] is [] [] s s' ∧ s'.vm = (vmMemWrite s.vm a bs).2 := by
  rw [hr.store h hseg hlow, Option.map_some] at hexec
  have hnext : ∀ f, (Machine.next { s with vm := (vmMemWrite s.vm a bs).2 }
      (asm i).length).vcpu.readVmcs f = s.vcpu.readVmcs f := by
    intro f
    simp [Machine.next, readVmcs_wreg]
  refine ⟨_, hr.runs h hmode hexec (hr.low_of_vmcs hnext (hr.low.write h hlow))
    (hr.flat_of_vmcs hnext) (hr.holds_write h hr.text hlow hapart) ?_ ?_ fun f _ => hnext f, rfl⟩
  · simp [Machine.next, rreg_wreg]
  · intro r _ hrip
    simp [Machine.next, rreg_wreg, hrip]

/-- The instruction pops a word of the stack into a register. -/
theorem popReg (h : m.AppLoaded content) {r : Reg} {n : Nat} (hmode : s.is64 = i.bits64)
    (hexec : s.exec w (asm i).length i =
      (s.pop n).map fun p => { p.2 with vcpu := wreg p.2.vcpu r p.1 }.next (asm i).length)
    (hcr0 : r ≠ .cr0) (hrip : r ≠ .rip) (hrsp : r ≠ .rsp)
    (hbs : Holds s.vm (rreg s.vcpu .rsp) bs) (hlen : bs.length = n)
    (hlow : (rreg s.vcpu .rsp).toNat + n < 0x10000) :
    ∃ s', Runs m asm code w [i] is [r, .rsp] [] s s' ∧
      rreg s'.vcpu r = BitVec.ofNat 64 (leNat bs) ∧
      rreg s'.vcpu .rsp = rreg s.vcpu .rsp + BitVec.ofNat 64 n ∧ s'.vm = s.vm := by
  have hsum : (rreg s.vcpu .rsp + BitVec.ofNat 64 n).toNat = (rreg s.vcpu .rsp).toNat + n :=
    toNat_add_ofNat (by omega)
  have hsp : s.sp = rreg s.vcpu .rsp := s.wrapSp_of_lt (by omega)
  have hload : s.load .ss (rreg s.vcpu .rsp) n = some bs := by
    rw [← hlen]
    exact hr.load h (by simp) hbs (by omega)
  rw [Machine.pop, hsp, hload, s.setSp_of_lt (by omega) (by omega), Option.map_some,
    Option.map_some] at hexec
  refine ⟨_, hr.runs h hmode hexec (hr.low_of_vmcs ?_ hr.low.same) (hr.flat_of_vmcs ?_)
    hr.text ?_ ?_ fun f _ => ?_, ?_, ?_, rfl⟩
  · intro f
    simp [Machine.next, readVmcs_wreg, hcr0]
  · intro f
    simp [Machine.next, readVmcs_wreg, hcr0]
  · simp [Machine.next, rreg_wreg, hrip.symm]
  · intro r' hr' hrip'
    simp only [List.mem_cons, List.not_mem_nil, or_false, not_or] at hr'
    simp [Machine.next, rreg_wreg, hr', hrip']
  · simp [Machine.next, readVmcs_wreg, hcr0]
  · simp [Machine.next, rreg_wreg, hrip]
  · simp [Machine.next, rreg_wreg, hrsp.symm]

/-- The instruction pushes a word. -/
theorem pushWord (h : m.AppLoaded content) {n : Nat} {x : U64} (hmode : s.is64 = i.bits64)
    (hexec : s.exec w (asm i).length i =
      (s.push n x).map fun s => s.next (asm i).length)
    (hn : n ≤ (rreg s.vcpu .rsp).toNat) (hlow : (rreg s.vcpu .rsp).toNat ≤ 0x8000) :
    ∃ s', Runs m asm code w [i] is [.rsp] [] s s' ∧
      rreg s'.vcpu .rsp = rreg s.vcpu .rsp - BitVec.ofNat 64 n ∧
      s'.vm = (vmMemWrite s.vm (rreg s.vcpu .rsp - BitVec.ofNat 64 n)
        (leBytes n x.toNat)).2 := by
  have hsum : (rreg s.vcpu .rsp - BitVec.ofNat 64 n).toNat = (rreg s.vcpu .rsp).toNat - n := by
    bv_omega
  have hsp : s.sp = rreg s.vcpu .rsp := s.wrapSp_of_lt (by omega)
  have hlen : (leBytes n x.toNat).length = n := length_leBytes n x.toNat
  have hend : (rreg s.vcpu .rsp - BitVec.ofNat 64 n).toNat + (leBytes n x.toNat).length ≤
      0x8000 := by
    omega
  unfold Machine.push at hexec
  dsimp only at hexec
  rw [hsp, s.wrapSp_of_lt (by omega), hr.store h (by simp) (by omega), Option.map_some,
    Option.map_some, Machine.setSp_of_lt _ (by exact lt_of_le_of_lt hlow (by decide)) (by omega)]
    at hexec
  refine ⟨_, hr.runs h hmode hexec (hr.low_of_vmcs ?_ (hr.low.write h (by omega)))
    (hr.flat_of_vmcs ?_) (hr.holds_write h hr.text (by omega) (Or.inl hend)) ?_ ?_
    fun f _ => ?_, ?_, rfl⟩
  · intro f
    simp [Machine.next, readVmcs_wreg]
  · intro f
    simp [Machine.next, readVmcs_wreg]
  · simp [Machine.next, rreg_wreg]
  · intro r' hr' hrip'
    simp only [List.mem_singleton] at hr'
    simp [Machine.next, rreg_wreg, hr', hrip']
  · simp [Machine.next, readVmcs_wreg]
  · simp [Machine.next, rreg_wreg]

end Running

end Running

end Hvexec
