import Hvexec.AfterInit
import Hvexec.Arguments
import Hvexec.Vcpu

/-!
# main

`main` sets up guest memory and the virtual processor, loads the kernel and the
executable, writes the arguments and pushes three numbers for the boot code.

Until the arguments are written, all that `main` itself writes lies in the initial
16 pages.  `LowMem` are the states with these pages in one region; there a write is
complete, it leaves what lies below it alone, and the page tables stand.
-/

namespace Hvexec

open ByteMemory IntervalList BlockWrites

/-- What `main` gets: the set-up, the processor that `hv_vcpu_create` makes, the
MSRs that can be enabled, the kernel and the arguments.  A plugin does not touch
the virtual machine and is left out. -/
structure MainRun extends SetUp where
  pages : numPages = confInitNumPages
  vcpu : Vcpu
  enableNativeMsr : BitVec 32 → Bool
  kernelPath : Option String
  kernel : LoadRawEnv
  args : List CString

namespace MainRun

def afterSetup (m : MainRun) : Int × Vcpu × VmMem :=
  vcpuSetupIa32 m.vcpu m.afterInit.2 m.enableNativeMsr

def afterKernel (m : MainRun) : Int × VmMem :=
  loadRaw m.afterSetup.2.2 m.kernelPath confStartAddr m.kernel

def afterApp (m : MainRun) : LoadMachObj :=
  loadMachObj m.afterKernel.2 m.path m.entryoff₀ m.load

def afterArgs (m : MainRun) : Option VmMem :=
  setArgs m.afterApp.vm confArgvAddr confArgsAddr m.args

/-- The three calls of `push64`, whose results `main` does not look at. -/
def pushAll (v : Vcpu) (σ : VmMem) (argc entryGva : U64) : Vcpu × VmMem :=
  let p := push64 v σ confArgvAddr
  let p' := push64 p.2.1 p.2.2 argc
  (push64 p'.2.1 p'.2.2 entryGva).2

/-- `main` up to `vcpu_run`, if it gets there. -/
def launch (m : MainRun) : Option (Vcpu × VmMem) :=
  if m.afterInit.1 ≠ 0 then none
  else if m.afterSetup.1 ≠ 0 then none
  else if m.afterKernel.1 ≠ 0 then none
  else if m.afterApp.code ≠ 0 then none
  else
    m.afterArgs.map fun σ =>
      pushAll m.afterSetup.2.1 σ (BitVec.ofNat 64 m.args.length) m.afterApp.entryoff

end MainRun

/-! ## The initial region -/

/-- The initial 16 pages are one region, over the block at `hva`. -/
structure LowMem (σ : VmMem) (hva : U64) : Prop where
  regions : RegionsOk σ.memRegions
  host : HostOk σ.memRegions
  first : (⟨0, 16, hva⟩ : MemRegion) ∈ σ.memRegions

/-- The same state but for the bytes of the initial block. -/
def SameButLow (σ τ : VmMem) (hva : U64) : Prop :=
  ∃ mem, τ = { σ with mem := mem } ∧
    ∀ x : U64, ¬ (hva.toNat ≤ x.toNat ∧ x.toNat < hva.toNat + 0x10000) →
      mem x = σ.mem x

theorem SameButLow.refl (σ : VmMem) (hva : U64) : SameButLow σ σ hva :=
  ⟨σ.mem, rfl, fun _ _ => rfl⟩

theorem SameButLow.memRegions {σ τ : VmMem} {hva : U64} (h : SameButLow σ τ hva) :
    τ.memRegions = σ.memRegions := by
  obtain ⟨mem, rfl, _⟩ := h
  rfl

theorem SameButLow.mem {σ τ : VmMem} {hva : U64} (h : SameButLow σ τ hva) {x : U64}
    (hx : ¬ (hva.toNat ≤ x.toNat ∧ x.toNat < hva.toNat + 0x10000)) :
    τ.mem x = σ.mem x := by
  obtain ⟨mem, rfl, hmem⟩ := h
  exact hmem x hx

theorem SameButLow.pml4Gpa {σ τ : VmMem} {hva : U64} (h : SameButLow σ τ hva) :
    τ.pml4Gpa = σ.pml4Gpa := by
  obtain ⟨mem, rfl, _⟩ := h
  rfl

theorem SameButLow.trans {σ τ υ : VmMem} {hva : U64}
    (h : SameButLow σ τ hva) (h' : SameButLow τ υ hva) :
    SameButLow σ υ hva := by
  obtain ⟨mem, rfl, hmem⟩ := h
  obtain ⟨mem', rfl, hmem'⟩ := h'
  exact ⟨mem', rfl, fun x hx => (hmem' x hx).trans (hmem x hx)⟩

namespace LowMem

variable {σ τ : VmMem} {hva gpa x : U64} {buf bs : List Byte}

theorem congr (h : LowMem σ hva) (heq : τ.memRegions = σ.memRegions) : LowMem τ hva :=
  ⟨heq ▸ h.regions, heq ▸ h.host, heq ▸ h.first⟩

theorem write (h : LowMem σ hva) (gpa : U64) (buf : List Byte) :
    LowMem (vmMemWrite σ gpa buf).2 hva :=
  h.congr (memRegions_vmMemWrite buf gpa)

/-- A write to the first pages is complete, and stays in their block. -/
theorem write_low (h : LowMem σ hva) (hlow : gpa.toNat + buf.length ≤ 0x10000) :
    (vmMemWrite σ gpa buf).1 = buf.length ∧ SameButLow σ (vmMemWrite σ gpa buf).2 hva := by
  obtain ⟨_, hwrap⟩ := h.host.block _ h.first
  have hhi : MemRegion.hostHi ⟨0, 16, hva⟩ = hva.toNat + 16 * 4096 := rfl
  rw [hhi] at hwrap
  have hwrite := vmMemWrite_of_mem gpa h.regions h.host h.first buf (by simp [MemRegion.lo])
    (by simpa [MemRegion.hi] using hlow)
  rw [hwrite]
  refine ⟨rfl, _, rfl, ?_⟩
  intro x hx
  apply overwrite_of_le
  bv_omega

/-- What was written to the first pages is found. -/
theorem holds_write (h : LowMem σ hva) (hlow : gpa.toNat + buf.length ≤ 0x10000) :
    Holds (vmMemWrite σ gpa buf).2 gpa buf :=
  Holds.write_self h.regions h.host (h.write_low hlow).1

/-- A write leaves alone what lies below it. -/
theorem holds_below (h : LowMem σ hva) (hx : Holds σ x bs)
    (hbelow : x.toNat + bs.length ≤ gpa.toNat) :
    Holds (vmMemWrite σ gpa buf).2 x bs :=
  hx.write_apart h.regions h.host (Or.inl hbelow)

/-- A write to the first pages leaves alone what lies above it. -/
theorem holds_above (h : LowMem σ hva) (hx : Holds σ x bs)
    (hlow : gpa.toNat + buf.length ≤ 0x10000) (habove : gpa.toNat + buf.length ≤ x.toNat) :
    Holds (vmMemWrite σ gpa buf).2 x bs := by
  refine hx.write_apart h.regions h.host (Or.inr ?_)
  rw [(h.write_low hlow).1]
  exact habove

/-- No page has a byte in the initial block. -/
theorem not_isPage (h : LowMem σ hva) {g hva' : U64} (hpage : IsPage σ.memRegions g hva')
    (hx : hva'.toNat ≤ x.toNat ∧ x.toNat < hva'.toNat + 4096) :
    ¬ (hva.toNat ≤ x.toNat ∧ x.toNat < hva.toNat + 0x10000) := by
  have hlong : (16 : U64) ≠ 1 := by
    decide
  have hnot := hpage.not_mem_block h.host h.first hlong hx
  have hhi : MemRegion.hostHi ⟨0, 16, hva⟩ = hva.toNat + 16 * 4096 := rfl
  rw [hhi] at hnot
  exact hnot

/-- Nothing but the initial block is written in a set-up that goes on. -/
theorem built (h : LowMem σ hva) (hbuilt : Built σ) (hsame : SameButLow σ τ hva) :
    Built τ := by
  obtain ⟨mem, rfl, hmem⟩ := hsame
  exact .write hbuilt mem fun _ _ _ _ hpage x hlo hhi =>
    hmem x (h.not_isPage hpage ⟨hlo, hhi⟩)

end LowMem

/-! ## The calls before the arguments -/

section Calls

variable {σ τ : VmMem} {hva : U64}

/-- `vcpu_setup_ia32` leaves the address of the PML4 on the stack. -/
theorem setupMem_low (h : LowMem σ hva) :
    SameButLow σ (setupMem σ) hva ∧
      Holds (setupMem σ) (confStackAddr - 4) (leBytes 4 σ.pml4Gpa.toNat) := by
  have hword : ∀ {τ : VmMem} {gpa v : U64}, gpa.toNat ≤ 0x1000 →
      LowMem τ hva ∧ SameButLow σ τ hva →
        LowMem (writeU64 τ gpa v) hva ∧ SameButLow σ (writeU64 τ gpa v) hva := by
    rintro τ gpa v hgpa ⟨hτ, hsame⟩
    exact ⟨hτ.write _ _, hsame.trans (hτ.write_low (by rw [length_leBytes]; omega)).2⟩
  have hgdt : ∀ null code data,
      let τ := writeU64 (writeU64 (writeU64 (writeU64 σ 0 null) 8 null) 16 code) 24 data
      LowMem τ hva ∧ SameButLow σ τ hva := fun null code data =>
    hword (by decide) (hword (by decide) (hword (by decide) (hword (by decide)
      ⟨h, SameButLow.refl σ hva⟩)))
  obtain ⟨hτ, hsame⟩ := hgdt 0 0x00cf9a000000ffff 0x00cf92000000ffff
  have hlow : ∀ n, (confStackAddr - 4).toNat + (leBytes 4 n).length ≤ 0x10000 := by
    intro n
    rw [length_leBytes]
    decide
  have hroot := hsame.pml4Gpa
  rw [← hroot]
  exact ⟨hsame.trans (hτ.write_low (hlow _)).2, hτ.holds_write (hlow _)⟩

theorem memRegions_loadRaw (σ : VmMem) (path : Option String) (gpa : U64) (e : LoadRawEnv) :
    (loadRaw σ path gpa e).2.memRegions = σ.memRegions := by
  simp only [loadRaw]
  split_ifs <;> simp

/-- A successful `load_raw` wrote the whole file. -/
theorem loadRaw_of_zero {path : Option String} {gpa : U64} {e : LoadRawEnv}
    (hcode : (loadRaw σ path gpa e).1 = 0) :
    (vmMemWrite σ gpa e.content).1 = e.content.length ∧
      (loadRaw σ path gpa e).2 = (vmMemWrite σ gpa e.content).2 := by
  simp only [loadRaw] at hcode ⊢
  split_ifs at hcode ⊢ with hpath hopen hstat hmmap hwrite
  · simp at hcode
  · simp at hcode
  · simp at hcode
  · simp at hcode
  · simp at hcode
  · exact ⟨not_not.mp hwrite, rfl⟩

/-- `load_raw` of a file that fits into the first pages. -/
theorem loadRaw_low {path : Option String} {gpa : U64} {e : LoadRawEnv}
    (h : LowMem σ hva) (hcode : (loadRaw σ path gpa e).1 = 0)
    (hfit : gpa.toNat + e.content.length ≤ 0x10000) :
    SameButLow σ (loadRaw σ path gpa e).2 hva ∧
      Holds (loadRaw σ path gpa e).2 gpa e.content ∧
      ∀ {x : U64} {bs : List Byte}, Holds σ x bs → x.toNat + bs.length ≤ gpa.toNat →
        Holds (loadRaw σ path gpa e).2 x bs := by
  obtain ⟨_, hsame⟩ := h.write_low hfit
  rw [(loadRaw_of_zero hcode).2]
  exact ⟨hsame, h.holds_write hfit, fun hx hlen => h.holds_below hx hlen⟩

/-- A file is loaded when all of it can be written. -/
theorem loadRaw_eq_zero {path : Option String} {gpa : U64} {e : LoadRawEnv}
    (hpath : path ≠ none) (hopen : e.opened = true) (hstat : e.stat = true)
    (hmmap : e.mmap ≠ 0) (hcount : (vmMemWrite σ gpa e.content).1 = e.content.length) :
    (loadRaw σ path gpa e).1 = 0 := by
  simp only [loadRaw]
  rw [if_neg hpath, if_neg (by simp [hopen]), if_neg (by simp [hstat]), if_neg hmmap,
    if_neg (not_not.mpr hcount)]

/-- A file that fits into the first pages is loaded. -/
theorem loadRaw_fits {path : Option String} {gpa : U64} {e : LoadRawEnv}
    (h : LowMem σ hva) (hpath : path ≠ none) (hopen : e.opened = true)
    (hstat : e.stat = true) (hmmap : e.mmap ≠ 0)
    (hfit : gpa.toNat + e.content.length ≤ 0x10000) :
    (loadRaw σ path gpa e).1 = 0 :=
  loadRaw_eq_zero hpath hopen hstat hmmap (h.write_low hfit).1

/-- `load_mach_obj` writes page tables only. -/
theorem loadMachObj_low {path : Option String} {entryoff₀ : U64} {e : LoadMachObjEnv}
    (h : LowMem σ hva) (hbuilt : Built σ) (hcode : (loadMachObj σ path entryoff₀ e).code = 0)
    (hsupplied : Supplied e.mapGva.answers
      (mapGpa σ imageAddr (numPages e.stSize) e.mmap e.mapGpa).2
      (loadMachObj σ path entryoff₀ e).vm.memRegions)
    (hplaced : Placed (loadMachObj σ path entryoff₀ e).vm.memRegions) :
    LowMem (loadMachObj σ path entryoff₀ e).vm hva ∧
      ∀ x : U64, x.toNat < 0x10000 →
        (loadMachObj σ path entryoff₀ e).vm.byteAt x = σ.byteAt x := by
  obtain ⟨T, hT⟩ := hbuilt.buildOk
  rw [(loadMachObj_eq_run hcode).1] at hsupplied hplaced ⊢
  have hop := hT.regionOp (.mapGpa imageAddr (numPages e.stSize) e.mmap e.mapGpa)
    (hplaced.sublist (sublist_mapGva _ _ _ _ _))
  obtain ⟨_, T', hok, hgrown, _⟩ := mapGva_spec hop
    ⟨hsupplied, hplaced.host, hplaced.low⟩
  have hsub := (RegionOp.sublist_step σ
    (.mapGpa imageAddr (numPages e.stSize) e.mmap e.mapGpa)).trans hgrown.regions
  have hlow : LowMem _ hva := ⟨hok.regions, hok.host, hsub.subset h.first⟩
  refine ⟨hlow, fun x hx => ?_⟩
  have hlo : MemRegion.lo ⟨0, 16, hva⟩ ≤ x.toNat := Nat.zero_le _
  have hhi : x.toNat < MemRegion.hi ⟨0, 16, hva⟩ := by
    simpa [MemRegion.hi] using hx
  have hfirst := (RegionOp.sublist_step σ
    (.mapGpa imageAddr (numPages e.stSize) e.mmap e.mapGpa)).subset h.first
  have hmap := hgrown.byteAt hok.regions hok.host hfirst
    (fun q g hva' _ heq => absurd (congrArg MemRegion.npages heq) (by simp)) hlo hhi
  exact hmap.trans (byteAt_regionOp _ hop.regions hop.host h.first hlo hhi)

/-- The loop over the arguments leaves what lies below both areas alone. -/
theorem LowMem.setArgs {args : List CString} {argvAddr argsAddr : U64}
    (h : LowMem σ hva) (hset : Hvexec.setArgs σ argvAddr argsAddr args = some τ)
    (hargv : 0x7100 ≤ argvAddr.toNat) (hargs : 0x7100 ≤ argsAddr.toNat) :
    LowMem τ hva ∧
      ∀ {x : U64} {bs : List Byte}, Holds σ x bs → x.toNat + bs.length ≤ 0x7100 →
        Holds τ x bs := by
  obtain ⟨hregions, _, _, hbytes⟩ := setArgs_spec h.regions h.host hset
  refine ⟨h.congr hregions, fun hx hle => hx.of_overlay_none hbytes fun w hw => ?_⟩
  have hbounds := bounds_of_mem_argBlocks hw
  omega

/-- It succeeds when both areas end with the first pages. -/
theorem LowMem.setArgs_fits : ∀ {args : List CString} {σ : VmMem} {argvAddr argsAddr : U64},
    LowMem σ hva → argvAddr.toNat + 8 * args.length ≤ 0x10000 →
    argsEnd argsAddr.toNat args ≤ 0x10000 →
    ∃ τ, Hvexec.setArgs σ argvAddr argsAddr args = some τ
  | [], σ, _, _, _, _, _ => ⟨σ, rfl⟩
  | str :: args, σ, argvAddr, argsAddr, h, hargv, hargs => by
      rw [List.length_cons] at hargv
      rw [argsEnd] at hargs
      have hend := le_argsEnd (argsAddr.toNat + (str.bytes.length + 1)) args
      have height : (8 : U64).toNat = 8 := rfl
      have hptr : (vmMemWrite σ argvAddr (leBytes 8 argsAddr.toNat)).1 = _ :=
        (h.write_low (by rw [length_leBytes]; omega)).1
      have h' := h.write argvAddr (leBytes 8 argsAddr.toNat)
      have hstr : (vmMemWrite _ argsAddr str.stored).1 = _ :=
        (h'.write_low (by rw [str.length_stored]; omega)).1
      rw [length_leBytes] at hptr
      rw [str.length_stored] at hstr
      rw [Hvexec.setArgs]
      dsimp only
      rw [if_neg (not_not.mpr hptr), if_neg (not_not.mpr hstr)]
      apply LowMem.setArgs_fits (h'.write argsAddr str.stored)
      · rw [BitVec.toNat_add, height]
        omega
      · rw [BitVec.toNat_add, BitVec.toNat_ofNat, Nat.mod_eq_of_lt (by omega),
          Nat.mod_eq_of_lt (by omega)]
        exact hargs

end Calls

/-! ## The state in which the arguments are written -/

namespace MainRun

/-- The stack pointer that `vcpu_setup_ia32` leaves. -/
theorem afterSetup_rsp (m : MainRun) :
    rreg m.afterSetup.2.1 .rsp = confStackAddr - 4 := by
  rfl

theorem afterSetup_vm (m : MainRun) : m.afterSetup.2.2 = setupMem m.afterInit.2 := by
  rw [afterSetup, vcpuSetupIa32]

theorem memRegions_afterKernel (m : MainRun) :
    m.afterKernel.2.memRegions = m.afterInit.2.memRegions := by
  have hsetup : m.afterSetup.2.2.memRegions = m.afterInit.2.memRegions := by
    simp [afterSetup_vm, setupMem]
  rw [← hsetup]
  exact memRegions_loadRaw _ _ _ _

/-- `main` reaches the loop over the arguments.  The allocations inside are granted
from pages of zeros, the regions lie over disjoint blocks, and the kernel fits into
the first pages. -/
structure Loaded (m : MainRun) : Prop where
  init : m.afterInit.1 = 0
  load : m.afterKernel.1 = 0
  app : m.afterApp.code = 0
  suppliedInit : Supplied m.env.answers m.afterAlloc m.afterInit.2.memRegions
  suppliedLoad : Supplied m.load.mapGva.answers
    (mapGpa m.afterKernel.2 imageAddr (Hvexec.numPages m.load.stSize) m.load.mmap
      m.load.mapGpa).2
    m.afterApp.vm.memRegions
  placed : Placed m.afterApp.vm.memRegions
  kernel : m.kernel.content.length ≤ 0x8000

variable {m : MainRun}

/-- `vm_mem_init` of `main` leaves the initial region. -/
theorem lowMem_afterInit (hinit : m.afterInit.1 = 0)
    (hok : RegionsOk m.afterInit.2.memRegions) (hhost : HostOk m.afterInit.2.memRegions) :
    LowMem m.afterInit.2 m.answer.valloc := by
  refine ⟨hok, hhost, ?_⟩
  have hfirst := (vmMemInit_eq_run hinit).2
  rw [← vmMemAlloc_vm _ _ m.gpa₀, m.pages] at hfirst
  have hinit_sub : m.afterAlloc.memRegions.Sublist m.afterInit.2.memRegions := by
    rw [SetUp.afterInit_eq hinit]
    exact sublist_mapGva _ _ _ _ _
  have hmem : newRegion 0 (confInitNumPages.setWidth 64) m.answer.valloc ∈
      m.afterAlloc.memRegions := by
    rw [SetUp.afterAlloc, m.pages]
    exact hfirst
  exact hinit_sub.subset hmem

/-- What `vcpu_setup_ia32` and `load_raw` do to the initial region. -/
theorem afterKernel_low (hlow : LowMem m.afterInit.2 m.answer.valloc)
    (hcode : m.afterKernel.1 = 0) (hfit : m.kernel.content.length ≤ 0x8000) :
    SameButLow m.afterInit.2 m.afterKernel.2 m.answer.valloc ∧
      Holds m.afterKernel.2 (confStackAddr - 4) (leBytes 4 m.afterInit.2.pml4Gpa.toNat) ∧
      Holds m.afterKernel.2 confStartAddr m.kernel.content := by
  have hstart : confStartAddr.toNat = 0x8000 := rfl
  have hsp : (confStackAddr - 4).toNat = 0x6FFC := rfl
  rw [afterKernel, afterSetup_vm] at hcode ⊢
  obtain ⟨hsetup, hroot⟩ := setupMem_low hlow
  obtain ⟨hraw, hcontent, hkeep⟩ :=
    loadRaw_low (hlow.congr hsetup.memRegions) hcode (by omega)
  exact ⟨hsetup.trans hraw, hkeep hroot (by rw [hsp, hstart, length_leBytes]; omega), hcontent⟩

theorem Loaded.lowMem (h : m.Loaded) :
    Built m.afterInit.2 ∧ LowMem m.afterInit.2 m.answer.valloc := by
  have hsub : m.afterInit.2.memRegions.Sublist m.afterApp.vm.memRegions := by
    rw [← m.memRegions_afterKernel, afterApp, (loadMachObj_eq_run h.app).1]
    exact (RegionOp.sublist_step _ (.mapGpa _ _ _ _)).trans (sublist_mapGva _ _ _ _ _)
  have hplaced := h.placed.sublist hsub
  have hbuilt : Built m.afterInit.2 :=
    .vmMemInit (.start m.mem) _ _ _ _ h.init h.suppliedInit hplaced
  obtain ⟨T, hT⟩ := hbuilt.buildOk
  exact ⟨hbuilt, lowMem_afterInit h.init hT.regions hplaced.host⟩

/-- **When the arguments are written**, the address of the PML4 is on the stack and the
kernel is in its place. -/
theorem Loaded.afterApp_low (h : m.Loaded) :
    LowMem m.afterApp.vm m.answer.valloc ∧
      Holds m.afterApp.vm (confStackAddr - 4) (leBytes 4 m.afterInit.2.pml4Gpa.toNat) ∧
      Holds m.afterApp.vm confStartAddr m.kernel.content := by
  obtain ⟨hbuilt, hlow⟩ := h.lowMem
  obtain ⟨hsame, hroot, hkernel⟩ := afterKernel_low hlow h.load h.kernel
  have happ := h.app
  have hsup := h.suppliedLoad
  have hplaced := h.placed
  have hfit := h.kernel
  have hstart : confStartAddr.toNat = 0x8000 := rfl
  have hsp : (confStackAddr - 4).toNat = 0x6FFC := rfl
  rw [MainRun.afterApp] at happ hsup hplaced ⊢
  obtain ⟨hlow', hbytes⟩ := loadMachObj_low (hlow.congr m.memRegions_afterKernel)
    (hlow.built hbuilt hsame) happ hsup hplaced
  refine ⟨hlow', hroot.congr fun y _ hy => hbytes y ?_,
    hkernel.congr fun y _ hy => hbytes y ?_⟩
  · rw [hsp, length_leBytes] at hy
    omega
  · omega

/-- On a host with fresh pages `main` reaches the loop, whatever the kernel is. -/
theorem loaded_of_fresh {b b' : Nat} (h : m.toSetUp.Fresh b b')
    (hpath : m.kernelPath ≠ none) (hopen : m.kernel.opened = true)
    (hstat : m.kernel.stat = true) (hmmap : m.kernel.mmap ≠ 0)
    (hfit : m.kernel.content.length ≤ 0x8000) :
    m.Loaded := by
  obtain ⟨hinit, hdrawn⟩ := h.init_drawn
  have hlow := lowMem_afterInit hinit hdrawn.ok hdrawn.host
  have hsetup := (setupMem_low hlow).1
  have hstart : confStartAddr.toNat = 0x8000 := rfl
  have hcode : m.afterKernel.1 = 0 := by
    rw [afterKernel, afterSetup_vm]
    exact loadRaw_fits (hlow.congr hsetup.memRegions) hpath hopen hstat hmmap (by omega)
  obtain ⟨hsame, _, _⟩ := afterKernel_low hlow hcode hfit
  have hown : ∀ x, ¬ m.OwnByte x → m.afterKernel.2.mem x = m.afterInit.2.mem x := by
    intro x hx
    apply hsame.mem
    unfold SetUp.OwnByte at hx
    rw [m.pages] at hx
    exact hx
  obtain ⟨happ, hsup, hhost, hhi⟩ := h.load m.memRegions_afterKernel hown
  exact ⟨hinit, hcode, happ, h.supplied_init, hsup,
    ⟨hhost, fun p hp => (hhi p hp).trans (by decide)⟩, hfit⟩

end MainRun

/-- The set-up of `bootSetUp` with a kernel of 24 bytes and one argument. -/
def bootRun : MainRun where
  toSetUp := bootSetUp
  pages := rfl
  vcpu := ⟨fun _ => 0, fun _ => 0⟩
  enableNativeMsr := fun _ => true
  kernelPath := some "boot"
  kernel := ⟨true, true, 0x50000000, List.replicate 24 0x58⟩
  args := [⟨[0x61], by decide⟩]

theorem bootRun_loaded : bootRun.Loaded :=
  MainRun.loaded_of_fresh bootSetUp_fresh (by decide) rfl rfl (by decide) (by decide)

end Hvexec
