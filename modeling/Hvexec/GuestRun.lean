import Hvexec.BootTransfer
import Hvexec.GuestCat
import Hvexec.GuestEcho
import Hvexec.GuestTestSyscall

/-!
# Guest programs from end to end

`main` writes the arguments into guest memory, boot.asm hands them to the application, and
the application makes system calls that hvexec passes on.  A program that comes to its end on
a kernel does so here, from the state in which boot.asm leaves the machine.
-/

namespace Hvexec

open ByteMemory MainRun

/-- `main` gets to `vcpu_run`, with boot.asm for its kernel, and the application has an entry
point and gets all its arguments. -/
structure Launched (m : MainRun) (content : List Byte) (out : Vcpu × VmMem)
    (asm : BootAsm → List Byte) (l : Labels) : Prop where
  loaded : m.AppLoaded content
  ok : m.Ok out
  args : ArgsFit m.args
  short : m.args.length ≤ 32
  boot : Assembled asm l m.kernel.content
  entry : Canonical m.afterApp.entryoff

/-- What the application sees of its memory. -/
def Machine.seen (s : Machine) : U64 → Option Byte :=
  look s.vm.windows s.vm.mem

/-- boot.asm enters the application. -/
theorem Launched.entered {m : MainRun} {content : List Byte} {out : Vcpu × VmMem}
    {asm : BootAsm → List Byte} {l : Labels} (hl : Launched m content out asm l)
    (monitor : Monitor) :
    ∃ s, Entered m asm l out.2 s ∧
      Machine.run monitor asm (bootCode l) ⟨out.1, out.2⟩ = some s := by
  obtain ⟨s, he, hrun⟩ := bootCode_run hl.loaded hl.ok hl.args hl.boot monitor
  rw [if_pos hl.entry] at hrun
  exact ⟨s, he, hrun⟩

/-- Some bytes lie above the stack, wherever the application is entered. -/
def AtEntry (m : MainRun) (asm : BootAsm → List Byte) (l : Labels) (σ : VmMem) (a : U64)
    (bs : List Byte) : Prop :=
  ∀ s, Entered m asm l σ s → BytesAbove (rreg s.vcpu .rsp) s.seen a bs

section Enter

variable {m : MainRun} {content : List Byte} {out : Vcpu × VmMem} {asm : BootAsm → List Byte}
  {l : Labels} {σ : VmMem} {s : Machine} {a : U64} {bs : List Byte}

/-- The first of some bytes. -/
theorem BytesAbove.left {top : U64} {mem : U64 → Option Byte} {bs' : List Byte}
    (h : BytesAbove top mem a (bs ++ bs')) : BytesAbove top mem a bs := by
  obtain ⟨hlo, hhi, hbs⟩ := h
  rw [List.length_append] at hhi hbs
  refine ⟨hlo, by omega, (bytesFrom_take hbs (Nat.le_add_right _ _)).trans ?_⟩
  rw [List.take_left]

theorem AtEntry.left {bs' : List Byte} (h : AtEntry m asm l σ a (bs ++ bs')) :
    AtEntry m asm l σ a bs :=
  fun s he => (h s he).left

/-- The first pages are where the application sees them. -/
theorem Entered.bytesAbove (he : Entered m asm l σ s) (h : m.AppLoaded content)
    (hbs : Holds s.vm a bs) (hlo : 0x6FF8 ≤ a.toNat) (hhi : a.toNat + bs.length ≤ 0x10000) :
    BytesAbove (rreg s.vcpu .rsp) s.seen a bs := by
  have hload := he.low.loadLinear h hbs hhi
  rw [Machine.loadLinear, he.windows] at hload
  refine ⟨?_, by omega, hload⟩
  rw [he.rsp]
  exact hlo

/-- There is memory below the stack pointer. -/
theorem Entered.below (he : Entered m asm l σ s) (h : m.AppLoaded content)
    (ha : a.toNat < 0x6FF8) :
    (s.seen a).isSome ∧ a.toNat < (rreg s.vcpu .rsp).toNat := by
  obtain ⟨T, happ, _⟩ := h.start he.low.same
  obtain ⟨hlo, hhi, _⟩ := m.firstRegion_bounds
  have hfirst : ∃ r ∈ m.appRegions, r.lo ≤ a.toNat ∧ a.toNat < r.hi := by
    refine ⟨m.firstRegion, List.mem_cons_self, ?_, ?_⟩
    · rw [hlo]
      exact Nat.zero_le _
    · rw [hhi]
      omega
  refine ⟨?_, ?_⟩
  · rw [Machine.seen, isSome_look, happ.windows_of_mem hfirst]
    rfl
  · rw [he.rsp]
    exact ha

/-- The bytes of the file are at their place, the code of its wrappers among them. -/
theorem Launched.atEntry (hl : Launched m content out asm l) {k : Nat}
    (hk : k + bs.length ≤ content.length) (hbs : (content.drop k).take bs.length = bs) :
    AtEntry m asm l out.2 (imageAddr + BitVec.ofNat 64 k) bs := by
  intro s he
  obtain ⟨_, _, hfile⟩ := hl.loaded.start he.low.same
  have htop := hl.loaded.top
  have himage : imageAddr.toNat = 0x100000000 := rfl
  have hsum : (imageAddr + BitVec.ofNat 64 k).toNat = imageAddr.toNat + k :=
    toNat_add_ofNat (by omega)
  refine ⟨?_, by omega, bytesFrom_eq_some fun i hi => ?_⟩
  · rw [he.rsp, hsum, himage]
    show 0x6FF8 ≤ _
    omega
  · have hnext : imageAddr + BitVec.ofNat 64 k + BitVec.ofNat 64 i =
        imageAddr + BitVec.ofNat 64 (k + i) := by
      bv_omega
    rw [hnext, Machine.seen, hfile (k + i) (by omega)]
    have hbyte : bs[i] = content[k + i] := by
      rw [List.getElem_of_eq hbs.symm hi, List.getElem_take, List.getElem_drop]
    exact congrArg some hbyte.symm

/-- An argument lies where its pointer says, and the pointer in the array. -/
theorem Launched.arg_atEntry (hl : Launched m content out asm l) {i : Nat}
    (hi : i < m.args.length) :
    AtEntry m asm l out.2 (confArgvAddr + BitVec.ofNat 64 (8 * i))
        (leBytes 8 (strAddr m.args i)) ∧
      AtEntry m asm l out.2 (BitVec.ofNat 64 (strAddr m.args i))
        (m.args.get ⟨i, hi⟩).stored := by
  have hargv_lo : confArgvAddr.toNat = 0x7100 := rfl
  obtain ⟨hptr, hstr, hlo, hhi⟩ := hl.ok.holds_arg hl.args hl.short hi
  have hshort := hl.short
  have hslot : (confArgvAddr + BitVec.ofNat 64 (8 * i)).toNat = confArgvAddr.toNat + 8 * i :=
    toNat_add_ofNat (by omega)
  have haddr : (BitVec.ofNat 64 (strAddr m.args i)).toNat = strAddr m.args i := by
    rw [BitVec.toNat_ofNat]
    omega
  have hlen : (leBytes 8 (strAddr m.args i)).length = 8 := length_leBytes 8 _
  refine ⟨fun s he => ?_, fun s he => ?_⟩
  · exact he.bytesAbove hl.loaded (he.args _ _ hptr (by omega) (by omega)) (by omega) (by omega)
  · exact he.bytesAbove hl.loaded (he.args _ _ hstr (by omega) (by omega)) (by omega) (by omega)

/-- **What a program is given**: its code and its arguments. -/
theorem Launched.given (hl : Launched m content out asm l) (he : Entered m asm l out.2 s)
    {f : Compiled} {codes : List U64}
    (hcode : ∀ c ∈ codes, AtEntry m asm l out.2 (f.syscallAt c) [0x0F, 0x05]) :
    Given f codes (rreg s.vcpu .rsi) m.args (rreg s.vcpu .rsp) s.seen := by
  refine ⟨fun c hc => hcode c hc s he, fun i hi => ?_⟩
  obtain ⟨hptr, hstr⟩ := hl.arg_atEntry hi
  obtain ⟨_, _, hlo, hhi⟩ := hl.ok.holds_arg hl.args hl.short hi
  have haddr : (BitVec.ofNat 64 (strAddr m.args i)).toNat = strAddr m.args i := by
    rw [BitVec.toNat_ofNat]
    omega
  refine ⟨BitVec.ofNat 64 (strAddr m.args i), ?_, hstr s he⟩
  rw [he.argv, haddr]
  exact hptr s he

/-- The number of the arguments, as an `int`. -/
theorem Launched.argc (hl : Launched m content out asm l) (he : Entered m asm l out.2 s) :
    ((rreg s.vcpu .rdi).setWidth 32).toInt = m.args.length := by
  have hshort := hl.short
  have hnat : ((rreg s.vcpu .rdi).setWidth 32).toNat = m.args.length := by
    rw [he.argc, BitVec.toNat_setWidth, BitVec.toNat_ofNat]
    omega
  rw [BitVec.toInt_eq_toNat_of_lt (by omega), hnat]

/-- **A program that halts on a kernel halts under hvexec**, and leaves the same world. -/
theorem Launched.run_halted {W C : Type} (hl : Launched m content out asm l)
    (he : Entered m asm l out.2 s) (host : Host W) {interactive : Bool}
    {session : Nat → ExitData} (hquiet : Quiet interactive session) {w : W}
    {p : Client C (U64 → Option Byte) AppAction Reply} {n : Nat} {c c' : C} {t : Process W}
    (hreaches : Service.Reaches (native (host.kernel.under host.policy) host.pathMax) p n
      c ⟨s.seen, w⟩ c' t)
    (hhalt : p.next c' t.mem = none) {k : Nat} (hk : n < k) :
    let r := (hosted host interactive session).run p k c ⟨s.vm, w, 0⟩
    r.ending = .halted ∧ r.client = c' ∧ r.state.world = t.world := by
  intro r
  obtain ⟨T, happ, _⟩ := hl.loaded.start he.low.same
  obtain ⟨hending, hclient, hstate⟩ := hreaches.run_halted hhalt hk
  have hseen : Seen m.appRegions (⟨s.vm, w, 0⟩ : Hosted W) ⟨s.seen, w⟩ := ⟨⟨T, happ⟩, rfl, rfl⟩
  have hsame := (hosted_simulates hquiet).run p k c _ _ hseen
    (ne_of_eq_of_ne hending (by decide))
  refine ⟨hsame.ending.trans hending, hsame.client.trans hclient, ?_⟩
  rw [← hstate]
  exact hsame.state.world.symm

end Enter

/-! ## Other arguments

Nothing that `main` does before `set_args` looks at the arguments. -/

/-- The same run with other arguments. -/
def MainRun.withArgs (m : MainRun) (args : List CString) : MainRun :=
  { m with args := args }

section WithArgs

variable {m : MainRun} {content : List Byte} {asm : BootAsm → List Byte} {l : Labels}
  {args : List CString}

theorem MainRun.AppLoaded.withArgs (h : m.AppLoaded content) (args : List CString) :
    (m.withArgs args).AppLoaded content where
  init := h.init
  load := h.load
  app := h.app
  suppliedInit := h.suppliedInit
  suppliedLoad := h.suppliedLoad
  placed := h.placed
  kernel := h.kernel
  file := h.file
  top := h.top

/-- A run that gets to the arguments is launched with any that fit. -/
theorem MainRun.AppLoaded.launched (h : m.AppLoaded content) (hsetup : m.afterSetup.1 = 0)
    (hroot : m.afterInit.2.pml4Gpa.toNat < 2 ^ 32) (hboot : Assembled asm l m.kernel.content)
    (hentry : Canonical m.afterApp.entryoff) (hargs : ArgsFit args)
    (hshort : args.length ≤ 32) :
    ∃ out, Launched (m.withArgs args) content out asm l := by
  obtain ⟨hargv, hend⟩ := hargs
  have hstart : confStartAddr.toNat = 0x8000 := rfl
  obtain ⟨σ, hset⟩ : ∃ σ, setArgs m.afterApp.vm confArgvAddr confArgsAddr args = some σ :=
    h.afterApp_low.1.setArgs_fits (by omega) (by omega)
  have hafter : (m.withArgs args).afterArgs = some σ := hset
  have happ := h.withArgs args
  refine ⟨pushAll m.afterSetup.2.1 σ (BitVec.ofNat 64 args.length) m.afterApp.entryoff, happ,
    ⟨happ.toLoaded, ?_, hroot⟩, ⟨hargv, hend⟩, hshort, hboot, hentry⟩
  have hsetup' : (m.withArgs args).afterSetup.1 = 0 := hsetup
  unfold MainRun.launch
  rw [if_neg (not_not.mpr happ.init), if_neg (not_not.mpr hsetup'),
    if_neg (not_not.mpr happ.load), if_neg (not_not.mpr happ.app), hafter]
  rfl

theorem kernelRun_launched (hargs : ArgsFit args) (hshort : args.length ≤ 32) :
    ∃ out, Launched (kernelRun.withArgs args) (List.replicate 5 0) out x86 kernelLabels := by
  have hsetup : kernelRun.afterSetup.1 = 0 := rfl
  have hentry : Canonical kernelRun.afterApp.entryoff := by
    rw [kernelRun_entryoff]
    decide
  exact kernelRun_appLoaded.launched hsetup bootSetUp_fresh.root_low kernelFile_assembled hentry
    hargs hshort

end WithArgs

/-! ## test_echo -/

/-- "echo" and an argument with the instruction `syscall` in it. -/
def codeArgs : List CString :=
  [⟨[0x65, 0x63, 0x68, 0x6F], by decide⟩, ⟨[0x0F, 0x05], by decide⟩]

/-- The wrappers are the argument. -/
def codeInArgs : Compiled where
  syscallAt := fun _ => 0x7205
  upper := 0
  regs := fun _ => 0

/-- `kernelRun` with these arguments. -/
def echoRun : MainRun :=
  kernelRun.withArgs codeArgs

theorem echoRun_atEntry {out : Vcpu × VmMem}
    (hl : Launched echoRun (List.replicate 5 0) out x86 kernelLabels) :
    AtEntry echoRun x86 kernelLabels out.2 0x7205 [0x0F, 0x05] :=
  AtEntry.left (hl.arg_atEntry (show 1 < echoRun.args.length by decide)).2

/-- A host that writes down the calls. -/
def logHost : Host (List SysCall) where
  kernel := ⟨fun w c => (w ++ [c], .ofNat c 0)⟩
  policy := ⟨noPlugin, fun w _ => (w, none)⟩
  pathMax := 1024

/-- "cat", the path "f", an argument with the instruction `syscall` in it, and the message. -/
def catArgs : List CString :=
  [⟨[0x63, 0x61, 0x74], by decide⟩, ⟨[0x66], by decide⟩, ⟨[0x0F, 0x05], by decide⟩, errMsg]

/-- The wrappers are the third argument. -/
def codeInThird : Compiled where
  syscallAt := fun _ => 0x7206
  upper := 0
  regs := fun _ => 0

def catRun : MainRun :=
  kernelRun.withArgs catArgs

theorem catRun_atEntry {out : Vcpu × VmMem}
    (hl : Launched catRun (List.replicate 5 0) out x86 kernelLabels) :
    AtEntry catRun x86 kernelLabels out.2 0x7206 [0x0F, 0x05] ∧
      AtEntry catRun x86 kernelLabels out.2 0x7209 errMsg.stored :=
  ⟨AtEntry.left (hl.arg_atEntry (show 2 < catRun.args.length by decide)).2,
    (hl.arg_atEntry (show 3 < catRun.args.length by decide)).2⟩

/-- A host with one file: what is left of it, and what was put out. -/
def fileHost : Host (List Byte × List Byte) where
  kernel :=
    ⟨fun w c =>
      match c with
      | .read _ nbyte =>
          ((w.1.drop nbyte, w.2), ⟨BitVec.ofNat 64 (w.1.take nbyte).length, w.1.take nbyte,
            List.length_take_le _ _⟩)
      | .write fildes bytes => ((w.1, w.2 ++ bytes), .ofNat (.write fildes bytes) bytes.length)
      | .openPath path flags mode => (w, .ofNat (.openPath path flags mode) 3)
      | .close fd => (w, .ofNat (.close fd) 0)⟩
  policy := ⟨noPlugin, fun w _ => (w, none)⟩
  pathMax := 1024

theorem fileHost_catDoes :
    CatDoes (fileHost.kernel.under fileHost.policy) fileHost.pathMax catRun.args
      ([0x68, 0x69], []) [0x68, 0x69] ([], [0x68, 0x69]) := by
  have hcopied : Copied (fileHost.kernel.under fileHost.policy) 3 128 ([0x68, 0x69], [])
      [[0x68, 0x69]] ([], [0x68, 0x69]) :=
    .piece rfl (by decide) (by decide) (.done (by decide))
  have hpath : catRun.args[1]? = some ⟨[0x66], by decide⟩ := rfl
  have hopen : openResult ((fileHost.kernel.under fileHost.policy).call ([0x68, 0x69], [])
      (.openPath [0x66] oRdonly 0)).2.rax = 3 := by
    decide
  exact CatDoes.file hpath hopen (by decide) hcopied

/-- "t", "3" and an argument with the instruction `syscall` in it. -/
def threeArgs : List CString :=
  [⟨[0x74], by decide⟩, ⟨[0x33], by decide⟩, ⟨[0x0F, 0x05], by decide⟩]

/-- The wrappers are the third argument. -/
def codeAfterThree : Compiled where
  syscallAt := fun _ => 0x7204
  upper := 0
  regs := fun _ => 0

def threeRun : MainRun :=
  kernelRun.withArgs threeArgs

theorem threeRun_atEntry {out : Vcpu × VmMem}
    (hl : Launched threeRun (List.replicate 5 0) out x86 kernelLabels) :
    AtEntry threeRun x86 kernelLabels out.2 0x7204 [0x0F, 0x05] :=
  AtEntry.left (hl.arg_atEntry (show 2 < threeRun.args.length by decide)).2

end Hvexec
