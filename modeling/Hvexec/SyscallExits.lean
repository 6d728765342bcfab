import Hvexec.VcpuRun
import Hvexec.BufferCheck
import Hvexec.PhysMemory

/-!
# Which exits are system calls

The loop does not see why the guest faulted.  It takes every exit without a case
of its own for a system call when the bytes before RCX are those of the
instruction; but RCX keeps its value long after the instruction.

`GuestStop` is an exit together with what the guest did.  The system calls that
the loop emulates are those that the guest executed exactly when the bytes
before RCX tell the truth at each exit (`Told`).
-/

namespace Hvexec

open ByteMemory IntervalList

/-- The byte that the processor fetches. -/
def VmMem.fetch (σ : VmMem) (gva : U64) : Option Byte :=
  (σ.translate gva).bind σ.byteAt

/-- The instruction `syscall` from a guest-physical address on. -/
def SyscallBytes (σ : VmMem) (gpa : U64) : Prop :=
  σ.byteAt gpa = some 0x0F ∧ σ.byteAt (gpa + 1) = some 0x05

theorem leNat_syscall (b b' : Byte) :
    leNat [b, b'] = 0x050f ↔ b = 0x0F ∧ b' = 0x05 := by
  simp only [leNat]
  constructor
  · intro h
    constructor
    · bv_omega
    · bv_omega
  · rintro ⟨rfl, rfl⟩
    rfl

/-- Reading two bytes finds the instruction. -/
theorem vmMemRead_syscall (σ : VmMem) (gpa : U64) :
    (vmMemRead σ gpa (leBytes 2 0)).1 = 2 ∧
        leNat (vmMemRead σ gpa (leBytes 2 0)).2 = 0x050f ↔
      SyscallBytes σ gpa := by
  have hzero : leBytes 2 0 = [0, 0] := rfl
  unfold SyscallBytes VmMem.byteAt
  simp only [hzero, vmMemRead]
  by_cases hlo : gpaToHva σ.memRegions gpa = 0
  · simp [hlo]
  · by_cases hhi : gpaToHva σ.memRegions (gpa + 1) = 0
    · simp only [hlo, hhi, if_false, if_true]
      simp
    · simp only [hlo, hhi, if_false, leNat_syscall, Option.some.injEq, true_and]

theorem syscallBefore_iff (e : VmExit) :
    syscallBefore e = true ↔
      2 ≤ rreg e.vcpu .rcx ∧
        SyscallBytes e.vm (gvaToGpa e.vm e.entry₀ (rreg e.vcpu .rcx - 2)) := by
  rw [← vmMemRead_syscall]
  simp only [syscallBefore, Bool.and_eq_true, decide_eq_true_eq]

/-! ## The guest -/

theorem GuestState.byteAt_of_fetch {σ : VmMem} (h : GuestState σ) {a : U64} {b : Byte}
    (hb : σ.fetch a = some b) (entry₀ : U64) :
    σ.byteAt (gvaToGpa σ entry₀ a) = some b := by
  obtain ⟨x, hx, hbyte⟩ := Option.bind_eq_some_iff.mp hb
  rw [h.gvaToGpa_of_translate hx]
  exact hbyte

/-- An instruction that the processor fetches is found, except that the second byte is
taken from the next physical address even where a page ends. -/
theorem GuestState.syscallBytes_iff {σ : VmMem} (h : GuestState σ) {a : U64}
    (hfirst : σ.fetch a = some 0x0F) (hsecond : σ.fetch (a + 1) = some 0x05) (entry₀ : U64) :
    SyscallBytes σ (gvaToGpa σ entry₀ a) ↔
      (a.toNat % 4096 = 4095 → σ.byteAt (gvaToGpa σ entry₀ a + 1) = some 0x05) := by
  simp only [SyscallBytes, h.byteAt_of_fetch hfirst, true_and]
  refine ⟨fun hbyte _ => hbyte, fun hbyte => ?_⟩
  by_cases hpage : a.toNat % 4096 = 4095
  · exact hbyte hpage
  · rw [← gvaToGpa_add_one _ _ hpage]
    exact h.byteAt_of_fetch hsecond entry₀

/-- A stop of the guest.  Either it executed `syscall` at an address, which sets
RCX and ends in a triple fault, or it stopped for any other reason. -/
structure GuestStop where
  exit : VmExit
  syscall : Option U64
  built : Built exit.vm
  executed : ∀ a, syscall = some a →
    exit.reason = .tripleFault ∧ rreg exit.vcpu .rcx = a + 2 ∧
      exit.vm.fetch a = some 0x0F ∧ exit.vm.fetch (a + 1) = some 0x05

namespace GuestStop

/-- The bytes before RCX tell whether the guest executed `syscall`.  For an
instruction: RCX does not wrap around, and where it crosses a page its second
byte is also found at the next physical address.  For any other stop that the
loop has no case for: there is no such instruction before RCX. -/
def Told (g : GuestStop) : Prop :=
  match g.syscall with
  | some a =>
      a.toNat + 2 < 2 ^ 64 ∧
        (a.toNat % 4096 = 4095 →
          g.exit.vm.byteAt (gvaToGpa g.exit.vm g.exit.entry₀ a + 1) = some 0x05)
  | none =>
      g.exit.reason.isDefault = true → 2 ≤ rreg g.exit.vcpu .rcx →
        ¬ SyscallBytes g.exit.vm
          (gvaToGpa g.exit.vm g.exit.entry₀ (rreg g.exit.vcpu .rcx - 2))

/-- The loop finds an executed instruction when its bytes tell. -/
theorem syscallBefore_of_executed (g : GuestStop) {a : U64} (ha : g.syscall = some a) :
    syscallBefore g.exit = true ↔ g.Told := by
  obtain ⟨_, hrcx, hfirst, hsecond⟩ := g.executed a ha
  have hback : a + 2 - 2 = a := by
    bv_omega
  have hwrap : (2 : U64) ≤ a + 2 ↔ a.toNat + 2 < 2 ^ 64 := by
    have htwo : (2 : U64).toNat = 2 := rfl
    rw [BitVec.le_def, BitVec.toNat_add, htwo]
    omega
  rw [syscallBefore_iff, hrcx, hback, hwrap]
  simp only [Told, ha]
  exact and_congr_right fun _ =>
    g.built.guestState.syscallBytes_iff hfirst hsecond g.exit.entry₀

/-- **One stop**: it is taken for what it was exactly when the bytes tell. -/
theorem emulated_eq_iff (ops : PluginOps) (interactive : Bool) (g : GuestStop) :
    (handleExit ops interactive g.exit).emulated = g.syscall.isSome ↔ g.Told := by
  have hemulated := emulated_iff ops interactive g.exit
  cases hsyscall : g.syscall with
  | some a =>
      have hreason : g.exit.reason.isDefault = true := by
        rw [(g.executed a hsyscall).1]
        rfl
      rw [← g.syscallBefore_of_executed hsyscall, Option.isSome_some, hemulated]
      simp [hreason]
  | none =>
      rw [Option.isSome_none, ← Bool.not_eq_true, hemulated, syscallBefore_iff]
      simp only [Told, hsyscall]
      tauto

end GuestStop

/-! ## A whole run -/

/-- The stops that the loop handles; a `hv_vcpu_run` that fails ends the run. -/
def handledStops (ops : PluginOps) (interactive : Bool) :
    List (Option GuestStop) → List GuestStop
  | [] => []
  | none :: _ => []
  | some g :: gs =>
      if (handleExit ops interactive g.exit).stop then [g]
      else g :: handledStops ops interactive gs

/-- The run of the loop over the stops of a guest. -/
theorem vcpuRun_eq_map (ops : PluginOps) (interactive : Bool) :
    ∀ gs : List (Option GuestStop),
      vcpuRun ops interactive (gs.map (Option.map GuestStop.exit)) =
        (handledStops ops interactive gs).map
          fun g => handleExit ops interactive g.exit
  | [] => rfl
  | none :: gs => rfl
  | some g :: gs => by
      rw [List.map_cons, Option.map_some, vcpuRun, handledStops]
      by_cases hstop : (handleExit ops interactive g.exit).stop = true
      · simp only [hstop, if_true, List.map_cons, List.map_nil]
      · have hrest := vcpuRun_eq_map ops interactive gs
        simp only [hstop, hrest]
        rfl

/-- What the guest of a set-up fetches from the initial region. -/
theorem SetUp.Ok.fetch {s : SetUp} (h : s.Ok) (hn : s.numPages.setWidth 64 ≠ (1 : U64))
    {mem : U64 → Byte} (hmem : ∀ x, ¬ s.OwnByte x → mem x = s.afterLoad.vm.mem x)
    {a : U64} (ha : a.toNat < s.numPages.toNat * 4096) :
    (s.withMem mem).fetch a = some (mem (s.answer.valloc + a)) := by
  rw [VmMem.fetch, h.translate_own hn hmem ha, Option.bind_some]
  exact h.byteAt_own mem ha

/-- `close` with RCX behind an instruction at `0x100`. -/
def closeExit (vm : VmMem) : VmExit where
  reason := .tripleFault
  vcpu :=
    { regs := fun r =>
        if r = .rax then syscallClose else if r = .rcx then 0x102 else 0
      vmcs := fun _ => 0 }
  vm := vm
  entry₀ := 0
  env := ⟨0, fun _ => ⟨0, 0⟩, fun _ => 0, fun _ => 0, 0⟩

/-- The host closes the file, and the loop resumes the guest. -/
theorem closeExit_goes_on {vm : VmMem} (hbefore : syscallBefore (closeExit vm) = true) :
    (handleExit noPlugin false (closeExit vm)).stop = false := by
  show (defaultExit noPlugin false (closeExit vm)).stop = false
  rw [defaultExit, if_pos hbefore]
  rfl

/-- The memory of the guest, with the instruction at `0x100`. -/
def bootGuest : VmMem :=
  bootSetUp.withMem (overwrite bootSetUp.afterLoad.vm.mem 0x60000100 [0x0F, 0x05])

theorem bootGuest_outside (x : U64) (hx : ¬ bootSetUp.OwnByte x) :
    overwrite bootSetUp.afterLoad.vm.mem 0x60000100 [0x0F, 0x05] x =
      bootSetUp.afterLoad.vm.mem x :=
  bootSetUp.overwrite_outside _ (by decide) (by decide) (by decide) hx

/-- The guest executes the instruction. -/
def closeStop : GuestStop where
  exit := closeExit bootGuest
  syscall := some 0x100
  built := (bootSetUp_ok.write (by decide) bootGuest_outside).1
  executed := by
    rintro a ha
    obtain rfl := Option.some.inj ha
    refine ⟨rfl, rfl, ?_, ?_⟩
    · exact bootSetUp_ok.fetch (by decide) bootGuest_outside (a := 0x100) (by decide)
    · exact bootSetUp_ok.fetch (by decide) bootGuest_outside (a := 0x101) (by decide)

/-- The guest faults later, with RCX as the instruction left it. -/
def faultStop : GuestStop where
  exit := closeExit bootGuest
  syscall := none
  built := closeStop.built
  executed := by simp

/-- The exit is taken for a system call: RIP becomes RCX, and `emu_syscall` decides about
the rest. -/
def TakenAsSyscall (ops : PluginOps) (interactive : Bool) (e : VmExit) : Prop :=
  let r := emuSyscall ops interactive e.env e.vm (wreg e.vcpu .rip (rreg e.vcpu .rcx))
  handleExit ops interactive e = ⟨r.vcpu, decide (r.code ≠ 0), true, r.calls⟩

theorem takenAsSyscall_iff {ops : PluginOps} {interactive : Bool} {e : VmExit}
    (hreason : e.reason.isDefault = true) :
    TakenAsSyscall ops interactive e ↔ syscallBefore e = true := by
  unfold TakenAsSyscall
  rcases handleExit_cases ops interactive e with ⟨_, heq⟩ | ⟨hother, _⟩
  · rw [heq, defaultExit]
    split_ifs with hbefore
    · simp [hbefore]
    · simp [hbefore]
  · rw [hreason] at hother
    simp at hother

/-- **When no system call is missed.**  With `syscall` before RCX, each byte where the
processor translates its address to, the exit is taken for a system call if and only if
the instruction lies within a page, or the byte at the physical address after its first
one is the second one as well. -/
theorem takenAsSyscall_iff_of_fetch (ops : PluginOps) (interactive : Bool)
    (σ : VmMem) (h : Built σ) (mem : U64 → Byte)
    (e : VmExit) (hvm : e.vm = { σ with mem := mem })
    (hreason : e.reason.isDefault = true) (hrcx : 2 ≤ rreg e.vcpu .rcx)
    (hfirst : e.vm.fetch (rreg e.vcpu .rcx - 2) = some 0x0F)
    (hsecond : e.vm.fetch (rreg e.vcpu .rcx - 1) = some 0x05) :
    TakenAsSyscall ops interactive e ↔
      ((rreg e.vcpu .rcx - 2).toNat % 4096 = 4095 →
        ∃ x, e.vm.translate (rreg e.vcpu .rcx - 2) = some x ∧
          e.vm.byteAt (x + 1) = some 0x05) := by
  have hstate : GuestState e.vm := by
    rw [hvm]
    exact h.guestState_mem mem
  have hnext : rreg e.vcpu .rcx - 1 = rreg e.vcpu .rcx - 2 + 1 := by
    bv_omega
  rw [hnext] at hsecond
  obtain ⟨x, hx, _⟩ := Option.bind_eq_some_iff.mp hfirst
  rw [takenAsSyscall_iff hreason, syscallBefore_iff,
    hstate.syscallBytes_iff hfirst hsecond, hstate.gvaToGpa_of_translate hx]
  simp only [hrcx, hx, true_and, Option.some.injEq, exists_eq_left']

theorem takenAsSyscall_iff_of_fetch_bootGuest :
    TakenAsSyscall noPlugin false (closeExit bootGuest) ↔
      ((0x102 - 2 : U64).toNat % 4096 = 4095 →
        ∃ x, bootGuest.translate (0x102 - 2) = some x ∧ bootGuest.byteAt (x + 1) = some 0x05) := by
  refine takenAsSyscall_iff_of_fetch noPlugin false _ bootSetUp_ok.built
    (overwrite bootSetUp.afterLoad.vm.mem 0x60000100 [0x0F, 0x05]) (closeExit bootGuest) rfl rfl
    (by decide) ?_ ?_
  · exact bootSetUp_ok.fetch (by decide) bootGuest_outside (a := 0x100) (by decide)
  · exact bootSetUp_ok.fetch (by decide) bootGuest_outside (a := 0x101) (by decide)

/-- Three pages; the two bytes of an instruction end the first one and begin the third one. -/
def crossingRegion : VmMem :=
  (mapGpa (VmMem.init (overwrite (overwrite (fun _ => 0) 0x60000FFF [0x0F]) 0x60002000 [0x05]))
    0x9000 3 0x60000000 ⟨0, true, true⟩).2

/-- The first page is mapped. -/
def crossingFirst : VmMem :=
  (mapGva crossingRegion 0x400000 1 0x9000 (.pagesFrom 0x70000000)).2

/-- The third page is mapped after it. -/
def crossing : VmMem :=
  (mapGva crossingFirst 0x401000 1 0xB000 (.pagesFrom 0x78000000)).2

theorem memRegions_crossing :
    crossingFirst.memRegions =
      [⟨0, 1, 0x70000000⟩, ⟨0x1000, 1, 0x70001000⟩, ⟨0x2000, 1, 0x70002000⟩,
        ⟨0x3000, 1, 0x70003000⟩, ⟨0x9000, 3, 0x60000000⟩] ∧
      crossing.memRegions = crossingFirst.memRegions := by
  decide +kernel

theorem placed_crossing : Placed crossing.memRegions := by
  rw [memRegions_crossing.2, memRegions_crossing.1]
  refine ⟨⟨?_, ?_⟩, ?_⟩
  · decide
  · unfold Apart
    decide
  · decide

theorem mem_crossingRegion {x : U64} (hx : 0x70000000 ≤ x.toNat) :
    crossingRegion.mem x = 0 := by
  refine (overwrite_of_le ?_).trans (overwrite_of_le ?_)
  · simp only [List.length_singleton]
    bv_omega
  · simp only [List.length_singleton]
    bv_omega

theorem built_crossing : Built crossing := by
  have hplaced := placed_crossing
  have hfresh : ∀ {base : U64}, base ≠ 0 → base.toNat + 512 * 4096 ≤ 2 ^ 64 →
      FreshPages (MapGvaEnv.pagesFrom base).answers [] 0 :=
    fun hpos hend => freshPages_pagesFrom hpos hend (by decide) (by simp)
  have hregion : Built crossingRegion := by
    refine .mapGpa (.start _) 0x9000 3 0x60000000 ⟨0, true, true⟩ (by decide) ?_
    exact hplaced.sublist ((sublist_mapGva _ _ _ _ _).trans (sublist_mapGva _ _ _ _ _))
  have hfirst : Built crossingFirst := by
    refine .mapGva hregion 0x400000 1 0x9000 (.pagesFrom 0x70000000)
      ⟨?_, fun _ => rfl, fun _ => rfl, ?_⟩ (hplaced.sublist (sublist_mapGva _ _ _ _ _))
    · exact (hfresh (by decide) (by decide)).valloc
    · intro p hp hnew x hlo _
      apply mem_crossingRegion
      refine le_trans ?_ hlo
      have hdata : (⟨0x9000, 3, 0x60000000⟩ : MemRegion) ∈ crossingRegion.memRegions := by
        decide
      have hpages := memRegions_crossing.1
      rw [crossingFirst] at hpages
      rw [hpages] at hp
      simp only [List.mem_cons, List.not_mem_nil, or_false] at hp
      rcases hp with rfl | rfl | rfl | rfl | rfl
      · decide
      · decide
      · decide
      · decide
      · exact absurd hdata hnew
  refine .mapGva hfirst 0x401000 1 0xB000 (.pagesFrom 0x78000000)
    ⟨?_, fun _ => rfl, fun _ => rfl, ?_⟩ hplaced
  · exact (hfresh (by decide) (by decide)).valloc
  · intro p hp hnew
    have hsame := memRegions_crossing.2
    rw [crossing] at hsame
    rw [hsame] at hp
    exact absurd hp hnew

/-- The guest executed an instruction at `0x400FFF`. -/
def crossingExit (vm : VmMem) : VmExit :=
  { closeExit vm with
    vcpu :=
      { regs := fun r => if r = .rcx then 0x401001 else 0
        vmcs := fun _ => 0 } }

theorem crossing_fetch :
    crossing.fetch 0x400FFF = some 0x0F ∧ crossing.fetch 0x401000 = some 0x05 := by
  decide +kernel

/-- The page after the first one holds zeros, and the loop does not find the instruction. -/
theorem crossingExit_missed :
    Built crossing ∧ (crossingExit crossing).reason.isDefault = true ∧
      2 ≤ rreg (crossingExit crossing).vcpu .rcx ∧
      crossing.fetch (rreg (crossingExit crossing).vcpu .rcx - 2) = some 0x0F ∧
      crossing.fetch (rreg (crossingExit crossing).vcpu .rcx - 1) = some 0x05 ∧
      ¬ TakenAsSyscall noPlugin false (crossingExit crossing) := by
  obtain ⟨hfirst, hsecond⟩ := crossing_fetch
  have hreason : (crossingExit crossing).reason.isDefault = true := rfl
  have hbefore : syscallBefore (crossingExit crossing) = false := by
    decide +kernel
  refine ⟨built_crossing, hreason, by decide, hfirst, hsecond, ?_⟩
  rw [takenAsSyscall_iff hreason, hbefore]
  simp

end Hvexec
