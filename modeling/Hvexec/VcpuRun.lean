import Hvexec.Emu
import Hvexec.EmuSyscall

/-!
# The exit loop

`vcpu_run` resumes the guest and handles its exit, over and over, until a handler
says stop.  Between two exits the guest may change its registers and its memory
at will, so an exit comes with the state that it finds.

Every call of the plugin and of the host comes from an emulated system call:
over a whole run no host call gets around an installed callback.
-/

namespace Hvexec

open ByteMemory Interposition

/-- `VMX_REASON_EXC_NMI` and so on.  `VMX_REASON_TRIPLE_FAULT` has no case of its
own in `vcpu_run`, nor has any reason that is left to `other`. -/
inductive ExitReason
  | excNmi | irq | vmcall | hlt | eptViolation | rdmsr | wrmsr | movCr | cpuid
  | tripleFault
  | other (reason : U64)
deriving DecidableEq

/-- An exit of the guest: why, with which registers and which memory, and what
comes from outside while it is handled. -/
structure VmExit where
  reason : ExitReason
  vcpu : Vcpu
  vm : VmMem
  entry₀ : U64
  env : SyscallEnv

/-- What the handling of an exit leaves: the processor, whether the loop stops,
whether `emu_syscall` was called, and the calls it made. -/
structure Handled where
  vcpu : Vcpu
  stop : Bool
  emulated : Bool
  calls : List HostCall

/-- The two bytes before RCX are a `syscall` instruction. -/
def syscallBefore (e : VmExit) : Bool :=
  let rcx := rreg e.vcpu .rcx
  let gpa := gvaToGpa e.vm e.entry₀ (rcx - 2)
  let op := vmMemRead e.vm gpa (leBytes 2 0)
  decide (2 ≤ rcx) && (decide (op.1 = 2) && decide (leNat op.2 = 0x050f))

/-- The branch `default` of `vcpu_run`. -/
def defaultExit (ops : PluginOps) (interactive : Bool) (e : VmExit) : Handled :=
  if syscallBefore e then
    let v := wreg e.vcpu .rip (rreg e.vcpu .rcx)
    let r := emuSyscall ops interactive e.env e.vm v
    ⟨r.vcpu, decide (r.code ≠ 0), true, r.calls⟩
  else ⟨e.vcpu, true, false, []⟩

/-- An exit that does without `emu_syscall`. -/
def otherExit (r : Int × Vcpu) : Handled :=
  ⟨r.2, decide (r.1 ≠ 0), false, []⟩

/-- The body of the loop. -/
def handleExit (ops : PluginOps) (interactive : Bool) (e : VmExit) : Handled :=
  let v := e.vcpu
  match e.reason with
  | .excNmi =>
      let interruptNumber : Byte := (v.readVmcs .roIdtVectorInfo).setWidth 8
      if interruptNumber = 0 then otherExit (1, v)
      else otherExit (0, wreg v .rip (rreg v .rip + 2))
  | .irq => otherExit (0, v)
  | .vmcall => otherExit (0, wreg v .rip (rreg v .rip + v.readVmcs .roVmexitInstrLen))
  | .hlt => otherExit (1, v)
  | .eptViolation => otherExit (0, v)
  | .rdmsr => otherExit (emuRdmsr v)
  | .wrmsr => otherExit (emuWrmsr v)
  | .movCr => otherExit (emuMovCr v)
  | .cpuid => otherExit (emuCpuid v)
  | .tripleFault => defaultExit ops interactive e
  | .other _ => defaultExit ops interactive e

/-- The exits that the loop handles, in order; `none` is a `hv_vcpu_run` that
fails. -/
def vcpuRun (ops : PluginOps) (interactive : Bool) : List (Option VmExit) → List Handled
  | [] => []
  | none :: _ => []
  | some e :: es =>
      let h := handleExit ops interactive e
      if h.stop then [h] else h :: vcpuRun ops interactive es

/-! ## One exit -/

/-- The exit is left to `default`. -/
def ExitReason.isDefault : ExitReason → Bool
  | .tripleFault => true
  | .other _ => true
  | _ => false

/-- Other exits call nothing. -/
theorem handleExit_cases (ops : PluginOps) (interactive : Bool) (e : VmExit) :
    (e.reason.isDefault = true ∧
      handleExit ops interactive e = defaultExit ops interactive e) ∨
    (e.reason.isDefault = false ∧ ∃ r, handleExit ops interactive e = otherExit r) := by
  unfold handleExit
  cases e.reason with
  | tripleFault => exact Or.inl ⟨rfl, rfl⟩
  | other reason => exact Or.inl ⟨rfl, rfl⟩
  | excNmi =>
      refine Or.inr ⟨rfl, ?_⟩
      dsimp only
      split_ifs
      · exact ⟨_, rfl⟩
      · exact ⟨_, rfl⟩
  | irq => exact Or.inr ⟨rfl, _, rfl⟩
  | vmcall => exact Or.inr ⟨rfl, _, rfl⟩
  | hlt => exact Or.inr ⟨rfl, _, rfl⟩
  | eptViolation => exact Or.inr ⟨rfl, _, rfl⟩
  | rdmsr => exact Or.inr ⟨rfl, _, rfl⟩
  | wrmsr => exact Or.inr ⟨rfl, _, rfl⟩
  | movCr => exact Or.inr ⟨rfl, _, rfl⟩
  | cpuid => exact Or.inr ⟨rfl, _, rfl⟩

/-- A system call is emulated where `default` finds the instruction. -/
theorem emulated_iff (ops : PluginOps) (interactive : Bool) (e : VmExit) :
    (handleExit ops interactive e).emulated = true ↔
      e.reason.isDefault = true ∧ syscallBefore e = true := by
  rcases handleExit_cases ops interactive e with ⟨hreason, heq⟩ | ⟨hreason, r, heq⟩
  · rw [heq, defaultExit]
    split_ifs with hbefore
    · simp [hreason, hbefore]
    · simp [hbefore]
  · simp [heq, otherExit, hreason]

/-- What an emulated system call does, by the exit `e` that it answers. -/
structure SyscallMediated (ops : PluginOps) (interactive : Bool)
    (e : VmExit) (h : Handled) : Prop where
  rip : rreg h.vcpu .rip = rreg e.vcpu .rcx
  regs : ∀ r, r ≠ .rip → r ≠ .rax → rreg h.vcpu r = rreg e.vcpu r
  vmcs : h.vcpu.vmcs = e.vcpu.vmcs
  refused : Refused interactive e.env e.vm e.vcpu →
    h.calls = [] ∧ rreg h.vcpu .rax = rreg e.vcpu .rax ∧ h.stop = true
  performed : ¬ Refused interactive e.env e.vm e.vcpu →
    ∃ r, guestRequest e.env e.vm e.vcpu = some r ∧ h.stop = false ∧
      h.calls =
        (if ops.installed r then [.hook r (e.env.callback r).verdict] else []) ++
          (if ops.installed r = false ∨ (e.env.callback r).code ≠ 0 then
            [.host r (e.env.host r)] else []) ∧
      rreg h.vcpu .rax =
        (if ops.installed r = true ∧ (e.env.callback r).code = 0 then (e.env.callback r).ret
          else e.env.host r).signExtend 64

theorem verdict_eq_none_iff {w : Nat} (c : CallbackAnswer w) :
    c.verdict = none ↔ c.code ≠ 0 := by
  simp [CallbackAnswer.verdict]

theorem verdict_getD {w : Nat} (c : CallbackAnswer w) (x : BitVec w) :
    c.verdict.getD x = if c.code = 0 then c.ret else x := by
  unfold CallbackAnswer.verdict
  split_ifs <;> rfl

theorem syscallMediated_defaultExit (ops : PluginOps) (interactive : Bool) (e : VmExit)
    (hbefore : syscallBefore e = true) :
    SyscallMediated ops interactive e (defaultExit ops interactive e) := by
  rw [defaultExit, if_pos hbefore]
  dsimp only
  have houtcome := emuSyscall_outcome ops interactive e.env e.vm
    (wreg e.vcpu .rip (rreg e.vcpu .rcx))
  generalize emuSyscall ops interactive e.env e.vm
    (wreg e.vcpu .rip (rreg e.vcpu .rcx)) = r at houtcome
  cases houtcome with
  | refused hcode hrefused =>
      refine ⟨?_, ?_, rfl, ?_, ?_⟩
      · simp [rreg_wreg]
      · intro r hrip _
        simp [rreg_wreg, hrip]
      · intro _
        simp [rreg_wreg, hcode]
      · intro hcon
        exact absurd hrefused hcon
  | @performed r hr hrefused =>
      refine ⟨?_, ?_, rfl, ?_, ?_⟩
      · simp [rreg_wreg]
      · intro r' hrip hrax
        simp [rreg_wreg, hrip, hrax]
      · intro hcon
        exact absurd hcon hrefused
      · intro _
        refine ⟨r, hr, by simp, ?_, ?_⟩
        · rw [interpose_calls]
          simp only [verdict_eq_none_iff]
        · rw [rreg_wreg, if_pos rfl, interpose_result, verdict_getD]
          by_cases hin : ops.installed r = true
          · simp only [hin, if_true, true_and]
          · rw [if_neg hin, if_neg fun hcon => hin hcon.1]

/-! ## A whole run -/

/-- An exit of a run, and what its handling leaves. -/
theorem vcpuRun_getElem {ops : PluginOps} {interactive : Bool} :
    ∀ {es : List (Option VmExit)} {k : Nat} {h : Handled},
      (vcpuRun ops interactive es)[k]? = some h →
      ∃ e, es[k]? = some (some e) ∧ h = handleExit ops interactive e ∧
        (h.stop = true → (vcpuRun ops interactive es).length = k + 1)
  | [], k, h, hk => by
      simp [vcpuRun] at hk
  | none :: es, k, h, hk => by
      simp [vcpuRun] at hk
  | some e :: es, k, h, hk => by
      by_cases hstop : (handleExit ops interactive e).stop = true
      · have hrun : vcpuRun ops interactive (some e :: es) =
            [handleExit ops interactive e] := by
          rw [vcpuRun]
          exact if_pos hstop
        rw [hrun] at hk ⊢
        cases k with
        | zero =>
            exact ⟨e, rfl, (Option.some.inj hk).symm, fun _ => rfl⟩
        | succ k =>
            simp at hk
      · have hrun : vcpuRun ops interactive (some e :: es) =
            handleExit ops interactive e :: vcpuRun ops interactive es := by
          rw [vcpuRun]
          exact if_neg hstop
        rw [hrun] at hk ⊢
        cases k with
        | zero =>
            obtain rfl := Option.some.inj hk
            exact ⟨e, rfl, rfl, fun hcon => absurd hcon hstop⟩
        | succ k =>
            obtain ⟨e', he', heq, hlen⟩ := vcpuRun_getElem hk
            exact ⟨e', he', heq, fun h => congrArg (· + 1) (hlen h)⟩

/-- The calls made for one exit. -/
theorem calls_handleExit (ops : PluginOps) (interactive : Bool) (e : VmExit) :
    Mediated ops.installed (handleExit ops interactive e).calls ∧
      (handleExit ops interactive e).calls.countP Call.isHost ≤ 1 ∧
      ∀ c ∈ (handleExit ops interactive e).calls, c.request.code = rreg e.vcpu .rax := by
  rcases handleExit_cases ops interactive e with ⟨_, heq⟩ | ⟨_, r, heq⟩
  · rw [heq, defaultExit]
    split_ifs
    · dsimp only
      have houtcome := emuSyscall_outcome ops interactive e.env e.vm
        (wreg e.vcpu .rip (rreg e.vcpu .rcx))
      generalize emuSyscall ops interactive e.env e.vm
        (wreg e.vcpu .rip (rreg e.vcpu .rcx)) = r at houtcome
      cases houtcome with
      | refused hcode hrefused =>
          exact ⟨.nil, by simp, by simp⟩
      | performed hr hrefused =>
          refine ⟨mediated_interpose, interpose_requests.2, ?_⟩
          intro c hc
          rw [interpose_requests.1 c hc]
          exact code_of_guestRequest hr
    · exact ⟨.nil, by simp, by simp⟩
  · rw [heq]
    exact ⟨.nil, by simp [otherExit], by simp [otherExit]⟩

/-- **Complete mediation.**  In every run no host call gets around an installed
callback.  The calls made for an exit are those of the one system call that is
emulated for it, the host being called at most once; a refused system call calls
nothing and stops the loop, and every other one does what `SyscallMediated`
says. -/
theorem vcpuRun_mediated (ops : PluginOps) (interactive : Bool)
    (es : List (Option VmExit)) :
    Mediated ops.installed ((vcpuRun ops interactive es).flatMap Handled.calls) ∧
    ∀ k h, (vcpuRun ops interactive es)[k]? = some h →
      ∃ e, es[k]? = some (some e) ∧
        (h.stop = true → (vcpuRun ops interactive es).length = k + 1) ∧
        (h.emulated = false → h.calls = []) ∧
        (h.emulated = true → SyscallMediated ops interactive e h) ∧
        h.calls.countP Call.isHost ≤ 1 ∧
        ∀ c ∈ h.calls, c.request.code = rreg e.vcpu .rax := by
  constructor
  · apply Mediated.flatMap
    intro h hh
    obtain ⟨k, hk⟩ := List.mem_iff_getElem?.mp hh
    obtain ⟨e, _, rfl, _⟩ := vcpuRun_getElem hk
    exact (calls_handleExit ops interactive e).1
  · intro k h hk
    obtain ⟨e, he, rfl, hlen⟩ := vcpuRun_getElem hk
    obtain ⟨_, hcount, hcode⟩ := calls_handleExit ops interactive e
    refine ⟨e, he, hlen, ?_, ?_, hcount, hcode⟩
    · intro hemulated
      rcases handleExit_cases ops interactive e with ⟨_, heq⟩ | ⟨_, r, heq⟩
      · rw [heq, defaultExit] at hemulated ⊢
        split_ifs at hemulated ⊢
        · rfl
      · rw [heq]
        rfl
    · intro hemulated
      obtain ⟨hreason, hbefore⟩ := (emulated_iff ops interactive e).mp hemulated
      rcases handleExit_cases ops interactive e with ⟨_, heq⟩ | ⟨hcon, _⟩
      · rw [heq]
        exact syscallMediated_defaultExit ops interactive e hbefore
      · rw [hreason] at hcon
        simp at hcon

end Hvexec
