import Hvexec.MainRun
import Hvexec.Plugin
import Hvexec.Lib.CleanUp

/-!
# The status of main

`main` reads the options, asks for the virtual machine, its memory and a processor, loads what
it is to run, runs it, and gives everything back.  After a call that fails it jumps to one of
three labels, which fall through to the next one.
-/

namespace Hvexec

/-! ## Options -/

inductive LogLevel
  | debug
  | info
  | warn
  | error
  | silent
deriving DecidableEq

/-- What the options leave in the locals of `main`. -/
structure MainOptions where
  syscallInteractive : Bool := false
  logLevel : LogLevel := .debug
  logOutput : Option String := none
  kernelPath : Option String := none
  pluginPath : Option String := none

def logLevelOf (optarg : String) : Option LogLevel :=
  if optarg = "DEBUG" then some .debug
  else if optarg = "INFO" then some .info
  else if optarg = "WARN" then some .warn
  else if optarg = "ERROR" then some .error
  else if optarg = "SILENT" then some .silent
  else none

/-- The switch over what `getopt` returns; `fopen` says which files open. -/
def MainOptions.set (fopen : String → Bool) (o : MainOptions) (optf : Char) (optarg : String) :
    Option MainOptions :=
  match optf with
  | 'i' => some { o with syscallInteractive := true }
  | 'l' => (logLevelOf optarg).map fun level => { o with logLevel := level }
  | 'o' => if fopen optarg then some { o with logOutput := some optarg } else none
  | 'k' => some { o with kernelPath := some optarg }
  | 's' => some { o with pluginPath := some optarg }
  | _ => none

/-- The loop over the options. -/
def MainOptions.setAll (fopen : String → Bool) :
    MainOptions → List (Char × String) → Option MainOptions
  | o, [] => some o
  | o, (optf, optarg) :: opts => (o.set fopen optf optarg).bind fun o' => o'.setAll fopen opts

/-! ## Calls -/

/-- What `main` asks for and gives back. -/
inductive Resource
  | vm
  | memory
  | vcpu
deriving DecidableEq

/-- The calls of `main`. -/
inductive MainCall
  | create (r : Resource)
  | vcpuSetupIa32
  | loadRaw (path : String)
  | loadPlugin (path : String)
  | loadMachObj (path : String)
  | setArgs
  | vcpuRun
  | destroy (r : Resource)
deriving DecidableEq

def MainCall.creates : MainCall → Option Resource
  | create r => some r
  | _ => none

/-- A failure of the call is seen in the status; `vm_mem_destroy` returns nothing. -/
def MainCall.counts : MainCall → Bool
  | create _ => true
  | vcpuSetupIa32 => true
  | destroy .vm => true
  | destroy .vcpu => true
  | _ => false

/-- A failure of the call ends the program. -/
def MainCall.stops : MainCall → Bool
  | vcpuRun => false
  | destroy _ => false
  | _ => true

section Labels

variable (answer : MainCall → Int)

/-- The label VM_DESTROY. -/
def atVmDestroy (retVal : Nat) : List MainCall × Nat :=
  CleanUp.andThen (.destroy .vm) ([], if answer (.destroy .vm) ≠ 0 then 1 else retVal)

/-- The label VM_MEM_DESTROY. -/
def atVmMemDestroy (retVal : Nat) : List MainCall × Nat :=
  CleanUp.andThen (.destroy .memory) (atVmDestroy answer retVal)

/-- The label VCPU_DESTROY. -/
def atVcpuDestroy (retVal : Nat) : List MainCall × Nat :=
  CleanUp.andThen (.destroy .vcpu)
    (atVmMemDestroy answer (if answer (.destroy .vcpu) ≠ 0 then 1 else retVal))

/-- `main` from `load_mach_obj` on.  A write of an argument that is not complete is the failure
of `setArgs`. -/
def mainLaunch (appPath : String) : List MainCall × Nat :=
  CleanUp.call answer (.loadMachObj appPath) (atVcpuDestroy answer 0) <|
  CleanUp.call answer .setArgs (atVcpuDestroy answer 0) <|
  CleanUp.andThen .vcpuRun (atVcpuDestroy answer 0)

/-- `main` after the options. -/
def mainCalls (kernelPath : String) (pluginPath : Option String) (appPath : String) :
    List MainCall × Nat :=
  CleanUp.call answer (.create .vm) (atVmDestroy answer 1) <|
  CleanUp.call answer (.create .memory) (atVmMemDestroy answer 1) <|
  CleanUp.call answer (.create .vcpu) (atVcpuDestroy answer 1) <|
  CleanUp.call answer .vcpuSetupIa32 (atVcpuDestroy answer 1) <|
  CleanUp.call answer (.loadRaw kernelPath) (atVcpuDestroy answer 0) <|
  match pluginPath with
  | none => mainLaunch answer appPath
  | some path =>
      CleanUp.call answer (.loadPlugin path) (atVcpuDestroy answer 0) (mainLaunch answer appPath)

end Labels

/-- `main`: the options, the arguments behind them, and what the host answers. -/
def hvexecMain (fopen : String → Bool) (opts : List (Char × String)) (args : List String)
    (answer : MainCall → Int) : List MainCall × Nat :=
  match MainOptions.setAll fopen {} opts with
  | none => ([], 1)
  | some o =>
      match o.kernelPath with
      | none => ([], 1)
      | some kernelPath =>
          match args with
          | [] => ([], 1)
          | appPath :: _ => mainCalls answer kernelPath o.pluginPath appPath

/-! ## What every run does -/

section Calls

variable (answer : MainCall → Int)

theorem atVmDestroy_status_le {retVal : Nat} (h : retVal ≤ 1) :
    (atVmDestroy answer retVal).2 ≤ 1 := by
  show (if _ then 1 else retVal) ≤ 1
  split
  · exact le_rfl
  · exact h

theorem atVcpuDestroy_status_le {retVal : Nat} (h : retVal ≤ 1) :
    (atVcpuDestroy answer retVal).2 ≤ 1 := by
  refine atVmDestroy_status_le answer ?_
  split
  · exact le_rfl
  · exact h

theorem atVmDestroy_one : (atVmDestroy answer 1).2 = 1 :=
  ite_self 1

theorem atVcpuDestroy_one : (atVcpuDestroy answer 1).2 = 1 := by
  show (if _ then 1 else if _ then 1 else 1) = 1
  rw [ite_self, ite_self]

theorem atVcpuDestroy_eq_zero_iff :
    (atVcpuDestroy answer 0).2 = 0 ↔
      answer (.destroy .vcpu) = 0 ∧ answer (.destroy .vm) = 0 := by
  show (if answer (.destroy .vm) ≠ 0 then 1
    else if answer (.destroy .vcpu) ≠ 0 then 1 else 0) = 0 ↔ _
  by_cases hvm : answer (.destroy .vm) = 0
  · by_cases hvcpu : answer (.destroy .vcpu) = 0
    · simp [hvm, hvcpu]
    · simp [hvm, hvcpu]
  · simp [hvm]

theorem atVcpuDestroy_reports :
    CleanUp.Reports answer MainCall.counts (atVcpuDestroy answer 0) := by
  refine Iff.trans (atVcpuDestroy_eq_zero_iff answer) ?_
  show _ ↔ ∀ c ∈ [MainCall.destroy .vcpu, .destroy .memory, .destroy .vm], _
  simp [MainCall.counts]

theorem vcpuRun_not_mem_atVmDestroy (retVal : Nat) :
    .vcpuRun ∉ (atVmDestroy answer retVal).1 := by
  show _ ∉ [MainCall.destroy .vm]
  decide

theorem vcpuRun_not_mem_atVmMemDestroy (retVal : Nat) :
    .vcpuRun ∉ (atVmMemDestroy answer retVal).1 := by
  show _ ∉ [MainCall.destroy .memory, .destroy .vm]
  decide

theorem vcpuRun_not_mem_atVcpuDestroy (retVal : Nat) :
    .vcpuRun ∉ (atVcpuDestroy answer retVal).1 := by
  show _ ∉ [MainCall.destroy .vcpu, .destroy .memory, .destroy .vm]
  decide

variable (kernelPath : String) (pluginPath : Option String) (appPath : String)

/-- All that was asked for is given back. -/
theorem mainCalls_cleans :
    CleanUp.Cleans MainCall.creates .destroy []
      (mainCalls answer kernelPath pluginPath appPath).1 := by
  have hlaunch : CleanUp.Cleans MainCall.creates .destroy [.vcpu, .memory, .vm]
      (mainLaunch answer appPath).1 :=
    .call (fun _ => nofun) .finish (.call (fun _ => nofun) .finish (.andThen (fun _ => nofun)
      .finish))
  refine .call (fun _ => nofun) .finish (.call (fun _ => nofun) .finish
    (.call (fun _ => nofun) .finish (.call (fun _ => nofun) .finish
      (.call (fun _ => nofun) .finish ?_))))
  cases pluginPath with
  | none =>
      exact hlaunch
  | some path =>
      exact .call (fun _ => nofun) .finish hlaunch

/-- The status is that of the calls that count. -/
theorem mainCalls_reports :
    CleanUp.Reports answer MainCall.counts
      (mainCalls answer kernelPath pluginPath appPath) := by
  have hend := atVcpuDestroy_reports answer
  have hvm : (atVmDestroy answer 1).2 ≠ 0 := by
    rw [atVmDestroy_one]
    decide
  have hvcpu : (atVcpuDestroy answer 1).2 ≠ 0 := by
    rw [atVcpuDestroy_one]
    decide
  have hlaunch : CleanUp.Reports answer MainCall.counts (mainLaunch answer appPath) :=
    .call rfl hend (.call rfl hend (.andThen rfl hend))
  refine .counted rfl hvm (.counted rfl hvm (.counted rfl hvcpu (.counted rfl hvcpu
    (.call rfl hend ?_))))
  cases pluginPath with
  | none =>
      exact hlaunch
  | some path =>
      exact .call rfl hend hlaunch

theorem mainCalls_status_le : (mainCalls answer kernelPath pluginPath appPath).2 ≤ 1 := by
  have hend := atVcpuDestroy_status_le answer (Nat.zero_le 1)
  have hvm := atVmDestroy_status_le answer le_rfl
  have hvcpu := atVcpuDestroy_status_le answer le_rfl
  have hlaunch : (mainLaunch answer appPath).2 ≤ 1 :=
    CleanUp.call_status_le hend (CleanUp.call_status_le hend hend)
  refine CleanUp.call_status_le hvm (CleanUp.call_status_le hvm (CleanUp.call_status_le hvcpu
    (CleanUp.call_status_le hvcpu (CleanUp.call_status_le hend ?_))))
  cases pluginPath with
  | none =>
      exact hlaunch
  | some path =>
      exact CleanUp.call_status_le hend hlaunch

/-- The processor runs when nothing has failed. -/
theorem mainCalls_vcpuRun :
    .vcpuRun ∈ (mainCalls answer kernelPath pluginPath appPath).1 ↔
      ∀ c ∈ (mainCalls answer kernelPath pluginPath appPath).1, c.stops → answer c = 0 := by
  have hend := vcpuRun_not_mem_atVcpuDestroy answer
  have hrun : ∀ c ∈ (CleanUp.andThen MainCall.vcpuRun (atVcpuDestroy answer 0)).1,
      c.stops = true → answer c = 0 := by
    show ∀ c ∈ [MainCall.vcpuRun, .destroy .vcpu, .destroy .memory, .destroy .vm], _
    simp [MainCall.stops]
  have hlaunch : .vcpuRun ∈ (mainLaunch answer appPath).1 ↔
      ∀ c ∈ (mainLaunch answer appPath).1, c.stops → answer c = 0 :=
    CleanUp.mem_call_iff nofun rfl (hend 0) (CleanUp.mem_call_iff nofun rfl (hend 0)
      (iff_of_true List.mem_cons_self hrun))
  refine CleanUp.mem_call_iff nofun rfl (vcpuRun_not_mem_atVmDestroy answer 1)
    (CleanUp.mem_call_iff nofun rfl (vcpuRun_not_mem_atVmMemDestroy answer 1)
    (CleanUp.mem_call_iff nofun rfl (hend 1) (CleanUp.mem_call_iff nofun rfl (hend 1)
      (CleanUp.mem_call_iff nofun rfl (hend 0) ?_))))
  cases pluginPath with
  | none =>
      exact hlaunch
  | some path =>
      exact CleanUp.mem_call_iff nofun rfl (hend 0) hlaunch

/-- The calls that `vcpu_run` comes after. -/
theorem vcpuRun_mem_iff :
    .vcpuRun ∈ (mainCalls answer kernelPath pluginPath appPath).1 ↔
      answer (.create .vm) = 0 ∧ answer (.create .memory) = 0 ∧ answer (.create .vcpu) = 0 ∧
        answer .vcpuSetupIa32 = 0 ∧ answer (.loadRaw kernelPath) = 0 ∧
        (∀ path ∈ pluginPath, answer (.loadPlugin path) = 0) ∧
        answer (.loadMachObj appPath) = 0 ∧ answer .setArgs = 0 := by
  have hrun : .vcpuRun ∈ (CleanUp.andThen MainCall.vcpuRun (atVcpuDestroy answer 0)).1 :=
    List.mem_cons_self
  cases pluginPath with
  | none =>
      simp [mainCalls, mainLaunch, CleanUp.mem_call, vcpuRun_not_mem_atVmDestroy,
        vcpuRun_not_mem_atVmMemDestroy, vcpuRun_not_mem_atVcpuDestroy, hrun]
  | some path =>
      simp [mainCalls, mainLaunch, CleanUp.mem_call, vcpuRun_not_mem_atVmDestroy,
        vcpuRun_not_mem_atVmMemDestroy, vcpuRun_not_mem_atVcpuDestroy, hrun]

end Calls

/-- `main` stops at its options, or makes its calls. -/
theorem hvexecMain_cases (fopen : String → Bool) (opts : List (Char × String))
    (args : List String) (answer : MainCall → Int) :
    (hvexecMain fopen opts args answer = ([], 1) ∧
        ¬ ∃ o kernelPath, MainOptions.setAll fopen {} opts = some o ∧
          o.kernelPath = some kernelPath ∧ args ≠ []) ∨
      ∃ o kernelPath appPath, MainOptions.setAll fopen {} opts = some o ∧
        o.kernelPath = some kernelPath ∧ args ≠ [] ∧
        hvexecMain fopen opts args answer =
          mainCalls answer kernelPath o.pluginPath appPath := by
  unfold hvexecMain
  cases hopts : MainOptions.setAll fopen {} opts with
  | none =>
      exact Or.inl ⟨rfl, by simp⟩
  | some o =>
      cases hkernel : o.kernelPath with
      | none =>
          refine Or.inl ⟨by simp [hkernel], ?_⟩
          rintro ⟨o', kernelPath, ho, hk, _⟩
          rw [← Option.some.inj ho, hkernel] at hk
          exact absurd hk (by simp)
      | some kernelPath =>
          cases args with
          | nil =>
              refine Or.inl ⟨by simp [hkernel], ?_⟩
              rintro ⟨_, _, _, _, hargs⟩
              exact hargs rfl
          | cons appPath rest =>
              exact Or.inr ⟨o, kernelPath, appPath, rfl, hkernel, List.cons_ne_nil _ _,
                by simp [hkernel]⟩

/-- **What `main` gives back and returns**, whatever the options, the arguments and the answers
of the host are. -/
theorem hvexecMain_spec (fopen : String → Bool) (opts : List (Char × String))
    (args : List String) (answer : MainCall → Int) :
    let r := hvexecMain fopen opts args answer
    (r.1 ≠ [] ↔ ∃ o kernelPath, MainOptions.setAll fopen {} opts = some o ∧
        o.kernelPath = some kernelPath ∧ args ≠ []) ∧
      CleanUp.Cleans MainCall.creates .destroy [] r.1 ∧ r.2 ≤ 1 ∧
      (r.2 = 0 ↔ r.1 ≠ [] ∧ ∀ c ∈ r.1, c.counts → answer c = 0) ∧
      (.vcpuRun ∈ r.1 ↔ r.1 ≠ [] ∧ ∀ c ∈ r.1, c.stops → answer c = 0) := by
  intro r
  rcases hvexecMain_cases fopen opts args answer with
    ⟨hr, hnot⟩ | ⟨o, kernelPath, appPath, hopts, hkernel, hargs, hr⟩
  · have hnil : r.1 = [] := congrArg Prod.fst hr
    have hone : r.2 = 1 := congrArg Prod.snd hr
    rw [hnil, hone]
    refine ⟨iff_of_false (fun hcon => hcon rfl) hnot, ⟨[], List.forall_mem_nil _, rfl⟩, le_rfl,
      ?_, ?_⟩
    · exact iff_of_false one_ne_zero fun hcon => hcon.1 rfl
    · exact iff_of_false List.not_mem_nil fun hcon => hcon.1 rfl
  · have hr' : r = mainCalls answer kernelPath o.pluginPath appPath := hr
    have hne : r.1 ≠ [] := by
      rw [hr']
      exact List.cons_ne_nil _ _
    refine ⟨iff_of_true hne ⟨o, kernelPath, hopts, hkernel, hargs⟩, ?_, ?_, ?_, ?_⟩
    · rw [hr']
      exact mainCalls_cleans answer kernelPath o.pluginPath appPath
    · rw [hr']
      exact mainCalls_status_le answer kernelPath o.pluginPath appPath
    · rw [and_iff_right hne, hr']
      exact mainCalls_reports answer kernelPath o.pluginPath appPath
    · rw [and_iff_right hne, hr']
      exact mainCalls_vcpuRun answer kernelPath o.pluginPath appPath

/-- A kernel that cannot be loaded is not seen in the status. -/
example :
    hvexecMain (fun _ => true) [('k', "boot.bin")] ["a.out"]
        (fun c => if c = .loadRaw "boot.bin" then -1 else 0) =
      ([.create .vm, .create .memory, .create .vcpu, .vcpuSetupIa32, .loadRaw "boot.bin",
        .destroy .vcpu, .destroy .memory, .destroy .vm], 0) := by
  decide

/-! ## The run of the machine -/

namespace MainRun

/-- What the calls of `main` return in a run where the host gives a virtual machine and a
processor. -/
def mainAnswer (m : MainRun) (e : LoadPluginEnv) : MainCall → Int
  | .create .memory => m.afterInit.1
  | .vcpuSetupIa32 => m.afterSetup.1
  | .loadRaw _ => m.afterKernel.1
  | .loadPlugin path => (loadPlugin noPlugin (some path) e).code
  | .loadMachObj _ => m.afterApp.code
  | .setArgs => if m.afterArgs.isSome then 0 else 1
  | _ => 0

/-- `launch` is what the calls before `vcpu_run` come to. -/
theorem launch_isSome_iff (m : MainRun) :
    m.launch.isSome ↔ m.afterInit.1 = 0 ∧ m.afterSetup.1 = 0 ∧ m.afterKernel.1 = 0 ∧
      m.afterApp.code = 0 ∧ m.afterArgs.isSome := by
  unfold launch
  split_ifs with hinit hsetup hkernel happ
  · simp [hinit]
  · simp [hsetup]
  · simp [hkernel]
  · simp [happ]
  · rw [not_not] at hinit hsetup hkernel happ
    simp [hinit, hsetup, hkernel, happ]

/-- `main` calls `vcpu_run` exactly if it gets there in the sense of `launch`, and the plugin
loads. -/
theorem vcpuRun_mem_mainCalls (m : MainRun) (e : LoadPluginEnv) (kernelPath : String)
    (pluginPath : Option String) (appPath : String) :
    .vcpuRun ∈ (mainCalls (m.mainAnswer e) kernelPath pluginPath appPath).1 ↔
      m.launch.isSome ∧ (pluginTable pluginPath e).isSome := by
  have hargs : m.mainAnswer e .setArgs = 0 ↔ m.afterArgs.isSome := by
    simp [mainAnswer, Option.isSome_iff_ne_none]
  have hplugin : (∀ path ∈ pluginPath, m.mainAnswer e (.loadPlugin path) = 0) ↔
      (pluginTable pluginPath e).isSome := by
    cases pluginPath with
    | none =>
        simp [pluginTable]
    | some path =>
        simp only [pluginTable]
        split_ifs with hcode
        · simp [mainAnswer, hcode]
        · simp [mainAnswer, not_not.mp hcode]
  rw [vcpuRun_mem_iff, launch_isSome_iff, hargs, hplugin]
  simp only [mainAnswer]
  tauto

end MainRun

end Hvexec
