import Hvexec.Vcpu
import Hvexec.Lib.Interposition

/-!
# Emulated system calls

The four handlers of emu_syscall.c.  Each takes its arguments from registers,
pauses for the user in interactive mode, and gives the call to the callback of
the plugin, to the host, or to both; `read` and `write` check their buffer first.

The handlers differ in their arguments and in this check only, so the rest is
`mediateCall`; it performs one request in the sense of `Interposition`.
-/

namespace Hvexec

open Interposition

def syscallRead : U64 := 0x2000003
def syscallWrite : U64 := 0x2000004
def syscallOpen : U64 := 0x2000005
def syscallClose : U64 := 0x2000006

/-- `struct plugin_ops`. -/
structure PluginOps where
  cbWrite : U64
  cbRead : U64
  cbOpen : U64
  cbClose : U64

/-- `_ops` without a plugin. -/
def noPlugin : PluginOps := ⟨0, 0, 0, 0⟩

/-- A call with its arguments, to a callback or to the host.  `open` is variadic
and takes its last argument as an `int`, as the callback does. -/
inductive Request
  | writeCall (fildes : BitVec 32) (buf nbyte : U64)
  | readCall (fildes : BitVec 32) (buf nbyte : U64)
  | openCall (path : U64) (flags mode : BitVec 32)
  | closeCall (fd : BitVec 32)
deriving DecidableEq

namespace Request

/-- The system call that a request is for. -/
def code : Request → U64
  | writeCall _ _ _ => syscallWrite
  | readCall _ _ _ => syscallRead
  | openCall _ _ _ => syscallOpen
  | closeCall _ => syscallClose

/-- The result is an `ssize_t` or an `int`. -/
def width : Request → Nat
  | writeCall _ _ _ => 64
  | readCall _ _ _ => 64
  | openCall _ _ _ => 32
  | closeCall _ => 32

/-- The result of a request. -/
abbrev Result (r : Request) : Type := BitVec r.width

end Request

/-- The callback for a request. -/
def PluginOps.callback (ops : PluginOps) : Request → U64
  | .writeCall _ _ _ => ops.cbWrite
  | .readCall _ _ _ => ops.cbRead
  | .openCall _ _ _ => ops.cbOpen
  | .closeCall _ => ops.cbClose

/-- A callback is installed for the request. -/
def PluginOps.installed (ops : PluginOps) (r : Request) : Bool :=
  ops.callback r ≠ 0

/-- What a callback returns, and what `*ret` holds then. -/
structure CallbackAnswer (w : Nat) where
  code : BitVec 32
  ret : BitVec w

/-- The answer of a callback, unless it passes the call on. -/
def CallbackAnswer.verdict {w : Nat} (c : CallbackAnswer w) : Option (BitVec w) :=
  if c.code = 0 then some c.ret else none

/-- What one emulated call gets from outside: a character from the user, the
answers of the plugin and of the host, and the unassigned locals of the calls of
`gva_to_gpa`. -/
structure SyscallEnv where
  getchar : BitVec 32
  callback : (r : Request) → CallbackAnswer r.width
  host : (r : Request) → r.Result
  verifyEntry₀ : Nat → U64
  bufEntry₀ : U64

/-- A call of a callback or of the host. -/
abbrev HostCall := Call Request Request.Result

/-- What a handler leaves: its return value, the processor, the calls it made. -/
structure Emulated where
  code : Int
  vcpu : Vcpu
  calls : List HostCall

/-- The user answers `q`. -/
def quits (interactive : Bool) (env : SyscallEnv) : Bool :=
  interactive && decide (env.getchar.setWidth 8 = (0x71 : Byte))

/-! ## The handlers -/

/-- The end of every handler, from `if (syscall_interactive)` on. -/
def mediateCall (ops : PluginOps) (interactive : Bool) (env : SyscallEnv)
    (v : Vcpu) (r : Request) : Emulated :=
  if quits interactive env then ⟨1, v, []⟩
  else if ops.callback r = 0 then
    let ret := env.host r
    ⟨0, wreg v .rax (ret.signExtend 64), [.host r ret]⟩
  else
    let c := env.callback r
    if c.code ≠ 0 then
      let ret := env.host r
      ⟨0, wreg v .rax (ret.signExtend 64), [.hook r c.verdict, .host r ret]⟩
    else ⟨0, wreg v .rax (c.ret.signExtend 64), [.hook r c.verdict]⟩

def emuSyscallWrite (ops : PluginOps) (interactive : Bool) (env : SyscallEnv)
    (σ : VmMem) (v : Vcpu) : Emulated :=
  let fildes := (rreg v .rdi).setWidth 32
  let bufGva := rreg v .rsi
  let nbyte := rreg v .rdx
  if vmMemVerify σ env.verifyEntry₀ bufGva nbyte ≠ 0 then ⟨-1, v, []⟩
  else
    let buf := gpaToHva σ.memRegions (gvaToGpa σ env.bufEntry₀ bufGva)
    mediateCall ops interactive env v (.writeCall fildes buf nbyte)

def emuSyscallOpen (ops : PluginOps) (interactive : Bool) (env : SyscallEnv)
    (σ : VmMem) (v : Vcpu) : Emulated :=
  let pathGva := rreg v .rdi
  let path := gpaToHva σ.memRegions (gvaToGpa σ env.bufEntry₀ pathGva)
  let flags := rreg v .rsi
  let mode := rreg v .rdx
  mediateCall ops interactive env v
    (.openCall path (flags.setWidth 32) (mode.setWidth 32))

def emuSyscallClose (ops : PluginOps) (interactive : Bool) (env : SyscallEnv)
    (v : Vcpu) : Emulated :=
  let fd := rreg v .rdi
  mediateCall ops interactive env v (.closeCall (fd.setWidth 32))

def emuSyscallRead (ops : PluginOps) (interactive : Bool) (env : SyscallEnv)
    (σ : VmMem) (v : Vcpu) : Emulated :=
  let fildes := (rreg v .rdi).setWidth 32
  let bufGva := rreg v .rsi
  let nbyte := rreg v .rdx
  if vmMemVerify σ env.verifyEntry₀ bufGva nbyte ≠ 0 then ⟨-1, v, []⟩
  else
    let buf := gpaToHva σ.memRegions (gvaToGpa σ env.bufEntry₀ bufGva)
    mediateCall ops interactive env v (.readCall fildes buf nbyte)

def emuSyscall (ops : PluginOps) (interactive : Bool) (env : SyscallEnv)
    (σ : VmMem) (v : Vcpu) : Emulated :=
  let syscallCode := rreg v .rax
  if syscallCode = syscallWrite then emuSyscallWrite ops interactive env σ v
  else if syscallCode = syscallOpen then emuSyscallOpen ops interactive env σ v
  else if syscallCode = syscallClose then emuSyscallClose ops interactive env v
  else if syscallCode = syscallRead then emuSyscallRead ops interactive env σ v
  else ⟨-1, v, []⟩

/-! ## What a system call asks for -/

/-- The request that the guest's registers ask for. -/
def guestRequest (env : SyscallEnv) (σ : VmMem) (v : Vcpu) : Option Request :=
  let host := fun gva => gpaToHva σ.memRegions (gvaToGpa σ env.bufEntry₀ gva)
  let int := fun r => (rreg v r).setWidth 32
  if rreg v .rax = syscallRead then
    some (.readCall (int .rdi) (host (rreg v .rsi)) (rreg v .rdx))
  else if rreg v .rax = syscallWrite then
    some (.writeCall (int .rdi) (host (rreg v .rsi)) (rreg v .rdx))
  else if rreg v .rax = syscallOpen then
    some (.openCall (host (rreg v .rdi)) (int .rsi) (int .rdx))
  else if rreg v .rax = syscallClose then some (.closeCall (int .rdi))
  else none

/-- The buffer of a `read` or a `write` fails the check. -/
def badBuffer (env : SyscallEnv) (σ : VmMem) (v : Vcpu) : Prop :=
  (rreg v .rax = syscallRead ∨ rreg v .rax = syscallWrite) ∧
    vmMemVerify σ env.verifyEntry₀ (rreg v .rsi) (rreg v .rdx) ≠ 0

/-- The call is turned down: it is not supported, its buffer fails the check, or
the user quits. -/
def Refused (interactive : Bool) (env : SyscallEnv) (σ : VmMem) (v : Vcpu) : Prop :=
  guestRequest env σ v = none ∨ badBuffer env σ v ∨ quits interactive env = true

theorem code_of_guestRequest {env : SyscallEnv} {σ : VmMem} {v : Vcpu} {r : Request}
    (h : guestRequest env σ v = some r) :
    r.code = rreg v .rax := by
  unfold guestRequest at h
  split_ifs at h with hcode hcode hcode hcode
  all_goals
    obtain rfl := Option.some.inj h
    exact hcode.symm

/-- A handler performs the request or refuses it. -/
inductive Outcome (ops : PluginOps) (interactive : Bool) (env : SyscallEnv)
    (σ : VmMem) (v : Vcpu) : Emulated → Prop
  | refused
      {code : Int} (hcode : code ≠ 0)
      (hrefused : Refused interactive env σ v) :
      Outcome ops interactive env σ v ⟨code, v, []⟩
  | performed
      {r : Request} (hr : guestRequest env σ v = some r)
      (hrefused : ¬ Refused interactive env σ v) :
      Outcome ops interactive env σ v
        ⟨0, wreg v .rax
          ((interpose ops.installed (fun r => (env.callback r).verdict) env.host r).1.signExtend 64),
          (interpose ops.installed (fun r => (env.callback r).verdict) env.host r).2⟩

/-- The end of a handler is one interposed request, unless the user quits. -/
theorem mediateCall_eq (ops : PluginOps) (interactive : Bool) (env : SyscallEnv)
    (v : Vcpu) (r : Request) :
    mediateCall ops interactive env v r =
      if quits interactive env then ⟨1, v, []⟩
      else
        let p := interpose ops.installed (fun r => (env.callback r).verdict) env.host r
        ⟨0, wreg v .rax (p.1.signExtend 64), p.2⟩ := by
  unfold mediateCall interpose
  by_cases hquit : quits interactive env = true
  · rw [if_pos hquit, if_pos hquit]
  · rw [if_neg hquit, if_neg hquit]
    by_cases hnull : ops.callback r = 0
    · have hfree : ¬ ops.installed r = true := fun hcon => of_decide_eq_true hcon hnull
      simp only [if_pos hnull, if_neg hfree]
    · have hhooked : ops.installed r = true := decide_eq_true hnull
      by_cases hcode : (env.callback r).code = 0
      · have hverdict : (env.callback r).verdict = some (env.callback r).ret := if_pos hcode
        simp only [if_neg hnull, if_pos hhooked, hverdict, if_neg (not_not.mpr hcode)]
      · have hverdict : (env.callback r).verdict = none := if_neg hcode
        simp only [if_neg hnull, if_pos hhooked, hverdict, if_pos hcode]

/-- A handler that has its request, past the check of the buffer. -/
theorem mediateCall_outcome {ops : PluginOps} {interactive : Bool} {env : SyscallEnv}
    {σ : VmMem} {v : Vcpu} {r : Request}
    (hr : guestRequest env σ v = some r) (hbuf : ¬ badBuffer env σ v) :
    Outcome ops interactive env σ v (mediateCall ops interactive env v r) := by
  rw [mediateCall_eq]
  split_ifs with hquit
  · exact .refused (by decide) (Or.inr (Or.inr hquit))
  · refine .performed hr ?_
    rintro (hnone | hbad | hcon)
    · rw [hr] at hnone
      simp at hnone
    · exact hbuf hbad
    · exact hquit hcon

/-- **What a system call does**, whichever it is. -/
theorem emuSyscall_outcome (ops : PluginOps) (interactive : Bool) (env : SyscallEnv)
    (σ : VmMem) (v : Vcpu) :
    Outcome ops interactive env σ v (emuSyscall ops interactive env σ v) := by
  have hverified : rreg v .rax = syscallRead ∨ rreg v .rax = syscallWrite →
      ∀ r, guestRequest env σ v = some r →
        Outcome ops interactive env σ v
          (if vmMemVerify σ env.verifyEntry₀ (rreg v .rsi) (rreg v .rdx) ≠ 0 then ⟨-1, v, []⟩
            else mediateCall ops interactive env v r) := by
    intro hcode r hr
    split_ifs with hverify
    · exact .refused (by decide) (Or.inr (Or.inl ⟨hcode, hverify⟩))
    · exact mediateCall_outcome hr fun hbad => hbad.2 (not_not.mp hverify)
  have hunchecked : ¬ (rreg v .rax = syscallRead ∨ rreg v .rax = syscallWrite) →
      ¬ badBuffer env σ v :=
    fun hcode hbad => hcode hbad.1
  unfold emuSyscall
  by_cases hwrite : rreg v .rax = syscallWrite
  · rw [if_pos hwrite]
    exact hverified (Or.inr hwrite) _ (by simp [guestRequest, hwrite, syscallRead, syscallWrite])
  by_cases hopen : rreg v .rax = syscallOpen
  · rw [if_neg hwrite, if_pos hopen]
    refine mediateCall_outcome ?_ (hunchecked ?_)
    · simp [guestRequest, hopen, syscallRead, syscallWrite, syscallOpen]
    · simp [hopen, syscallRead, syscallWrite, syscallOpen]
  by_cases hclose : rreg v .rax = syscallClose
  · rw [if_neg hwrite, if_neg hopen, if_pos hclose]
    refine mediateCall_outcome ?_ (hunchecked ?_)
    · simp [guestRequest, hclose, syscallRead, syscallWrite, syscallOpen, syscallClose]
    · simp [hclose, syscallRead, syscallWrite, syscallClose]
  by_cases hread : rreg v .rax = syscallRead
  · rw [if_neg hwrite, if_neg hopen, if_neg hclose, if_pos hread]
    exact hverified (Or.inl hread) _ (by simp [guestRequest, hread])
  · rw [if_neg hwrite, if_neg hopen, if_neg hclose, if_neg hread]
    refine .refused (by decide) (Or.inl ?_)
    rw [guestRequest, if_neg hread, if_neg hwrite, if_neg hopen, if_neg hclose]

end Hvexec
