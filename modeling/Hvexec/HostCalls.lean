import Hvexec.VcpuRun
import Hvexec.Lib.Windows

/-!
# The host behind the calls

The handlers of system calls hand pointers to a callback of the plugin or to the host.
Here both act on a world: `Kernel` is the host, `Policy` the plugin.  They see the bytes
that a pointer leads to, and `read` stores bytes there.

`Kernel.under` is the kernel that a process talks to when the policy is asked first.  The
calls that a handler makes do together what one call of that kernel does.
-/

namespace Hvexec

open ByteMemory Interposition

/-- A system call with bytes in the place of pointers. -/
inductive SysCall
  | write (fildes : BitVec 32) (bytes : List Byte)
  | read (fildes : BitVec 32) (nbyte : Nat)
  | openPath (path : List Byte) (flags mode : BitVec 32)
  | close (fd : BitVec 32)
deriving DecidableEq

namespace SysCall

/-- The result is an `ssize_t` or an `int`. -/
def width : SysCall → Nat
  | write _ _ => 64
  | read _ _ => 64
  | openPath _ _ _ => 32
  | close _ => 32

/-- How many bytes the caller has room for. -/
def room : SysCall → Nat
  | read _ nbyte => nbyte
  | _ => 0

end SysCall

/-- What is returned for a call, and the bytes for the caller's buffer. -/
structure SysAnswer (c : SysCall) where
  ret : BitVec c.width
  data : List Byte
  fits : data.length ≤ c.room

/-- What RAX holds after the call. -/
def SysAnswer.rax {c : SysCall} (a : SysAnswer c) : U64 :=
  a.ret.signExtend 64

/-- An answer without bytes for the caller. -/
def SysAnswer.ofNat (c : SysCall) (n : Nat) : SysAnswer c :=
  ⟨BitVec.ofNat c.width n, [], Nat.zero_le c.room⟩

/-- The host: what a call does to the world, and its answer. -/
structure Kernel (W : Type) where
  call : W → (c : SysCall) → W × SysAnswer c

/-- The plugin: its table, and what a callback does to the world.  It answers the call, or
passes it on. -/
structure Policy (W : Type) where
  ops : PluginOps
  answer : W → (c : SysCall) → W × Option (SysAnswer c)

/-- A callback is installed for the call. -/
def PluginOps.hooks (ops : PluginOps) : SysCall → Bool
  | .write _ _ => ops.cbWrite ≠ 0
  | .read _ _ => ops.cbRead ≠ 0
  | .openPath _ _ _ => ops.cbOpen ≠ 0
  | .close _ => ops.cbClose ≠ 0

/-- The kernel with the policy in front of it. -/
def Kernel.under {W : Type} (k : Kernel W) (pol : Policy W) : Kernel W where
  call := fun w c =>
    if pol.ops.hooks c then
      let p := pol.answer w c
      match p.2 with
      | some a => (p.1, a)
      | none => k.call p.1 c
    else k.call w c

/-! ## Pointers -/

/-- The call that a request stands for; the host looks at `pathMax` bytes of a path. -/
def Request.decode (pathMax : Nat) (mem : U64 → Byte) : Request → SysCall
  | .writeCall fildes buf nbyte => .write fildes (slice mem buf nbyte.toNat)
  | .readCall fildes _ nbyte => .read fildes nbyte.toNat
  | .openCall path flags mode => .openPath (cString mem pathMax path) flags mode
  | .closeCall fd => .close fd

/-- The bytes of an answer are stored in the buffer of `read`. -/
def Request.store (mem : U64 → Byte) : Request → List Byte → U64 → Byte
  | .readCall _ buf _, data => overwrite mem buf data
  | _, _ => mem

theorem Request.width_decode (pathMax : Nat) (mem : U64 → Byte) (r : Request) :
    (r.decode pathMax mem).width = r.width := by
  cases r <;> rfl

theorem Request.hooks_decode (ops : PluginOps) (pathMax : Nat) (mem : U64 → Byte)
    (r : Request) :
    ops.hooks (r.decode pathMax mem) = ops.installed r := by
  cases r <;> rfl

/-! ## The calls of a handler -/

/-- The host as the handlers see it: how it acts, and what the plugin does. -/
structure Host (W : Type) where
  kernel : Kernel W
  policy : Policy W
  pathMax : Nat

namespace Host

variable {W : Type} (host : Host W)

/-- What the callback for a request does to the world and to host memory. -/
def hookStep (s : W × (U64 → Byte)) (r : Request) : W × (U64 → Byte) :=
  let p := host.policy.answer s.1 (r.decode host.pathMax s.2)
  match p.2 with
  | some a => (p.1, r.store s.2 a.data)
  | none => (p.1, s.2)

/-- What the host call for a request does. -/
def hostStep (s : W × (U64 → Byte)) (r : Request) : W × (U64 → Byte) :=
  let p := host.kernel.call s.1 (r.decode host.pathMax s.2)
  (p.1, r.store s.2 p.2.data)

def callStep (s : W × (U64 → Byte)) : HostCall → W × (U64 → Byte)
  | .hook r _ => host.hookStep s r
  | .host r _ => host.hostStep s r

/-- What the calls of a handler do. -/
def perform (s : W × (U64 → Byte)) (calls : List HostCall) : W × (U64 → Byte) :=
  calls.foldl host.callStep s

/-- The answer of the callback for a request. -/
def callbackAnswer (w : W) (mem : U64 → Byte) (r : Request) : CallbackAnswer r.width :=
  match (host.policy.answer w (r.decode host.pathMax mem)).2 with
  | some a => ⟨0, a.ret.cast (r.width_decode host.pathMax mem)⟩
  | none => ⟨1, 0⟩

/-- The answer of the host, asked after the callback if there is one. -/
def hostAnswer (w : W) (mem : U64 → Byte) (r : Request) : r.Result :=
  let c := r.decode host.pathMax mem
  let w' := if host.policy.ops.installed r then (host.policy.answer w c).1 else w
  (host.kernel.call w' c).2.ret.cast (r.width_decode host.pathMax mem)

/-- One request: its result and the calls that a handler makes for it. -/
def mediate (w : W) (mem : U64 → Byte) (r : Request) : r.Result × List HostCall :=
  interpose host.policy.ops.installed (fun r => (host.callbackAnswer w mem r).verdict)
    (host.hostAnswer w mem) r

theorem signExtend_cast {m n : Nat} (h : m = n) (x : BitVec m) :
    (x.cast h).signExtend 64 = x.signExtend 64 := by
  subst h
  rfl

/-- **One request.**  The calls made for it return and do what the kernel with the policy
in front of it does. -/
theorem perform_mediate (w : W) (mem : U64 → Byte) (r : Request) :
    let q := (host.kernel.under host.policy).call w (r.decode host.pathMax mem)
    (host.mediate w mem r).1.signExtend 64 = q.2.rax ∧
      host.perform (w, mem) (host.mediate w mem r).2 = (q.1, r.store mem q.2.data) := by
  unfold mediate
  dsimp only
  have hhooks := r.hooks_decode host.policy.ops host.pathMax mem
  rw [Kernel.under]
  dsimp only
  rw [hhooks, interpose]
  cases hin : host.policy.ops.installed r with
  | false =>
      refine ⟨?_, rfl⟩
      rw [if_neg (by simp), if_neg (by simp), hostAnswer, hin]
      exact signExtend_cast (r.width_decode host.pathMax mem) _
  | true =>
      rw [if_pos rfl, if_pos rfl]
      cases hanswer : (host.policy.answer w (r.decode host.pathMax mem)).2 with
      | some a =>
          have hcallback : host.callbackAnswer w mem r =
              ⟨0, a.ret.cast (r.width_decode host.pathMax mem)⟩ := by
            rw [callbackAnswer, hanswer]
          rw [hcallback]
          refine ⟨signExtend_cast (r.width_decode host.pathMax mem) _, ?_⟩
          simp [perform, callStep, hookStep, hanswer, CallbackAnswer.verdict]
      | none =>
          have hcallback : host.callbackAnswer w mem r = ⟨1, 0⟩ := by
            rw [callbackAnswer, hanswer]
          rw [hcallback]
          refine ⟨?_, ?_⟩
          · show (host.hostAnswer w mem r).signExtend 64 = _
            rw [hostAnswer, hin]
            exact signExtend_cast (r.width_decode host.pathMax mem) _
          · show host.perform (w, mem) [.hook r none, .host r (host.hostAnswer w mem r)] = _
            simp [perform, callStep, hookStep, hostStep, hanswer]

end Host

end Hvexec
