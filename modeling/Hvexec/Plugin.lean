import Hvexec.HostCalls

/-!
# The plugin

`main` loads a policy from a dynamic library, and goes on only when the library has filled
the table of callbacks.  The policy of test/plugin.c keeps the guest from one file: an
`open` of a path that resolves to it opens another file instead, and every other call is
passed on.

What the guest does between its exits is left open here, and so is its memory: whatever the
kernel with the policy in front of it keeps, `vcpu_run` keeps.
-/

namespace Hvexec

open ByteMemory Interposition

/-! ## load_plugin -/

/-- What the dynamic linker answers, NULL being zero, and what the function at an address
does to the table and returns. -/
structure LoadPluginEnv where
  dlopen : String → U64
  dlsym : U64 → String → U64
  pluginInit : U64 → PluginOps → BitVec 32 × PluginOps

/-- What `load_plugin` returns, the table, and the handles that stay open. -/
structure LoadPlugin where
  code : Int
  ops : PluginOps
  handles : List U64

def loadPlugin (ops : PluginOps) (path : Option String) (e : LoadPluginEnv) : LoadPlugin :=
  match path with
  | none => ⟨-1, ops, []⟩
  | some path =>
      let plugin := e.dlopen path
      if plugin = 0 then ⟨-1, ops, []⟩
      else
        let pluginInit := e.dlsym plugin "plugin_init"
        if pluginInit = 0 then ⟨-1, ops, []⟩
        else
          let r := e.pluginInit pluginInit ops
          if r.1 ≠ 0 then ⟨-1, r.2, []⟩ else ⟨0, r.2, [plugin]⟩

/-- The table that `vcpu_run` finds, if `main` gets that far; `path` is the option `-s`. -/
def pluginTable (path : Option String) (e : LoadPluginEnv) : Option PluginOps :=
  match path with
  | none => some noPlugin
  | some path =>
      let r := loadPlugin noPlugin (some path) e
      if r.code ≠ 0 then none else some r.ops

/-- `load_plugin` succeeds when the library opens, has the function, and the function says
so; the handle stays open then, and otherwise none does. -/
theorem loadPlugin_cases (ops : PluginOps) (path : String) (e : LoadPluginEnv) :
    ((loadPlugin ops (some path) e).code ≠ 0 ∧ (loadPlugin ops (some path) e).handles = []) ∨
      (e.dlopen path ≠ 0 ∧ e.dlsym (e.dlopen path) "plugin_init" ≠ 0 ∧
        ∃ ops', e.pluginInit (e.dlsym (e.dlopen path) "plugin_init") ops = (0, ops') ∧
          loadPlugin ops (some path) e = ⟨0, ops', [e.dlopen path]⟩) := by
  simp only [loadPlugin]
  split_ifs with hopen hsym hinit
  · exact Or.inl ⟨by simp, rfl⟩
  · exact Or.inl ⟨by simp, rfl⟩
  · exact Or.inl ⟨by simp, rfl⟩
  · exact Or.inr ⟨hopen, hsym, _, Prod.ext (not_not.mp hinit) rfl, rfl⟩

/-- **No guest runs without its policy**: the table is what a successful `plugin_init` made
of an empty one. -/
theorem pluginTable_of_path {path : String} {e : LoadPluginEnv} {ops : PluginOps}
    (h : pluginTable (some path) e = some ops) :
    e.dlopen path ≠ 0 ∧ e.dlsym (e.dlopen path) "plugin_init" ≠ 0 ∧
      e.pluginInit (e.dlsym (e.dlopen path) "plugin_init") noPlugin = (0, ops) := by
  simp only [pluginTable] at h
  rcases loadPlugin_cases noPlugin path e with ⟨hcode, _⟩ | ⟨hopen, hsym, ops', hinit, heq⟩
  · rw [if_pos hcode] at h
    simp at h
  · rw [heq] at h
    obtain rfl : ops' = ops := by simpa using h
    exact ⟨hopen, hsym, hinit⟩

/-! ## vcpu_run with a host that acts -/

namespace Host

variable {W : Type} (host : Host W)

/-- An exit, answered by the host and the plugin in the world as it is. -/
def exit (w : W) (e : VmExit) : VmExit :=
  { e with
    env :=
      { e.env with
        callback := host.callbackAnswer w e.vm.mem
        host := host.hostAnswer w e.vm.mem } }

/-- The world after `vcpu_run`; between two exits the guest may do anything. -/
def vcpuRun (interactive : Bool) : W → List (Option VmExit) → W
  | w, [] => w
  | w, none :: _ => w
  | w, some e :: es =>
      let h := handleExit host.policy.ops interactive (host.exit w e)
      let w := (host.perform (w, e.vm.mem) h.calls).1
      if h.stop then w else vcpuRun interactive w es

variable {host}

/-- An exit makes no calls, or those for one request. -/
theorem calls_exit (interactive : Bool) (w : W) (e : VmExit) :
    (handleExit host.policy.ops interactive (host.exit w e)).calls = [] ∨
      ∃ r, (handleExit host.policy.ops interactive (host.exit w e)).calls =
        (host.mediate w e.vm.mem r).2 := by
  rcases handleExit_cases host.policy.ops interactive (host.exit w e) with
    ⟨_, heq⟩ | ⟨_, r, heq⟩
  · rw [heq, defaultExit]
    split_ifs
    · dsimp only
      have houtcome := emuSyscall_outcome host.policy.ops interactive (host.exit w e).env
        (host.exit w e).vm (wreg (host.exit w e).vcpu .rip (rreg (host.exit w e).vcpu .rcx))
      generalize emuSyscall host.policy.ops interactive (host.exit w e).env
        (host.exit w e).vm
        (wreg (host.exit w e).vcpu .rip (rreg (host.exit w e).vcpu .rcx)) = q at houtcome
      cases houtcome with
      | refused _ _ => exact Or.inl rfl
      | @performed r _ _ => exact Or.inr ⟨r, rfl⟩
    · exact Or.inl rfl
  · rw [heq]
    exact Or.inl rfl

/-- One exit does to the world what one call of the kernel under the policy does, or
nothing. -/
theorem world_exit (interactive : Bool) (w : W) (e : VmExit) :
    (host.perform (w, e.vm.mem)
        (handleExit host.policy.ops interactive (host.exit w e)).calls).1 = w ∨
      ∃ c, (host.perform (w, e.vm.mem)
        (handleExit host.policy.ops interactive (host.exit w e)).calls).1 =
          ((host.kernel.under host.policy).call w c).1 := by
  rcases @calls_exit W host interactive w e with hnone | ⟨r, hcalls⟩
  · rw [hnone]
    exact Or.inl rfl
  · rw [hcalls, (host.perform_mediate w e.vm.mem r).2]
    exact Or.inr ⟨_, rfl⟩

/-- **What the kernel keeps under the policy, every guest keeps.** -/
theorem vcpuRun_invariant {I : W → Prop} (interactive : Bool)
    (hkeep : ∀ w c, I w → I ((host.kernel.under host.policy).call w c).1) :
    ∀ (es : List (Option VmExit)) (w : W), I w → I (host.vcpuRun interactive w es)
  | [], _, hw => hw
  | none :: _, _, hw => hw
  | some e :: es, w, hw => by
      have hnext : I (host.perform (w, e.vm.mem)
          (handleExit host.policy.ops interactive (host.exit w e)).calls).1 := by
        rcases @world_exit W host interactive w e with heq | ⟨c, heq⟩
        · rw [heq]
          exact hw
        · rw [heq]
          exact hkeep w c hw
      rw [vcpuRun]
      split_ifs
      · exact hnext
      · exact vcpuRun_invariant interactive hkeep es _ hnext

end Host

/-- A kernel that keeps a list of its calls, each with the world in which it was made. -/
def Kernel.logged {W : Type} (k : Kernel W) : Kernel (W × List (W × SysCall)) where
  call := fun s c =>
    let q := k.call s.1 c
    ((q.1, s.2 ++ [(s.1, c)]), q.2)

/-! ## test/plugin.c -/

/-- The characters of a literal. -/
def cLiteral (s : String) : List Byte :=
  s.toList.map fun c => BitVec.ofNat 8 c.toNat

/-- `private` of `cb_open`. -/
def privatePath : List Byte :=
  cLiteral "/Users/nlogn/Documents/hvexec/ATTRIB"

/-- `redirect` of `cb_open`. -/
def redirectPath : List Byte :=
  cLiteral "/Users/nlogn/Documents/hvexec/test/plugin.c"

/-- `strncmp` of two strings, given without their NUL. -/
def strncmp : Nat → List Byte → List Byte → Int
  | 0, _, _ => 0
  | _ + 1, [], [] => 0
  | _ + 1, [], b :: _ => -b.toNat
  | _ + 1, a :: _, [] => a.toNat
  | n + 1, a :: as, b :: bs => if a = b then strncmp n as bs else a.toNat - b.toNat

/-- The callbacks of test/plugin.c, which are functions. -/
structure TestPlugin where
  cbWrite : U64
  cbOpen : U64
  cbWrite_ne : cbWrite ≠ 0
  cbOpen_ne : cbOpen ≠ 0

namespace TestPlugin

/-- `plugin_init` of test/plugin.c. -/
def pluginInit (t : TestPlugin) (ops : PluginOps) : BitVec 32 × PluginOps :=
  (0, { ops with cbWrite := t.cbWrite, cbOpen := t.cbOpen })

/-- `cb_open` and `cb_write`; `cb_open` asks the host for the resolved path, and to open the
other file. -/
def answer {W : Type} (k : Kernel W) (realpath : W → List Byte → Option (List Byte)) (w : W) :
    (c : SysCall) → W × Option (SysAnswer c)
  | .openPath path flags mode =>
      match realpath w path with
      | some fullPath =>
          if strncmp privatePath.length fullPath privatePath = 0 then
            let q := k.call w (.openPath redirectPath flags mode)
            (q.1, some ⟨q.2.ret, q.2.data, q.2.fits⟩)
          else (w, none)
      | none => (w, none)
  | .write _ _ => (w, none)
  | .read _ _ => (w, none)
  | .close _ => (w, none)

end TestPlugin

/-- A prefix without NUL is one that `strncmp` does not tell apart. -/
theorem strncmp_eq_zero_iff :
    ∀ {s t : List Byte}, (∀ b ∈ t, b ≠ 0) → (strncmp t.length s t = 0 ↔ t <+: s)
  | s, [], _ => by
      simp [strncmp]
  | [], b :: t, ht => by
      have hb : b.toNat ≠ 0 := fun hcon => ht b (by simp) (BitVec.eq_of_toNat_eq hcon)
      simp only [List.length_cons, strncmp, List.prefix_nil, reduceCtorEq, iff_false]
      omega
  | a :: s, b :: t, ht => by
      rw [List.length_cons, strncmp, List.cons_prefix_cons]
      split_ifs with hab
      · rw [strncmp_eq_zero_iff fun c hc => ht c (List.mem_cons_of_mem b hc)]
        exact ⟨fun h => ⟨hab.symm, h⟩, And.right⟩
      · have hne : a.toNat ≠ b.toNat := fun hcon => hab (BitVec.eq_of_toNat_eq hcon)
        constructor
        · omega
        · exact fun h => absurd h.1.symm hab

/-- The path resolves to the file that the plugin protects, or to one whose name goes on
from it. -/
def Protected {W : Type} (realpath : W → List Byte → Option (List Byte)) (w : W)
    (path : List Byte) : Prop :=
  ∃ fullPath, realpath w path = some fullPath ∧ privatePath <+: fullPath

/-- A call of the host that the plugin is meant to allow. -/
def Allowed {W : Type} (realpath : W → List Byte → Option (List Byte)) (w : W) :
    SysCall → Prop
  | .openPath path _ _ => path = redirectPath ∨ ¬ Protected realpath w path
  | _ => True

section Policy

variable {W : Type} {k : Kernel W} {realpath : W → List Byte → Option (List Byte)}
variable {t : TestPlugin}

/-- `cb_open` answers for the protected file only. -/
theorem TestPlugin.answer_openPath (w : W) (path : List Byte) (flags mode : BitVec 32) :
    (Protected realpath w path ∧
      ((TestPlugin.answer k realpath w (.openPath path flags mode)).1 =
        (k.call w (.openPath redirectPath flags mode)).1 ∧
      ((TestPlugin.answer k realpath w (.openPath path flags mode)).2).isSome)) ∨
    (¬ Protected realpath w path ∧
      TestPlugin.answer k realpath w (.openPath path flags mode) = (w, none)) := by
  have hnul : ∀ b ∈ privatePath, b ≠ 0 := by
    decide
  have hiff : ∀ fullPath, strncmp privatePath.length fullPath privatePath = 0 ↔
      privatePath <+: fullPath := fun _ => strncmp_eq_zero_iff hnul
  simp only [TestPlugin.answer, Protected]
  cases hfull : realpath w path with
  | none => exact Or.inr ⟨by simp, rfl⟩
  | some fullPath =>
      by_cases hprivate : privatePath <+: fullPath
      · simp [hiff, hprivate]
      · simp [hiff, hprivate]

/-- What the kernel does under the policy: it opens the other file in the place of the
protected one, and everything else is as it was. -/
theorem TestPlugin.call_under {pol : Policy W} (hops : pol.ops = (t.pluginInit noPlugin).2)
    (hanswer : pol.answer = TestPlugin.answer k realpath) (w : W) (c : SysCall) :
    ((k.under pol).call w c = k.call w c ∧
        ∀ path flags mode, c = .openPath path flags mode → ¬ Protected realpath w path) ∨
      ∃ path flags mode, c = .openPath path flags mode ∧ Protected realpath w path ∧
        ((k.under pol).call w c).1 = (k.call w (.openPath redirectPath flags mode)).1 := by
  rw [Kernel.under]
  dsimp only
  rw [hops, hanswer]
  cases c with
  | openPath path flags mode =>
      have hooked : (t.pluginInit noPlugin).2.hooks (.openPath path flags mode) = true :=
        decide_eq_true t.cbOpen_ne
      rw [if_pos hooked]
      rcases @TestPlugin.answer_openPath W k realpath w path flags mode with
        ⟨hprotected, hworld, hsome⟩ | ⟨hfree, heq⟩
      · obtain ⟨a, ha⟩ := Option.isSome_iff_exists.mp hsome
        refine Or.inr ⟨path, flags, mode, rfl, hprotected, ?_⟩
        rw [ha]
        exact hworld
      · refine Or.inl ⟨by rw [heq], fun path' flags' mode' hc => ?_⟩
        obtain ⟨rfl, _⟩ := SysCall.openPath.inj hc
        exact hfree
  | write fildes bytes =>
      have hooked : (t.pluginInit noPlugin).2.hooks (.write fildes bytes) = true :=
        decide_eq_true t.cbWrite_ne
      rw [if_pos hooked]
      exact Or.inl ⟨rfl, by simp⟩
  | read fildes nbyte => exact Or.inl ⟨rfl, by simp⟩
  | close fd => exact Or.inl ⟨rfl, by simp⟩

end Policy

/-- **The plugin protects its file.**  When `main` was started with the plugin and gets to
`vcpu_run`, no guest, whatever it does, has the host open a path that resolves to the
protected file; the file that the plugin opens itself is the exception.  And the plugin
interferes with nothing else. -/
theorem testPlugin_protects {W : Type}
    (t : TestPlugin) (path : String) (e : LoadPluginEnv) (ops : PluginOps)
    (hinit : e.pluginInit (e.dlsym (e.dlopen path) "plugin_init") = t.pluginInit)
    (htable : pluginTable (some path) e = some ops)
    (k : Kernel W) (realpath : W → List Byte → Option (List Byte)) (pathMax : Nat)
    (interactive : Bool) (w : W) (es : List (Option VmExit)) :
    let host : Host (W × List (W × SysCall)) :=
      ⟨k.logged, ⟨ops, TestPlugin.answer k.logged fun s => realpath s.1⟩, pathMax⟩
    (∀ call ∈ (host.vcpuRun interactive (w, []) es).2, Allowed realpath call.1 call.2) ∧
      ∀ s c, (∀ path flags mode, c = .openPath path flags mode →
          ¬ Protected realpath s.1 path) →
        (host.kernel.under host.policy).call s c = host.kernel.call s c := by
  intro host
  obtain ⟨_, _, hops⟩ := pluginTable_of_path htable
  rw [hinit] at hops
  have hpolicy : host.policy.ops = (t.pluginInit noPlugin).2 := by
    rw [hops]
  have hcall := TestPlugin.call_under (k := k.logged) hpolicy rfl
  constructor
  · refine Host.vcpuRun_invariant
      (I := fun s : W × List (W × SysCall) => ∀ call ∈ s.2, Allowed realpath call.1 call.2)
      interactive ?_ es _ (by simp)
    intro s c hs
    have happend : ∀ c', Allowed realpath s.1 c' →
        ∀ call ∈ (k.logged.call s c').1.2, Allowed realpath call.1 call.2 := by
      intro c' hc' call hmem
      rcases List.mem_append.mp hmem with hold | hnew
      · exact hs call hold
      · obtain rfl := List.mem_singleton.mp hnew
        exact hc'
    rcases hcall s c with ⟨heq, hfree⟩ | ⟨path, flags, mode, _, _, heq⟩
    · have hkernel : (host.kernel.under host.policy).call s c = k.logged.call s c := heq
      rw [hkernel]
      apply happend
      cases c with
      | openPath path flags mode => exact Or.inr (hfree path flags mode rfl)
      | write fildes bytes => trivial
      | read fildes nbyte => trivial
      | close fd => trivial
    · have hkernel : ((host.kernel.under host.policy).call s c).1 =
          (k.logged.call s (.openPath redirectPath flags mode)).1 := heq
      rw [hkernel]
      exact happend _ (Or.inl rfl)
  · intro s c hfree
    rcases hcall s c with ⟨heq, _⟩ | ⟨path, flags, mode, hc, hprotected, _⟩
    · exact heq
    · exact absurd hprotected (hfree path flags mode hc)

/-- Two functions of a library. -/
def testPlugin : TestPlugin :=
  ⟨0x1000, 0x2000, by decide, by decide⟩

/-- A linker that finds the library and its function. -/
def testLinker : LoadPluginEnv :=
  ⟨fun _ => 0x10, fun _ _ => 0x20, fun _ => testPlugin.pluginInit⟩

/-- A host that opens everything, where paths resolve to themselves. -/
def openKernel : Kernel Unit :=
  ⟨fun w c => (w, .ofNat c 3)⟩

/-- The guest's first pages: a system call at 0x200 and the protected path at 0x300. -/
def privateGuest : VmMem :=
  { VmMem.init (overwrite (overwrite (fun _ => 0) 0x60000200 [0x0F, 0x05]) 0x60000300
      privatePath) with memRegions := [⟨0, 16, 0x60000000⟩] }

/-- The guest opens the protected file. -/
def openExit : VmExit where
  reason := .tripleFault
  vcpu :=
    { regs := fun r =>
        if r = .rax then syscallOpen else if r = .rcx then 0x202
        else if r = .rdi then 0x300 else 0
      vmcs := fun _ => 0 }
  vm := privateGuest
  entry₀ := 0
  env := ⟨0, fun _ => ⟨0, 0⟩, fun _ => 0, fun _ => 0, 0⟩

/-- The host with the plugin, and the calls it makes for the guest. -/
def testHost : Host (Unit × List (Unit × SysCall)) :=
  ⟨openKernel.logged, ⟨(testPlugin.pluginInit noPlugin).2,
    TestPlugin.answer openKernel.logged fun _ path => some path⟩, 1024⟩

theorem testPlugin_protects_openKernel :
    List.Forall (fun call => Allowed (fun _ path => some path) call.1 call.2)
      (testHost.vcpuRun false ((), []) [some openExit]).2 :=
  List.forall_iff_forall_mem.mpr
    (testPlugin_protects testPlugin "plugin.dylib" testLinker _ rfl rfl openKernel
      (fun _ path => some path) 1024 false () [some openExit]).1

/-- The other file is opened in its place. -/
example : (testHost.vcpuRun false ((), []) [some openExit]).2 =
    [((), .openPath redirectPath 0 0)] := by
  decide +kernel

end Hvexec
