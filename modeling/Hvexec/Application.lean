import Hvexec.AddressSpace
import Hvexec.HostCalls
import Hvexec.SyscallExits
import Hvexec.Lib.Service

/-!
# The application and its kernel

An application stores bytes and makes system calls.  `native` is a process that talks to a
kernel: its memory is a partial function, a system call is one call of the kernel, and the
process is given up when it stores where nothing is mapped, or makes a call that it has no
arguments for.

`hosted` is the same application under hvexec.  A system call is an exit of the virtual
processor, the loop handles it, and the callbacks of the plugin and the host act on host
memory.

Wherever the kernel with the policy in front of it answers, so does hvexec, and both
answers are the same.  So no application that stays within its memory can tell them apart.
-/

namespace Hvexec

open ByteMemory Interposition

/-- What an application does between two looks at its memory: it stores a byte, or executes
the instruction `syscall` at `pc` with its registers. -/
inductive AppAction
  | store (a : U64) (b : Byte)
  | syscall (pc : U64) (regs : Reg → U64)

/-- The registers after a system call at `pc`: the next instruction, and the result. -/
def afterSyscall (regs : Reg → U64) (pc rax : U64) : Reg → U64 :=
  Function.update (Function.update (Function.update regs .rcx (pc + 2)) .rip (pc + 2)) .rax rax

/-- The instruction `syscall`, where the processor sees it. -/
def IsSyscallAt (mem : U64 → Option Byte) (pc : U64) : Prop :=
  mem pc = some 0x0F ∧ mem (pc + 1) = some 0x05

instance (mem : U64 → Option Byte) (pc : U64) : Decidable (IsSyscallAt mem pc) :=
  inferInstanceAs (Decidable (_ ∧ _))

/-! ## A process and its kernel -/

/-- A process: what it sees of its memory, and the world that the kernel acts on. -/
structure Process (W : Type) where
  mem : U64 → Option Byte
  world : W

/-- The call that the registers ask for, if all its arguments are in memory.  The kernel
looks at `pathMax` bytes of a path. -/
def processCall (pathMax : Nat) (mem : U64 → Option Byte) (regs : Reg → U64) :
    Option SysCall :=
  let int := fun r => (regs r).setWidth 32
  if regs .rax = syscallRead then
    (bytesFrom mem (regs .rsi) (regs .rdx).toNat).map fun _ =>
      .read (int .rdi) (regs .rdx).toNat
  else if regs .rax = syscallWrite then
    (bytesFrom mem (regs .rsi) (regs .rdx).toNat).map fun bytes => .write (int .rdi) bytes
  else if regs .rax = syscallOpen then
    (stringFrom mem pathMax (regs .rdi)).map fun path => .openPath path (int .rsi) (int .rdx)
  else if regs .rax = syscallClose then some (.close (int .rdi))
  else none

/-- The process on a kernel.  Only `read` returns bytes, and for the buffer at RSI. -/
def native {W : Type} (k : Kernel W) (pathMax : Nat) :
    Service (Process W) (U64 → Option Byte) AppAction (Option (Reg → U64)) where
  view := Process.mem
  step := fun s act =>
    match act with
    | .store a b =>
        if (s.mem a).isSome then
          some (none, { s with mem := Function.update s.mem a (some b) })
        else none
    | .syscall pc regs =>
        if IsSyscallAt s.mem pc then
          (processCall pathMax s.mem regs).map fun c =>
            let q := k.call s.world c
            (some (afterSyscall regs pc q.2.rax),
              ⟨storeFrom s.mem (regs .rsi) q.2.data, q.1⟩)
        else none

/-! ## The same under hvexec -/

/-- What else comes with an exit: the VMCS, a character from the user, and unassigned
locals. -/
structure ExitData where
  vmcs : VmcsField → U64
  entry₀ : U64
  getchar : BitVec 32
  verifyEntry₀ : Nat → U64
  bufEntry₀ : U64

/-- hvexec with the application: the virtual machine, the world, and the number of system
calls so far. -/
structure Hosted (W : Type) where
  vm : VmMem
  world : W
  exits : Nat

/-- The exit for a system call; it ends in a triple fault. -/
def Hosted.exit {W : Type} (s : Hosted W) (host : Host W) (x : ExitData) (pc : U64)
    (regs : Reg → U64) : VmExit where
  reason := .tripleFault
  vcpu := ⟨Function.update regs .rcx (pc + 2), x.vmcs⟩
  vm := s.vm
  entry₀ := x.entry₀
  env :=
    { getchar := x.getchar
      callback := host.callbackAnswer s.world s.vm.mem
      host := host.hostAnswer s.world s.vm.mem
      verifyEntry₀ := x.verifyEntry₀
      bufEntry₀ := x.bufEntry₀ }

/-- What the application sees. -/
def Hosted.mem {W : Type} (s : Hosted W) : U64 → Option Byte :=
  look s.vm.windows s.vm.mem

/-- The application under hvexec; `session` is what else comes with each exit.  The end of
`vcpu_run` gives the application up. -/
def hosted {W : Type} (host : Host W) (interactive : Bool) (session : Nat → ExitData) :
    Service (Hosted W) (U64 → Option Byte) AppAction (Option (Reg → U64)) where
  view := Hosted.mem
  step := fun s act =>
    match act with
    | .store a b =>
        (s.vm.windows a).map fun x =>
          (none, { s with vm := { s.vm with mem := Function.update s.vm.mem x b } })
    | .syscall pc regs =>
        if IsSyscallAt s.mem pc then
          let h := handleExit host.policy.ops interactive
            (s.exit host (session s.exits) pc regs)
          if h.stop then none
          else
            let p := host.perform (s.world, s.vm.mem) h.calls
            some (some h.vcpu.regs, ⟨{ s.vm with mem := p.2 }, p.1, s.exits + 1⟩)
        else none

/-! ## Requests and calls -/

section Requests

variable {σ : VmMem} {T : Tables} {l : List MemRegion}

theorem AppSpace.guestState (h : AppSpace σ T l) : GuestState σ :=
  ⟨h.tables.regions, h.tables.host, (h.tables.isFrame h.tables.held.root_node).aligned⟩

/-- The pointer that a handler computes. -/
theorem AppSpace.pointer (h : AppSpace σ T l) {a : U64} (ha : (σ.windows a).isSome)
    (entry₀ : U64) :
    gvaToGpa σ entry₀ a = a ∧
      σ.windows a = some (gpaToHva σ.memRegions (gvaToGpa σ entry₀ a)) := by
  have hin := h.inRegion_of_isSome ha
  have hself := h.guestState.gvaToGpa_of_translate (h.translate hin) entry₀
  exact ⟨hself, by rw [hself, h.windows_of_mem hin]⟩

/-- A byte that the application sees is found at its physical address. -/
theorem AppSpace.byteAt (h : AppSpace σ T l) {a : U64} {b : Byte}
    (hb : look σ.windows σ.mem a = some b) :
    σ.byteAt a = some b := by
  obtain ⟨x, hx, hmem⟩ := look_eq_some_iff.mp hb
  obtain ⟨hin, rfl⟩ := h.windows_eq_some_iff.mp hx
  have hnull := (gpaToHva_ne_zero_iff h.tables.regions h.tables.host a).mpr (h.inRegion hin)
  rw [VmMem.byteAt, if_neg hnull, hmem]

/-- The instruction before RCX is found. -/
theorem AppSpace.syscallBytes (h : AppSpace σ T l) {pc : U64}
    (hpc : IsSyscallAt (look σ.windows σ.mem) pc) (entry₀ : U64) :
    2 ≤ pc + 2 ∧ SyscallBytes σ (gvaToGpa σ entry₀ (pc + 2 - 2)) := by
  have hsome : (σ.windows pc).isSome := by
    rw [← isSome_look σ.windows σ.mem, hpc.1]
    rfl
  have hlt := h.toNat_lt (h.inRegion_of_isSome hsome)
  have hback : pc + 2 - 2 = pc := by
    bv_omega
  rw [hback, (h.pointer hsome entry₀).1]
  refine ⟨?_, h.byteAt hpc.1, h.byteAt hpc.2⟩
  bv_omega

/-- A buffer that is all there passes the check. -/
theorem AppSpace.verify (h : AppSpace σ T l) {a nbyte : U64}
    (hall : ∀ i < nbyte.toNat, (σ.windows (a + BitVec.ofNat 64 i)).isSome)
    (entry₀ : Nat → U64) :
    vmMemVerify σ entry₀ a nbyte = 0 := by
  rw [vmMemVerify, vmMemVerifyLoop_eq_zero_iff h.tables.regions h.tables.host]
  intro i hi
  rw [(h.pointer (hall i hi) _).1]
  exact h.inRegion (h.inRegion_of_isSome (hall i hi))

/-- What a request for a call has to be: it stands for the call, its buffer passes, and
bytes stored for it are seen in the buffer of the application. -/
structure Serves (σ : VmMem) (l : List MemRegion) (pathMax : Nat) (env : SyscallEnv) (v : Vcpu)
    (c : SysCall) (r : Request) : Prop where
  request : guestRequest env σ v = some r
  decode : r.decode pathMax σ.mem = c
  accepted : ¬ badBuffer env σ v
  seen : ∀ data, data.length ≤ c.room →
    look σ.windows (r.store σ.mem data) =
      storeFrom (look σ.windows σ.mem) (rreg v .rsi) data
  kept : ∀ data, data.length ≤ c.room →
    ∀ x, ¬ HostByte l x → r.store σ.mem data x = σ.mem x

/-- The buffer of a `read` or a `write`, which may be empty. -/
theorem AppSpace.buffer (h : AppSpace σ T l) {a nbyte : U64} {bs : List Byte}
    (hbs : bytesFrom (look σ.windows σ.mem) a nbyte.toNat = some bs) (entry₀ : U64) :
    let buf := gpaToHva σ.memRegions (gvaToGpa σ entry₀ a)
    (∀ i < nbyte.toNat, (σ.windows (a + BitVec.ofNat 64 i)).isSome) ∧
      slice σ.mem buf nbyte.toNat = bs ∧
      ∀ data : List Byte, data.length ≤ nbyte.toNat →
        look σ.windows (overwrite σ.mem buf data) =
            storeFrom (look σ.windows σ.mem) a data ∧
          ∀ x, ¬ HostByte l x → overwrite σ.mem buf data x = σ.mem x := by
  intro buf
  have hall : ∀ i < nbyte.toNat, (σ.windows (a + BitVec.ofNat 64 i)).isSome := by
    intro i hi
    rw [← isSome_look σ.windows σ.mem]
    exact isSome_of_bytesFrom hbs i hi
  by_cases hzero : nbyte.toNat = 0
  · refine ⟨hall, ?_, fun data hlen => ?_⟩
    · rw [hzero] at hbs ⊢
      exact Option.some.inj hbs
    · obtain rfl : data = [] := List.eq_nil_of_length_eq_zero (by omega)
      simp
  · have hfirst := hall 0 (by omega)
    rw [BitVec.add_zero] at hfirst
    have hbuf : σ.windows a = some buf := (h.pointer hfirst entry₀).2
    refine ⟨hall, slice_of_bytesFrom h.linear hbuf hbs, fun data hlen => ?_⟩
    have hdata : ∀ i < data.length, (σ.windows (a + BitVec.ofNat 64 i)).isSome :=
      fun i hi => hall i (hi.trans_le hlen)
    refine ⟨look_overwrite h.linear hbuf hdata, fun x hx => ?_⟩
    exact overwrite_of_unseen h.linear hbuf hdata fun b hb => hx (h.hostByte hb)

/-- The path of an `open`, of which nothing may be looked at. -/
theorem AppSpace.path (h : AppSpace σ T l) {a : U64} {n : Nat} {s : List Byte}
    (hs : stringFrom (look σ.windows σ.mem) n a = some s) (entry₀ : U64) :
    cString σ.mem n (gpaToHva σ.memRegions (gvaToGpa σ entry₀ a)) = s := by
  cases n with
  | zero => exact Option.some.inj hs
  | succ n =>
      obtain ⟨b, hb, _⟩ := Option.bind_eq_some_iff.mp hs
      obtain ⟨x, hx, _⟩ := look_eq_some_iff.mp hb
      have hsome : (σ.windows a).isSome := by
        rw [hx]
        rfl
      exact cString_of_stringFrom h.linear (h.pointer hsome entry₀).2 hs

/-- A request without a buffer stores nothing. -/
theorem store_of_room_zero {c : SysCall} (hroom : c.room = 0) {r : Request} {data : List Byte}
    (mem : U64 → Byte) (hlen : data.length ≤ c.room) :
    data = [] ∧ r.store mem data = mem := by
  obtain rfl : data = [] := List.eq_nil_of_length_eq_zero (by omega)
  refine ⟨rfl, ?_⟩
  cases r <;> simp [Request.store]

/-- **The request of a handler stands for the call of the process.** -/
theorem AppSpace.serves (h : AppSpace σ T l) {pathMax : Nat} {env : SyscallEnv} {v : Vcpu}
    {c : SysCall}
    (hc : processCall pathMax (look σ.windows σ.mem) (rreg v) = some c) :
    ∃ r, Serves σ l pathMax env v c r := by
  have hnone : ∀ {r : Request} {c : SysCall}, c.room = 0 → ∀ data, data.length ≤ c.room →
      look σ.windows (r.store σ.mem data) =
          storeFrom (look σ.windows σ.mem) (rreg v .rsi) data ∧
        ∀ x, ¬ HostByte l x → r.store σ.mem data x = σ.mem x := by
    intro r c hroom data hlen
    obtain ⟨rfl, hstore⟩ := store_of_room_zero hroom (r := r) σ.mem hlen
    rw [hstore]
    simp
  unfold processCall at hc
  dsimp only at hc
  split_ifs at hc with hread hwrite hopen hclose
  · obtain ⟨bs, hbs, rfl⟩ := Option.map_eq_some_iff.mp hc
    obtain ⟨hall, _, hstore⟩ := h.buffer hbs env.bufEntry₀
    refine ⟨.readCall _ _ _, by rw [guestRequest, if_pos hread], rfl, ?_, ?_, ?_⟩
    · exact fun hbad => hbad.2 (h.verify hall env.verifyEntry₀)
    · exact fun data hlen => (hstore data hlen).1
    · exact fun data hlen => (hstore data hlen).2
  · obtain ⟨bs, hbs, rfl⟩ := Option.map_eq_some_iff.mp hc
    obtain ⟨hall, hslice, _⟩ := h.buffer hbs env.bufEntry₀
    refine ⟨.writeCall _ _ _, by rw [guestRequest, if_neg hread, if_pos hwrite], ?_, ?_, ?_, ?_⟩
    · exact congrArg _ hslice
    · exact fun hbad => hbad.2 (h.verify hall env.verifyEntry₀)
    · exact fun data hlen => (hnone rfl data hlen).1
    · exact fun data hlen => (hnone rfl data hlen).2
  · obtain ⟨s, hs, rfl⟩ := Option.map_eq_some_iff.mp hc
    have hpath := h.path hs env.bufEntry₀
    refine ⟨.openCall _ _ _,
      by rw [guestRequest, if_neg hread, if_neg hwrite, if_pos hopen], ?_, ?_, ?_, ?_⟩
    · simp only [Request.decode, hpath]
    · rintro ⟨hcon | hcon, _⟩
      · exact hread hcon
      · exact hwrite hcon
    · exact fun data hlen => (hnone rfl data hlen).1
    · exact fun data hlen => (hnone rfl data hlen).2
  · obtain rfl := Option.some.inj hc
    refine ⟨.closeCall _,
      by rw [guestRequest, if_neg hread, if_neg hwrite, if_neg hopen, if_pos hclose],
      rfl, ?_, ?_, ?_⟩
    · rintro ⟨hcon | hcon, _⟩
      · exact hread hcon
      · exact hwrite hcon
    · exact fun data hlen => (hnone rfl data hlen).1
    · exact fun data hlen => (hnone rfl data hlen).2

end Requests

/-! ## One system call -/

/-- The exit for a call that is served: one request is interposed, and the guest goes on
behind the instruction. -/
theorem handleExit_of_request {ops : PluginOps} {interactive : Bool} {e : VmExit} {r : Request}
    (hreason : e.reason = .tripleFault) (hbefore : syscallBefore e = true)
    (hr : guestRequest e.env e.vm e.vcpu = some r) (hbuf : ¬ badBuffer e.env e.vm e.vcpu)
    (hquit : quits interactive e.env = false) :
    let p := interpose ops.installed (fun r => (e.env.callback r).verdict) e.env.host r
    handleExit ops interactive e =
      ⟨wreg (wreg e.vcpu .rip (rreg e.vcpu .rcx)) .rax (p.1.signExtend 64), false, true,
        p.2⟩ := by
  intro p
  have hdefault : handleExit ops interactive e = defaultExit ops interactive e := by
    rw [handleExit, hreason]
  rw [hdefault, defaultExit, if_pos hbefore]
  dsimp only
  have houtcome := emuSyscall_outcome ops interactive e.env e.vm
    (wreg e.vcpu .rip (rreg e.vcpu .rcx))
  generalize emuSyscall ops interactive e.env e.vm
    (wreg e.vcpu .rip (rreg e.vcpu .rcx)) = q at houtcome
  cases houtcome with
  | refused _ hrefused =>
      rcases hrefused with hnone | hbad | hquits
      · exact absurd (hr.symm.trans hnone) (by simp)
      · exact absurd hbad hbuf
      · exact absurd (hquit.symm.trans hquits) (by simp)
  | performed hr' _ =>
      obtain rfl := Option.some.inj (hr.symm.trans hr')
      simp [p]

section Simulation

variable {W : Type} {host : Host W} {interactive : Bool} {session : Nat → ExitData}
variable {l : List MemRegion}

/-- The user never answers `q`. -/
def Quiet (interactive : Bool) (session : Nat → ExitData) : Prop :=
  interactive = true → ∀ n, (session n).getchar.setWidth 8 ≠ (0x71 : Byte)

/-- hvexec holds what the process has, in the regions `l`. -/
structure Seen (l : List MemRegion) (s : Hosted W) (t : Process W) : Prop where
  space : ∃ T, AppSpace s.vm T l
  mem : t.mem = s.mem
  world : t.world = s.world

/-- A store of the application. -/
theorem Seen.store {s : Hosted W} {t : Process W} (h : Seen l s t) {a : U64} {b : Byte}
    (ha : (t.mem a).isSome) :
    ∃ s', (hosted host interactive session).step s (.store a b) = some (none, s') ∧
      Seen l s' { t with mem := Function.update t.mem a (some b) } := by
  obtain ⟨T, happ⟩ := h.space
  rw [h.mem, Hosted.mem, isSome_look] at ha
  obtain ⟨x, hx⟩ := Option.isSome_iff_exists.mp ha
  have hkeep : ∀ y, ¬ HostByte l y → Function.update s.vm.mem x b y = s.vm.mem y := by
    intro y hy
    refine Function.update_of_ne ?_ _ _
    rintro rfl
    exact hy (happ.hostByte hx)
  obtain ⟨happ', hwindows⟩ := happ.write hkeep
  refine ⟨{ s with vm := { s.vm with mem := Function.update s.vm.mem x b } }, ?_, ⟨T, happ'⟩,
    ?_, h.world⟩
  · show (s.vm.windows a).map _ = _
    rw [hx, Option.map_some]
  · show Function.update t.mem a (some b) = look _ _
    rw [hwindows, look_update happ.linear hx, h.mem, Hosted.mem]

/-- **A system call of the application.** -/
theorem Seen.syscall {s : Hosted W} {t : Process W} (h : Seen l s t)
    (hquiet : Quiet interactive session) {pc : U64} {regs : Reg → U64} {c : SysCall}
    (hpc : IsSyscallAt t.mem pc) (hc : processCall host.pathMax t.mem regs = some c) :
    let q := (host.kernel.under host.policy).call t.world c
    ∃ s', (hosted host interactive session).step s (.syscall pc regs) =
        some (some (afterSyscall regs pc q.2.rax), s') ∧
      Seen l s' ⟨storeFrom t.mem (regs .rsi) q.2.data, q.1⟩ := by
  obtain ⟨T, happ⟩ := h.space
  obtain ⟨mem, world⟩ := t
  obtain rfl : mem = s.mem := h.mem
  obtain rfl : world = s.world := h.world
  intro q
  obtain ⟨r, hr⟩ : ∃ r, Serves s.vm l host.pathMax (s.exit host (session s.exits) pc regs).env
      (s.exit host (session s.exits) pc regs).vcpu c r :=
    happ.serves (show processCall host.pathMax s.mem regs = some c from hc)
  have hbefore : syscallBefore (s.exit host (session s.exits) pc regs) = true :=
    (syscallBefore_iff _).mpr (happ.syscallBytes hpc _)
  have hquits : quits interactive (s.exit host (session s.exits) pc regs).env = false := by
    cases hint : interactive with
    | false => rfl
    | true => exact decide_eq_false (hquiet hint s.exits)
  have hhandled : handleExit host.policy.ops interactive
      (s.exit host (session s.exits) pc regs) =
        ⟨wreg (wreg (s.exit host (session s.exits) pc regs).vcpu .rip (pc + 2)) .rax
          ((host.mediate s.world s.vm.mem r).1.signExtend 64), false, true,
          (host.mediate s.world s.vm.mem r).2⟩ :=
    handleExit_of_request rfl hbefore hr.request hr.accepted hquits
  obtain ⟨hresult, hperform⟩ := host.perform_mediate s.world s.vm.mem r
  have hdecode := hr.decode
  subst hdecode
  have hfits := q.2.fits
  obtain ⟨happ', hwindows⟩ := happ.write (hr.kept _ hfits)
  refine ⟨⟨{ s.vm with mem := r.store s.vm.mem q.2.data }, q.1, s.exits + 1⟩, ?_,
    ⟨T, happ'⟩, ?_, rfl⟩
  · show (if IsSyscallAt s.mem pc then _ else none) = _
    rw [if_pos hpc]
    dsimp only
    rw [hhandled]
    dsimp only
    rw [if_neg (by simp), hperform, hresult]
    rfl
  · show storeFrom s.mem (regs .rsi) q.2.data = look _ _
    rw [hwindows, hr.seen _ hfits]
    rfl

/-- **hvexec simulates the process** on the kernel with the policy in front of it. -/
theorem hosted_simulates (hquiet : Quiet interactive session) :
    (hosted host interactive session).Simulates
      (native (host.kernel.under host.policy) host.pathMax) (Seen l) where
  view := fun _ _ h => h.mem.symm
  step := by
    intro s t act answer t' h hstep
    cases act with
    | store a b =>
        simp only [native] at hstep
        split_ifs at hstep with ha
        obtain ⟨rfl, rfl⟩ := Prod.mk.inj (Option.some.inj hstep)
        exact h.store ha
    | syscall pc regs =>
        simp only [native] at hstep
        split_ifs at hstep with hpc
        obtain ⟨c, hc, heq⟩ := Option.map_eq_some_iff.mp hstep
        obtain ⟨rfl, rfl⟩ := Prod.mk.inj heq
        exact h.syscall hquiet hpc hc

end Simulation

/-! ## Whole runs -/

/-- **hvexec is transparent.**  The application starts with its file in memory, the first
pages, and nothing else.  Whatever program it is, and however many steps it makes: if it
stays within its memory and the calls that are supported, it makes the same steps under
hvexec as on a kernel with the policy in front of it, gets the same answers, ends in the
same way, and leaves the same memory and the same world. -/
theorem application_transparent {W C : Type}
    (m : MainRun) (content : List Byte) (h : m.AppLoaded content)
    (σ : VmMem) (hσ : SameButLow m.afterApp.vm σ m.answer.valloc)
    (host : Host W) (interactive : Bool) (session : Nat → ExitData)
    (hquiet : Quiet interactive session) (w : W)
    (p : Client C (U64 → Option Byte) AppAction (Option (Reg → U64))) (n : Nat) (c : C) :
    let start : Process W := ⟨look σ.windows σ.mem, w⟩
    let t := (native (host.kernel.under host.policy) host.pathMax).run p n c start
    (∀ k (hk : k < content.length),
        start.mem (imageAddr + BitVec.ofNat 64 k) = some (content.get ⟨k, hk⟩)) ∧
      (∀ a, (start.mem a).isSome ↔ InRegion m.appRegions a) ∧
      (t.ending ≠ .givenUp →
        Service.SameRun (Seen m.appRegions)
          ((hosted host interactive session).run p n c ⟨σ, w, 0⟩) t) := by
  intro start t
  obtain ⟨T, happ, hfile⟩ := h.start hσ
  refine ⟨hfile, fun a => ?_, fun hend => ?_⟩
  · rw [isSome_look]
    refine ⟨happ.inRegion_of_isSome, fun ha => ?_⟩
    rw [happ.windows_of_mem ha]
    rfl
  · exact (hosted_simulates hquiet).run p n c _ _ ⟨⟨T, happ⟩, rfl, rfl⟩ hend

/-- The kernel was written to the first pages, which leaves the file alone. -/
theorem MainRun.Loaded.mappedFile {m : MainRun} {content : List Byte} (h : m.Loaded)
    (hfile : MappedFile m.afterInit.2 m.load content)
    (hapart : m.answer.valloc.toNat + 0x10000 ≤ m.load.mmap.toNat)
    (hwrap : m.load.mmap.toNat + (numPages m.load.stSize).toNat * 4096 ≤ 2 ^ 64) :
    MappedFile m.afterKernel.2 m.load content := by
  obtain ⟨_, hlow⟩ := h.lowMem
  obtain ⟨hsame, _, _⟩ := MainRun.afterKernel_low hlow h.load h.kernel
  refine ⟨hfile.size, hfile.nonempty, hfile.low, fun k hk => ?_⟩
  have hx : (m.load.mmap + BitVec.ofNat 64 k).toNat = m.load.mmap.toNat + k :=
    toNat_add_ofNat (by omega)
  rw [← hfile.bytes k hk]
  exact hsame.mem (by omega)

theorem bootRun_appLoaded : bootRun.AppLoaded (List.replicate 5 0) :=
  ⟨bootRun_loaded, bootRun_loaded.mappedFile bootSetUp_mappedFile (by decide) (by decide),
    by decide⟩

/-- The instruction is stored at `0x200` and executed. -/
def closeClient : Client Nat (U64 → Option Byte) AppAction (Option (Reg → U64)) where
  next := fun k _ =>
    match k with
    | 0 => some (.store 0x200 0x0F)
    | 1 => some (.store 0x201 0x05)
    | 2 => some (.syscall 0x200 (Function.update (fun _ => 0) .rax syscallClose))
    | _ => none
  resume := fun k _ => k + 1

/-- A host where every call succeeds with zero. -/
def zeroHost : Host Unit where
  kernel := ⟨fun w c => (w, .ofNat c 0)⟩
  policy := ⟨noPlugin, fun w _ => (w, none)⟩
  pathMax := 1024

/-- A process that has the two bytes runs to the end. -/
theorem closeClient_halts (start : Process Unit) (hlo : (start.mem 0x200).isSome)
    (hhi : (start.mem 0x201).isSome) :
    ((native (zeroHost.kernel.under zeroHost.policy) zeroHost.pathMax).run closeClient 4 0
      start).ending = .halted := by
  have hne : (0x201 : U64) ≠ 0x200 := by
    decide
  have hsecond : (Function.update start.mem 0x200 (some 0x0F) 0x201).isSome := by
    rw [Function.update_of_ne hne]
    exact hhi
  have hinstr : IsSyscallAt
      (Function.update (Function.update start.mem 0x200 (some 0x0F)) 0x201 (some 0x05)) 0x200 := by
    refine ⟨?_, Function.update_self _ _ _⟩
    rw [Function.update_of_ne hne.symm, Function.update_self]
  rw [Service.run_of_answered (a := .store 0x200 0x0F) rfl (if_pos hlo),
    Service.run_of_answered (a := .store 0x201 0x05) rfl (if_pos hsecond),
    Service.run_of_answered
      (a := .syscall 0x200 (Function.update (fun _ => 0) .rax syscallClose)) rfl
      (if_pos (e := none) hinstr),
    Service.run_of_halted rfl]

theorem application_transparent_bootRun :
    ((hosted zeroHost false fun _ => ⟨fun _ => 0, 0, 0, fun _ => 0, 0⟩).run closeClient 4 0
      ⟨bootRun.afterApp.vm, (), 0⟩).ending = .halted := by
  obtain ⟨_, hmem, hsame⟩ := application_transparent bootRun _ bootRun_appLoaded
    bootRun.afterApp.vm (SameButLow.refl _ _) zeroHost false
    (fun _ => ⟨fun _ => 0, 0, 0, fun _ => 0, 0⟩) (fun hcon => absurd hcon (by simp)) ()
    closeClient 4 0
  obtain ⟨hfirst_lo, hfirst_hi, _⟩ := bootRun.firstRegion_bounds
  -- which state it is does not matter from here on
  generalize bootRun.afterApp.vm = σ at hmem hsame ⊢
  have hlow : ∀ a : U64, a.toNat < 0x10000 → (look σ.windows σ.mem a).isSome := by
    intro a ha
    refine (hmem a).mpr ⟨bootRun.firstRegion, List.mem_cons_self, ?_, ?_⟩
    · rw [hfirst_lo]
      exact Nat.zero_le _
    · rw [hfirst_hi]
      exact ha
  have hend := closeClient_halts ⟨look σ.windows σ.mem, ()⟩ (hlow 0x200 (by decide))
    (hlow 0x201 (by decide))
  exact (hsame (ne_of_eq_of_ne hend (by decide))).ending.trans hend

end Hvexec
