import Hvexec.Confinement

/-!
# The path of open

`open` takes the host address of the first byte of the guest's path and hands it over.
Nothing checks that there is such a byte, that the string ends, or that its later pages lie
behind the first one in host memory; `read` and `write` ask `vm_mem_verify` at least.

So the host gets the guest's string exactly when the string is all there, and what follows
its first page in host memory is what follows it in the guest.  This holds of any contents
of the tables, those of `map_gva` or others.
-/

namespace Hvexec

open Interposition

section State

variable {σ : VmMem}

/-! ## Strings -/

/-- The byte that the guest finds at `gva`. -/
def VmMem.guestByte (σ : VmMem) (gva : U64) : Option Byte :=
  (σ.translate gva).bind σ.byteAt

/-- The guest has a string at `gva` whose first NUL is at `gva + n`. -/
structure GuestString (σ : VmMem) (gva : U64) (n : Nat) : Prop where
  reachable : ∀ i ≤ n, Reachable σ (gva + BitVec.ofNat 64 i)
  ends : σ.guestByte (gva + BitVec.ofNat 64 n) = some 0
  first : ∀ i < n, σ.guestByte (gva + BitVec.ofNat 64 i) ≠ some 0

/-- The host byte `i` places after `path` is the guest's byte after `gva`, in the memory
behind the regions. -/
structure SameByte (σ : VmMem) (gva path : U64) (i : Nat) : Prop where
  byte : σ.guestByte (gva + BitVec.ofNat 64 i) = some (σ.mem (path + BitVec.ofNat 64 i))
  inside : ∃ p ∈ σ.memRegions, p.hostLo ≤ (path + BitVec.ofNat 64 i).toNat ∧
    (path + BitVec.ofNat 64 i).toNat < p.hostHi

/-- What `open` promises about its path: the calls it makes are for the guest's string, or
there is none and an error is returned. -/
def PathGuarded (σ : VmMem) (gva : U64) (r : Emulated) : Prop :=
  (r.code ≠ 0 ∧ r.calls = []) ∨
    ∃ n path, GuestString σ gva n ∧ (∀ i ≤ n, SameByte σ gva path i) ∧
      ∀ c ∈ r.calls, ∃ flags mode, c.request = .openCall path flags mode

theorem Reachable.guestByte (h : GuestState σ) {gva : U64} (hgva : Reachable σ gva) :
    σ.guestByte gva = some (σ.mem (hostAddr σ gva)) := by
  obtain ⟨x, hx, hin⟩ := hgva
  have hnull := (gpaToHva_ne_zero_iff h.regions h.host x).mpr hin
  rw [VmMem.guestByte, hx, Option.bind_some, VmMem.byteAt, if_neg hnull, hostAddr,
    h.gvaToGpa_of_translate hx]

/-- As far as host memory goes on with the pages of a string, it goes on with its bytes. -/
theorem GuestString.sameByte (h : GuestState σ) {gva : U64} {n : Nat}
    (hstring : GuestString σ gva n) {i : Nat} (hi : i ≤ n)
    (hcontiguous : Contiguous σ gva (i + 1)) :
    SameByte σ gva (hostAddr σ gva) i := by
  have hin : ∀ j ≤ n, InRegion σ.memRegions (gvaToGpa σ 0 (gva + BitVec.ofNat 64 j)) := by
    intro j hj
    obtain ⟨x, hx, hin⟩ := hstring.reachable j hj
    rwa [h.gvaToGpa_of_translate hx]
  have haddr := hostAddr_add h.regions (fun j hj => hin j (hj.le.trans hi)) hcontiguous
  constructor
  · rw [(hstring.reachable i hi).guestByte h, haddr]
  · rw [← haddr]
    exact gpaToHva_mem_block h.regions h.host (hin i hi)

/-- The pointer that is handed over for a string. -/
theorem GuestString.hostAddr_eq (h : GuestState σ) {gva : U64} {n : Nat}
    (hstring : GuestString σ gva n) (entry₀ : U64) :
    gpaToHva σ.memRegions (gvaToGpa σ entry₀ gva) = hostAddr σ gva := by
  obtain ⟨x, hx, _⟩ := hstring.reachable 0 (Nat.zero_le n)
  rw [BitVec.add_zero] at hx
  rw [hostAddr, h.gvaToGpa_of_translate hx, h.gvaToGpa_of_translate hx]

end State

/-- **When `open` gets the guest's path.**  In every state of the guest, whatever the tables
hold, the calls of `open` are for the string at RDI, or there is none and an error is
returned, if and only if the user quits, or the guest has a string at RDI and host memory
continues it after its first page as the guest's memory does. -/
theorem emuSyscallOpen_guarded_iff (σ : VmMem) (h : GuestState σ)
    (ops : PluginOps) (interactive : Bool) (env : SyscallEnv) (v : Vcpu) :
    PathGuarded σ (rreg v .rdi) (emuSyscallOpen ops interactive env σ v) ↔
      quits interactive env = true ∨
        ∃ n, GuestString σ (rreg v .rdi) n ∧
          ∀ i ≤ n, 4096 ≤ (rreg v .rdi).toNat % 4096 + i →
            SameByte σ (rreg v .rdi) (hostAddr σ (rreg v .rdi)) i := by
  rw [emuSyscallOpen, mediateCall_eq]
  split_ifs with hquit
  · simp [PathGuarded, hquit]
  simp only [PathGuarded, hquit, Bool.false_eq_true, false_or, ne_eq, not_true_eq_false,
    false_and]
  constructor
  · rintro ⟨n, path, hstring, hsame, hcalls⟩
    refine ⟨n, hstring, fun i hi _ => ?_⟩
    -- some call is made, and it is for the pointer of this string
    obtain ⟨c, hc⟩ : ∃ c, c ∈ (interpose ops.installed
        (fun r => (env.callback r).verdict) env.host (.openCall
          (gpaToHva σ.memRegions (gvaToGpa σ env.bufEntry₀ (rreg v .rdi)))
          ((rreg v .rsi).setWidth 32) ((rreg v .rdx).setWidth 32))).2 :=
      exists_mem_interpose
    obtain ⟨flags, mode, hrequest⟩ := hcalls c hc
    rw [interpose_requests.1 c hc] at hrequest
    obtain ⟨rfl, _⟩ := Request.openCall.inj hrequest
    rw [← hstring.hostAddr_eq h env.bufEntry₀]
    exact hsame i hi
  · rintro ⟨n, hstring, hbeyond⟩
    refine ⟨n, hostAddr σ (rreg v .rdi), hstring, fun i hi => ?_, fun c hc => ?_⟩
    · by_cases hpage : (rreg v .rdi).toNat % 4096 + i < 4096
      · exact hstring.sameByte h hi (contiguous_of_page hpage)
      · exact hbeyond i hi (Nat.le_of_not_lt hpage)
    · rw [interpose_requests.1 c hc, hstring.hostAddr_eq h]
      exact ⟨_, _, rfl⟩

/-- What the guest wrote to the initial region it finds there. -/
theorem SetUp.Ok.guestByte_own {s : SetUp} (h : s.Ok) (hn : s.numPages.setWidth 64 ≠ (1 : U64))
    {mem : U64 → Byte} (hmem : ∀ x, ¬ s.OwnByte x → mem x = s.afterLoad.vm.mem x)
    {a : U64} (ha : a.toNat < s.numPages.toNat * 4096) :
    Reachable (s.withMem mem) a ∧
      (s.withMem mem).guestByte a = some (mem (s.answer.valloc + a)) := by
  have htranslate := h.translate_own hn hmem ha
  obtain ⟨haddr, hnull⟩ := h.gpaToHva_own ha
  obtain ⟨hregions, hhost⟩ := h.built.regionsOk
  refine ⟨⟨a, htranslate, (gpaToHva_ne_zero_iff hregions hhost a).mp hnull⟩, ?_⟩
  rw [VmMem.guestByte, htranslate, Option.bind_some]
  exact (if_neg hnull).trans (congrArg (fun x => some (mem x)) haddr)

/-- A guest that asks to open a path. -/
def openVcpu (path : U64) : Vcpu where
  regs := fun r => if r = .rdi then path else 0
  vmcs := fun _ => 0

/-- The guest wrote the string `a` to its first page. -/
def pathMem : U64 → Byte :=
  fun x => if x = 0x60000000 then 0x61 else if x = 0x60000001 then 0
    else bootSetUp.afterLoad.vm.mem x

theorem pathMem_own {x : U64} (hx : ¬ bootSetUp.OwnByte x) :
    pathMem x = bootSetUp.afterLoad.vm.mem x := by
  have hblock : bootSetUp.answer.valloc.toNat = 0x60000000 ∧
      (bootSetUp.numPages.setWidth 64).toNat = 16 := by
    decide
  unfold SetUp.OwnByte at hx
  rw [hblock.1, hblock.2] at hx
  have hfirst : x ≠ 0x60000000 := by
    rintro rfl
    exact hx (by decide)
  have hsecond : x ≠ 0x60000001 := by
    rintro rfl
    exact hx (by decide)
  rw [pathMem, if_neg hfirst, if_neg hsecond]

/-- A byte of the first pages. -/
theorem guestByte_pathMem {a : U64} (ha : a.toNat < 0x10000) :
    Reachable (bootSetUp.withMem pathMem) a ∧
      (bootSetUp.withMem pathMem).guestByte a = some (pathMem (0x60000000 + a)) := by
  have hnum : bootSetUp.numPages.toNat * 4096 = 0x10000 := by
    decide
  exact bootSetUp_ok.guestByte_own (by decide) (fun x hx => pathMem_own hx) (hnum ▸ ha)

theorem guestString_pathMem : GuestString (bootSetUp.withMem pathMem) 0 1 := by
  constructor
  · intro i hi
    obtain rfl | rfl : i = 0 ∨ i = 1 := by omega
    · exact (guestByte_pathMem (by decide)).1
    · exact (guestByte_pathMem (by decide)).1
  · exact (guestByte_pathMem (by decide)).2
  · intro i hi
    obtain rfl : i = 0 := Nat.lt_one_iff.mp hi
    rw [(guestByte_pathMem (by decide)).2]
    decide

theorem emuSyscallOpen_guarded_iff_bootSetUp :
    PathGuarded (bootSetUp.withMem pathMem) (rreg (openVcpu 0) .rdi)
      (emuSyscallOpen noPlugin false quietEnv (bootSetUp.withMem pathMem) (openVcpu 0)) := by
  have hbuilt := (bootSetUp_ok.write (by decide) fun x hx => pathMem_own hx).1
  refine (emuSyscallOpen_guarded_iff _ hbuilt.guestState noPlugin false quietEnv
    (openVcpu 0)).mpr (Or.inr ⟨1, guestString_pathMem, fun i hi hpage => ?_⟩)
  have hzero : (rreg (openVcpu 0) .rdi).toNat = 0 := rfl
  omega

/-- A path at `0x10000`, where nothing is mapped, is opened all the same: the host gets the
bytes of the first page. -/
theorem open_unmapped :
    GuestState bootSetUp.afterLoad.vm ∧
      (emuSyscallOpen noPlugin false quietEnv bootSetUp.afterLoad.vm
        (openVcpu 0x10000)).calls.map Call.request = [.openCall 0x60000000 0 0] ∧
      ¬ PathGuarded bootSetUp.afterLoad.vm (rreg (openVcpu 0x10000) .rdi)
        (emuSyscallOpen noPlugin false quietEnv bootSetUp.afterLoad.vm (openVcpu 0x10000)) := by
  refine ⟨bootSetUp_ok.built.guestState, ?_, ?_⟩
  · exact congrArg (fun path => [Request.openCall path 0 0]) bootSetUp_beyond.1
  have hrdi : rreg (openVcpu 0x10000) .rdi = 0x10000 := rfl
  rw [hrdi]
  rintro (⟨hcode, _⟩ | ⟨n, path, hstring, _⟩)
  · exact hcode rfl
  · obtain ⟨x, hx, _⟩ := hstring.reachable 0 (Nat.zero_le n)
    rw [BitVec.add_zero, VmMem.translate, bootSetUp_lookup] at hx
    simp at hx

end Hvexec
