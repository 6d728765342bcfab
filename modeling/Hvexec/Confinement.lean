import Hvexec.EmuSyscall
import Hvexec.BufferCheck

/-!
# The buffers of read and write

`read` and `write` check every byte of the guest's buffer, but hand over one host
address, that of the first byte, and a length.  The host then uses consecutive
bytes.  These are the bytes of the guest inside a page, and from one page to the
next only where the host addresses go on.

A buffer that the check accepts may well end in a page that is not there, or in
another region; then the host gets bytes that are none of the guest's.
-/

namespace Hvexec

open Interposition

/-- The host address of a byte of the guest. -/
def hostAddr (σ : VmMem) (gva : U64) : U64 :=
  gpaToHva σ.memRegions (gvaToGpa σ 0 gva)

/-- The buffer that a request hands over. -/
def Request.buffer : Request → Option (U64 × U64)
  | writeCall _ buf nbyte => some (buf, nbyte)
  | readCall _ buf nbyte => some (buf, nbyte)
  | openCall _ _ _ => none
  | closeCall _ => none

/-- The bytes at `buf` are those of the guest from `gva` on, and in the memory
behind the regions. -/
def IsImage (σ : VmMem) (gva buf nbyte : U64) : Prop :=
  ∀ i < nbyte.toNat,
    buf + BitVec.ofNat 64 i = hostAddr σ (gva + BitVec.ofNat 64 i) ∧
      ∃ p ∈ σ.memRegions,
        p.hostLo ≤ (buf + BitVec.ofNat 64 i).toNat ∧
          (buf + BitVec.ofNat 64 i).toNat < p.hostHi

/-- Every buffer handed over is the image of the guest's buffer. -/
def Confined (σ : VmMem) (gva : U64) (calls : List HostCall) : Prop :=
  ∀ c ∈ calls, ∀ buf nbyte, c.request.buffer = some (buf, nbyte) →
    IsImage σ gva buf nbyte

/-- Where the buffer enters another page, the host addresses go on. -/
def Contiguous (σ : VmMem) (gva : U64) (nbyte : Nat) : Prop :=
  ∀ i, i + 1 < nbyte → (gva + BitVec.ofNat 64 (i + 1)).toNat % 4096 = 0 →
    hostAddr σ (gva + BitVec.ofNat 64 (i + 1)) = hostAddr σ (gva + BitVec.ofNat 64 i) + 1

/-- A byte of the buffer lies outside the regions. -/
def OutOfRegions (σ : VmMem) (gva : U64) (nbyte : Nat) : Prop :=
  ∃ i < nbyte, ¬ InRegion σ.memRegions (strayed σ 0 (gva + BitVec.ofNat 64 i))

/-! ## Host addresses inside a page -/

/-- Regions are made of whole pages. -/
theorem gpaToHva_add_one {l : List MemRegion} (h : RegionsOk l) {x : U64}
    (hx : InRegion l x) (hpage : x.toNat % 4096 ≠ 4095) :
    gpaToHva l (x + 1) = gpaToHva l x + 1 := by
  obtain ⟨p, hp, hlo, hhi⟩ := hx
  have haligned := h.aligned p hp
  have hnext : x.toNat + 1 < p.hi := by
    unfold MemRegion.lo MemRegion.hi at *
    omega
  have heq := gpaToHva_offset h hp 1 hlo hnext
  rw [← gpaToHva_of_mem h hp hlo hhi] at heq
  exact heq

/-- The host address of a registered byte is in the block of its region. -/
theorem gpaToHva_mem_block {l : List MemRegion} (h : RegionsOk l) (hhost : HostOk l)
    {x : U64} (hx : InRegion l x) :
    ∃ p ∈ l, p.hostLo ≤ (gpaToHva l x).toNat ∧ (gpaToHva l x).toNat < p.hostHi := by
  obtain ⟨p, hp, hlo, hhi⟩ := hx
  obtain ⟨_, hwrap⟩ := hhost.block p hp
  refine ⟨p, hp, ?_⟩
  rw [gpaToHva_of_mem h hp hlo hhi]
  unfold MemRegion.lo MemRegion.hi MemRegion.hostLo MemRegion.hostHi at *
  constructor
  · bv_omega
  · bv_omega

/-- Host memory goes on as far as the guest's pages do. -/
theorem Contiguous.mono {σ : VmMem} {gva : U64} {m n : Nat} (h : Contiguous σ gva n)
    (hle : m ≤ n) :
    Contiguous σ gva m :=
  fun i hi hpage => h i (hi.trans_le hle) hpage

/-- A buffer in one page enters no other. -/
theorem contiguous_of_page {σ : VmMem} {gva : U64} {n : Nat}
    (h : gva.toNat % 4096 + n ≤ 4096) :
    Contiguous σ gva n := by
  intro i hi hpage
  rw [BitVec.toNat_add, BitVec.toNat_ofNat] at hpage
  omega

/-- Host addresses of bytes in the regions, up to a page where they do not go on. -/
theorem hostAddr_add {σ : VmMem} (h : RegionsOk σ.memRegions) {gva : U64} {i : Nat}
    (hin : ∀ j < i, InRegion σ.memRegions (gvaToGpa σ 0 (gva + BitVec.ofNat 64 j)))
    (hcontiguous : Contiguous σ gva (i + 1)) :
    hostAddr σ (gva + BitVec.ofNat 64 i) = hostAddr σ gva + BitVec.ofNat 64 i := by
  induction i with
  | zero =>
      simp
  | succ i ih =>
      have hstep : ∀ x : U64, x + BitVec.ofNat 64 (i + 1) = x + BitVec.ofNat 64 i + 1 := by
        intro x
        bv_omega
      rw [hstep (hostAddr σ gva), ← ih (fun j hj => hin j (by omega))
        (hcontiguous.mono (Nat.le_succ _))]
      by_cases hpage : (gva + BitVec.ofNat 64 (i + 1)).toNat % 4096 = 0
      · exact hcontiguous i (Nat.lt_succ_self _) hpage
      · -- both bytes are in one page
        have hlast : (gva + BitVec.ofNat 64 i).toNat % 4096 ≠ 4095 := by
          rw [hstep] at hpage
          bv_omega
        have hoffset : (gvaToGpa σ 0 (gva + BitVec.ofNat 64 i)).toNat % 4096 ≠ 4095 := by
          rw [gvaToGpa_eq_walk, toNat_withOffset]
          omega
        rw [hstep, hostAddr, hostAddr, gvaToGpa_add_one σ 0 hlast,
          gpaToHva_add_one h (hin i (Nat.lt_succ_self i)) hoffset]

section BuiltState

variable {σ : VmMem}

/-- With a PML4 the unassigned local does not matter. -/
theorem strayed_entry (hroot : σ.pml4 ≠ 0) (entry₀ gva : U64) :
    strayed σ entry₀ gva = strayed σ 0 gva := by
  simp only [strayed, if_neg hroot]

theorem Built.gvaToGpa_entry (h : Built σ) (hroot : σ.pml4 ≠ 0) (entry₀ gva : U64) :
    gvaToGpa σ entry₀ gva = gvaToGpa σ 0 gva := by
  rw [h.gvaToGpa_eq_strayed, h.gvaToGpa_eq_strayed, strayed_entry hroot]

theorem Built.rejects_iff (h : Built σ) (hroot : σ.pml4 ≠ 0)
    (entry₀ : Nat → U64) (gva nbyte : U64) :
    vmMemVerify σ entry₀ gva nbyte ≠ 0 ↔ OutOfRegions σ gva nbyte.toNat := by
  rw [Ne, h.vmMemVerify_eq_zero_iff]
  simp only [strayed_entry hroot]
  unfold OutOfRegions
  push Not
  rfl

/-- **An accepted buffer** is handed over as it is exactly when the host addresses
go on from page to page. -/
theorem Built.isImage_iff (h : Built σ) {gva nbyte : U64} (hin : ¬ OutOfRegions σ gva nbyte.toNat) :
    IsImage σ gva (hostAddr σ gva) nbyte ↔ Contiguous σ gva nbyte.toNat := by
  obtain ⟨hregions, hhost⟩ := h.regionsOk
  have hinside : ∀ i < nbyte.toNat,
      InRegion σ.memRegions (gvaToGpa σ 0 (gva + BitVec.ofNat 64 i)) := by
    intro i hi
    by_contra hcon
    rw [h.gvaToGpa_eq_strayed] at hcon
    exact hin ⟨i, hi, hcon⟩
  have hstep : ∀ (x : U64) (i : Nat),
      x + BitVec.ofNat 64 (i + 1) = x + BitVec.ofNat 64 i + 1 := by
    intro x i
    bv_omega
  constructor
  · intro himage i hi _
    rw [← (himage (i + 1) hi).1, ← (himage i (by omega)).1, hstep]
  · intro hcontiguous i hi
    have heq : hostAddr σ (gva + BitVec.ofNat 64 i) = hostAddr σ gva + BitVec.ofNat 64 i :=
      hostAddr_add hregions (fun j hj => hinside j (hj.trans hi)) (hcontiguous.mono hi)
    rw [← heq]
    exact ⟨rfl, gpaToHva_mem_block hregions hhost (hinside i hi)⟩

/-- What `read` and `write` have in common. -/
theorem Built.confined_iff (h : Built σ) (hroot : σ.pml4 ≠ 0)
    (ops : PluginOps) (interactive : Bool) (env : SyscallEnv) (v : Vcpu)
    {r : Request} {gva nbyte : U64}
    (hr : r.buffer = some (gpaToHva σ.memRegions (gvaToGpa σ env.bufEntry₀ gva), nbyte)) :
    Confined σ gva
        (if vmMemVerify σ env.verifyEntry₀ gva nbyte ≠ 0 then (⟨-1, v, []⟩ : Emulated)
          else mediateCall ops interactive env v r).calls ↔
      OutOfRegions σ gva nbyte.toNat ∨ quits interactive env = true ∨
        Contiguous σ gva nbyte.toNat := by
  rw [mediateCall_eq]
  split_ifs with hverify hquit
  · have hout := (h.rejects_iff hroot _ gva nbyte).mp hverify
    simp [Confined, hout]
  · simp [Confined, hquit]
  · have hin := mt (h.rejects_iff hroot env.verifyEntry₀ gva nbyte).mpr hverify
    rw [h.gvaToGpa_entry hroot] at hr
    simp only [hin, hquit, Bool.false_eq_true, false_or]
    rw [← h.isImage_iff hin]
    constructor
    · intro hconfined
      obtain ⟨c, hc⟩ : ∃ c, c ∈ (interpose ops.installed
          (fun r => (env.callback r).verdict) env.host r).2 :=
        exists_mem_interpose
      refine hconfined c hc _ _ ?_
      rw [interpose_requests.1 c hc]
      exact hr
    · intro himage c hc buf n hbuf
      rw [interpose_requests.1 c hc, hr] at hbuf
      obtain ⟨rfl, rfl⟩ := Prod.mk.inj (Option.some.inj hbuf)
      exact himage

end BuiltState

/-- **When read and write stay in the guest.**  In every state of a set-up, the
buffer that `read` or `write` hands over is the image of the guest's buffer, in
the memory behind the regions, if and only if nothing is handed over, because
some byte lies outside the regions or the user quits, or the host addresses of
the guest's buffer go on from page to page. -/
theorem readWrite_confined_iff
    (σ : VmMem) (h : Built σ) (hroot : σ.pml4 ≠ 0)
    (ops : PluginOps) (interactive : Bool) (env : SyscallEnv) (v : Vcpu) :
    (Confined σ (rreg v .rsi) (emuSyscallWrite ops interactive env σ v).calls ↔
      OutOfRegions σ (rreg v .rsi) (rreg v .rdx).toNat ∨ quits interactive env = true ∨
        Contiguous σ (rreg v .rsi) (rreg v .rdx).toNat) ∧
    (Confined σ (rreg v .rsi) (emuSyscallRead ops interactive env σ v).calls ↔
      OutOfRegions σ (rreg v .rsi) (rreg v .rdx).toNat ∨ quits interactive env = true ∨
        Contiguous σ (rreg v .rsi) (rreg v .rdx).toNat) :=
  ⟨h.confined_iff hroot ops interactive env v rfl,
    h.confined_iff hroot ops interactive env v rfl⟩

/-! ## A buffer that leaves the guest -/

/-- A guest that asks to write or to read a buffer. -/
def bufferVcpu (gva nbyte : U64) : Vcpu where
  regs := fun r =>
    if r = .rdi then 1 else if r = .rsi then gva else if r = .rdx then nbyte else 0
  vmcs := fun _ => 0

/-- A host that writes everything. -/
def quietEnv : SyscallEnv where
  getchar := 0
  callback := fun _ => ⟨0, 0⟩
  host := fun _ => 2
  verifyEntry₀ := fun _ => 0
  bufEntry₀ := 0

theorem bootSetUp_root : bootSetUp.afterLoad.vm.pml4 ≠ 0 := by
  intro hnull
  have hlookup : bootSetUp.afterLoad.vm.lookup 0x100000004 =
      .error (indices 0x100000004) := if_pos hnull
  rw [bootSetUp_lookup_image] at hlookup
  simp at hlookup

/-- The last byte of the first 16 pages. -/
theorem bootSetUp_edge :
    hostAddr bootSetUp.afterLoad.vm 0xFFFF = 0x6000FFFF ∧
      strayed bootSetUp.afterLoad.vm 0 0xFFFF = 0xFFFF := by
  have hown : (0xFFFF : U64).toNat < bootSetUp.numPages.toNat * 4096 := by
    decide
  have htranslate : bootSetUp.afterLoad.vm.translate 0xFFFF = some 0xFFFF :=
    bootSetUp_ok.translate_afterLoad (by decide) hown
  have hgpa := bootSetUp_ok.built.gvaToGpa_of_translate htranslate 0
  have hstrayed := bootSetUp_ok.built.gvaToGpa_eq_strayed 0 0xFFFF
  constructor
  · rw [hostAddr, hgpa]
    exact (bootSetUp_ok.gpaToHva_own hown).1.trans (by decide)
  · rw [← hstrayed, hgpa]

/-- The byte after it, which is not present, is taken from physical zero. -/
theorem bootSetUp_beyond :
    hostAddr bootSetUp.afterLoad.vm 0x10000 = 0x60000000 ∧
      strayed bootSetUp.afterLoad.vm 0 0x10000 = 0 := by
  have hstrayed : strayed bootSetUp.afterLoad.vm 0 0x10000 = 0 :=
    BitVec.eq_of_toNat_eq (toNat_strayed bootSetUp_lookup 0)
  refine ⟨?_, hstrayed⟩
  rw [hostAddr, bootSetUp_ok.built.gvaToGpa_eq_strayed, hstrayed]
  exact (bootSetUp_ok.gpaToHva_own (a := 0) (by decide)).1.trans (by decide)

/-- Two bytes from the last byte of the first 16 pages on: the check accepts them,
and the second one handed over is not the guest's. -/
theorem write_leaves_guest :
    ¬ Confined bootSetUp.afterLoad.vm (rreg (bufferVcpu 0xFFFF 2) .rsi)
      (emuSyscallWrite noPlugin false quietEnv bootSetUp.afterLoad.vm
        (bufferVcpu 0xFFFF 2)).calls := by
  have hrsi : rreg (bufferVcpu 0xFFFF 2) .rsi = 0xFFFF := rfl
  have htwo : (2 : U64).toNat = 2 := rfl
  have hnext : (0xFFFF : U64) + BitVec.ofNat 64 1 = 0x10000 := by
    decide
  have hin : ¬ OutOfRegions bootSetUp.afterLoad.vm 0xFFFF (2 : U64).toNat := by
    rintro ⟨i, hi, hout⟩
    apply hout
    obtain rfl | rfl : i = 0 ∨ i = 1 := by omega
    · rw [BitVec.add_zero, bootSetUp_edge.2]
      exact bootSetUp_region (by decide)
    · rw [hnext, bootSetUp_beyond.2]
      exact bootSetUp_region (by decide)
  rw [hrsi]
  intro hconfined
  have hcontiguous :=
    ((bootSetUp_ok.built.confined_iff bootSetUp_root noPlugin false quietEnv
      (bufferVcpu 0xFFFF 2)
      (r := .writeCall 1 _ 2) rfl).mp hconfined).resolve_left hin
  have hpage := (hcontiguous.resolve_left (by decide)) 0 (by decide) (by decide)
  rw [hnext, BitVec.add_zero, bootSetUp_beyond.1, bootSetUp_edge.1] at hpage
  exact absurd hpage (by decide)

theorem readWrite_confined_iff_bootSetUp :
    Confined bootSetUp.afterLoad.vm (rreg (bufferVcpu 0xFFFF 1) .rsi)
      (emuSyscallRead noPlugin false quietEnv bootSetUp.afterLoad.vm
        (bufferVcpu 0xFFFF 1)).calls := by
  have hiff := (readWrite_confined_iff bootSetUp.afterLoad.vm bootSetUp_ok.built
    bootSetUp_root noPlugin false quietEnv (bufferVcpu 0xFFFF 1)).2
  refine hiff.mpr (Or.inr (Or.inr ?_))
  intro i hi
  have hone : (rreg (bufferVcpu 0xFFFF 1) .rdx).toNat = 1 := rfl
  omega

end Hvexec
