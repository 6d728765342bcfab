import Hvexec.MainRun

/-!
# The hand-over to the boot code

`main` leaves three numbers of 64 bits and the address of the PML4 on the stack
of the virtual processor, and boot.asm pops them as words of 32 bits.  In between
`main` loads two files and writes the arguments, all of it above the stack.
-/

namespace Hvexec

open ByteMemory IntervalList BlockWrites

/-! ## boot.asm -/

/-- The instructions at the start of boot.asm, all in 32-bit mode without paging. -/
inductive BootInstr
  | popEax
  | movToMem (label : BitVec 32)
  | movCr3Eax
  | pushEax

/-- The labels at the end of boot.asm, one word each, and the entry code. -/
def bootEntry (appEntry : BitVec 32) : List BootInstr :=
  let appEntryHigh := appEntry + 4
  let appArgc := appEntry + 8
  let appArgcHigh := appEntry + 12
  let appArgv := appEntry + 16
  let appArgvHigh := appEntry + 20
  [.popEax, .movToMem appEntry, .popEax, .movToMem appEntryHigh,
    .popEax, .movToMem appArgc, .popEax, .movToMem appArgcHigh,
    .popEax, .movToMem appArgv, .popEax, .movToMem appArgvHigh,
    .popEax, .movCr3Eax, .pushEax]

/-- The guest while it runs boot.asm; its memory is what the regions map. -/
structure Boot where
  vm : VmMem
  eax : BitVec 32
  esp : BitVec 32
  cr3 : BitVec 32

def Boot.start (v : Vcpu) (σ : VmMem) : Boot where
  vm := σ
  eax := (rreg v .rax).setWidth 32
  esp := (rreg v .rsp).setWidth 32
  cr3 := (v.readVmcs .guestCr3).setWidth 32

/-- The word at an address. -/
def readU32 (σ : VmMem) (gpa : U64) : BitVec 32 :=
  BitVec.ofNat 32 (leNat (vmMemRead σ gpa (leBytes 4 0)).2)

def writeU32 (σ : VmMem) (gpa : U64) (w : BitVec 32) : VmMem :=
  (vmMemWrite σ gpa (leBytes 4 w.toNat)).2

def Boot.step (b : Boot) : BootInstr → Boot
  | .popEax => { b with eax := readU32 b.vm (b.esp.setWidth 64), esp := b.esp + 4 }
  | .movToMem label => { b with vm := writeU32 b.vm (label.setWidth 64) b.eax }
  | .movCr3Eax => { b with cr3 := b.eax }
  | .pushEax =>
      { b with vm := writeU32 b.vm ((b.esp - 4).setWidth 64) b.eax, esp := b.esp - 4 }

def Boot.run (b : Boot) (is : List BootInstr) : Boot :=
  is.foldl Boot.step b

/-! ## What main leaves -/

section Main

variable {σ τ : VmMem} {hva : U64}

/-- One `push64` on the kernel stack. -/
theorem push64_low {v : Vcpu} {sp : U64} (h : LowMem σ hva) (hsp : rreg v .rsp = sp)
    (hlo : 8 ≤ sp.toNat) (hhi : sp.toNat ≤ 0x10000) (val : U64) :
    let p := push64 v σ val
    rreg p.2.1 .rsp = sp - 8 ∧ LowMem p.2.2 hva ∧
      Holds p.2.2 (sp - 8) (leBytes 8 val.toNat) ∧
      ∀ {x : U64} {bs : List Byte}, Holds σ x bs → sp.toNat ≤ x.toNat →
        Holds p.2.2 x bs := by
  intro p
  have hlen : (leBytes 8 val.toNat).length = 8 := length_leBytes 8 val.toNat
  have height : (8 : U64).toNat = 8 := rfl
  have hnext : (sp - 8).toNat = sp.toNat - 8 := by
    rw [BitVec.toNat_sub_of_le (by rw [BitVec.le_def, height]; exact hlo), height]
  have hlow : (sp - 8).toNat + (leBytes 8 val.toNat).length ≤ 0x10000 := by
    omega
  have hp : p = (0, wreg v .rsp (sp - 8),
      (vmMemWrite σ (sp - 8) (leBytes 8 val.toNat)).2) := by
    show push v σ (leBytes 8 val.toNat) = _
    rw [push, hsp, hlen]
    exact if_neg (not_not.mpr ((h.write_low hlow).1.trans hlen))
  rw [hp]
  refine ⟨by simp [rreg_wreg], h.write _ _, h.holds_write hlow, ?_⟩
  intro x bs hx hle
  exact h.holds_above hx hlow (by omega)

/-- The three numbers lie on the stack, one on top of the other. -/
theorem pushAll_low {v : Vcpu} (h : LowMem σ hva) (hsp : rreg v .rsp = confStackAddr - 4)
    (argc entryGva : U64) :
    let p := MainRun.pushAll v σ argc entryGva
    rreg p.1 .rsp = 0x6FE4 ∧ LowMem p.2 hva ∧
      Holds p.2 0x6FE4 ((leBytes 8 entryGva.toNat ++ leBytes 8 argc.toNat) ++
        leBytes 8 confArgvAddr.toNat) ∧
      ∀ {x : U64} {bs : List Byte}, Holds σ x bs → 0x6FFC ≤ x.toNat → Holds p.2 x bs := by
  have hargv_sp : confStackAddr - 4 - 8 = (0x6FF4 : U64) := by
    decide
  have hargc_sp : (0x6FF4 - 8 : U64) = 0x6FEC := by
    decide
  have hentry_sp : (0x6FEC - 8 : U64) = 0x6FE4 := by
    decide
  obtain ⟨hsp₁, h₁, hargv, hkeep₁⟩ :=
    push64_low h hsp (by decide) (by decide) confArgvAddr
  rw [hargv_sp] at hsp₁ hargv
  obtain ⟨hsp₂, h₂, hargc, hkeep₂⟩ := push64_low h₁ hsp₁ (by decide) (by decide) argc
  rw [hargc_sp] at hsp₂ hargc
  obtain ⟨hsp₃, h₃, hentry, hkeep₃⟩ := push64_low h₂ hsp₂ (by decide) (by decide) entryGva
  rw [hentry_sp] at hsp₃ hentry
  have hargc_next : (0x6FE4 + BitVec.ofNat 64 8 : U64) = 0x6FEC := by
    decide
  have hargv_next : (0x6FE4 + BitVec.ofNat 64 (8 + 8) : U64) = 0x6FF4 := by
    decide
  unfold MainRun.pushAll
  dsimp only
  refine ⟨hsp₃, h₃, ?_, fun hx hle => hkeep₃ (hkeep₂ (hkeep₁ hx ?_) ?_) ?_⟩
  · rw [Holds.append (by simp), Holds.append (by simp), List.length_append, length_leBytes,
      length_leBytes, hargc_next, hargv_next]
    exact ⟨⟨hentry, hkeep₃ hargc (by decide)⟩,
      hkeep₃ (hkeep₂ hargv (by decide)) (by decide)⟩
  · exact le_trans (by decide) hle
  · exact le_trans (by decide) hle
  · exact le_trans (by decide) hle

end Main

namespace MainRun

/-- `main` reaches `vcpu_run` with `out`, and the PML4 has an address of 32 bits. -/
structure Ok (m : MainRun) (out : Vcpu × VmMem) : Prop extends m.Loaded where
  launch : m.launch = some out
  root : m.afterInit.2.pml4Gpa.toNat < 2 ^ 32

/-- The labels of boot.asm are the last six words of the kernel. -/
def IsAppEntry (m : MainRun) (appEntry : BitVec 32) : Prop :=
  confStartAddr.toNat ≤ appEntry.toNat ∧
    appEntry.toNat + 24 = confStartAddr.toNat + m.kernel.content.length

variable {m : MainRun} {out : Vcpu × VmMem}

/-- **What `main` leaves**: the three numbers and the address of the PML4, one on
top of the other. -/
theorem Ok.stack (h : m.Ok out) :
    rreg out.1 .rsp = 0x6FE4 ∧ LowMem out.2 m.answer.valloc ∧
      Holds out.2 0x6FE4 ((leBytes 8 m.afterApp.entryoff.toNat ++ leBytes 8 m.args.length) ++
        leBytes 8 confArgvAddr.toNat) ∧
      Holds out.2 (confStackAddr - 4) (leBytes 4 m.afterInit.2.pml4Gpa.toNat) := by
  have hlaunch := h.launch
  unfold MainRun.launch at hlaunch
  split_ifs at hlaunch
  obtain ⟨σ, hargs, rfl⟩ := Option.map_eq_some_iff.mp hlaunch
  obtain ⟨hlow, hroot, _⟩ := h.afterApp_low
  have hroot_lo : (confStackAddr - 4).toNat = 0x6FFC := rfl
  obtain ⟨hlow, hkeep⟩ := hlow.setArgs hargs (by decide) (by decide)
  have hroot := hkeep hroot (by rw [hroot_lo, length_leBytes]; omega)
  obtain ⟨hrsp, hlow', hnums, hkeep'⟩ := pushAll_low hlow m.afterSetup_rsp
    (BitVec.ofNat 64 m.args.length) m.afterApp.entryoff
  refine ⟨hrsp, hlow', ?_, hkeep' hroot (by omega)⟩
  rwa [BitVec.toNat_ofNat, show 2 ^ 64 = 256 ^ 8 by norm_num, leBytes_mod] at hnums

end MainRun

/-! ## What boot.asm does -/

section Run

variable {hva : U64}

/-- `n` words are popped and stored from `label` on. -/
def storeWords : BitVec 32 → Nat → List BootInstr
  | _, 0 => []
  | label, n + 1 => .popEax :: .movToMem label :: storeWords (label + 4) n

theorem bootEntry_eq (appEntry : BitVec 32) :
    bootEntry appEntry = storeWords appEntry 6 ++ [.popEax, .movCr3Eax, .pushEax] := by
  simp [bootEntry, storeWords, BitVec.add_assoc]

theorem leBytes_readU32 {σ : VmMem} {gpa : U64} {w : List Byte} (h : Holds σ gpa w)
    (hlen : w.length = 4) (hwrap : gpa.toNat + 4 < 2 ^ 64) :
    leBytes 4 (readU32 σ gpa).toNat = w := by
  have hread : vmMemRead σ gpa (leBytes 4 0) = (w.length, w) :=
    h.read (by omega) (by rw [hlen]; rfl)
  have hlt := leNat_lt w
  rw [hlen] at hlt
  have hword : (readU32 σ gpa).toNat = leNat w := by
    rw [readU32, hread, BitVec.toNat_ofNat]
    exact Nat.mod_eq_of_lt (lt_of_lt_of_le hlt (by norm_num))
  have hbytes := leBytes_leNat w
  rwa [hlen, ← hword] at hbytes

/-- One word is popped and stored. -/
theorem Boot.pop_store {b : Boot} {label : BitVec 32} {w : List Byte}
    (h : LowMem b.vm hva) (hw : Holds b.vm (b.esp.setWidth 64) w) (hlen : w.length = 4)
    (hlabel : label.toNat + 4 ≤ 0x10000) :
    let b' := (b.step .popEax).step (.movToMem label)
    LowMem b'.vm hva ∧ b'.esp = b.esp + 4 ∧ b'.cr3 = b.cr3 ∧
      Holds b'.vm (label.setWidth 64) w ∧
      ∀ {x : U64} {bs : List Byte}, Holds b.vm x bs → x.toNat + bs.length ≤ label.toNat →
        Holds b'.vm x bs := by
  intro b'
  have hwide : (label.setWidth 64).toNat = label.toNat := by
    rw [BitVec.toNat_setWidth]
    have := label.isLt
    omega
  have hesp : (b.esp.setWidth 64).toNat + 4 < 2 ^ 64 := by
    rw [BitVec.toNat_setWidth]
    have := b.esp.isLt
    omega
  have hvm : b'.vm = (vmMemWrite b.vm (label.setWidth 64) w).2 := by
    show writeU32 b.vm _ _ = _
    rw [writeU32]
    show (vmMemWrite b.vm _ (leBytes 4 (readU32 b.vm (b.esp.setWidth 64)).toNat)).2 = _
    rw [leBytes_readU32 hw hlen hesp]
  rw [hvm]
  refine ⟨h.write _ _, rfl, rfl, h.holds_write (by omega), ?_⟩
  intro x bs hx hbelow
  exact h.holds_below hx (by omega)

/-- **The words of the stack are copied.** -/
theorem Boot.run_storeWords :
    ∀ {n : Nat} {b : Boot} {label : BitVec 32} {bs : List Byte},
      LowMem b.vm hva → Holds b.vm (b.esp.setWidth 64) bs → bs.length = 4 * n →
      b.esp.toNat + 4 * n ≤ 0x8000 → 0x8000 ≤ label.toNat → label.toNat + 4 * n ≤ 0x10000 →
      let b' := b.run (storeWords label n)
      LowMem b'.vm hva ∧ b'.esp.toNat = b.esp.toNat + 4 * n ∧ b'.cr3 = b.cr3 ∧
        Holds b'.vm (label.setWidth 64) bs ∧
        ∀ {x : U64} {bs' : List Byte}, Holds b.vm x bs' →
          x.toNat + bs'.length ≤ label.toNat → Holds b'.vm x bs'
  | 0, b, label, bs, h, hbs, hlen, _, _, _ => by
      rw [List.length_eq_zero_iff.mp hlen]
      refine ⟨h, rfl, rfl, ?_, fun hx _ => hx⟩
      intro y hlo hhi
      rw [List.length_nil] at hhi
      omega
  | n + 1, b, label, bs, h, hbs, hlen, hesp, hlo, hhi => by
      intro b'
      -- the word on top, and the words below it
      obtain ⟨w, rest, hw, rfl⟩ : ∃ w rest : List Byte, w.length = 4 ∧ bs = w ++ rest :=
        ⟨bs.take 4, bs.drop 4, by rw [List.length_take]; omega, (List.take_append_drop 4 bs).symm⟩
      have hrest : rest.length = 4 * n := by
        rw [List.length_append] at hlen
        omega
      have hwide : ∀ a : BitVec 32, (a.setWidth 64).toNat = a.toNat := by
        intro a
        rw [BitVec.toNat_setWidth]
        have := a.isLt
        omega
      have hfour : (4 : BitVec 32).toNat = 4 := rfl
      have hnext : ∀ a : BitVec 32, a.toNat + 4 < 2 ^ 32 → (a + 4).toNat = a.toNat + 4 := by
        intro a ha
        rw [BitVec.toNat_add, hfour]
        omega
      have hpart : ∀ a : BitVec 32, a.toNat + 4 < 2 ^ 32 →
          a.setWidth 64 + BitVec.ofNat 64 w.length = (a + 4).setWidth 64 := by
        intro a ha
        apply BitVec.eq_of_toNat_eq
        rw [BitVec.toNat_add, hwide, hwide, hnext a ha, BitVec.toNat_ofNat, hw]
        omega
      rw [Holds.append (by rw [hlen, hwide]; omega), hpart b.esp (by omega)] at hbs
      have hfit : label.toNat + 4 ≤ 0x10000 := by
        omega
      obtain ⟨h₁, hesp₁, hcr3₁, hword, hkeep₁⟩ := Boot.pop_store h hbs.1 hw hfit
      have hesp₁' : ((b.step .popEax).step (.movToMem label)).esp.toNat = b.esp.toNat + 4 := by
        rw [hesp₁]
        exact hnext b.esp (by omega)
      have hbelow : Holds ((b.step .popEax).step (.movToMem label)).vm
          (((b.step .popEax).step (.movToMem label)).esp.setWidth 64) rest := by
        rw [hesp₁]
        apply hkeep₁ hbs.2
        rw [hwide, hnext b.esp (by omega), hrest]
        omega
      obtain ⟨hrun, hespr, hcr3r, hwords, hkeepr⟩ := Boot.run_storeWords h₁ hbelow hrest
        (by omega) (by rw [hnext label (by omega)]; omega)
        (by rw [hnext label (by omega)]; omega)
      refine ⟨hrun, hespr.trans (by rw [hesp₁']; omega), hcr3r.trans hcr3₁, ?_, ?_⟩
      · rw [Holds.append (by rw [hlen, hwide]; omega), hpart label (by omega)]
        refine ⟨hkeepr hword ?_, hwords⟩
        rw [hwide, hnext label (by omega), hw]
      · intro x bs' hx hle
        exact hkeepr (hkeep₁ hx hle) (by rw [hnext label (by omega)]; omega)

/-- CR3 is loaded with the word on top of the stack, which stays there. -/
theorem Boot.run_root {b : Boot} {root : U64} (h : LowMem b.vm hva) (hesp : b.esp = 0x6FFC)
    (hroot : Holds b.vm 0x6FFC (leBytes 4 root.toNat)) (hlt : root.toNat < 2 ^ 32) :
    let b' := b.run [.popEax, .movCr3Eax, .pushEax]
    b'.cr3.setWidth 64 = root ∧ b'.esp = 0x6FFC ∧
      Holds b'.vm 0x6FFC (leBytes 4 root.toNat) ∧
      ∀ {x : U64} {bs : List Byte}, Holds b.vm x bs → 0x7000 ≤ x.toNat →
        Holds b'.vm x bs := by
  intro b'
  have hsp : b.esp.setWidth 64 = (0x6FFC : U64) := by
    rw [hesp]
    decide
  have hsp' : (b.esp + 4 - 4).setWidth 64 = (0x6FFC : U64) := by
    rw [BitVec.add_sub_cancel, hsp]
  have hword : leBytes 4 (readU32 b.vm 0x6FFC).toNat = leBytes 4 root.toNat :=
    leBytes_readU32 hroot (length_leBytes 4 _) (by decide)
  have heax : (readU32 b.vm 0x6FFC).setWidth 64 = root := by
    apply BitVec.eq_of_toNat_eq
    have hnum := congrArg leNat hword
    have hread := (readU32 b.vm 0x6FFC).isLt
    rw [leNat_leBytes, leNat_leBytes, Nat.mod_eq_of_lt (lt_of_lt_of_le hread (by norm_num)),
      Nat.mod_eq_of_lt (lt_of_lt_of_le hlt (by norm_num))] at hnum
    rw [BitVec.toNat_setWidth, hnum]
    omega
  have hvm : b'.vm = (vmMemWrite b.vm 0x6FFC (leBytes 4 root.toNat)).2 := by
    show writeU32 b.vm ((b.esp + 4 - 4).setWidth 64)
      (readU32 b.vm (b.esp.setWidth 64)) = _
    rw [hsp', hsp, writeU32, hword]
  have hlow : (0x6FFC : U64).toNat + (leBytes 4 root.toNat).length ≤ 0x7000 := by
    rw [length_leBytes]
    decide
  refine ⟨?_, ?_, ?_, ?_⟩
  · show (readU32 b.vm (b.esp.setWidth 64)).setWidth 64 = root
    rw [hsp, heax]
  · show b.esp + 4 - 4 = 0x6FFC
    rw [BitVec.add_sub_cancel, hesp]
  · rw [hvm]
    exact h.holds_write (by omega)
  · intro x bs hx hle
    rw [hvm]
    exact h.holds_above hx (by omega) (by omega)

end Run

/-! ## The hand-over -/

theorem bootRun_ok : ∃ out, bootRun.Ok out := by
  have hloaded := bootRun_loaded
  obtain ⟨σ, hargs⟩ : ∃ σ,
      setArgs bootRun.afterApp.vm confArgvAddr confArgsAddr bootRun.args = some σ :=
    hloaded.afterApp_low.1.setArgs_fits (by decide) (by decide)
  have hsetup : bootRun.afterSetup.1 = 0 := by
    rfl
  refine ⟨MainRun.pushAll bootRun.afterSetup.2.1 σ (BitVec.ofNat 64 bootRun.args.length)
    bootRun.afterApp.entryoff, hloaded, ?_, bootSetUp_fresh.root_low⟩
  unfold MainRun.launch
  rw [if_neg (not_not.mpr hloaded.init), if_neg (not_not.mpr hsetup),
    if_neg (not_not.mpr hloaded.load), if_neg (not_not.mpr hloaded.app),
    MainRun.afterArgs, hargs]
  rfl

end Hvexec
