import Hvexec.BootSequence

/-!
# The segments of the boot code

In long mode boot.asm loads its GDT and its IDT, the data segments and the task register,
after it has written the task segment below the arguments.  The far jump then selects 64-bit
mode.
-/

namespace Hvexec

open ByteMemory IntervalList

/-! ## The tables and the data segments -/

section Segments

variable {m : MainRun} {content : List Byte} {asm : BootAsm → List Byte}
  {code is rest : List BootAsm} {w : Monitor} {s : Machine} {i : BootAsm}

/-- The tables of the kernel, and the processor that uses its GDT. -/
structure GdtLoaded (l : Labels) (s : Machine) : Prop where
  base : s.vcpu.readVmcs .guestGdtrBase = l.gdt.setWidth 64
  limit : s.vcpu.readVmcs .guestGdtrLimit = 55

/-- LGDT and LIDT. -/
theorem Running.loadTable (h : m.AppLoaded content) (hr : Running m asm code s (i :: is))
    (limit base : VmcsField) {a x y : U64} (hmode : s.is64 = i.bits64)
    (hexec : s.exec w (asm i).length i = (s.load .ds a 6).map fun bs =>
      { s with
        vcpu := (s.vcpu.writeVmcs limit (BitVec.ofNat 64 (leNat (bs.take 2)))).writeVmcs base
          (BitVec.ofNat 64 (leNat (bs.drop 2))) }.next (asm i).length)
    (hbs : Holds s.vm a (dw x ++ dd y)) (hlow : a.toNat + 6 ≤ 0x10000)
    (hx : x.toNat < 2 ^ 16) (hy : y.toNat < 2 ^ 32) (hne : limit ≠ base)
    (hroot : ∀ f ∈ [VmcsField.guestCr0, .guestIa32Efer, .guestCr3], f ∉ [limit, base])
    (hsegs : ∀ seg ∈ [Seg.cs, Seg.ss, Seg.ds],
      seg.base ∉ [limit, base] ∧ seg.limit ∉ [limit, base]) :
    ∃ s', Runs m asm code w [i] is [] [limit, base] s s' ∧
      s'.vcpu.readVmcs limit = x ∧ s'.vcpu.readVmcs base = y ∧ s'.vm = s.vm := by
  have hx' : BitVec.ofNat 64 (leNat ((dw x ++ dd y).take 2)) = x := by
    have htake : (dw x ++ dd y).take 2 = leBytes 2 x.toNat := rfl
    rw [htake, leNat_leBytes, Nat.mod_eq_of_lt (by omega), BitVec.ofNat_toNat,
      BitVec.setWidth_eq]
  have hy' : BitVec.ofNat 64 (leNat ((dw x ++ dd y).drop 2)) = y := by
    have hdrop : (dw x ++ dd y).drop 2 = leBytes 4 y.toNat := rfl
    rw [hdrop, leNat_leBytes, Nat.mod_eq_of_lt (by omega), BitVec.ofNat_toNat,
      BitVec.setWidth_eq]
  have hload : s.load .ds a 6 = some (dw x ++ dd y) :=
    hr.load h (by simp) hbs hlow
  rw [hload, Option.map_some, hx', hy'] at hexec
  have hvmcs : ∀ f, f ∉ [limit, base] →
      ((s.vcpu.writeVmcs limit x).writeVmcs base y).readVmcs f = s.vcpu.readVmcs f := by
    intro f hf
    simp only [List.mem_cons, List.not_mem_nil, or_false, not_or] at hf
    rw [readVmcs_writeVmcs, if_neg hf.2, readVmcs_writeVmcs, if_neg hf.1]
  have hcr0 : .guestCr0 ∉ [limit, base] := hroot _ (by simp)
  simp only [List.mem_cons, List.not_mem_nil, or_false, not_or] at hcr0
  have hregs : ∀ r, r ∉ ([] : List Reg) →
      rreg ((s.vcpu.writeVmcs limit x).writeVmcs base y) r = rreg s.vcpu r := by
    intro r _
    simp [rreg_writeVmcs, Ne.symm hcr0.1, Ne.symm hcr0.2]
  obtain ⟨s', hruns, hvm, hfields, _⟩ := hr.setVcpu h hmode hexec (hr.low.setVcpu hvmcs hroot)
    (hr.flat.setVcpu hvmcs hsegs) (hregs _ (by simp)) hregs hvmcs
  refine ⟨s', hruns, ?_, ?_, hvm⟩
  · rw [hfields, readVmcs_writeVmcs, if_neg hne, readVmcs_writeVmcs, if_pos rfl]
  · rw [hfields, readVmcs_writeVmcs, if_pos rfl]

/-- A descriptor of the GDT is found. -/
theorem Running.descriptorAt (h : m.AppLoaded content) (hr : Running m asm code s rest)
    {l : Labels} (hg : GdtLoaded l s) (hlow : l.gdt.toNat + 56 ≤ 0x10000) {sel : BitVec 16}
    {n off : Nat} {bs : List Byte}
    (hbs : Holds s.vm (l.gdt.setWidth 64 + BitVec.ofNat 64 off) bs) (hcount : bs.length = n)
    (hoff : off = sel.toNat / 8 * 8) (hti : sel[2] = false) (hnull : off ≠ 0)
    (hend : off + n ≤ 56) :
    s.descriptorAt sel n = some (l.gdt.setWidth 64 + BitVec.ofNat 64 off, bs) := by
  have hwide := toNat_setWidth_64 l.gdt
  have hsum : (l.gdt.setWidth 64 + BitVec.ofNat 64 off).toNat = l.gdt.toNat + off := by
    rw [toNat_add_ofNat (by omega), hwide]
  have hload := hr.low.loadLinear h hbs (by omega)
  rw [hcount] at hload
  have hmax : (55 : U64).toNat = 55 := rfl
  unfold Machine.descriptorAt
  dsimp only
  rw [hg.base, hg.limit, ← hoff, hti, hmax, if_neg (by simp; omega), hload]
  rfl

/-- A data segment of the kernel is loaded. -/
theorem Running.dataSeg (h : m.AppLoaded content) {seg : Seg}
    (hr : Running m asm code s (.movSegAx seg :: is)) (hmode : s.is64 = false)
    {l : Labels} (hg : GdtLoaded l s) (hgdt : Holds s.vm (l.gdt.setWidth 64) bootGdt)
    (hlow : l.gdt.toNat + 56 ≤ 0x10000) (hax : s.eax.setWidth 16 = (0x10 : BitVec 16))
    (hseg : seg ∈ [Seg.ss, .ds, .es, .fs, .gs]) :
    ∃ s', Runs m asm code w [.movSegAx seg] is [] seg.fields s s' ∧
      s'.vcpu.readVmcs seg.selector = 0x10 ∧ s'.vm = s.vm := by
  have hlen : bootGdt.length = 56 := rfl
  have hwide := toNat_setWidth_64 l.gdt
  have hpart := hgdt.part (k := 16) (n := 8) (by omega) (by decide)
  have hdesc : Descriptor.ofBytes ((bootGdt.drop 16).take 8) = ⟨0, 0xfffff, 0x93, 0xA⟩ := by
    decide
  have hexec : s.exec w (asm (.movSegAx seg)).length (.movSegAx seg) =
      some ({ s with vcpu := setSeg s.vcpu seg 0x10 0 ⟨0, 0xfffff, 0x93, 0xA⟩ }.next
        (asm (.movSegAx seg)).length) := by
    have haccepts : seg.accepts 0x10 ⟨0, 0xfffff, 0x93, 0xA⟩ = true := by
      simp only [List.mem_cons, List.not_mem_nil, or_false] at hseg
      rcases hseg with rfl | rfl | rfl | rfl | rfl <;> decide
    have hti : (0x10 : BitVec 16)[2] = false := by
      simp
    have hfound : s.descriptorAt 0x10 8 = some (_, (bootGdt.drop 16).take 8) :=
      hr.descriptorAt h hg hlow hpart rfl rfl hti (by decide) (by decide)
    show (s.loadSeg seg (s.eax.setWidth 16)).map _ = _
    rw [hax, Machine.loadSeg, hfound, Option.bind_some]
    dsimp only
    rw [hdesc, if_pos haccepts]
    rfl
  have hvmcs : ∀ f, f ∉ seg.fields →
      (setSeg s.vcpu seg 0x10 0 ⟨0, 0xfffff, 0x93, 0xA⟩).readVmcs f = s.vcpu.readVmcs f :=
    fun f hf => readVmcs_setSeg_of_not_mem _ _ _ _ _ hf
  have hroot : ∀ f ∈ [VmcsField.guestCr0, .guestIa32Efer, .guestCr3], f ∉ seg.fields := by
    cases seg <;> decide
  have hregs : ∀ r, r ∉ ([] : List Reg) →
      rreg (setSeg s.vcpu seg 0x10 0 ⟨0, 0xfffff, 0x93, 0xA⟩) r = rreg s.vcpu r :=
    fun r _ => rreg_setSeg _ _ _ _ _ r
  obtain ⟨s', hruns, hvm, hfields, _⟩ := hr.setVcpu h hmode hexec (hr.low.setVcpu hvmcs hroot)
    (hr.flat.setSeg (by decide)) (hregs _ (by simp)) hregs hvmcs
  refine ⟨s', hruns, ?_, hvm⟩
  rw [hfields, (readVmcs_setSeg _ _ _ _ _).1]
  rfl

/-- The same selector is loaded into several segments. -/
theorem Running.dataSegs (h : m.AppLoaded content) {l : Labels}
    (hlow : l.gdt.toNat + 56 ≤ 0x10000) :
    ∀ {segs : List Seg} {s : Machine},
      Running m asm code s (segs.map .movSegAx ++ rest) → s.is64 = false → GdtLoaded l s →
      Holds s.vm (l.gdt.setWidth 64) bootGdt → s.eax.setWidth 16 = (0x10 : BitVec 16) →
      (∀ seg ∈ segs, seg ∈ [Seg.ss, .ds, .es, .fs, .gs]) →
      ∃ s', Runs m asm code w (segs.map .movSegAx) rest [] (segs.flatMap Seg.fields) s s' ∧
        (∀ seg ∈ segs, s'.vcpu.readVmcs seg.selector = 0x10) ∧ s'.vm = s.vm
  | [], s, hr, _, _, _, _, _ =>
      ⟨s, ⟨rfl, hr, fun _ _ _ => rfl, fun _ _ => rfl⟩, by simp, rfl⟩
  | seg :: segs, s, hr, hmode, hg, hgdt, hax, hsegs => by
      have hseg := hsegs seg List.mem_cons_self
      have hrest := fun seg' hseg' => hsegs seg' (List.mem_cons_of_mem _ hseg')
      -- neither the mode nor the GDT depends on a data segment
      have hapart : ∀ f ∈ [VmcsField.guestIa32Efer, .guestCsAr, .guestGdtrBase,
          .guestGdtrLimit], ∀ seg' ∈ [Seg.ss, .ds, .es, .fs, .gs], f ∉ seg'.fields := by
        decide
      obtain ⟨s₁, h₁, hsel₁, hvm₁⟩ := hr.dataSeg (w := w) h hmode hg hgdt hlow hax hseg
      have hmode₁ : s₁.is64 = false := by
        rw [h₁.is64 (hapart _ (by simp) _ hseg) (hapart _ (by simp) _ hseg), hmode]
      have hg₁ : GdtLoaded l s₁ :=
        ⟨(h₁.vmcs _ (hapart _ (by simp) _ hseg)).trans hg.base,
          (h₁.vmcs _ (hapart _ (by simp) _ hseg)).trans hg.limit⟩
      have hax₁ : s₁.eax.setWidth 16 = (0x10 : BitVec 16) := by
        rw [Machine.eax, h₁.regs _ (by simp) (by decide)]
        exact hax
      obtain ⟨s₂, h₂, hsel₂, hvm₂⟩ := Running.dataSegs h hlow h₁.after hmode₁ hg₁
        (by rw [hvm₁]; exact hgdt) hax₁ hrest
      refine ⟨s₂, h₁.trans h₂, ?_, hvm₂.trans hvm₁⟩
      intro seg' hseg'
      by_cases hin : seg' ∈ segs
      · exact hsel₂ seg' hin
      · obtain rfl : seg' = seg := (List.mem_cons.mp hseg').resolve_right hin
        rw [h₂.vmcs _ fun hcon => ?_, hsel₁]
        obtain ⟨seg'', hseg'', hmem⟩ := List.mem_flatMap.mp hcon
        have hsame : seg'' = seg' := by
          revert hmem
          cases seg'' <;> cases seg' <;> decide
        exact hin (hsame ▸ hseg'')

/-- The parts of the tables. -/
theorem bootTables_parts {σ : VmMem} {l : Labels}
    (hbs : Holds σ (l.gdtHdr.setWidth 64) (bootTables l)) (hlow : l.gdtHdr.toNat + 72 ≤ 0x10000) :
    Holds σ (l.gdtHdr.setWidth 64) (dw 55 ++ dd (l.gdt.setWidth 64)) ∧
      Holds σ (l.gdt.setWidth 64) bootGdt ∧
      Holds σ (l.idtHdr.setWidth 64) (dw 61 ++ dd (l.idt.setWidth 64)) ∧
      Holds σ (l.ssSel.setWidth 64) (dw 0x10) ∧ Holds σ (l.tssSel.setWidth 64) (dw 0x18) := by
  have hwide := toNat_setWidth_64 l.gdtHdr
  have hlen := length_bootTables l
  have hpart : ∀ (k n : Nat) (label : BitVec 32), k + n ≤ 72 →
      label = l.gdtHdr + BitVec.ofNat 32 k →
      Holds σ (label.setWidth 64) (((bootTables l).drop k).take n) := by
    intro k n label hk hlabel
    have haddr : l.gdtHdr.setWidth 64 + BitVec.ofNat 64 k = label.setWidth 64 := by
      subst hlabel
      bv_omega
    rw [← haddr]
    exact hbs.part (by omega) (by omega)
  refine ⟨hpart 0 6 _ (by decide) (by simp), hpart 6 56 _ (by decide) rfl,
    hpart 62 6 _ (by decide) ?_, hpart 68 2 _ (by decide) ?_, hpart 70 2 _ (by decide) ?_⟩
  · rw [Labels.idtHdr, Labels.gdt, BitVec.add_assoc]
    rfl
  · rw [Labels.ssSel, Labels.idt, Labels.idtHdr, Labels.gdt, BitVec.add_assoc, BitVec.add_assoc]
    rfl
  · rw [Labels.tssSel, Labels.ssSel, Labels.idt, Labels.idtHdr, Labels.gdt, BitVec.add_assoc,
      BitVec.add_assoc, BitVec.add_assoc]
    rfl

/-- The fields that the tables and the data segments are in. -/
def segmentFields : List VmcsField :=
  [.guestGdtrLimit, .guestGdtrBase, .guestIdtrLimit, .guestIdtrBase] ++
    [Seg.ss, .ds, .es, .fs, .gs].flatMap Seg.fields

/-- **The tables and the data segments are loaded.** -/
theorem bootSegments_runs (h : m.AppLoaded content) {l : Labels}
    (hr : Running m asm code s (bootSegments l ++ rest)) (hmode : s.is64 = false)
    (hbs : Holds s.vm (l.gdtHdr.setWidth 64) (bootTables l))
    (hlow : l.gdtHdr.toNat + 72 ≤ 0x10000) :
    ∃ s', Runs m asm code w (bootSegments l) rest [.rax] segmentFields s s' ∧
      GdtLoaded l s' ∧
      (∀ seg ∈ [Seg.ss, .ds, .es, .fs, .gs], s'.vcpu.readVmcs seg.selector = 0x10) ∧
      s'.vm = s.vm := by
  obtain ⟨hgdtHdr, hgdt, hidtHdr, hss, _⟩ := bootTables_parts hbs hlow
  have hwide := fun x : BitVec 32 => toNat_setWidth_64 x
  have hlt := fun x : BitVec 32 => x.isLt
  have hgdt_toNat : l.gdt.toNat = l.gdtHdr.toNat + 6 := by
    unfold Labels.gdt
    bv_omega
  have hidtHdr_toNat : l.idtHdr.toNat = l.gdtHdr.toNat + 62 := by
    unfold Labels.idtHdr
    bv_omega
  have hss_toNat : l.ssSel.toNat = l.gdtHdr.toNat + 68 := by
    unfold Labels.ssSel Labels.idt
    bv_omega
  obtain ⟨s₁, h₁, hlimit₁, hbase₁, hvm₁⟩ := hr.loadTable (w := w) h .guestGdtrLimit
    .guestGdtrBase hmode rfl hgdtHdr (by rw [hwide]; omega) (by decide)
    (by rw [hwide]; exact hlt _) (by decide) (by decide) (by decide)
  have hmode₁ : s₁.is64 = false := (h₁.is64 (by simp) (by simp)).trans hmode
  obtain ⟨s₂, h₂, _, _, hvm₂⟩ := h₁.after.loadTable (w := w) h .guestIdtrLimit
    .guestIdtrBase hmode₁ rfl (by rw [hvm₁]; exact hidtHdr) (by rw [hwide]; omega) (by decide)
    (by rw [hwide]; exact hlt _) (by decide) (by decide) (by decide)
  have hmode₂ : s₂.is64 = false := (h₂.is64 (by simp) (by simp)).trans hmode₁
  -- AX
  have hds : Seg.ds ∈ [Seg.cs, .ss, .ds] := by
    simp
  have hload : s₂.load .ds (l.ssSel.setWidth 64) 2 = some (dw 0x10) :=
    h₂.after.load h hds (by rw [hvm₂, hvm₁]; exact hss) (by rw [hwide]; show _ + 2 ≤ _; omega)
  have hexec : s₂.exec w (asm (.movAx l.ssSel)).length (.movAx l.ssSel) =
      some ({ s₂ with
        vcpu := wreg s₂.vcpu .rax ((rreg s₂.vcpu .rax).extractLsb' 16 48 ++ (0x10 : BitVec 16))
      }.next (asm (.movAx l.ssSel)).length) := by
    show (s₂.load .ds (l.ssSel.setWidth 64) 2).map _ = _
    rw [hload]
    rfl
  obtain ⟨s₃, h₃, hrax₃, hvm₃⟩ := h₂.after.setReg h hmode₂ hexec (by decide) (by decide)
  have hmode₃ : s₃.is64 = false := (h₃.is64 (by simp) (by simp)).trans hmode₂
  have hax : s₃.eax.setWidth 16 = (0x10 : BitVec 16) := by
    rw [Machine.eax, hrax₃, BitVec.setWidth_setWidth_of_le _ (by decide)]
    exact BitVec.setWidth_append_eq_right
  have hg : GdtLoaded l s₃ := by
    constructor
    · rw [h₃.vmcs _ (by simp), h₂.vmcs _ (by simp), hbase₁]
    · rw [h₃.vmcs _ (by simp), h₂.vmcs _ (by simp), hlimit₁]
  have hvm : s₃.vm = s.vm := by
    rw [hvm₃, hvm₂, hvm₁]
  have hr₃ : Running m asm code s₃ ([Seg.ss, .ds, .es, .fs, .gs].map .movSegAx ++ rest) :=
    h₃.after
  obtain ⟨s₄, h₄, hsel₄, hvm₄⟩ := Running.dataSegs (w := w) h (by omega) hr₃ hmode₃ hg (by rw [hvm]; exact hgdt) hax fun _ hseg => hseg
  refine ⟨s₄, (((h₁.trans h₂).trans h₃).trans h₄).mono (by simp) (by decide), ?_, hsel₄,
    hvm₄.trans hvm⟩
  constructor
  · rw [h₄.vmcs _ (by decide), hg.base]
  · rw [h₄.vmcs _ (by decide), hg.limit]

end Segments

/-! ## The task segment -/

/-- What lies below `lo` or from `hi` on is kept. -/
def KeepsOutside (lo hi : Nat) (σ τ : VmMem) : Prop :=
  ∀ (x : U64) (bs : List Byte), Holds σ x bs → x.toNat + bs.length ≤ lo ∨ hi ≤ x.toNat →
    Holds τ x bs

theorem KeepsOutside.refl (lo hi : Nat) (σ : VmMem) : KeepsOutside lo hi σ σ :=
  fun _ _ hx _ => hx

theorem KeepsOutside.trans {lo hi : Nat} {σ σ' τ : VmMem} (h : KeepsOutside lo hi σ σ')
    (h' : KeepsOutside lo hi σ' τ) :
    KeepsOutside lo hi σ τ :=
  fun x bs hx hout => h' x bs (h x bs hx hout) hout

theorem KeepsOutside.mono {lo hi lo' hi' : Nat} {σ τ : VmMem} (h : KeepsOutside lo hi σ τ)
    (hlo : lo' ≤ lo) (hhi : hi ≤ hi') :
    KeepsOutside lo' hi' σ τ :=
  fun x bs hx hout => h x bs hx (hout.imp (fun hle => hle.trans hlo) fun hge => hhi.trans hge)

section Task

variable {m : MainRun} {content : List Byte} {asm : BootAsm → List Byte}
  {code is rest : List BootAsm} {w : Monitor} {s : Machine} {i : BootAsm}
  {off : Nat} {acc bs : List Byte}

/-- `acc` is stored of the task segment, and EAX points to the byte at `off`. -/
structure Filling (off : Nat) (acc : List Byte) (s : Machine) : Prop where
  mode : s.is64 = false
  rax : rreg s.vcpu .rax = (tssBase + BitVec.ofNat 32 off).setWidth 64
  held : Holds s.vm 0x7000 acc
  fits : acc.length ≤ 0x68

/-- `add eax, imm`. -/
theorem Filling.add (hs : Filling off acc s) (h : m.AppLoaded content) {imm : BitVec 32}
    (hr : Running m asm code s (.addEax imm :: is)) :
    ∃ s', Runs m asm code w [.addEax imm] is [.rax] [] s s' ∧
      Filling (off + imm.toNat) acc s' ∧ s'.vm = s.vm := by
  obtain ⟨s', hruns, hrax, hvm⟩ := hr.setReg (w := w) h hs.mode rfl (by decide) (by decide)
  refine ⟨s', hruns, ⟨(hruns.is64 (by simp) (by simp)).trans hs.mode, ?_, hvm ▸ hs.held,
    hs.fits⟩, hvm⟩
  rw [hrax, Machine.eax_of_rax hs.rax, BitVec.add_assoc, ← BitVec.ofNat_add_ofNat,
    BitVec.ofNat_toNat, BitVec.setWidth_eq]

/-- The next bytes of the task segment are stored. -/
theorem Filling.store (hs : Filling off acc s) (h : m.AppLoaded content)
    (hoff : acc.length = off) (hr : Running m asm code s (i :: is)) (hi : i.bits64 = false)
    (hexec : s.exec w (asm i).length i =
      (s.store .ds (s.eax.setWidth 64) bs).map fun s => s.next (asm i).length)
    (hfits : acc.length + bs.length ≤ 0x68) :
    ∃ s', Runs m asm code w [i] is [] [] s s' ∧ Filling off (acc ++ bs) s' ∧
      KeepsOutside 0x7000 0x7068 s.vm s'.vm := by
  subst hoff
  have hbase : tssBase.toNat = 0x7000 := rfl
  have hstart : (0x7000 : U64).toNat = 0x7000 := rfl
  have haddr : s.eax.setWidth 64 = 0x7000 + BitVec.ofNat 64 acc.length := by
    rw [Machine.eax_of_rax hs.rax]
    apply BitVec.eq_of_toNat_eq
    rw [toNat_setWidth_64, toNat_add_ofNat (by omega), BitVec.toNat_add, BitVec.toNat_ofNat,
      hbase, hstart]
    omega
  have hat : (0x7000 + BitVec.ofNat 64 acc.length : U64).toNat = 0x7000 + acc.length :=
    toNat_add_ofNat (by omega)
  have hds : Seg.ds ∈ [Seg.cs, .ss, .ds] := by
    simp
  rw [haddr] at hexec
  obtain ⟨s', hruns, hvm⟩ := hr.storeBytes h hds (hs.mode.trans hi.symm) hexec (by omega)
    (Or.inl (by omega))
  refine ⟨s', hruns, ⟨(hruns.is64 (by simp) (by simp)).trans hs.mode, ?_, ?_, ?_⟩, ?_⟩
  · rw [hruns.regs _ (by simp) (by decide)]
    exact hs.rax
  · rw [hvm, Holds.append (by rw [hstart, List.length_append]; omega)]
    exact ⟨hr.holds_write h hs.held (by omega) (Or.inr (by omega)),
      (hr.low.lowMem h.toLoaded).holds_write (by omega)⟩
  · rw [List.length_append]
    exact hfits
  · intro x bs' hx hout
    rw [hvm]
    refine hr.holds_write h hx (by omega) ?_
    omega

/-- Words of zeros follow. -/
theorem Filling.zeroDwords (h : m.AppLoaded content) :
    ∀ {n off : Nat} {acc : List Byte} {s : Machine}, Filling off acc s → acc.length = off + 4 →
      Running m asm code s (zeroDwords n ++ rest) → off + 4 + 4 * n ≤ 0x68 →
      ∃ s', Runs m asm code w (zeroDwords n) rest [.rax] [] s s' ∧
        Filling (off + 4 * n) (acc ++ List.replicate (4 * n) 0) s' ∧
        KeepsOutside 0x7000 0x7068 s.vm s'.vm
  | 0, off, acc, s, hs, _, hr, _ =>
      ⟨s, ⟨rfl, hr, fun _ _ _ => rfl, fun _ _ => rfl⟩, by simpa using hs, KeepsOutside.refl _ _ _⟩
  | n + 1, off, acc, s, hs, hlen, hr, hfits => by
      have hfour : (0x4 : BitVec 32).toNat = 4 := rfl
      have hzero : (leBytes 4 (0 : BitVec 32).toNat) = List.replicate 4 0 := rfl
      obtain ⟨s₁, h₁, hs₁, hvm₁⟩ := hs.add (w := w) h hr
      rw [hfour] at hs₁
      obtain ⟨s₂, h₂, hs₂, hkeep₂⟩ := hs₁.store (w := w) h hlen h₁.after rfl rfl
        (by rw [length_leBytes]; omega)
      rw [hzero] at hs₂
      obtain ⟨s₃, h₃, hs₃, hkeep₃⟩ := Filling.zeroDwords h hs₂ (by simp [hlen]) h₂.after (by omega)
      refine ⟨s₃, ((h₁.trans h₂).trans h₃).mono (by simp) (by simp), ?_,
        (hvm₁ ▸ hkeep₂).trans hkeep₃⟩
      rw [List.append_assoc, List.replicate_append_replicate] at hs₃
      have hoff : off + 4 + 4 * n = off + 4 * (n + 1) := by
        omega
      have hcount : 4 + 4 * n = 4 * (n + 1) := by
        omega
      rwa [hoff, hcount] at hs₃

/-- **The task segment is written.**  RSP0 is the word that is left on the stack. -/
theorem bootTask_runs (h : m.AppLoaded content) (hr : Running m asm code s (bootTask ++ rest))
    (hmode : s.is64 = false) (hrsp : rreg s.vcpu .rsp = 0x6FFC)
    (hroot : Holds s.vm 0x6FFC bs) (hlen : bs.length = 4) :
    ∃ s', Runs m asm code w bootTask rest [.rax, .rbx, .rsp] [] s s' ∧
      rreg s'.vcpu .rsp = 0x7000 ∧
      Holds s'.vm 0x7000 (leBytes 4 0 ++ bs ++ List.replicate 96 0) ∧
      KeepsOutside 0x7000 0x7068 s.vm s'.vm := by
  have hstart : (0x6FFC : U64).toNat = 0x6FFC := rfl
  obtain ⟨s₁, h₁, hrax₁, hvm₁⟩ := hr.setReg (w := w) h hmode rfl (by decide) (by decide)
  have hs₁ : Filling 0 [] s₁ := by
    refine ⟨(h₁.is64 (by simp) (by simp)).trans hmode, hrax₁, fun y hlo hhi => ?_, by simp⟩
    rw [List.length_nil] at hhi
    omega
  obtain ⟨s₂, h₂, hs₂, hkeep₂⟩ := hs₁.store (w := w) h rfl h₁.after rfl rfl (by decide)
  obtain ⟨s₃, h₃, hs₃, hvm₃⟩ := hs₂.add (w := w) h h₂.after
  -- RSP0
  have hruns₃ := (h₁.trans h₂).trans h₃
  have hrsp₃ : rreg s₃.vcpu .rsp = 0x6FFC :=
    (hruns₃.regs _ (by simp) (by decide)).trans hrsp
  have hroot₃ : Holds s₃.vm 0x6FFC bs := by
    rw [hvm₃]
    exact hkeep₂ _ _ (by rw [hvm₁]; exact hroot) (Or.inl (by omega))
  obtain ⟨s₄, h₄, hrbx₄, hrsp₄, hvm₄⟩ := h₃.after.popReg (w := w) h hs₃.mode rfl (by decide)
    (by decide) (by decide) (by rw [hrsp₃]; exact hroot₃) hlen (by rw [hrsp₃]; decide)
  have hs₄ : Filling 4 (leBytes 4 0) s₄ :=
    ⟨(h₄.is64 (by simp) (by simp)).trans hs₃.mode,
      (h₄.regs _ (by simp) (by decide)).trans hs₃.rax, hvm₄ ▸ hs₃.held, hs₃.fits⟩
  have hword : leBytes 4 ((rreg s₄.vcpu .rbx).setWidth 32).toNat = bs := by
    have hlt := leNat_lt bs
    rw [hlen] at hlt
    rw [hrbx₄, BitVec.toNat_setWidth, BitVec.toNat_ofNat, Nat.mod_eq_of_lt (by omega),
      Nat.mod_eq_of_lt (by omega), ← hlen]
    exact leBytes_leNat bs
  obtain ⟨s₅, h₅, hs₅, hkeep₅⟩ := hs₄.store (w := w) h rfl h₄.after rfl rfl
    (by rw [length_leBytes, length_leBytes]; decide)
  rw [hword] at hs₅
  -- zeros, as words and then as half words
  have hr₅ : Running m asm code s₅ (zeroDwords 23 ++
      ([.addEax 0x4, .storeWord 0x0, .addEax 0x2, .storeWord 0x0] ++ rest)) :=
    h₅.after
  obtain ⟨s₆, h₆, hs₆, hkeep₆⟩ := Filling.zeroDwords (w := w) h hs₅
    (by rw [List.length_append, hlen]; rfl) hr₅ (by decide)
  obtain ⟨s₇, h₇, hs₇, hvm₇⟩ := hs₆.add (w := w) h h₆.after
  have hfirst : (leBytes 4 0 ++ bs).length = 8 := by
    rw [List.length_append, hlen]
    rfl
  obtain ⟨s₈, h₈, hs₈, hkeep₈⟩ := hs₇.store (w := w) h
    (by rw [List.length_append, hfirst]; rfl) h₇.after rfl rfl
    (by rw [List.length_append, hfirst]; decide)
  obtain ⟨s₉, h₉, hs₉, hvm₉⟩ := hs₈.add (w := w) h h₈.after
  obtain ⟨s', h', hs', hkeep'⟩ := hs₉.store (w := w) h
    (by rw [List.length_append, List.length_append, hfirst]; rfl) h₉.after rfl rfl
    (by rw [List.length_append, List.length_append, hfirst]; decide)
  have hruns := (((((h₅.trans h₆).trans h₇).trans h₈).trans h₉).trans h')
  refine ⟨s', ((hruns₃.trans h₄).trans hruns).mono (by simp) (by simp), ?_, ?_, ?_⟩
  · rw [hruns.regs _ (by simp) (by decide), hrsp₄, hrsp₃]
    decide
  · have hheld := hs'.held
    rw [List.append_assoc, List.append_assoc] at hheld
    exact hheld
  · have hkeep₄ : KeepsOutside 0x7000 0x7068 s.vm s₄.vm := by
      rw [hvm₄, hvm₃, ← hvm₁]
      exact hkeep₂
    rw [hvm₇] at hkeep₈
    rw [hvm₉] at hkeep'
    exact (((hkeep₄.trans hkeep₅).trans hkeep₆).trans hkeep₈).trans hkeep'

end Task

/-! ## The task register and 64-bit mode -/

section Far

variable {m : MainRun} {content : List Byte} {asm : BootAsm → List Byte}
  {code is rest : List BootAsm} {w : Monitor} {s : Machine} {l : Labels}

/-- **The task register is loaded.**  Its descriptor is marked as busy. -/
theorem Running.ltr (h : m.AppLoaded content) (hr : Running m asm code s (.ltr l.tssSel :: is))
    (hmode : s.is64 = false) (hg : GdtLoaded l s) (hgdt : Holds s.vm (l.gdt.setWidth 64) bootGdt)
    (htss : Holds s.vm (l.tssSel.setWidth 64) (dw 0x18)) (hlow : l.gdt.toNat + 66 ≤ 0x10000)
    (hlo : 0x8000 + (code.flatMap asm).length ≤ l.gdt.toNat) :
    ∃ s', Runs m asm code w [.ltr l.tssSel] is [] Seg.tr.fields s s' ∧
      s'.vcpu.readVmcs .guestTr = 0x18 ∧ s'.vcpu.readVmcs .guestTrBase = tssBase.setWidth 64 ∧
      s'.vcpu.readVmcs .guestTrLimit = tssLimit.setWidth 64 ∧
      KeepsOutside (l.gdt.toNat + 29) (l.gdt.toNat + 30) s.vm s'.vm := by
  have hlen : bootGdt.length = 56 := rfl
  have hwide := toNat_setWidth_64 l.gdt
  have hpart := hgdt.part (k := 24) (n := 16) (by omega) (by decide)
  have hdesc : Descriptor.ofBytes ((bootGdt.drop 24).take 16) = ⟨tssBase, 0x67, 0x89, 0⟩ := by
    decide
  have hhigh : BitVec.ofNat 32 (leNat ((((bootGdt.drop 24).take 16).drop 8).take 4)) = 0 := by
    decide
  have hti : (0x18 : BitVec 16)[2] = false := by
    simp
  have hfound : s.descriptorAt 0x18 16 = some (_, (bootGdt.drop 24).take 16) :=
    hr.descriptorAt h hg (by omega) hpart rfl rfl hti (by decide) (by decide)
  have hbusy : (l.gdt.setWidth 64 + BitVec.ofNat 64 24 + 5).toNat = l.gdt.toNat + 29 := by
    bv_omega
  generalize l.gdt.setWidth 64 + BitVec.ofNat 64 24 = a at hfound hbusy
  -- the byte with the type is written back
  have hstore : s.storeLinear (a + 5) [0x8b] = _ :=
    hr.low.storeLinear h (show (a + 5).toNat + 1 ≤ 0x10000 by omega)
  have htr : s.loadTr 0x18 = some ⟨setSeg s.vcpu .tr 0x18 (tssBase.setWidth 64)
      ⟨tssBase, 0x67, 0x8b, 0⟩, (vmMemWrite s.vm (a + 5) [0x8b]).2⟩ := by
    rw [Machine.loadTr, hfound, Option.bind_some]
    dsimp only
    rw [hdesc, hhigh, if_pos (by decide)]
    show (s.storeLinear (a + 5) [0x8b]).map _ = _
    rw [hstore]
    rfl
  have hds : Seg.ds ∈ [Seg.cs, .ss, .ds] := by
    simp
  have htss_toNat : (l.tssSel.setWidth 64).toNat = l.gdt.toNat + 64 := by
    rw [toNat_setWidth_64]
    unfold Labels.tssSel Labels.ssSel Labels.idt Labels.idtHdr
    bv_omega
  have hload : s.load .ds (l.tssSel.setWidth 64) 2 = some (dw 0x18) :=
    hr.load h hds htss (by rw [htss_toNat]; exact hlow)
  generalize hv : setSeg s.vcpu .tr 0x18 (tssBase.setWidth 64) ⟨tssBase, 0x67, 0x8b, 0⟩ = v at htr
  have hvmcs : ∀ f, f ∉ Seg.tr.fields → (Machine.next ⟨v, (vmMemWrite s.vm (a + 5) [0x8b]).2⟩
      (asm (.ltr l.tssSel)).length).vcpu.readVmcs f = s.vcpu.readVmcs f := by
    intro f hf
    rw [← readVmcs_setSeg_of_not_mem s.vcpu .tr 0x18 (tssBase.setWidth 64)
      ⟨tssBase, 0x67, 0x8b, 0⟩ hf, hv]
    simp [Machine.next, readVmcs_wreg]
  have hreg : ∀ r, rreg v r = rreg s.vcpu r :=
    fun r => hv ▸ rreg_setSeg _ _ _ _ _ r
  have hexec : s.exec w (asm (.ltr l.tssSel)).length (.ltr l.tssSel) =
      some (Machine.next ⟨v, (vmMemWrite s.vm (a + 5) [0x8b]).2⟩ (asm (.ltr l.tssSel)).length) := by
    show (s.load .ds (l.tssSel.setWidth 64) 2).bind _ = _
    rw [hload, Option.bind_some]
    show (s.loadTr 0x18).map _ = _
    rw [htr]
    rfl
  have hcount : (a + 5).toNat + [(0x8b : Byte)].length ≤ 0x10000 := by
    rw [List.length_singleton]
    omega
  have hstart : (0x8000 : U64).toNat = 0x8000 := rfl
  have hwritten : LowSpace m ⟨s.vcpu, (vmMemWrite s.vm (a + 5) [0x8b]).2⟩ :=
    hr.low_of_vmcs (fun _ => rfl) (hr.low.write h hcount)
  have hruns := hr.runs h hmode hexec (hwritten.setVcpu hvmcs (by decide))
    (hr.flat.setVcpu hvmcs (by decide)) (hr.holds_write h hr.text hcount (Or.inr (by omega)))
    (by simp [Machine.next, rreg_wreg, hreg])
    (fun r (_ : r ∉ []) hrip => by simp [Machine.next, rreg_wreg, hrip, hreg]) hvmcs
  obtain ⟨hsel, hbase, hlimit, _⟩ :=
    readVmcs_setSeg s.vcpu .tr 0x18 (tssBase.setWidth 64) ⟨tssBase, 0x67, 0x8b, 0⟩
  rw [hv] at hsel hbase hlimit
  have hfield : ∀ f, (Machine.next ⟨v, (vmMemWrite s.vm (a + 5) [0x8b]).2⟩
      (asm (.ltr l.tssSel)).length).vcpu.readVmcs f = v.readVmcs f := by
    intro f
    simp [Machine.next, readVmcs_wreg]
  refine ⟨_, hruns, (hfield _).trans hsel, (hfield _).trans hbase, (hfield _).trans hlimit,
    fun x bs hx hout => hr.holds_write h hx hcount ?_⟩
  rw [List.length_singleton]
  omega

/-- **The far jump selects 64-bit mode.** -/
theorem Running.jmpFar (h : m.AppLoaded content) {label : BitVec 32}
    (hr : Running m asm code s (.jmpFar 0b00001000 label :: is)) (hmode : s.is64 = false)
    (hg : GdtLoaded l s)
    (hcs : Holds s.vm (l.gdt.setWidth 64 + BitVec.ofNat 64 8) ((bootGdt.drop 8).take 8))
    (hlow : l.gdt.toNat + 56 ≤ 0x10000) (hlma : s.vcpu.lma = true)
    (hlabel : label.setWidth 64 =
      rreg s.vcpu .rip + BitVec.ofNat 64 (asm (.jmpFar 0b00001000 label)).length) :
    ∃ s', Runs m asm code w [.jmpFar 0b00001000 label] is [] Seg.cs.fields s s' ∧
      s'.vcpu.readVmcs .guestCs = 0x8 ∧ s'.is64 = true ∧ s'.vm = s.vm := by
  have hdesc : Descriptor.ofBytes ((bootGdt.drop 8).take 8) = ⟨0, 0xfffff, 0x9b, 0xA⟩ := by
    decide
  have hti : (0x8 : BitVec 16)[2] = false := by
    simp
  have hfound : s.descriptorAt 0x8 8 = some (_, (bootGdt.drop 8).take 8) :=
    hr.descriptorAt h hg hlow hcs rfl rfl hti (by decide) (by decide)
  generalize hv : setSeg s.vcpu .cs 0x8 0 ⟨0, 0xfffff, 0x9b, 0xA⟩ = v
  have hexec : s.exec w (asm (.jmpFar 0b00001000 label)).length (.jmpFar 0b00001000 label) =
      some ⟨wreg v .rip (label.setWidth 64), s.vm⟩ := by
    show (s.loadSeg .cs 0x8).map _ = _
    rw [Machine.loadSeg, hfound, Option.bind_some]
    dsimp only
    rw [hdesc, if_pos (by decide)]
    show some (_ : Machine) = _
    rw [← hv]
    rfl
  have hvmcs : ∀ f, f ∉ Seg.cs.fields →
      (wreg v .rip (label.setWidth 64)).readVmcs f = s.vcpu.readVmcs f := by
    intro f hf
    rw [← readVmcs_setSeg_of_not_mem s.vcpu .cs 0x8 0 ⟨0, 0xfffff, 0x9b, 0xA⟩ hf, hv]
    simp [readVmcs_wreg]
  have hreg : ∀ r, rreg v r = rreg s.vcpu r :=
    fun r => hv ▸ rreg_setSeg _ _ _ _ _ r
  have hflat : Flat ⟨wreg v .rip (label.setWidth 64), s.vm⟩ := by
    intro seg hseg
    rw [readVmcs_wreg, readVmcs_wreg, ← hv]
    exact hr.flat.setSeg (by decide) seg hseg
  have hruns := hr.runs h hmode hexec (hr.low.setVcpu hvmcs (by decide)) hflat hr.text
    (by simp [rreg_wreg, hlabel])
    (fun r (_ : r ∉ []) hrip => by simp [rreg_wreg, hrip, hreg]) hvmcs
  obtain ⟨hsel, _, _, har⟩ := readVmcs_setSeg s.vcpu .cs 0x8 0 ⟨0, 0xfffff, 0x9b, 0xA⟩
  rw [hv] at hsel har
  refine ⟨_, hruns, ?_, ?_, rfl⟩
  · rw [readVmcs_wreg]
    exact hsel
  · have hlong : (wreg v .rip (label.setWidth 64)).lma = true := by
      rw [Vcpu.lma, hvmcs _ (by decide)]
      exact hlma
    have hcode : (wreg v .rip (label.setWidth 64)).readVmcs .guestCsAr = 0xA09B := by
      rw [readVmcs_wreg]
      exact har
    rw [Machine.is64, hlong, hcode]
    decide

end Far

end Hvexec
