import Hvexec.AfterInit
import Hvexec.MainRun
import Hvexec.Transfers

/-!
# The kernel and the page tables

`vm_mem_init` reserves the first 16 pages, and first fit puts the PML4 and the other
tables right behind them.  `load_raw` checks that each byte of the kernel has a region,
and the tables have regions as well.  A kernel that is longer than the rest of the
first pages goes on into the PML4.
-/

namespace Hvexec

open ByteMemory IntervalList RadixTable

/-- The PML4 and every PDPT, PD and PT that `vm_mem_init` allocates. -/
def SetUp.initTables (s : SetUp) : List MemRegion :=
  mapGvaPages s.afterAlloc 0 (s.numPages.setWidth 64) 0 s.env

/-- No byte of a range of guest-physical memory changes. -/
def SameRange (σ τ : VmMem) (lo hi : Nat) : Prop :=
  ∀ y : U64, lo ≤ y.toNat → y.toNat < hi → τ.byteAt y = σ.byteAt y

/-- What a file from 0x8000 on puts behind the first 16 pages is there already, if
there is anything. -/
def SameBehind (σ : VmMem) (content : List Byte) : Prop :=
  ∀ k, 0x8000 ≤ k → k < content.length →
    σ.byteAt (confStartAddr + BitVec.ofNat 64 k) = content[k]?

section Load

variable {s : SetUp} (hinit : s.afterInit.1 = 0) (hpages : s.numPages = confInitNumPages)
  {path : Option String} {e : LoadRawEnv}

include hinit in
theorem mem_initTables {p : MemRegion} :
    p ∈ s.initTables ↔
      p ∈ s.afterInit.2.memRegions ∧ p ≠ ⟨0, s.numPages.setWidth 64, s.answer.valloc⟩ := by
  rw [SetUp.initTables, mapGvaPages, ← SetUp.afterInit_eq hinit, List.mem_filter,
    SetUp.memRegions_afterAlloc hinit, decide_eq_true_eq, List.mem_singleton]

include hinit hpages

theorem lowMem_init (hhost : HostOk s.afterInit.2.memRegions) :
    LowMem s.afterInit.2 s.answer.valloc := by
  refine ⟨(SetUp.afterInit_endsBelow hinit).ok, hhost, ?_⟩
  apply (SetUp.sublist_init hinit).subset
  rw [SetUp.memRegions_afterAlloc hinit, hpages]
  exact List.mem_singleton_self _

/-- The tables are what is registered behind the first 16 pages. -/
theorem initTables_behind (y : U64) :
    (∃ p ∈ s.initTables, p.lo ≤ y.toNat ∧ y.toNat < p.hi) ↔
      InRegion s.afterInit.2.memRegions y ∧ 0x10000 ≤ y.toNat := by
  have hok := (SetUp.afterInit_endsBelow hinit).ok
  have hfirst : (⟨0, s.numPages.setWidth 64, s.answer.valloc⟩ : MemRegion) ∈
      s.afterInit.2.memRegions := by
    apply (SetUp.sublist_init hinit).subset
    rw [SetUp.memRegions_afterAlloc hinit]
    exact List.mem_singleton_self _
  have hhi : MemRegion.hi ⟨0, s.numPages.setWidth 64, s.answer.valloc⟩ = 0x10000 := by
    simp [MemRegion.hi, hpages, confInitNumPages]
  constructor
  · rintro ⟨p, hp, hlo, hlt⟩
    obtain ⟨hmem, hne⟩ := (mem_initTables hinit).mp hp
    refine ⟨⟨p, hmem, hlo, hlt⟩, ?_⟩
    by_contra hcon
    push Not at hcon
    exact hne (hok.laid.eq_of_mem_of_mem hmem hfirst ⟨hlo, hlt⟩
      ⟨Nat.zero_le _, lt_of_lt_of_eq hcon hhi.symm⟩)
  · rintro ⟨⟨p, hp, hlo, hlt⟩, hge⟩
    refine ⟨p, (mem_initTables hinit).mpr ⟨hp, ?_⟩, hlo, hlt⟩
    rintro rfl
    omega

/-- The tables keep their bytes exactly when what is written over them is the same. -/
theorem loadRaw_sameBehind_iff (hhost : HostOk s.afterInit.2.memRegions)
    (hload : (loadRaw s.afterInit.2 path confStartAddr e).1 = 0) :
    (∀ p ∈ s.initTables,
        SameRange s.afterInit.2 (loadRaw s.afterInit.2 path confStartAddr e).2 p.lo p.hi) ↔
      SameBehind s.afterInit.2 e.content := by
  have hok := (SetUp.afterInit_endsBelow hinit).ok
  have hstart : confStartAddr.toNat = 0x8000 := rfl
  obtain ⟨hcount, hstate⟩ := loadRaw_of_zero hload
  obtain ⟨hwrap, hbytes⟩ := byteAt_vmMemWrite e.content confStartAddr hok hhost
  rw [hcount, hstart] at hwrap hbytes
  rw [hstate]
  have hsum : ∀ k < e.content.length,
      (confStartAddr + BitVec.ofNat 64 k).toNat = 0x8000 + k := by
    intro k hk
    rw [BitVec.toNat_add, BitVec.toNat_ofNat, hstart]
    omega
  constructor
  · intro h k hlo hhi
    have hreg : InRegion s.afterInit.2.memRegions (confStartAddr + BitVec.ofNat 64 k) := by
      apply inRegion_of_lt_runLength hok hhost (n := e.content.length)
      rwa [← vmMemWrite_count, hcount]
    obtain ⟨p, hp, hplo, hphi⟩ := (initTables_behind hinit hpages _).mpr
      ⟨hreg, by rw [hsum k hhi]; omega⟩
    rw [← h p hp _ hplo hphi, hbytes, hsum k hhi, if_pos (by omega), Nat.add_sub_cancel_left,
      List.getD_eq_getElem?_getD, List.getElem?_eq_getElem hhi]
    rfl
  · intro h p hp y hlo hhi
    obtain ⟨_, hge⟩ := (initTables_behind hinit hpages y).mp ⟨p, hp, hlo, hhi⟩
    rw [hbytes]
    split_ifs with hin
    · have heq := h (y.toNat - 0x8000) (by omega) (by omega)
      have hy : confStartAddr + BitVec.ofNat 64 (y.toNat - 0x8000) = y := by
        apply BitVec.eq_of_toNat_eq
        rw [hsum _ (by omega)]
        omega
      rw [hy, List.getElem?_eq_getElem (by omega)] at heq
      rw [heq, List.getD_eq_getElem?_getD, List.getElem?_eq_getElem (by omega)]
      rfl
    · rfl

end Load

/-- Nothing is put there by a file that fits. -/
theorem sameBehind_of_length_le {σ : VmMem} {content : List Byte}
    (h : content.length ≤ 0x8000) :
    SameBehind σ content := by
  intro k hlo hhi
  omega

/-- The tables of the processor are those that `vm_mem_init` allocated. -/
theorem SetUp.InitOk.tablePages {s : SetUp} (h : s.InitOk)
    (hpages : s.numPages = confInitNumPages) {τ : VmMem} :
    (∀ k g, TablePage s.afterInit.2 k g →
        SameRange s.afterInit.2 τ g.toNat (g.toNat + 4096)) ↔
      ∀ p ∈ s.initTables, SameRange s.afterInit.2 τ p.lo p.hi := by
  obtain ⟨T, _, hok, hgrown⟩ := h.tables
  constructor
  · intro hsame p hp
    obtain ⟨hmem, hne⟩ := (mem_initTables h.init).mp hp
    rcases hgrown.added p hmem with hold | ⟨q, g, hva, hq, rfl⟩
    · rw [SetUp.memRegions_afterAlloc h.init, List.mem_singleton] at hold
      exact absurd hold hne
    · rw [hi_page]
      exact hsame _ g (hok.tablePage q g hq)
  · intro hsame k g htable
    obtain ⟨_, q, _, hq⟩ := hok.node_of_tablePage htable
    obtain ⟨hva, hpage⟩ := hok.page q g hq
    rw [← hi_page g hva]
    refine hsame ⟨g, 1, hva⟩ ((mem_initTables h.init).mpr ⟨hpage, ?_⟩)
    intro hcon
    have hone := congrArg MemRegion.npages hcon
    rw [hpages] at hone
    simp [confInitNumPages] at hone

/-- **The kernel and the tables.**  After a successful load the pages that
`vm_mem_init` allocated hold what they held exactly when the kernel ends with the first
pages, or brings the bytes that are there already.  When these pages were handed out
with zeros, this is also when the tables of the processor stand and the first pages
are still mapped to themselves. -/
theorem loadRaw_keeps_tables_iff (s : SetUp) (hpages : s.numPages = confInitNumPages)
    (hinit : s.afterInit.1 = 0) (hhost : HostOk s.afterInit.2.memRegions)
    (path : Option String) (e : LoadRawEnv)
    (hload : (loadRaw s.afterInit.2 path confStartAddr e).1 = 0) :
    let σ := s.afterInit.2
    let τ := (loadRaw σ path confStartAddr e).2
    ((∀ p ∈ s.initTables, SameRange σ τ p.lo p.hi) ↔
        e.content.length ≤ 0x8000 ∨ SameBehind σ e.content) ∧
      (Supplied s.env.answers s.afterAlloc σ.memRegions →
        (((∀ k g, TablePage σ k g → SameRange σ τ g.toNat (g.toNat + 4096)) ∧
            ∀ a entry₀ : U64, a.toNat < 0x10000 → gvaToGpa τ entry₀ a = a) ↔
          e.content.length ≤ 0x8000 ∨ SameBehind σ e.content)) := by
  intro σ τ
  have hbytes := loadRaw_sameBehind_iff hinit hpages hhost hload
  rw [or_iff_right_of_imp sameBehind_of_length_le]
  refine ⟨hbytes, fun hsup => ?_⟩
  have hok : s.InitOk := ⟨hinit, hsup, hhost⟩
  have htables := (hok.tablePages hpages).trans hbytes
  refine ⟨fun h => htables.mp h.1, fun h => ⟨htables.mpr h, ?_⟩⟩
  intro a entry₀ ha
  obtain ⟨T, hT, htree, _⟩ := hok.tables
  obtain ⟨mem, hmem⟩ := vmMemWrite_snd σ confStartAddr e.content
  have hτ := hT.of_tableBytes htree ((loadRaw_of_zero hload).2.trans hmem) (htables.mpr h)
  have hlow : a.toNat < s.numPages.toNat * 4096 := by
    rw [hpages]
    exact ha
  apply BitVec.eq_of_toNat_eq
  rw [hτ.toNat_gvaToGpa (SetUp.pageMap_initOps s hlow)]
  omega

theorem bootSetUp_initOk : bootSetUp.InitOk :=
  ⟨bootSetUp_fresh.init_drawn.1, bootSetUp_fresh.supplied_init,
    bootSetUp_fresh.init_drawn.2.host⟩

/-- The boot code leaves the tables alone. -/
theorem loadRaw_keeps_tables_iff_bootSetUp :
    let σ := bootSetUp.afterInit.2
    let τ := (loadRaw σ (some "boot") confStartAddr bootRun.kernel).2
    (∀ k g, TablePage σ k g → SameRange σ τ g.toNat (g.toNat + 4096)) ∧
      ∀ a entry₀ : U64, a.toNat < 0x10000 → gvaToGpa τ entry₀ a = a := by
  have h := bootSetUp_initOk
  have hload : (loadRaw bootSetUp.afterInit.2 (some "boot") confStartAddr
      bootRun.kernel).1 = 0 :=
    loadRaw_fits (lowMem_init h.init rfl h.host) (by decide) rfl rfl (by decide) (by decide)
  exact ((loadRaw_keeps_tables_iff bootSetUp rfl h.init h.host (some "boot") bootRun.kernel
    hload).2 h.supplied).mpr (Or.inl (by decide))

section Root

variable {s : SetUp} (h : s.InitOk) (hpages : s.numPages = confInitNumPages)

include h hpages

/-- The PML4 begins where the first 16 pages end. -/
theorem root_eq : s.afterInit.2.pml4Gpa = 0x10000 := by
  have hone : 1 ≤ s.numPages.toNat := by
    rw [hpages]
    decide
  have hroot := h.toNat_root hone
  rw [hpages] at hroot
  exact BitVec.eq_of_toNat_eq hroot

/-- Its first byte is that of an entry that is present and writable. -/
theorem root_spec :
    TablePage s.afterInit.2 3 0x10000 ∧
      (∃ hva, IsPage s.afterInit.2.memRegions 0x10000 hva) ∧
      s.afterInit.2.byteAt 0x10000 = some 3 := by
  obtain ⟨T, hT, hok, _⟩ := h.tables
  have hnode := hok.held.root_node
  rw [root_eq h hpages] at hnode
  obtain ⟨hva, hpage⟩ := hok.page [] 0x10000 hnode
  have htable := hok.tablePage [] 0x10000 hnode
  refine ⟨htable, ⟨hva, hpage⟩, ?_⟩
  -- the page at zero is mapped, so the first entry links a PDPT
  have hleaf := hT.leaf 0 (by decide)
  have hzero := SetUp.pageMap_initOps s (a := 0) (by rw [hpages]; decide)
  rw [hzero, Option.map_some] at hleaf
  obtain ⟨i, q, f, hq, hf, _⟩ := hok.held.leaf_parent _ _ hleaf
  obtain rfl : q = [0, 0, 0] := (List.cons.inj hq).2.symm
  obtain ⟨g, hg⟩ := hok.held.parent_append [0, 0] [0] f hf
  have hentry := hok.held.inner [] 0x10000 hnode (by decide) 0
  rw [hg, Option.elim_some, VmMem.entry_of_isPage hok.regions hok.host hpage] at hentry
  have hlink := toNat_link (hok.isFrame hg).aligned
  rw [← hentry] at hlink
  have haligned := (hok.isFrame hg).aligned
  have hbyte := toNat_pageEntry_mod s.afterInit.2.mem hva 0
  have hsame : hva + (0x10000 - 0x10000) = hva + BitVec.ofNat 64 (8 * (0 : Fin 512).val) := rfl
  rw [byteAt_of_isPage hok.regions hok.host hpage le_rfl (by decide), hsame]
  refine congrArg some (BitVec.eq_of_toNat_eq ?_)
  rw [← hbyte, hlink]
  show (g.toNat + 3) % 256 = 3
  omega

/-- A file of 0x8001 bytes has regions for all of them. -/
theorem runLength_root :
    runLength s.afterInit.2.memRegions confStartAddr 0x8001 = 0x8001 := by
  obtain ⟨_, ⟨hva, hpage⟩, _⟩ := root_spec h hpages
  have hlow := lowMem_init h.init hpages h.host
  have hstart : confStartAddr.toNat = 0x8000 := rfl
  have hroot : (0x10000 : U64).toNat = 0x10000 := rfl
  have hhi : MemRegion.hi ⟨0, 16, s.answer.valloc⟩ = 0x10000 := by
    simp [MemRegion.hi]
  apply le_antisymm (runLength_le _ _)
  apply (runLength_isGreatest hlow.regions h.host _ _).2
  refine ⟨le_rfl, fun j hj => ?_⟩
  have hsum : (confStartAddr + BitVec.ofNat 64 j).toNat = 0x8000 + j := by
    rw [BitVec.toNat_add, BitVec.toNat_ofNat, hstart]
    omega
  rcases Nat.lt_or_ge j 0x8000 with hlt | hge
  · exact ⟨_, hlow.first, Nat.zero_le _, by omega⟩
  · refine ⟨_, hpage, ?_, ?_⟩
    · rw [hsum, MemRegion.lo, hroot]
      omega
    · rw [hi_page, hsum, hroot]
      omega

end Root

/-- A file of one byte more than there is room for, and nothing but zeros. -/
def longKernel : LoadRawEnv :=
  ⟨true, true, 0x50000000, List.replicate 0x8001 0⟩

/-- Its last byte takes the place of the first one of the PML4. -/
theorem SetUp.InitOk.loadRaw_long {s : SetUp} (h : s.InitOk)
    (hpages : s.numPages = confInitNumPages) :
    (loadRaw s.afterInit.2 (some "long") confStartAddr longKernel).1 = 0 ∧
      (loadRaw s.afterInit.2 (some "long") confStartAddr longKernel).2.byteAt 0x10000 =
        some 0 := by
  have hlow := lowMem_init h.init hpages h.host
  have hlen : longKernel.content.length = 0x8001 := List.length_replicate
  have hcount := vmMemWrite_count s.afterInit.2 longKernel.content confStartAddr
  rw [hlen, runLength_root h hpages, ← hlen] at hcount
  have hload : (loadRaw s.afterInit.2 (some "long") confStartAddr longKernel).1 = 0 :=
    loadRaw_eq_zero (Option.some_ne_none _) rfl rfl (by decide) hcount
  refine ⟨hload, ?_⟩
  have hstart : confStartAddr.toNat = 0x8000 := rfl
  have hroot : (0x10000 : U64).toNat = 0x10000 := rfl
  rw [(loadRaw_of_zero hload).2, (byteAt_vmMemWrite _ confStartAddr hlow.regions h.host).2,
    hcount, hlen, hstart, hroot, if_pos (by omega)]
  exact congrArg some (List.getD_replicate 0 (by omega))

/-- A kernel that is one byte too long is loaded, and writes into the PML4. -/
theorem loadRaw_into_pml4 :
    (loadRaw bootSetUp.afterInit.2 (some "long") confStartAddr longKernel).1 = 0 ∧
      TablePage bootSetUp.afterInit.2 3 0x10000 ∧
      bootSetUp.afterInit.2.byteAt 0x10000 = some 3 ∧
      (loadRaw bootSetUp.afterInit.2 (some "long") confStartAddr longKernel).2.byteAt 0x10000 =
        some 0 := by
  have h := bootSetUp_initOk
  obtain ⟨htable, _, hbyte⟩ := root_spec h rfl
  obtain ⟨hload, hzero⟩ := h.loadRaw_long rfl
  exact ⟨hload, htable, hbyte, hzero⟩

end Hvexec
