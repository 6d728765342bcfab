import Hvexec.ImageLoad
import Hvexec.Confinement
import Hvexec.BootHandoff
import Hvexec.Lib.Windows

/-!
# The address space of the application

The application sees the first pages and the executable, each at its own address, and
nothing else: the page tables, which hvexec keeps in guest memory as well, are mapped
nowhere.  Both are one region, a gap lies between them, and so a buffer of the application
is one block of host memory.

`AppSpace` says so of a state.  It stays, whatever is written to the application's own
regions.
-/

namespace Hvexec

open ByteMemory IntervalList RadixTable

/-- The processor faults at any other address. -/
def Canonical (a : U64) : Prop :=
  a.toNat < 2 ^ 47 ∨ 2 ^ 64 - 2 ^ 47 ≤ a.toNat

instance (a : U64) : Decidable (Canonical a) :=
  inferInstanceAs (Decidable (_ ∨ _))

/-- The host byte behind an address of the guest: the processor finds the physical
address in the tables, and the hypervisor the host address in the regions. -/
def VmMem.windows (σ : VmMem) : Windows := fun a =>
  if Canonical a then
    (σ.translate a).bind fun x =>
      let hva := gpaToHva σ.memRegions x
      if hva = 0 then none else some hva
  else none

/-- The map takes the pages of some regions to themselves and has no others. -/
def IdentityOn (m : PageMap) (l : List MemRegion) : Prop :=
  ∀ v f, m v = some f ↔ f = v ∧ ∃ p ∈ l, p.lo ≤ 4096 * v ∧ 4096 * v < p.hi

/-- The guest sees the regions `l` at their addresses, and nothing else; `T` are the
tables. -/
structure AppSpace (σ : VmMem) (T : Tables) (l : List MemRegion) : Prop where
  tables : TablesOk σ T
  pages : ∃ m, RefinesPages σ T m ∧ IdentityOn m l
  regions : ∀ p ∈ l, p ∈ σ.memRegions
  low : ∀ p ∈ l, p.hi ≤ 2 ^ 47
  gaps : ∀ p ∈ l, ∀ q ∈ l, p.hi ≠ q.lo
  data : ∀ p ∈ l, ∀ q g hva, T.node q = some g → p ≠ ⟨g, 1, hva⟩

/-- The host address of a byte of a region is in the region's block. -/
theorem gpaToHva_mem_block_of_mem {l : List MemRegion} (h : RegionsOk l) (hhost : HostOk l)
    {p : MemRegion} (hp : p ∈ l) {x : U64} (hlo : p.lo ≤ x.toNat) (hhi : x.toNat < p.hi) :
    p.hostLo ≤ (gpaToHva l x).toNat ∧ (gpaToHva l x).toNat < p.hostHi := by
  obtain ⟨_, hwrap⟩ := hhost.block p hp
  rw [gpaToHva_of_mem h hp hlo hhi]
  unfold MemRegion.lo MemRegion.hi MemRegion.hostLo MemRegion.hostHi at *
  constructor
  · bv_omega
  · bv_omega

/-- Host bytes of the regions `l`. -/
def HostByte (l : List MemRegion) (x : U64) : Prop :=
  ∃ p ∈ l, p.hostLo ≤ x.toNat ∧ x.toNat < p.hostHi

namespace AppSpace

variable {σ : VmMem} {T : Tables} {l : List MemRegion} {a x : U64}

theorem inRegion (h : AppSpace σ T l) (ha : InRegion l a) : InRegion σ.memRegions a := by
  obtain ⟨p, hp, hin⟩ := ha
  exact ⟨p, h.regions p hp, hin⟩

theorem toNat_lt (h : AppSpace σ T l) (ha : InRegion l a) : a.toNat < 2 ^ 47 := by
  obtain ⟨p, hp, _, hhi⟩ := ha
  exact hhi.trans_le (h.low p hp)

/-- The page of an address is in the regions when the address is. -/
theorem inRegion_page_iff (h : AppSpace σ T l) {n : Nat} :
    (∃ p ∈ l, p.lo ≤ 4096 * (n / 4096) ∧ 4096 * (n / 4096) < p.hi) ↔
      ∃ p ∈ l, p.lo ≤ n ∧ n < p.hi := by
  refine exists_congr fun p => and_congr_right fun hp => ?_
  have haligned := h.tables.regions.aligned p (h.regions p hp)
  unfold MemRegion.lo MemRegion.hi
  omega

/-- An address of the application is mapped to itself. -/
theorem translate (h : AppSpace σ T l) (ha : InRegion l a) : σ.translate a = some a := by
  obtain ⟨m, hm, hid⟩ := h.pages
  have hlt := h.toNat_lt ha
  have hpage := (hid (a.toNat / 4096) (a.toNat / 4096)).mpr
    ⟨rfl, h.inRegion_page_iff.mpr ha⟩
  have hframe : IsFrame (BitVec.ofNat 64 (4096 * (a.toNat / 4096))) := by
    constructor
    · rw [BitVec.toNat_ofNat]
      omega
    · rw [BitVec.toNat_ofNat]
      omega
  have hentry : BitVec.ofNat 64 (4096 * (a.toNat / 4096)) =
      entryFrame (link (BitVec.ofNat 64 (4096 * (a.toNat / 4096)))) :=
    (link_and_entryMask hframe).symm
  rw [VmMem.translate, hm.lookup_of_map hpage]
  refine congrArg some (BitVec.eq_of_toNat_eq ?_)
  rw [hentry, toNat_withOffset, toNat_link hframe.aligned, BitVec.toNat_ofNat]
  omega

/-- Nothing else is mapped, as far as the processor looks at an address. -/
theorem translate_of_not (h : AppSpace σ T l) (hcanonical : Canonical a)
    (ha : ¬ InRegion l a) :
    σ.translate a = none := by
  obtain ⟨m, hm, hid⟩ := h.pages
  have hnone : m (a.toNat % 2 ^ 48 / 4096) = none := by
    cases hv : m (a.toNat % 2 ^ 48 / 4096) with
    | none => rfl
    | some f =>
        obtain ⟨p, hp, hlo, hhi⟩ := h.inRegion_page_iff.mp ((hid _ f).mp hv).2
        have hlow := h.low p hp
        have hsmall : a.toNat % 2 ^ 48 = a.toNat := by
          rcases hcanonical with hlt | hge
          · omega
          · -- the upper half would leave a page at or above `2 ^ 47`
            have := a.isLt
            omega
        rw [hsmall] at hlo hhi
        exact absurd ⟨p, hp, hlo, hhi⟩ ha
  obtain ⟨rest, hlookup⟩ := hm.lookup_of_unmapped hnone
  rw [VmMem.translate, hlookup]

/-- **The windows of the application.** -/
theorem windows_eq_some_iff (h : AppSpace σ T l) :
    σ.windows a = some x ↔ InRegion l a ∧ x = gpaToHva σ.memRegions a := by
  rw [VmMem.windows]
  by_cases ha : InRegion l a
  · have hcanonical : Canonical a := Or.inl (h.toNat_lt ha)
    have hnull := (gpaToHva_ne_zero_iff h.tables.regions h.tables.host a).mpr (h.inRegion ha)
    rw [if_pos hcanonical, h.translate ha, Option.bind_some]
    dsimp only
    rw [if_neg hnull, Option.some.injEq]
    exact ⟨fun heq => ⟨ha, heq.symm⟩, fun hx => hx.2.symm⟩
  · constructor
    · intro hx
      split_ifs at hx with hcanonical
      rw [h.translate_of_not hcanonical ha] at hx
      simp at hx
    · exact fun hx => absurd hx.1 ha

theorem windows_of_mem (h : AppSpace σ T l) (ha : InRegion l a) :
    σ.windows a = some (gpaToHva σ.memRegions a) :=
  h.windows_eq_some_iff.mpr ⟨ha, rfl⟩

theorem inRegion_of_isSome (h : AppSpace σ T l) (ha : (σ.windows a).isSome) :
    InRegion l a := by
  obtain ⟨x, hx⟩ := Option.isSome_iff_exists.mp ha
  exact (h.windows_eq_some_iff.mp hx).1

/-- Buffers of the application are blocks of host memory. -/
theorem linear (h : AppSpace σ T l) : Linear σ.windows where
  inj := by
    intro a b x ha hb
    obtain ⟨hain, rfl⟩ := h.windows_eq_some_iff.mp ha
    obtain ⟨hbin, heq⟩ := h.windows_eq_some_iff.mp hb
    exact gpaToHva_injective h.tables.regions h.tables.host (h.inRegion hain)
      (h.inRegion hbin) heq
  next := by
    intro a x y ha hb
    obtain ⟨⟨p, hp, hlo, hhi⟩, rfl⟩ := h.windows_eq_some_iff.mp ha
    obtain ⟨⟨q, hq, hqlo, hqhi⟩, rfl⟩ := h.windows_eq_some_iff.mp hb
    have hlow := h.low p hp
    have hsucc : (a + 1).toNat = a.toNat + 1 := by
      have hone : (1 : U64).toNat = 1 := rfl
      rw [BitVec.toNat_add, hone]
      omega
    rw [hsucc] at hqlo hqhi
    have hnext : a.toNat + 1 < p.hi := by
      -- otherwise another region would begin where this one ends
      by_contra hcon
      by_cases hpq : q.lo = a.toNat + 1
      · exact h.gaps p hp q hq (by omega)
      · have heq := h.tables.regions.laid.eq_of_mem_of_mem (x := a.toNat) (h.regions p hp)
          (h.regions q hq) ⟨hlo, hhi⟩ ⟨by omega, by omega⟩
        rw [← heq] at hqhi
        omega
    have hoff := gpaToHva_offset h.tables.regions (h.regions p hp) 1 hlo hnext
    rw [← gpaToHva_of_mem h.tables.regions (h.regions p hp) hlo hhi] at hoff
    exact hoff

/-- The places of the windows are host bytes of the regions. -/
theorem hostByte (h : AppSpace σ T l) (hx : σ.windows a = some x) : HostByte l x := by
  obtain ⟨⟨p, hp, hlo, hhi⟩, rfl⟩ := h.windows_eq_some_iff.mp hx
  exact ⟨p, hp, gpaToHva_mem_block_of_mem h.tables.regions h.tables.host (h.regions p hp) hlo
    hhi⟩

/-- **What is written to the regions of the application** changes neither the tables nor
the windows. -/
theorem write (h : AppSpace σ T l) {mem : U64 → Byte}
    (hmem : ∀ x, ¬ HostByte l x → mem x = σ.mem x) :
    AppSpace { σ with mem := mem } T l ∧ ({ σ with mem := mem } : VmMem).windows = σ.windows := by
  have hkeep : ∀ x, TableByte σ T x → mem x = σ.mem x := by
    rintro x ⟨q, g, hva, hq, hpage, hlo, hhi⟩
    apply hmem
    rintro ⟨p, hp, hplo, hphi⟩
    have hapart := h.tables.host.apart (h.regions p hp) hpage (h.data p hp q g hva hq)
    unfold Apart at hapart
    rw [hostHi_page] at hapart
    simp only [MemRegion.hostLo] at hapart hplo
    omega
  have happ : AppSpace { σ with mem := mem } T l := by
    refine ⟨?_, ?_, h.regions, h.low, h.gaps, h.data⟩
    · exact h.tables.congr h.tables.regions h.tables.host h.tables.low (List.Sublist.refl _)
        rfl rfl hkeep
    · obtain ⟨m, hm, hid⟩ := h.pages
      exact ⟨m, ⟨hm.build.congr hm.build.regions hm.build.host hm.build.low
        (List.Sublist.refl _) rfl rfl hkeep, hm.leaf, hm.bound⟩, hid⟩
  refine ⟨happ, funext fun a => Option.ext fun x => ?_⟩
  rw [happ.windows_eq_some_iff, h.windows_eq_some_iff]

end AppSpace

/-! ## After main has loaded both files -/

/-- A host byte of one region is none of another. -/
theorem HostOk.not_mem_block {l : List MemRegion} (h : HostOk l) {p q : MemRegion}
    (hp : p ∈ l) (hq : q ∈ l) (hne : p ≠ q) {x : U64}
    (hx : p.hostLo ≤ x.toNat ∧ x.toNat < p.hostHi) :
    ¬ (q.hostLo ≤ x.toNat ∧ x.toNat < q.hostHi) := by
  have hapart := h.apart hp hq hne
  unfold Apart at hapart
  omega

namespace MainRun

/-- The region of the first pages. -/
def firstRegion (m : MainRun) : MemRegion :=
  ⟨0, 16, m.answer.valloc⟩

/-- The first pages and the executable. -/
def appRegions (m : MainRun) : List MemRegion :=
  [m.firstRegion, m.load.region]

/-- `main` reaches the loop over the arguments with an executable in the lower half of the
address space. -/
structure AppLoaded (m : MainRun) (content : List Byte) : Prop extends m.Loaded where
  file : MappedFile m.afterKernel.2 m.load content
  top : imageAddr.toNat + content.length ≤ 2 ^ 47

variable {m : MainRun} {content : List Byte}

theorem firstRegion_bounds (m : MainRun) :
    m.firstRegion.lo = 0 ∧ m.firstRegion.hi = 0x10000 ∧
      m.firstRegion.hostLo = m.answer.valloc.toNat ∧
      m.firstRegion.hostHi = m.answer.valloc.toNat + 0x10000 := by
  refine ⟨rfl, ?_, rfl, ?_⟩
  · simp [MemRegion.hi, firstRegion]
  · simp [MemRegion.hostHi, firstRegion]

theorem region_bounds (m : MainRun) :
    m.load.region.lo = 0x100000000 ∧
      m.load.region.hi = 0x100000000 + (Hvexec.numPages m.load.stSize).toNat * 4096 :=
  ⟨rfl, rfl⟩

theorem mem_appRegions_iff {p : MemRegion} :
    p ∈ m.appRegions ↔ p = m.firstRegion ∨ p = m.load.region := by
  simp [appRegions]

/-- The set-up of the processor and the kernel leave the tables alone. -/
theorem Loaded.afterInitState (h : m.Loaded) :
    AfterInitState m.toSetUp m.afterKernel.2 := by
  obtain ⟨_, hlow⟩ := h.lowMem
  obtain ⟨⟨mem, heq, hmem⟩, _, _⟩ := afterKernel_low hlow h.load h.kernel
  have hinit : m.toSetUp.InitOk := ⟨h.init, h.suppliedInit, hlow.host⟩
  refine ⟨hinit, m.pages, ⟨mem, heq⟩, fun k g htable y hlo hhi => ?_⟩
  obtain ⟨T, _, hok, _⟩ := hinit.tables
  obtain ⟨_, q, _, hq⟩ := hok.node_of_tablePage htable
  obtain ⟨hva, hpage⟩ := hok.page q g hq
  have hwrap := hpage.wrap hlow.host
  rw [heq, byteAt_of_isPage hlow.regions hlow.host (σ := { m.afterInit.2 with mem := mem })
      hpage hlo hhi,
    byteAt_of_isPage hlow.regions hlow.host hpage hlo hhi]
  refine congrArg some (hmem _ (hlow.not_isPage hpage ?_))
  constructor
  · bv_omega
  · bv_omega

/-- The application's pages are mapped to themselves, and no others are. -/
theorem identityOn_appRegions (m : MainRun) :
    IdentityOn ((pageMap m.initOps).assign (imageAddr.toNat / 4096)
      (Hvexec.numPages m.load.stSize).toNat (imageAddr.toNat / 4096)) m.appRegions := by
  intro v f
  obtain ⟨hfirst_lo, hfirst_hi, _⟩ := m.firstRegion_bounds
  obtain ⟨hlo, hhi⟩ := m.region_bounds
  have himage : imageAddr.toNat = 0x100000000 := rfl
  have hpages : (m.numPages.setWidth 64).toNat = 16 := by
    rw [m.pages]
    rfl
  simp only [appRegions, List.mem_cons, List.not_mem_nil, or_false, exists_eq_or_imp,
    exists_eq_left, hfirst_lo, hfirst_hi, hlo, hhi, pageMap, SetUp.initOps, List.foldl_cons,
    List.foldl_nil, MemOp.assign, PageMap.assign, hpages, himage, BitVec.ofNat_eq_ofNat,
    BitVec.toNat_ofNat]
  split_ifs with himg hlow
  · rw [Option.some.injEq]
    omega
  · rw [Option.some.injEq]
    omega
  · simp only [false_iff]
    omega

theorem AppLoaded.region_hi (h : m.AppLoaded content) :
    m.load.region.lo + content.length ≤ m.load.region.hi ∧ m.load.region.hi ≤ 2 ^ 47 := by
  obtain ⟨hlo, hhi⟩ := m.region_bounds
  have htop := h.top
  have himage : imageAddr.toNat = 0x100000000 := rfl
  rw [hlo, hhi, h.file.toNat_numPages]
  omega

/-- The bytes of the file lie in its region. -/
theorem AppLoaded.inRegion (h : m.AppLoaded content) {k : Nat} (hk : k < content.length) :
    m.load.region.lo ≤ (imageAddr + BitVec.ofNat 64 k).toNat ∧
      (imageAddr + BitVec.ofNat 64 k).toNat < m.load.region.hi := by
  obtain ⟨hend, htop⟩ := h.region_hi
  have hlo : m.load.region.lo = imageAddr.toNat := rfl
  have hsum : (imageAddr + BitVec.ofNat 64 k).toNat = imageAddr.toNat + k :=
    toNat_add_ofNat (by omega)
  rw [hsum]
  omega

/-- **The address space after the load.** -/
theorem AppLoaded.appSpace (h : m.AppLoaded content) :
    ∃ T, AppSpace m.afterApp.vm T m.appRegions ∧
      ∀ k (hk : k < content.length),
        m.afterApp.vm.byteAt (imageAddr + BitVec.ofNat 64 k) = some (content.get ⟨k, hk⟩) := by
  have hinit := h.afterInitState
  obtain ⟨T₀, T, htables⟩ := hinit.load h.file h.app h.suppliedLoad h.placed.host
  obtain ⟨hfirst_lo, hfirst_hi, _⟩ := m.firstRegion_bounds
  obtain ⟨hend, htop⟩ := h.region_hi
  have himage : m.load.region.lo = imageAddr.toNat := rfl
  have himage' : imageAddr.toNat = 0x100000000 := rfl
  have hnonempty := h.file.nonempty
  have hregions : ∀ p ∈ m.appRegions, p ∈ m.afterApp.vm.memRegions := by
    intro p hp
    rcases mem_appRegions_iff.mp hp with rfl | rfl
    · exact h.afterApp_low.1.first
    · exact htables.grown.regions.subset htables.region
  have hok : TablesOk m.afterApp.vm T := by
    rcases htables.refines.build.tables with hok | ⟨_, hnone⟩
    · exact hok
    · -- the executable is mapped, so there are tables
      have hleaf := htables.refines.leaf imageAddr (by decide)
      rw [((m.identityOn_appRegions _ _).mpr ⟨rfl, m.load.region, by simp [appRegions],
        by omega, by omega⟩), hnone] at hleaf
      simp [noTables] at hleaf
  refine ⟨T, ⟨hok, ⟨_, htables.refines, m.identityOn_appRegions⟩, hregions, ?_, ?_, ?_⟩, ?_⟩
  · intro p hp
    rcases mem_appRegions_iff.mp hp with rfl | rfl
    · rw [hfirst_hi]
      decide
    · exact htop
  · intro p hp q hq
    rcases mem_appRegions_iff.mp hp with rfl | rfl
    · rcases mem_appRegions_iff.mp hq with rfl | rfl
      · omega
      · omega
    · rcases mem_appRegions_iff.mp hq with rfl | rfl
      · omega
      · omega
  · intro p hp q g hva hq heq
    rcases mem_appRegions_iff.mp hp with rfl | rfl
    · exact absurd (congrArg MemRegion.npages heq) (by simp [firstRegion])
    · -- the executable begins where no table was, and in no page for a new one
      have hg : imageAddr = g := congrArg MemRegion.gpa heq
      subst hg
      rcases htables.grown.fresh q imageAddr hq with hold | hnew
      · exact absurd (htables.below q imageAddr hold) (lt_irrefl _)
      · exact hnew ⟨m.load.region, htables.region, le_rfl, by omega⟩
  · intro k hk
    have hnum := h.file.toNat_numPages
    obtain ⟨hlo, hhi⟩ := h.inRegion hk
    have hnull := gpaToHva_ne_zero hok.regions hok.host
      (hregions m.load.region (by simp [appRegions])) hlo hhi
    have hread := (htables.fileByte h.file (k := k) (by rw [hnum]; omega) 0 0).2
    have hread' : vmMemRead m.afterApp.vm (imageAddr + BitVec.ofNat 64 k) [0] =
        (1, [content.getD k 0]) := hread
    rw [List.getD_eq_getElem _ _ hk, vmMemRead] at hread'
    dsimp only at hread'
    rw [if_neg hnull] at hread'
    rw [VmMem.byteAt, if_neg hnull]
    exact congrArg some (List.cons.inj (Prod.mk.inj hread').2).1

/-- **The address space when the application starts**, whatever was written to the first
pages before. -/
theorem AppLoaded.start (h : m.AppLoaded content) {σ : VmMem}
    (hσ : SameButLow m.afterApp.vm σ m.answer.valloc) :
    ∃ T, AppSpace σ T m.appRegions ∧
      ∀ k (hk : k < content.length),
        look σ.windows σ.mem (imageAddr + BitVec.ofNat 64 k) =
          some (content.get ⟨k, hk⟩) := by
  obtain ⟨T, happ, hfile⟩ := h.appSpace
  obtain ⟨_, _, hhost_lo, hhost_hi⟩ := m.firstRegion_bounds
  have hregion : m.load.region ∈ m.appRegions := by
    simp [appRegions]
  have hfirst : m.firstRegion ∈ m.appRegions := by
    simp [appRegions]
  obtain ⟨mem, rfl, hmem⟩ := hσ
  have hkeep : ∀ x, ¬ HostByte m.appRegions x → mem x = m.afterApp.vm.mem x := by
    intro x hx
    apply hmem
    rintro ⟨hlo, hhi⟩
    exact hx ⟨m.firstRegion, hfirst, hhost_lo ▸ hlo, hhost_hi ▸ hhi⟩
  obtain ⟨happ', _⟩ := happ.write hkeep
  refine ⟨T, happ', fun k hk => ?_⟩
  have hk' := h.inRegion hk
  have hin : InRegion m.appRegions (imageAddr + BitVec.ofNat 64 k) := ⟨_, hregion, hk'⟩
  have hnull := (gpaToHva_ne_zero_iff happ.tables.regions happ.tables.host _).mpr
    (happ.inRegion hin)
  have hbyte := hfile k hk
  rw [VmMem.byteAt, if_neg hnull] at hbyte
  rw [look, happ'.windows_of_mem hin, Option.map_some, ← hbyte]
  refine congrArg some (hmem _ ?_)
  have hne : m.load.region ≠ m.firstRegion := by
    intro hcon
    have hgpa := congrArg MemRegion.gpa hcon
    exact absurd (show imageAddr = 0 from hgpa) (by decide)
  have hnot := happ.tables.host.not_mem_block (happ.regions _ hregion)
    (happ.regions _ hfirst) hne (gpaToHva_mem_block_of_mem happ.tables.regions
      happ.tables.host (happ.regions _ hregion) hk'.1 hk'.2)
  rw [hhost_lo, hhost_hi] at hnot
  exact hnot

end MainRun

end Hvexec
