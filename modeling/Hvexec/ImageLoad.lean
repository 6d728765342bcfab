import Hvexec.KernelLoad

/-!
# What the guest sees of the executable

`load_mach_obj` registers the block that `mmap` returned and maps it, with new tables
where none are.  First fit puts these into the gap behind the first tables or behind the
executable, and they are written and nothing else is: not the executable, and not the
first pages.
-/

namespace Hvexec

open ByteMemory IntervalList RadixTable

/-- A byte is read. -/
theorem vmMemRead_byte {σ : VmMem} {x : U64} {v : Byte} (h : σ.byteAt x = some v) (b : Byte) :
    vmMemRead σ x [b] = (1, [v]) := by
  unfold VmMem.byteAt at h
  split_ifs at h with hnull
  rw [vmMemRead]
  dsimp only
  rw [if_neg hnull, Option.some.inj h]
  rfl

/-! ## The executable -/

/-- The pages of a file. -/
theorem toNat_numPages_length {n : Nat} (h : n < 2 ^ 63) :
    (numPages (n : Int)).toNat = (n + 4095) / 4096 := by
  have hdiv : (n : Int).tdiv 0x1000 = ((n / 4096 : Nat) : Int) := by
    rw [Int.tdiv_eq_ediv_of_nonneg (Int.natCast_nonneg n)]
    rfl
  have hmod : (n : Int).tmod 0x1000 = ((n % 4096 : Nat) : Int) := by
    rw [Int.tmod_eq_emod_of_nonneg (Int.natCast_nonneg n)]
    rfl
  have hone : (1 : U64).toNat = 1 := rfl
  simp only [numPages, hdiv, hmod, BitVec.ofInt_natCast]
  split_ifs with hrest
  · rw [BitVec.toNat_add, BitVec.toNat_ofNat, hone]
    omega
  · rw [BitVec.toNat_ofNat]
    omega

/-- A state after `vm_mem_init` of 16 pages, with anything written since but into the
tables. -/
structure AfterInitState (s : SetUp) (σ : VmMem) : Prop where
  init : s.InitOk
  pages : s.numPages = confInitNumPages
  state : ∃ mem, σ = { s.afterInit.2 with mem := mem }
  tables : ∀ k g, TablePage s.afterInit.2 k g →
    SameRange s.afterInit.2 σ g.toNat (g.toNat + 4096)

/-- `mmap` gives the bytes of the file, and zeros to the end of its last page. -/
structure MappedFile (σ : VmMem) (e : LoadMachObjEnv) (content : List Byte) : Prop where
  size : e.stSize = content.length
  nonempty : 1 ≤ content.length
  low : imageAddr.toNat + content.length ≤ 2 ^ 48
  bytes : ∀ k < (numPages e.stSize).toNat * 4096,
    σ.mem (e.mmap + BitVec.ofNat 64 k) = content.getD k 0

section Image

variable {s : SetUp} {σ : VmMem} {e : LoadMachObjEnv} {content : List Byte}

theorem MappedFile.toNat_numPages (h : MappedFile σ e content) :
    (numPages e.stSize).toNat = (content.length + 4095) / 4096 := by
  have hlow := h.low
  rw [h.size]
  exact toNat_numPages_length (by omega)

/-- The pages of the file end at or below `2 ^ 48`. -/
theorem MappedFile.pages_low (h : MappedFile σ e content) :
    imageAddr.toNat + (numPages e.stSize).toNat * 4096 ≤ 2 ^ 48 := by
  have himage : imageAddr.toNat = 0x100000000 := rfl
  have hlow := h.low
  rw [h.toNat_numPages]
  omega

theorem AfterInitState.endsBelow (h : AfterInitState s σ) : EndsBelow σ 0x41000 := by
  have hends := SetUp.afterInit_endsBelow h.init.init
  rw [h.pages] at hends
  obtain ⟨mem, rfl⟩ := h.state
  exact hends.congr rfl

theorem AfterInitState.first (h : AfterInitState s σ) :
    (⟨0, 16, s.answer.valloc⟩ : MemRegion) ∈ σ.memRegions := by
  obtain ⟨mem, rfl⟩ := h.state
  exact (lowMem_init h.init.init h.pages h.init.host).first

/-- The tables stand. -/
theorem AfterInitState.refinesPages (h : AfterInitState s σ) :
    ∃ T, RefinesPages σ T (pageMap s.initOps) ∧
      ∀ q g, T.node q = some g → g.toNat < imageAddr.toNat := by
  obtain ⟨T, hT, hok, _⟩ := h.init.tables
  obtain ⟨mem, hσ⟩ := h.state
  refine ⟨T, hT.of_tableBytes hok hσ h.tables, ?_⟩
  intro q g hq
  obtain ⟨hva, hpage⟩ := hok.page q g hq
  have hlow := h.endsBelow.low
  rw [hσ] at hlow
  have hhi := hlow _ hpage
  have himage : imageAddr.toNat = 0x100000000 := rfl
  rw [hi_page] at hhi
  omega

/-- What `map_gpa` does for the file. -/
def LoadMachObjEnv.regionOp (e : LoadMachObjEnv) : RegionOp :=
  .mapGpa imageAddr (numPages e.stSize) e.mmap e.mapGpa

/-- From `σ` to `τ` the file was registered and mapped: the tables grew from `T` to `T'`,
and those of `T` lie below the file. -/
structure ImageTables (s : SetUp) (σ τ : VmMem) (e : LoadMachObjEnv) (T T' : Tables) :
    Prop where
  refines : RefinesPages τ T' ((pageMap s.initOps).assign (imageAddr.toNat / 4096)
    (numPages e.stSize).toNat (imageAddr.toNat / 4096))
  grown : Grown (e.regionOp.step σ) T τ T'
  region : e.region ∈ (e.regionOp.step σ).memRegions
  below : ∀ q g, T.node q = some g → g.toNat < imageAddr.toNat
  host : HostOk τ.memRegions

/-- **The calls of `load_mach_obj`.**  The file is registered and mapped, the tables
grow, and what was mapped stays mapped. -/
theorem AfterInitState.load (h : AfterInitState s σ) (hfile : MappedFile σ e content)
    {path : Option String} {entryoff₀ : U64}
    (hcode : (loadMachObj σ path entryoff₀ e).code = 0)
    (hsupplied : Supplied e.mapGva.answers (e.regionOp.step σ)
      (loadMachObj σ path entryoff₀ e).vm.memRegions)
    (hhost : HostOk (loadMachObj σ path entryoff₀ e).vm.memRegions) :
    ∃ T T', ImageTables s σ (loadMachObj σ path entryoff₀ e).vm e T T' := by
  obtain ⟨hrun, hmem⟩ := loadMachObj_eq_run hcode
  have hrun' : (loadMachObj σ path entryoff₀ e).vm =
      (mapGva (e.regionOp.step σ) imageAddr (numPages e.stSize) imageAddr e.mapGva).2 := hrun
  rw [newRegion_image] at hmem
  rw [hrun'] at hsupplied hhost ⊢
  have himage : imageAddr.toNat = 0x100000000 := rfl
  have hlow := hfile.pages_low
  obtain ⟨T, hT, hbelow⟩ := h.refinesPages
  have hends : EndsBelow (e.regionOp.step σ) (2 ^ 48) := by
    refine (h.endsBelow.mono (by decide)).mapGpa _ _ _ _ ?_ (by decide)
    rw [newRegion_image]
    exact hlow
  have hmap := hends.mapGva imageAddr (numPages e.stSize) imageAddr e.mapGva (by omega)
  have hplaced : ∀ p ∈ (mapGva (e.regionOp.step σ) imageAddr (numPages e.stSize) imageAddr
      e.mapGva).2.memRegions, p.hi ≤ 2 ^ 52 :=
    fun p hp => (hmap.low p hp).trans (by omega)
  have hsub := sublist_mapGva (e.regionOp.step σ) imageAddr (numPages e.stSize) imageAddr
    e.mapGva
  obtain ⟨T', hT', _, hgrown⟩ := (hT.region e.regionOp hends.ok (hhost.sublist hsub)
    fun p hp => (hends.low p hp).trans (by decide)).mapGva
    (by simp only [MemOp.InRange]; omega) ⟨hsupplied, hhost, hplaced⟩
  exact ⟨T, T', hT', hgrown, hmem, hbelow, hhost⟩

variable {τ : VmMem} {T T' : Tables}

/-- A byte of the file, or a zero behind it. -/
theorem ImageTables.fileByte (h : ImageTables s σ τ e T T') (hfile : MappedFile σ e content)
    {k : Nat} (hk : k < (numPages e.stSize).toNat * 4096) (entry₀ : U64) (b : Byte) :
    gvaToGpa τ entry₀ (imageAddr + BitVec.ofNat 64 k) = imageAddr + BitVec.ofNat 64 k ∧
      vmMemRead τ (imageAddr + BitVec.ofNat 64 k) [b] = (1, [content.getD k 0]) := by
  have himage : imageAddr.toNat = 0x100000000 := rfl
  have hlow := hfile.pages_low
  have hok := h.refines.build.regions
  have hsum : (imageAddr + BitVec.ofNat 64 k).toNat = imageAddr.toNat + k :=
    toNat_add_ofNat (by omega)
  constructor
  · apply BitVec.eq_of_toNat_eq
    rw [h.refines.toNat_gvaToGpa (if_pos (by rw [hsum]; omega)), hsum]
    omega
  · apply vmMemRead_byte
    have hlo : e.region.lo ≤ (imageAddr + BitVec.ofNat 64 k).toNat := by
      rw [hsum]
      exact Nat.le_add_right _ _
    have hhi : (imageAddr + BitVec.ofNat 64 k).toNat < e.region.hi := by
      rw [hsum]
      exact Nat.add_lt_add_left hk _
    have hoff : e.region.hva + (imageAddr + BitVec.ofNat 64 k - e.region.gpa) =
        e.mmap + BitVec.ofNat 64 k := by
      show e.mmap + (imageAddr + BitVec.ofNat 64 k - imageAddr) = _
      bv_omega
    rw [h.grown.byteAt hok h.host h.region ?_ hlo hhi,
      byteAt_of_mem (hok.sublist h.grown.regions) (h.host.sublist h.grown.regions) h.region
        hlo hhi,
      hoff, (e.regionOp.step_frame σ).1, hfile.bytes k hk]
    -- the file begins where no table was
    intro q g hva hq heq
    have hg : imageAddr = g := congrArg MemRegion.gpa heq
    have hlt := h.below q g hq
    rw [← hg] at hlt
    exact absurd hlt (lt_irrefl _)

/-- A byte of the first pages. -/
theorem ImageTables.firstByte (h : ImageTables s σ τ e T T') (hinit : AfterInitState s σ)
    {a : U64} (ha : a.toNat < 0x10000) :
    (∀ entry₀, gvaToGpa τ entry₀ a = a) ∧ τ.byteAt a = σ.byteAt a := by
  have himage : imageAddr.toNat = 0x100000000 := rfl
  have hok := h.refines.build.regions
  constructor
  · intro entry₀
    have hpage := SetUp.pageMap_initOps s (a := a) (by rw [hinit.pages]; exact ha)
    have hmap : ((pageMap s.initOps).assign (imageAddr.toNat / 4096)
        (numPages e.stSize).toNat (imageAddr.toNat / 4096)) (a.toNat / 4096) =
        some (a.toNat / 4096) := by
      rw [PageMap.assign, if_neg (by omega), hpage]
    apply BitVec.eq_of_toNat_eq
    rw [h.refines.toNat_gvaToGpa hmap]
    omega
  · have hfirst := hinit.first
    have hhi : a.toNat < MemRegion.hi ⟨0, 16, s.answer.valloc⟩ := by
      simpa [MemRegion.hi] using ha
    have hmap := h.grown.byteAt hok h.host ((e.regionOp.sublist_step σ).subset hfirst)
      (fun q g hva _ heq => absurd (congrArg MemRegion.npages heq) (by simp))
      (Nat.zero_le _) hhi
    exact hmap.trans (byteAt_regionOp e.regionOp (hok.sublist h.grown.regions)
      (h.host.sublist h.grown.regions) hfirst (Nat.zero_le _) hhi)

end Image

/-- **The guest sees the file.**  After a successful `load_mach_obj` every byte of the
file is mapped and read at its address, zeros follow to the end of the last page, and
the first pages are mapped as before and hold what they held. -/
theorem loadMachObj_image (s : SetUp) (σ : VmMem) (h : AfterInitState s σ)
    (path : Option String) (entryoff₀ : U64) (e : LoadMachObjEnv) (content : List Byte)
    (hfile : MappedFile σ e content)
    (hcode : (loadMachObj σ path entryoff₀ e).code = 0)
    (hsupplied : Supplied e.mapGva.answers (e.regionOp.step σ)
      (loadMachObj σ path entryoff₀ e).vm.memRegions)
    (hhost : HostOk (loadMachObj σ path entryoff₀ e).vm.memRegions) :
    let τ := (loadMachObj σ path entryoff₀ e).vm
    (∀ k (hk : k < content.length) (entry₀ : U64) (b : Byte),
      gvaToGpa τ entry₀ (imageAddr + BitVec.ofNat 64 k) = imageAddr + BitVec.ofNat 64 k ∧
        vmMemRead τ (imageAddr + BitVec.ofNat 64 k) [b] = (1, [content.get ⟨k, hk⟩])) ∧
      (∀ k, content.length ≤ k → k < (content.length + 4095) / 4096 * 4096 →
        ∀ entry₀ b,
          gvaToGpa τ entry₀ (imageAddr + BitVec.ofNat 64 k) =
              imageAddr + BitVec.ofNat 64 k ∧
            vmMemRead τ (imageAddr + BitVec.ofNat 64 k) [b] = (1, [0])) ∧
      ∀ a : U64, a.toNat < 0x10000 →
        (∀ entry₀, gvaToGpa τ entry₀ a = a) ∧ τ.byteAt a = σ.byteAt a := by
  intro τ
  have hnum := hfile.toNat_numPages
  obtain ⟨T, T', himage⟩ := h.load hfile hcode hsupplied hhost
  rw [← hnum]
  refine ⟨fun k hk entry₀ b => ?_, fun k hle hk entry₀ b => ?_,
    fun a ha => himage.firstByte h ha⟩
  · have hin := himage.fileByte hfile (k := k) (by omega) entry₀ b
    rwa [List.getD_eq_getElem?_getD, List.getElem?_eq_getElem hk] at hin
  · have hin := himage.fileByte hfile hk entry₀ b
    rwa [List.getD_eq_default _ _ hle] at hin

/-- Right after `vm_mem_init` nothing was written. -/
theorem SetUp.InitOk.afterInitState {s : SetUp} (h : s.InitOk)
    (hpages : s.numPages = confInitNumPages) :
    AfterInitState s s.afterInit.2 :=
  ⟨h, hpages, ⟨s.afterInit.2.mem, rfl⟩, fun _ _ _ _ _ _ => rfl⟩

/-- A set-up, in the terms of the load. -/
theorem SetUp.Ok.load_eq {s : SetUp} (h : s.Ok) :
    (loadMachObj s.afterInit.2 s.path s.entryoff₀ s.load).code = 0 ∧
      Supplied s.load.mapGva.answers (s.load.regionOp.step s.afterInit.2)
        (loadMachObj s.afterInit.2 s.path s.entryoff₀ s.load).vm.memRegions ∧
      HostOk (loadMachObj s.afterInit.2 s.path s.entryoff₀ s.load).vm.memRegions :=
  ⟨h.load, h.suppliedLoad, h.host⟩

theorem bootSetUp_mappedFile :
    MappedFile bootSetUp.afterInit.2 bootSetUp.load (List.replicate 5 0) := by
  refine ⟨rfl, by decide, by decide, fun k hk => ?_⟩
  have hnum : (numPages bootSetUp.load.stSize).toNat = 1 := by
    decide
  have hmmap : bootSetUp.load.mmap.toNat = 0x78000000 := rfl
  have hregion := bootSetUp_ok.mem_afterMapGpa
  have hnew : bootSetUp.load.region ∉ bootSetUp.afterInit.2.memRegions := by
    intro hcon
    have hlow := (bootSetUp_initOk.afterInitState rfl).endsBelow.low _ hcon
    exact absurd hlow (by decide)
  have hhi : bootSetUp.load.region.hostHi = 0x78000000 + 4096 := by
    decide
  have hx : (bootSetUp.load.mmap + BitVec.ofNat 64 k).toNat = 0x78000000 + k := by
    rw [BitVec.toNat_add, BitVec.toNat_ofNat, hmmap]
    omega
  rw [List.getD_eq_getElem?_getD, List.getElem?_getD_replicate_default_eq]
  apply bootSetUp_fresh.mem_afterInit bootSetUp_ok.host
    (bootSetUp.sublist_mapGpa.trans bootSetUp_ok.sublist_load)
    (bootSetUp_ok.sublist_load.subset hregion) hnew
  constructor
  · rw [hx]
    exact Nat.le_add_right _ _
  · rw [hx]
    refine lt_of_lt_of_eq ?_ hhi.symm
    omega

/-- The third byte of the file of five bytes, and the first one behind it. -/
theorem loadMachObj_image_bootSetUp :
    let τ := (loadMachObj bootSetUp.afterInit.2 bootSetUp.path bootSetUp.entryoff₀
      bootSetUp.load).vm
    vmMemRead τ (imageAddr + BitVec.ofNat 64 2) [7] = (1, [0]) ∧
      gvaToGpa τ 7 (imageAddr + BitVec.ofNat 64 5) = imageAddr + BitVec.ofNat 64 5 := by
  obtain ⟨hcode, hsupplied, hhost⟩ := bootSetUp_ok.load_eq
  obtain ⟨hfile, htail, _⟩ := loadMachObj_image bootSetUp bootSetUp.afterInit.2
    (bootSetUp_initOk.afterInitState rfl) bootSetUp.path bootSetUp.entryoff₀ bootSetUp.load
    (List.replicate 5 0) bootSetUp_mappedFile hcode hsupplied hhost
  exact ⟨(hfile 2 (by decide) 7 7).2, (htail 5 (by decide) (by decide) 7 7).1⟩

end Hvexec
