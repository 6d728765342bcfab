import Hvexec.AddressMap
import Hvexec.HostSupply

/-!
# Loading an executable

`load_mach_obj` maps the file of the executable at `0x100000000`, both as guest
physical memory and as virtual memory.  Together with `vm_mem_init`, which maps
the first pages to themselves, this is all that is mapped when the guest starts.

Both calls are made of calls that the previous modules treat: a region is
registered and then mapped.  No address that they map leads into a page table,
wherever the allocator put the tables.
-/

namespace Hvexec

open IntervalList RadixTable

/-- Where `load_mach_obj` puts the executable, both `gpa` and `gva`. -/
def imageAddr : U64 := 0x100000000

/-- What the host answers in a call of `load_mach_obj`: whether the file opens,
the `entryoff` that `read_entry_point_cmd` stores when it finds one, the size of
the file, the pointer that `mmap` returns, and the answers to the two calls. -/
structure LoadMachObjEnv where
  fopen : Bool
  entryPoint : Option U64
  stSize : Int
  mmap : U64
  mapGpa : HostAnswer
  mapGva : MapGvaEnv

/-- What `load_mach_obj` returns, and `*entryoff` and the state after it. -/
structure LoadMachObj where
  code : Int
  entryoff : U64
  vm : VmMem

/-- `num_pages`, with the division of C. -/
def numPages (stSize : Int) : U64 :=
  let numPages := BitVec.ofInt 64 (stSize.tdiv 0x1000)
  if 0 < stSize.tmod 0x1000 then numPages + 1 else numPages

/-- `entryoff₀` is what `*entryoff` holds before the call. -/
def loadMachObj
    (σ : VmMem) (path : Option String) (entryoff₀ : U64) (e : LoadMachObjEnv) :
    LoadMachObj :=
  let gpa := imageAddr
  let gva := gpa
  if path = none then ⟨-1, entryoff₀, σ⟩
  else if e.fopen = false then ⟨-1, entryoff₀, σ⟩
  else
    let entryoff := (e.entryPoint.map (fun off => off + gva)).getD entryoff₀
    if e.mmap = 0 then ⟨-1, entryoff, σ⟩
    else
      let r := mapGpa σ gpa (numPages e.stSize) e.mmap e.mapGpa
      if r.1 ≠ 0 then ⟨-1, entryoff, r.2⟩
      else
        let r' := mapGva r.2 gva (numPages e.stSize) gpa e.mapGva
        if r'.1 ≠ 0 then ⟨-1, entryoff, r'.2⟩
        else ⟨0, entryoff, r'.2⟩

/-- What the host answers in a call of `load_raw`: whether the file opens and
`stat` succeeds, the pointer that `mmap` returns, and the bytes of the file. -/
structure LoadRawEnv where
  opened : Bool
  stat : Bool
  mmap : U64
  content : List Byte

def loadRaw (σ : VmMem) (path : Option String) (gpa : U64) (e : LoadRawEnv) :
    Int × VmMem :=
  if path = none then (-1, σ)
  else if e.opened = false then (-1, σ)
  else if e.stat = false then (-1, σ)
  else if e.mmap = 0 then (-1, σ)
  else
    let w := vmMemWrite σ gpa e.content
    if w.1 ≠ e.content.length then (-1, w.2) else (0, w.2)

/-! ## Set-up as a run of calls -/

/-- What `*gpa` held before does not matter to the state. -/
theorem vmMemAlloc_vm (σ : VmMem) (npages gpa₀ : U64) (a : HostAnswer) :
    (vmMemAlloc σ npages gpa₀ a).vm = (vmMemAlloc σ npages 0 a).vm := by
  simp only [vmMemAlloc]
  cases findFreeMemRegion σ.memRegions npages with
  | none =>
      rfl
  | some g =>
      simp only
      split_ifs <;> rfl

/-- A successful `vm_mem_init` registers pages from zero on and maps them. -/
theorem vmMemInit_eq_run
    {σ : VmMem} {n : BitVec 32} {gpa₀ : U64} {a : HostAnswer} {env : MapGvaEnv}
    (h : (vmMemInit σ n gpa₀ a env).1 = 0) :
    (vmMemInit σ n gpa₀ a env).2 =
        MemOp.run σ [.region (.vmMemAlloc (n.setWidth 64) a),
          .mapGva 0 (n.setWidth 64) 0 env] ∧
      newRegion 0 (n.setWidth 64) a.valloc ∈
        (vmMemAlloc σ (n.setWidth 64) 0 a).vm.memRegions := by
  simp only [vmMemInit] at h ⊢
  split_ifs at h ⊢ with hva hgpa hcode
  · simp at h
  · simp at h
  · simp at h
  · have hgpa := not_not.mp hgpa
    refine ⟨?_, ?_⟩
    · rw [hgpa, vmMemAlloc_vm]
      rfl
    · rcases vmMemAlloc_cases σ (n.setWidth 64) gpa₀ a with heq | ⟨g, _, _, _, heq⟩
      · rw [heq] at hva
        exact absurd rfl hva
      · rw [← vmMemAlloc_vm σ _ gpa₀ a]
        rw [heq] at hgpa ⊢
        obtain rfl : g = 0 := hgpa
        exact mem_insertRegion_self _ _

/-- A successful `load_mach_obj` called `map_gpa` with success. -/
theorem loadMachObj_mapGpa
    {σ : VmMem} {path : Option String} {entryoff₀ : U64} {e : LoadMachObjEnv}
    (h : (loadMachObj σ path entryoff₀ e).code = 0) :
    (mapGpa σ imageAddr (numPages e.stSize) e.mmap e.mapGpa).1 = 0 := by
  by_contra hgpa
  simp only [loadMachObj, ne_eq, hgpa, not_false_eq_true, if_true] at h
  split_ifs at h <;> simp at h

/-- A successful `load_mach_obj` registers the file and maps it. -/
theorem loadMachObj_eq_run
    {σ : VmMem} {path : Option String} {entryoff₀ : U64} {e : LoadMachObjEnv}
    (h : (loadMachObj σ path entryoff₀ e).code = 0) :
    (loadMachObj σ path entryoff₀ e).vm =
        MemOp.run σ
          [.region (.mapGpa imageAddr (numPages e.stSize) e.mmap e.mapGpa),
            .mapGva imageAddr (numPages e.stSize) imageAddr e.mapGva] ∧
      newRegion imageAddr (numPages e.stSize) e.mmap ∈
        (mapGpa σ imageAddr (numPages e.stSize) e.mmap e.mapGpa).2.memRegions := by
  constructor
  · simp only [loadMachObj] at h ⊢
    split_ifs at h ⊢ with hpath hopen hmmap hgpa hgva
    · simp at h
    · simp at h
    · simp at h
    · simp at h
    · simp at h
    · rfl
  · rw [(mapGpa_of_eq_zero (loadMachObj_mapGpa h)).1]
    exact mem_insertRegion_self _ _

/-! ## Set-up succeeds -/

/-- `vm_mem_init` in the empty state, on a host with fresh pages. -/
theorem vmMemInit_drawn
    (mem : U64 → Byte) {n : BitVec 32} (gpa₀ : U64) {a : HostAnswer} {env : MapGvaEnv}
    (hn : 1 ≤ n.toNat) (hvalloc : a.valloc ≠ 0)
    (hmap : a.hvVmMap = true) (hmalloc : a.malloc = true)
    (hblock : a.valloc.toNat + n.toNat * 4096 ≤ 2 ^ 64)
    (hfresh : FreshPages env.answers [⟨0, n.setWidth 64, a.valloc⟩] (1 + 3 * n.toNat)) :
    (vmMemAlloc (VmMem.init mem) (n.setWidth 64) gpa₀ a).vm.memRegions =
        [⟨0, n.setWidth 64, a.valloc⟩] ∧
      (vmMemInit (VmMem.init mem) n gpa₀ a env).1 = 0 ∧
      Drawn env.answers [⟨0, n.setWidth 64, a.valloc⟩] (n.toNat * 4096)
        (vmMemInit (VmMem.init mem) n gpa₀ a env).2 (1 + 3 * n.toNat) := by
  have hlt := n.isLt
  have hnum : (n.setWidth 64).toNat = n.toNat := by
    rw [BitVec.toNat_setWidth]
    omega
  have hzero : (0 : U64).toNat = 0 := rfl
  have hg : ∀ g, findFreeMemRegion (VmMem.init mem).memRegions (n.setWidth 64) = some g →
      g = 0 := by
    intro g hg
    simp only [VmMem.init, findFreeMemRegion, findFreeLoop] at hg
    split_ifs at hg
    exact (Option.some.inj hg).symm
  have hpos : 1 ≤ (n.setWidth 64).toNat := by omega
  have hbytes : (n.setWidth 64).toNat * 4096 < 2 ^ 64 := by omega
  have hfit : ∀ g, findFreeMemRegion (VmMem.init mem).memRegions (n.setWidth 64) = some g →
      g.toNat + (n.setWidth 64).toNat * 4096 < 2 ^ 64 := by
    intro g h
    rw [hg g h, hzero]
    omega
  obtain ⟨g, hfree, _, halloc⟩ := vmMemAlloc_granted gpa₀ regionsOk_nil hpos hbytes hfit
    hvalloc hmap hmalloc
  obtain rfl := hg g hfree
  -- one region, from zero on
  have hregions : (vmMemAlloc (VmMem.init mem) (n.setWidth 64) gpa₀ a).vm.memRegions =
      [⟨0, n.setWidth 64, a.valloc⟩] := by
    rw [halloc]
    rfl
  have hhi : MemRegion.hi ⟨0, n.setWidth 64, a.valloc⟩ = n.toNat * 4096 := by
    simp only [MemRegion.hi, hnum, hzero]
    omega
  have hok : RegionsOk [⟨0, n.setWidth 64, a.valloc⟩] := by
    refine ⟨⟨?_, by simp⟩, ?_, ?_⟩ <;> simp only [RegionsBelow, List.mem_singleton, forall_eq, hhi]
    · simp only [MemRegion.lo, hzero]
      omega
    · rfl
    · rwa [hnum] at hbytes
  have hhost : HostOk [⟨0, n.setWidth 64, a.valloc⟩] := by
    refine ⟨?_, by simp⟩
    simp only [List.mem_singleton, forall_eq, MemRegion.hostHi, hnum]
    exact ⟨hvalloc, hblock⟩
  rw [← hregions] at hok hhost hfresh ⊢
  have hlow : ∀ p ∈ (vmMemAlloc (VmMem.init mem) (n.setWidth 64) gpa₀ a).vm.memRegions,
      p.hi ≤ n.toNat * 4096 := by
    rw [hregions]
    simp only [List.mem_singleton, forall_eq, hhi, le_refl]
  rw [← hnum] at hfresh
  have hdrawn := @mapGva_drawn _ 0 (n.setWidth 64) 0 env _ hok hhost hlow hfresh (by omega)
  rw [hnum] at hdrawn
  have hinit : vmMemInit (VmMem.init mem) n gpa₀ a env =
      (0, (mapGva (vmMemAlloc (VmMem.init mem) (n.setWidth 64) gpa₀ a).vm 0
        (n.setWidth 64) 0 env).2) := by
    have hhva : (vmMemAlloc (VmMem.init mem) (n.setWidth 64) gpa₀ a).hva ≠ 0 := by
      rw [halloc]
      exact hvalloc
    have hgpa : (vmMemAlloc (VmMem.init mem) (n.setWidth 64) gpa₀ a).gpa = 0 := by
      rw [halloc]
    simp only [vmMemInit]
    rw [if_neg hhva, if_neg (not_not.mpr hgpa), hgpa, if_neg (not_not.mpr hdrawn.1)]
  rw [hinit]
  exact ⟨rfl, rfl, hdrawn.2⟩

/-- The region of the file. -/
def LoadMachObjEnv.region (e : LoadMachObjEnv) : MemRegion :=
  ⟨imageAddr, numPages e.stSize, e.mmap⟩

theorem newRegion_image (e : LoadMachObjEnv) :
    newRegion imageAddr (numPages e.stSize) e.mmap = e.region := by
  have hgpa : imageAddr &&& pageMask = imageAddr := by
    decide
  rw [newRegion, hgpa]
  rfl

/-- `load_mach_obj` above everything that is registered, on a host with fresh
pages. -/
theorem loadMachObj_drawn
    {σ : VmMem} {path : Option String} (entryoff₀ : U64) {e : LoadMachObjEnv}
    (hok : RegionsOk σ.memRegions) (hhost : HostOk σ.memRegions)
    (hlow : ∀ p ∈ σ.memRegions, p.hi ≤ imageAddr.toNat)
    (hpath : path ≠ none) (hopen : e.fopen = true)
    (hnum : 1 ≤ (numPages e.stSize).toNat)
    (hmap : e.mapGpa.hvVmMap = true) (hmalloc : e.mapGpa.malloc = true)
    (hblock : e.mmap ≠ 0 ∧ e.region.hostHi ≤ 2 ^ 64)
    (hapart : ∀ p ∈ σ.memRegions,
      Apart MemRegion.hostLo MemRegion.hostHi e.region p)
    (hfresh : FreshPages e.mapGva.answers (addRegion σ e.region).memRegions
      (1 + 3 * (numPages e.stSize).toNat))
    (htop : e.region.hi + 4096 * (1 + 3 * (numPages e.stSize).toNat) ≤ 2 ^ 52) :
    (mapGpa σ imageAddr (numPages e.stSize) e.mmap e.mapGpa).2 = addRegion σ e.region ∧
      (loadMachObj σ path entryoff₀ e).code = 0 ∧
      Drawn e.mapGva.answers (addRegion σ e.region).memRegions e.region.hi
        (loadMachObj σ path entryoff₀ e).vm (1 + 3 * (numPages e.stSize).toNat) := by
  have hhi : e.region.hi = imageAddr.toNat + (numPages e.stSize).toNat * 4096 := rfl
  have hfit : e.region.hi < 2 ^ 64 :=
    lt_of_le_of_lt ((Nat.le_add_right _ _).trans htop) (by decide)
  rw [← newRegion_image] at hfit
  have hzero : (mapGpa σ imageAddr (numPages e.stSize) e.mmap e.mapGpa).1 = 0 := by
    rw [mapGpa_eq_zero_iff hok hfit]
    exact ⟨hnum, fun p hp => Or.inr (hlow p hp), hmap, hmalloc⟩
  have hadd := (mapGpa_of_eq_zero hzero).1
  have hok' := regionsOk_addRegion hok hzero hfit
  rw [newRegion_image] at hadd hok'
  have hlow' : ∀ p ∈ (addRegion σ e.region).memRegions, p.hi ≤ e.region.hi := by
    intro p hp
    rcases (mem_insertRegion hok.below).mp hp with rfl | hp
    · exact le_rfl
    · have := hlow p hp
      omega
  have hdrawn := @mapGva_drawn _ imageAddr (numPages e.stSize) imageAddr e.mapGva _
    hok' (hhost.addRegion hok.below hblock hapart) hlow' hfresh htop
  have hload : loadMachObj σ path entryoff₀ e =
      ⟨0, (e.entryPoint.map (fun off => off + imageAddr)).getD entryoff₀,
        (mapGva (addRegion σ e.region) imageAddr (numPages e.stSize) imageAddr
          e.mapGva).2⟩ := by
    simp only [loadMachObj]
    rw [if_neg hpath, if_neg (by simp [hopen]), if_neg hblock.1,
      if_neg (not_not.mpr hzero), hadd, if_neg (not_not.mpr hdrawn.1)]
  rw [hload]
  exact ⟨hadd, rfl, hdrawn.2⟩

/-! ## The two mappings and the tables -/

/-- The pages that a call of `map_gva` allocates. -/
def mapGvaPages (σ : VmMem) (gva npages gpa : U64) (env : MapGvaEnv) :
    List MemRegion :=
  (mapGva σ gva npages gpa env).2.memRegions.filter
    (fun p => decide (p ∉ σ.memRegions))

/-- `vm_mem_init` in the empty state and then `load_mach_obj`. -/
structure SetUp where
  mem : U64 → Byte
  numPages : BitVec 32
  gpa₀ : U64
  answer : HostAnswer
  env : MapGvaEnv
  path : Option String
  entryoff₀ : U64
  load : LoadMachObjEnv

namespace SetUp

theorem toNat_numPages (s : SetUp) : (s.numPages.setWidth 64).toNat = s.numPages.toNat := by
  rw [BitVec.toNat_setWidth]
  have := s.numPages.isLt
  omega

/-- The state in which `vm_mem_init` calls `map_gva`. -/
def afterAlloc (s : SetUp) : VmMem :=
  (vmMemAlloc (VmMem.init s.mem) (s.numPages.setWidth 64) s.gpa₀ s.answer).vm

def afterInit (s : SetUp) : Int × VmMem :=
  vmMemInit (VmMem.init s.mem) s.numPages s.gpa₀ s.answer s.env

/-- The state in which `load_mach_obj` calls `map_gva`. -/
def afterMapGpa (s : SetUp) : VmMem :=
  (mapGpa s.afterInit.2 imageAddr (Hvexec.numPages s.load.stSize) s.load.mmap
    s.load.mapGpa).2

def afterLoad (s : SetUp) : LoadMachObj :=
  loadMachObj s.afterInit.2 s.path s.entryoff₀ s.load

/-- The PML4 and every PDPT, PD and PT. -/
def tables (s : SetUp) : List MemRegion :=
  mapGvaPages s.afterAlloc 0 (s.numPages.setWidth 64) 0 s.env ++
    mapGvaPages s.afterMapGpa imageAddr (Hvexec.numPages s.load.stSize) imageAddr
      s.load.mapGva

/-- A virtual address that one of the two calls of `map_gva` covers. -/
def Covers (s : SetUp) (a : U64) : Prop :=
  a.toNat < s.numPages.toNat * 4096 ∨
    (imageAddr.toNat ≤ a.toNat ∧
      a.toNat < imageAddr.toNat + (Hvexec.numPages s.load.stSize).toNat * 4096)

/-- Both calls return zero, the allocations inside are granted from pages of
zeros, and everything lies below `2 ^ 48`, over disjoint blocks of the host. -/
structure Ok (s : SetUp) : Prop where
  init : s.afterInit.1 = 0
  load : s.afterLoad.code = 0
  suppliedInit : Supplied s.env.answers s.afterAlloc s.afterInit.2.memRegions
  suppliedLoad :
    Supplied s.load.mapGva.answers s.afterMapGpa s.afterLoad.vm.memRegions
  host : HostOk s.afterLoad.vm.memRegions
  low : ∀ p ∈ s.afterLoad.vm.memRegions, p.hi ≤ 2 ^ 48

/-- The four calls that a set-up makes. -/
def ops (s : SetUp) : List MemOp :=
  [.region (.vmMemAlloc (s.numPages.setWidth 64) s.answer),
    .mapGva 0 (s.numPages.setWidth 64) 0 s.env,
    .region (.mapGpa imageAddr (Hvexec.numPages s.load.stSize) s.load.mmap
      s.load.mapGpa),
    .mapGva imageAddr (Hvexec.numPages s.load.stSize) imageAddr s.load.mapGva]

section Ok

variable {s : SetUp}

theorem afterInit_eq (h : s.afterInit.1 = 0) :
    s.afterInit.2 = (mapGva s.afterAlloc 0 (s.numPages.setWidth 64) 0 s.env).2 := by
  rw [afterInit, (vmMemInit_eq_run h).1, afterAlloc, vmMemAlloc_vm]
  rfl

/-- The first allocation touches neither the memory nor the root. -/
theorem afterAlloc_frame (s : SetUp) :
    s.afterAlloc.mem = s.mem ∧ s.afterAlloc.pml4 = 0 ∧ s.afterAlloc.pml4Gpa = 0 := by
  have h := RegionOp.step_frame (VmMem.init s.mem)
    (.vmMemAlloc (s.numPages.setWidth 64) s.answer)
  rw [afterAlloc, vmMemAlloc_vm]
  exact h

theorem afterLoad_eq (h : s.afterLoad.code = 0) :
    s.afterLoad.vm =
      (mapGva s.afterMapGpa imageAddr (Hvexec.numPages s.load.stSize) imageAddr
        s.load.mapGva).2 := by
  rw [afterLoad, (loadMachObj_eq_run h).1]
  rfl

theorem Ok.eq_run (h : s.Ok) :
    s.afterLoad.vm = MemOp.run (VmMem.init s.mem) s.ops := by
  rw [afterLoad, (loadMachObj_eq_run h.load).1, afterInit, (vmMemInit_eq_run h.init).1]
  rfl

/-- The region that `vm_mem_init` reserves. -/
theorem Ok.mem_afterAlloc (h : s.Ok) :
    (⟨0, s.numPages.setWidth 64, s.answer.valloc⟩ : MemRegion) ∈
      s.afterAlloc.memRegions := by
  have hmem := (vmMemInit_eq_run h.init).2
  rwa [← vmMemAlloc_vm _ _ s.gpa₀] at hmem

/-- The region of the file. -/
theorem Ok.mem_afterMapGpa (h : s.Ok) :
    (⟨imageAddr, Hvexec.numPages s.load.stSize, s.load.mmap⟩ : MemRegion) ∈
      s.afterMapGpa.memRegions :=
  (loadMachObj_eq_run h.load).2

theorem Ok.sublist_init (h : s.Ok) :
    s.afterAlloc.memRegions.Sublist s.afterInit.2.memRegions := by
  rw [afterInit_eq h.init]
  exact sublist_mapGva _ _ _ _ _

theorem sublist_mapGpa (s : SetUp) :
    s.afterInit.2.memRegions.Sublist s.afterMapGpa.memRegions :=
  RegionOp.sublist_step s.afterInit.2 (.mapGpa _ _ _ _)

theorem Ok.sublist_load (h : s.Ok) :
    s.afterMapGpa.memRegions.Sublist s.afterLoad.vm.memRegions := by
  rw [afterLoad_eq h.load]
  exact sublist_mapGva _ _ _ _ _

/-- The file ends below `2 ^ 48`. -/
theorem Ok.image_low (h : s.Ok) :
    imageAddr.toNat + (Hvexec.numPages s.load.stSize).toNat * 4096 ≤ 2 ^ 48 :=
  h.low _ (h.sublist_load.subset h.mem_afterMapGpa)

theorem Ok.runOk (h : s.Ok) : RunOk s.mem s.ops := by
  have himage : imageAddr.toNat = 0x100000000 := rfl
  have hlow := h.image_low
  have hn := s.toNat_numPages
  have hlt := s.numPages.isLt
  refine ⟨?_, ⟨trivial, ?_, trivial, ?_, trivial⟩, ?_, ?_⟩
  · intro op hop
    simp only [ops, List.mem_cons, List.not_mem_nil, or_false] at hop
    rcases hop with rfl | rfl | rfl | rfl
    · trivial
    · simp only [MemOp.InRange, hn, BitVec.ofNat_eq_ofNat, BitVec.toNat_ofNat]
      omega
    · trivial
    · simp only [MemOp.InRange]
      omega
  · have hsup := h.suppliedInit
    rw [afterInit_eq h.init] at hsup
    rwa [afterAlloc, vmMemAlloc_vm] at hsup
  · have hsup := h.suppliedLoad
    rw [afterLoad_eq h.load, afterMapGpa, afterInit, (vmMemInit_eq_run h.init).1] at hsup
    exact hsup
  · rw [← h.eq_run]
    exact h.host
  · intro p hp
    rw [← h.eq_run] at hp
    exact (h.low p hp).trans (by decide)

/-- Both mappings are identities. -/
theorem pageMap_ops (s : SetUp) {a : U64} (ha : s.Covers a) :
    pageMap s.ops (a.toNat / 4096) = some (a.toNat / 4096) := by
  have himage : imageAddr.toNat = 0x100000000 := rfl
  have hn := s.toNat_numPages
  simp only [pageMap, ops, List.foldl_cons, List.foldl_nil, MemOp.assign,
    PageMap.assign, himage, hn, BitVec.ofNat_eq_ofNat, BitVec.toNat_ofNat]
  unfold Covers at ha
  split_ifs
  · exact congrArg some (by omega)
  · exact congrArg some (by omega)
  · omega

theorem Ok.toNat_gvaToGpa (h : s.Ok) {a : U64} (ha : s.Covers a) (entry₀ : U64) :
    (gvaToGpa s.afterLoad.vm entry₀ a).toNat = a.toNat := by
  obtain ⟨T, hT⟩ := h.runOk.refinesPages
  rw [h.eq_run, hT.toNat_gvaToGpa (pageMap_ops s ha)]
  omega

end Ok

/-- The host memory behind the initial region. -/
def OwnByte (s : SetUp) (x : U64) : Prop :=
  s.answer.valloc.toNat ≤ x.toNat ∧
    x.toNat < s.answer.valloc.toNat + (s.numPages.setWidth 64).toNat * 4096

/-- A host whose blocks are fresh, hold zeros and go up: the initial region and the
first tables end at `b`, the file lies from there to `b'`, and the other tables
come after. -/
structure Fresh (s : SetUp) (b b' : Nat) : Prop where
  zero : ∀ x, s.mem x = 0
  pages : 1 ≤ s.numPages.toNat
  answer : s.answer.valloc ≠ 0 ∧ s.answer.hvVmMap = true ∧ s.answer.malloc = true
  data : s.answer.valloc.toNat + s.numPages.toNat * 4096 ≤ b
  fresh : FreshPages s.env.answers
    [⟨0, s.numPages.setWidth 64, s.answer.valloc⟩] (1 + 3 * s.numPages.toNat)
  block : ∀ k < 1 + 3 * s.numPages.toNat, (s.env.answers k).valloc.toNat + 4096 ≤ b
  tables : s.numPages.toNat * 4096 + 4096 * (1 + 3 * s.numPages.toNat) ≤ imageAddr.toNat
  path : s.path ≠ none ∧ s.load.fopen = true
  filePages : 1 ≤ (Hvexec.numPages s.load.stSize).toNat
  fileAnswer : s.load.mmap ≠ 0 ∧ s.load.mapGpa.hvVmMap = true ∧
    s.load.mapGpa.malloc = true
  file : b ≤ s.load.region.hostLo ∧ s.load.region.hostHi ≤ b' ∧ b' ≤ 2 ^ 64
  fileFresh : ∀ l : List MemRegion, (∀ p ∈ l, p.hostHi ≤ b') →
    FreshPages s.load.mapGva.answers l (1 + 3 * (Hvexec.numPages s.load.stSize).toNat)
  top : s.load.region.hi + 4096 * (1 + 3 * (Hvexec.numPages s.load.stSize).toNat) ≤ 2 ^ 48

namespace Fresh

variable {s : SetUp} {b b' : Nat}

/-- `vm_mem_init` succeeds. -/
theorem init_drawn (h : s.Fresh b b') :
    s.afterInit.1 = 0 ∧
      Drawn s.env.answers [⟨0, s.numPages.setWidth 64, s.answer.valloc⟩]
        (s.numPages.toNat * 4096) s.afterInit.2 (1 + 3 * s.numPages.toNat) := by
  obtain ⟨hvalloc, hmap, hmalloc⟩ := h.answer
  have hdata := h.data
  have hlohi : s.load.region.hostLo ≤ s.load.region.hostHi := Nat.le_add_right _ _
  obtain ⟨hlo, hhi, hb'⟩ := h.file
  exact (vmMemInit_drawn s.mem s.gpa₀ h.pages hvalloc hmap hmalloc (by omega) h.fresh).2

/-- Blocks of the first call end at `b`. -/
theorem hostHi_le (h : s.Fresh b b') : ∀ p ∈ s.afterInit.2.memRegions, p.hostHi ≤ b := by
  have hnum := s.toNat_numPages
  intro p hp
  rcases h.init_drawn.2.source p hp with hp | ⟨k, hk, hhva, hone⟩
  · rw [List.mem_singleton] at hp
    rw [hp]
    simp only [MemRegion.hostHi, hnum]
    exact h.data
  · have hpage := h.block k hk
    rw [← hhva] at hpage
    simp only [MemRegion.hostHi, hone]
    exact hpage

theorem hi_le (h : s.Fresh b b') :
    ∀ p ∈ s.afterInit.2.memRegions, p.hi ≤ imageAddr.toNat :=
  fun p hp => (h.init_drawn.2.low p hp).trans h.tables

/-- What the first call draws is supplied, and it writes nothing but tables. -/
theorem supplied_init (h : s.Fresh b b') :
    Supplied s.env.answers s.afterAlloc s.afterInit.2.memRegions :=
  ⟨h.fresh.valloc, h.fresh.hvVmMap, h.fresh.malloc,
    fun _ _ _ x _ _ => (congrFun s.afterAlloc_frame.1 x).trans (h.zero x)⟩

/-- The tables after `vm_mem_init`. -/
theorem tables_init (h : s.Fresh b b') :
    ∃ T, TablesOk s.afterInit.2 T ∧ Grown s.afterAlloc noTables s.afterInit.2 T := by
  obtain ⟨hinit, hdrawn⟩ := h.init_drawn
  have hinit_sub : s.afterAlloc.memRegions.Sublist s.afterInit.2.memRegions := by
    rw [afterInit_eq hinit]
    exact sublist_mapGva _ _ _ _ _
  have hlow : ∀ q ∈ s.afterInit.2.memRegions, q.hi ≤ 2 ^ 52 :=
    fun q hq => (h.hi_le q hq).trans (by decide)
  have hbuild : BuildOk s.afterAlloc noTables :=
    ⟨hdrawn.ok.sublist hinit_sub, hdrawn.host.sublist hinit_sub,
      fun q hq => hlow q (hinit_sub.subset hq), Or.inr ⟨s.afterAlloc_frame.2.1, rfl⟩,
      fun _ => s.afterAlloc_frame.2.2⟩
  have hgranted : Granted s.env.answers s.afterAlloc s.afterInit.2.memRegions :=
    ⟨h.supplied_init, hdrawn.host, hlow⟩
  rw [afterInit_eq hinit] at hgranted
  obtain ⟨_, T, hok, hgrown, _⟩ := mapGva_spec hbuild hgranted
  rw [← afterInit_eq hinit] at hok hgrown
  exact ⟨T, hok, hgrown⟩

theorem mem_afterInit (h : s.Fresh b b') {l : List MemRegion} (hhost : HostOk l)
    (hsub : s.afterInit.2.memRegions.Sublist l) {p : MemRegion} (hp : p ∈ l)
    (hnew : p ∉ s.afterInit.2.memRegions)
    {x : U64} (hx : p.hostLo ≤ x.toNat ∧ x.toNat < p.hostHi) :
    s.afterInit.2.mem x = 0 := by
  obtain ⟨T, _, hgrown⟩ := h.tables_init
  rw [hgrown.mem_of_later hhost hsub hp hnew hx]
  exact (congrFun s.afterAlloc_frame.1 x).trans (h.zero x)

/-- The PML4 lies below the file. -/
theorem root_low (h : s.Fresh b b') :
    s.afterInit.2.pml4Gpa.toNat < imageAddr.toNat := by
  obtain ⟨T, hok, _⟩ := h.tables_init
  obtain ⟨hva, hpage⟩ := hok.page _ _ hok.held.root_node
  have hhi := h.hi_le _ hpage
  rw [hi_page] at hhi
  omega

/-- **The file is loaded**, whatever was written to the initial region since. -/
theorem load (h : s.Fresh b b') {σ : VmMem}
    (hregions : σ.memRegions = s.afterInit.2.memRegions)
    (hmem : ∀ x, ¬ s.OwnByte x → σ.mem x = s.afterInit.2.mem x) :
    (loadMachObj σ s.path s.entryoff₀ s.load).code = 0 ∧
      Supplied s.load.mapGva.answers
        (mapGpa σ imageAddr (Hvexec.numPages s.load.stSize) s.load.mmap s.load.mapGpa).2
        (loadMachObj σ s.path s.entryoff₀ s.load).vm.memRegions ∧
      HostOk (loadMachObj σ s.path s.entryoff₀ s.load).vm.memRegions ∧
      ∀ p ∈ (loadMachObj σ s.path s.entryoff₀ s.load).vm.memRegions, p.hi ≤ 2 ^ 48 := by
  obtain ⟨hinit, hdrawn⟩ := h.init_drawn
  obtain ⟨hlo, hhi, hb'⟩ := h.file
  have hlohi : s.load.region.hostLo ≤ s.load.region.hostHi := Nat.le_add_right _ _
  have hold := h.hostHi_le
  have hlow := h.hi_le
  have hok := hdrawn.ok
  have hhost := hdrawn.host
  rw [← hregions] at hold hlow hok hhost
  have hapart : ∀ p ∈ σ.memRegions,
      Apart MemRegion.hostLo MemRegion.hostHi s.load.region p :=
    fun p hp => Or.inr ((hold p hp).trans hlo)
  have hnew : ∀ p ∈ (addRegion σ s.load.region).memRegions, p.hostHi ≤ b' := by
    intro p hp
    rcases (mem_insertRegion hok.below).mp hp with rfl | hp
    · exact hhi
    · exact (hold p hp).trans (hlo.trans (hlohi.trans hhi))
  have hfresh := h.fileFresh _ hnew
  obtain ⟨hadd, hcode, hdrawn'⟩ := loadMachObj_drawn s.entryoff₀ hok hhost hlow
    h.path.1 h.path.2 h.filePages h.fileAnswer.2.1 h.fileAnswer.2.2
    ⟨h.fileAnswer.1, hhi.trans hb'⟩ hapart hfresh (h.top.trans (by decide))
  refine ⟨hcode, ⟨hfresh.valloc, hfresh.hvVmMap, hfresh.malloc, ?_⟩, hdrawn'.host,
    fun p hp => (hdrawn'.low p hp).trans h.top⟩
  intro p hp hnot x hxlo hxhi
  rw [hadd] at hnot ⊢
  have hsub_add : s.afterInit.2.memRegions.Sublist
      (addRegion σ s.load.region).memRegions := by
    rw [← hregions]
    exact sublist_insertRegion _ _
  have hsub_load : (addRegion σ s.load.region).memRegions.Sublist
      (loadMachObj σ s.path s.entryoff₀ s.load).vm.memRegions := by
    rw [(loadMachObj_eq_run hcode).1, ← hadd]
    exact sublist_mapGva _ _ _ _ _
  have hnot' : p ∉ s.afterInit.2.memRegions := fun hcon => hnot (hsub_add.subset hcon)
  -- the new block is none of the initial region
  have hdata : (⟨0, s.numPages.setWidth 64, s.answer.valloc⟩ : MemRegion) ∈
      s.afterInit.2.memRegions := by
    have hmem := (vmMemInit_eq_run hinit).2
    rw [← vmMemAlloc_vm _ _ s.gpa₀] at hmem
    have hsub : s.afterAlloc.memRegions.Sublist s.afterInit.2.memRegions := by
      rw [afterInit_eq hinit]
      exact sublist_mapGva _ _ _ _ _
    exact hsub.subset hmem
  have hown : ¬ s.OwnByte x := by
    have hapart := hdrawn'.host.apart (hsub_load.subset (hsub_add.subset hdata)) hp
      fun hcon => hnot' (hcon ▸ hdata)
    unfold Apart at hapart
    unfold OwnByte
    simp only [MemRegion.hostLo, MemRegion.hostHi] at hapart hxlo hxhi
    omega
  have hzero := h.mem_afterInit hdrawn'.host (hsub_add.trans hsub_load) hp hnot' ⟨hxlo, hxhi⟩
  exact (hmem x hown).trans hzero

end Fresh

/-- **Set-up succeeds** on such a host. -/
theorem ok_of_fresh {s : SetUp} {b b' : Nat} (h : s.Fresh b b') : s.Ok := by
  obtain ⟨hcode, hsupplied, hhost, hlow⟩ := h.load rfl fun _ _ => rfl
  exact ⟨h.init_drawn.1, hcode, h.supplied_init, hsupplied, hhost, hlow⟩

end SetUp

/-- A region registered later is apart from one registered before. -/
theorem not_mem_later_region {l l' : List MemRegion}
    (h : RegionsOk l') (hsub : l.Sublist l') {d p : MemRegion}
    (hd : d ∈ l) (hp : p ∈ l') (hnew : p ∉ l)
    {x : Nat} (hx : d.lo ≤ x ∧ x < d.hi) :
    ¬ (p.lo ≤ x ∧ x < p.hi) := by
  intro hcon
  have heq := h.laid.eq_of_mem_of_mem (hsub.subset hd) hp hx hcon
  exact hnew (heq ▸ hd)

/-- **The guest cannot reach the page tables.**  No address that set-up maps
translates into the PML4 or into a PDPT, PD or PT. -/
theorem tables_out_of_reach
    (s : SetUp) (h : s.Ok) (a entry₀ : U64) (ha : s.Covers a) :
    ∀ p ∈ s.tables,
      ¬ (p.gpa.toNat ≤ (gvaToGpa s.afterLoad.vm entry₀ a).toNat ∧
        (gvaToGpa s.afterLoad.vm entry₀ a).toNat < p.gpa.toNat + p.npages.toNat * 4096) := by
  obtain ⟨T, hT⟩ := h.runOk.refinesPages
  have hok : RegionsOk s.afterLoad.vm.memRegions := by
    rw [h.eq_run]
    exact hT.build.regions
  have hn := s.toNat_numPages
  have hdata := h.mem_afterAlloc
  have himage := h.mem_afterMapGpa
  have hinit := h.sublist_init
  have hmap := s.sublist_mapGpa
  have hload := h.sublist_load
  rw [h.toNat_gvaToGpa ha]
  intro p hp
  simp only [SetUp.tables, mapGvaPages, ← SetUp.afterInit_eq h.init, ← SetUp.afterLoad_eq h.load,
    List.mem_append, List.mem_filter, decide_eq_true_eq] at hp
  rcases ha with ha | ha
  · -- the pages from zero on were reserved before any table was allocated
    have hx : MemRegion.lo ⟨0, s.numPages.setWidth 64, s.answer.valloc⟩ ≤ a.toNat ∧
        a.toNat < MemRegion.hi ⟨0, s.numPages.setWidth 64, s.answer.valloc⟩ := by
      simp only [MemRegion.lo, MemRegion.hi, hn, BitVec.ofNat_eq_ofNat,
        BitVec.toNat_ofNat]
      omega
    rcases hp with ⟨hp, hnew⟩ | ⟨hp, hnew⟩
    · exact not_mem_later_region (hok.sublist (hmap.trans hload)) hinit hdata hp hnew hx
    · exact not_mem_later_region hok hload ((hinit.trans hmap).subset hdata) hp hnew hx
  · rcases hp with ⟨hp, _⟩ | ⟨hp, hnew⟩
    · -- `map_gpa` accepted the file, so it overlaps no earlier table
      have hfit : (newRegion imageAddr (numPages s.load.stSize) s.load.mmap).hi < 2 ^ 64 :=
        hok.below _ (hload.subset himage)
      have hapart := ((mapGpa_eq_zero_iff (hok.sublist (hmap.trans hload)) hfit).mp
        (loadMachObj_mapGpa h.load)).2.1 p hp
      have hlo : (newRegion imageAddr (numPages s.load.stSize) s.load.mmap).lo =
          imageAddr.toNat := rfl
      have hhi : (newRegion imageAddr (numPages s.load.stSize) s.load.mmap).hi =
          imageAddr.toNat + (numPages s.load.stSize).toNat * 4096 := rfl
      unfold Apart at hapart
      rw [hlo, hhi] at hapart
      unfold MemRegion.lo MemRegion.hi at hapart
      omega
    · exact not_mem_later_region hok hload himage hp hnew ha

/-- The 16 pages that `main` asks for and an executable of five bytes. -/
def bootSetUp : SetUp where
  mem := fun _ => 0
  numPages := 16
  gpa₀ := 0
  answer := ⟨0x60000000, true, true⟩
  env := .pagesFrom 0x70000000
  path := some "a.out"
  entryoff₀ := 0
  load := ⟨true, some 0x100, 5, 0x78000000, ⟨0, true, true⟩, .pagesFrom 0x90000000⟩

theorem bootSetUp_fresh : bootSetUp.Fresh 0x78000000 0x90000000 where
  zero := fun _ => rfl
  pages := by decide
  answer := by decide
  data := by decide
  fresh := freshPages_pagesFrom (by decide) (by decide) (by decide) (by decide)
  block := by
    intro k hk
    have hk' : k < 49 := hk
    have hpage : (bootSetUp.env.answers k).valloc.toNat = 0x70000000 + k % 512 * 4096 :=
      toNat_pagesFrom 0x70000000 (by decide) k
    omega
  tables := by decide
  path := by decide
  filePages := by decide
  fileAnswer := by decide
  file := by decide
  fileFresh := fun _ hl =>
    freshPages_pagesFrom (by decide) (by decide) (by decide) fun p hp => Or.inl (hl p hp)
  top := by decide

theorem bootSetUp_ok : bootSetUp.Ok :=
  SetUp.ok_of_fresh bootSetUp_fresh

theorem tables_out_of_reach_bootSetUp :
    bootSetUp.Covers 0x100000003 ∧
      ∀ p ∈ bootSetUp.tables,
        ¬ (p.gpa.toNat ≤ (gvaToGpa bootSetUp.afterLoad.vm 0 0x100000003).toNat ∧
          (gvaToGpa bootSetUp.afterLoad.vm 0 0x100000003).toNat <
            p.gpa.toNat + p.npages.toNat * 4096) := by
  have hcovers : bootSetUp.Covers 0x100000003 := Or.inr (by decide)
  exact ⟨hcovers, tables_out_of_reach bootSetUp bootSetUp_ok 0x100000003 0 hcovers⟩

end Hvexec
