import Hvexec.LowRegions
import Hvexec.PhysMemory
import Hvexec.SetUpStates

/-!
# After vm_mem_init

`vm_mem_init` reserves the first pages and maps them to themselves, by tables in pages
of their own behind them.  Every region but the first is such a page, and when the
host granted them with zeros, every table of the processor is one.
-/

namespace Hvexec

open IntervalList RadixTable

namespace SetUp

/-- The two calls that `vm_mem_init` makes. -/
def initOps (s : SetUp) : List MemOp :=
  [.region (.vmMemAlloc (s.numPages.setWidth 64) s.answer),
    .mapGva 0 (s.numPages.setWidth 64) 0 s.env]

variable {s : SetUp}

/-! ## The regions -/

section Regions

variable (h : s.afterInit.1 = 0)

include h

theorem sublist_init : s.afterAlloc.memRegions.Sublist s.afterInit.2.memRegions := by
  rw [afterInit_eq h]
  exact sublist_mapGva _ _ _ _ _

/-- One region was registered when the tables were built. -/
theorem memRegions_afterAlloc :
    s.afterAlloc.memRegions = [⟨0, s.numPages.setWidth 64, s.answer.valloc⟩] := by
  have hmem := (vmMemInit_eq_run h).2
  rw [← vmMemAlloc_vm _ _ s.gpa₀] at hmem
  rw [afterAlloc]
  rcases vmMemAlloc_cases (VmMem.init s.mem) (s.numPages.setWidth 64) s.gpa₀ s.answer with
    heq | ⟨g, hg, _, _, heq⟩
  · rw [heq] at hmem
    simp [VmMem.init] at hmem
  · have hzero : g = 0 := by
      simp only [VmMem.init, findFreeMemRegion, findFreeLoop] at hg
      split_ifs at hg
      exact (Option.some.inj hg).symm
    rw [heq, hzero]
    rfl

/-- The regions are in order and low, whatever the host answered. -/
theorem afterInit_endsBelow :
    EndsBelow s.afterInit.2 (4096 * (1 + 4 * s.numPages.toNat)) := by
  have hlt := s.numPages.isLt
  have hn := s.toNat_numPages
  have hstart : EndsBelow (VmMem.init s.mem) 0 := ⟨regionsOk_nil, by simp [VmMem.init]⟩
  have halloc := hstart.alloc (s.numPages.setWidth 64) s.gpa₀ s.answer (by omega)
  rw [hn] at halloc
  have hmap := halloc.mapGva 0 (s.numPages.setWidth 64) 0 s.env (by omega)
  rw [hn] at hmap
  rw [afterInit_eq h]
  exact hmap.mono (by omega)

end Regions

/-! ## The tables -/

/-- `vm_mem_init` succeeds, with all its allocations granted from pages of zeros, over
disjoint blocks of the host. -/
structure InitOk (s : SetUp) : Prop where
  init : s.afterInit.1 = 0
  supplied : Supplied s.env.answers s.afterAlloc s.afterInit.2.memRegions
  host : HostOk s.afterInit.2.memRegions

theorem InitOk.low (h : s.InitOk) : ∀ p ∈ s.afterInit.2.memRegions, p.hi ≤ 2 ^ 52 := by
  intro p hp
  have hle := (afterInit_endsBelow h.init).low p hp
  have hlt := s.numPages.isLt
  omega

/-- The first pages are mapped to themselves. -/
theorem pageMap_initOps (s : SetUp) {a : U64} (ha : a.toNat < s.numPages.toNat * 4096) :
    pageMap s.initOps (a.toNat / 4096) = some (a.toNat / 4096) := by
  have hn := s.toNat_numPages
  simp only [pageMap, initOps, List.foldl_cons, List.foldl_nil, MemOp.assign,
    PageMap.assign, hn, BitVec.ofNat_eq_ofNat, BitVec.toNat_ofNat]
  split_ifs
  · exact congrArg some (by omega)
  · omega

/-- The tables, and what they map. -/
theorem InitOk.tables (h : s.InitOk) :
    ∃ T, RefinesPages s.afterInit.2 T (pageMap s.initOps) ∧
      TablesOk s.afterInit.2 T ∧ Grown s.afterAlloc noTables s.afterInit.2 T := by
  have hn := s.toNat_numPages
  have hlt := s.numPages.isLt
  have hrange : (MemOp.mapGva 0 (s.numPages.setWidth 64) 0 s.env).InRange := by
    simp only [MemOp.InRange, hn, BitVec.ofNat_eq_ofNat, BitVec.toNat_ofNat]
    omega
  have hgranted : Granted s.env.answers s.afterAlloc s.afterInit.2.memRegions :=
    ⟨h.supplied, h.host, h.low⟩
  have hsub := sublist_init h.init
  have hok := (afterInit_endsBelow h.init).ok
  have halloc : RefinesPages s.afterAlloc noTables fun _ => none := by
    have hstep := (refinesPages_init s.mem).region
      (.vmMemAlloc (s.numPages.setWidth 64) s.answer)
    rw [afterAlloc, vmMemAlloc_vm] at hsub ⊢
    exact hstep (hok.sublist hsub) (h.host.sublist hsub) fun p hp => h.low p (hsub.subset hp)
  rw [afterInit_eq h.init] at hgranted ⊢
  exact halloc.mapGva hrange hgranted

/-- First fit puts the PML4 right behind the first pages. -/
theorem InitOk.toNat_root (h : s.InitOk) (hn : 1 ≤ s.numPages.toNat) :
    s.afterInit.2.pml4Gpa.toNat = s.numPages.toNat * 4096 := by
  have hsub := sublist_init h.init
  have hfirst := memRegions_afterAlloc h.init
  have hnum := s.toNat_numPages
  have hzero : (0 : U64).toNat = 0 := rfl
  have hhi : MemRegion.hi ⟨0, s.numPages.setWidth 64, s.answer.valloc⟩ =
      s.numPages.toNat * 4096 := by
    simp only [MemRegion.hi, hnum, hzero, Nat.zero_add]
  obtain ⟨g, τ, halloc, hnew⟩ := vmMemAlloc_page s.afterAlloc.pml4Gpa
    ((afterInit_endsBelow h.init).ok.sublist hsub) (fun p hp => h.low p (hsub.subset hp))
    (h.supplied.valloc 0) (h.supplied.hvVmMap 0) (h.supplied.malloc 0)
  have hg : g.toNat = s.numPages.toNat * 4096 := by
    rcases hnew.place with hnull | ⟨p, hp, heq⟩
    · exfalso
      apply hnew.fresh
      rw [hfirst]
      refine ⟨_, List.mem_singleton_self _, Nat.zero_le _, ?_⟩
      omega
    · rw [hfirst, List.mem_singleton] at hp
      rw [heq, hp, hhi]
  rw [← hg, afterInit_eq h.init]
  simp only [mapGva, if_pos s.afterAlloc_frame.2.1, halloc, if_neg (h.supplied.valloc 0)]
  refine congrArg BitVec.toNat (mapGvaLoop_invariant (P := fun υ => υ.pml4Gpa = g)
    ?_ ?_ s.env _ 0 1 _ _ rfl)
  · intro υ x v hυ
    rw [writeU64_pml4Gpa]
    exact hυ
  · intro υ x a hυ
    rw [vmMemAlloc_vm]
    exact (RegionOp.step_frame υ (.vmMemAlloc 1 a)).2.2.trans hυ

end SetUp

/-! ## Tables and pages -/

section Tables

variable {σ : VmMem} {T : Tables}

/-- A table of the processor is a table of the tree. -/
theorem TablesOk.node_of_tablePage (h : TablesOk σ T) {k : Nat} {g : U64}
    (htable : TablePage σ k g) :
    k ≤ 3 ∧ ∃ p, p.length = 3 - k ∧ T.node p = some g := by
  induction htable with
  | root hroot =>
      exact ⟨le_rfl, [], rfl, h.held.root_node⟩
  | @next k g i htable hpresent ih =>
      obtain ⟨hk, p, hlen, hp⟩ := ih
      have hshort : p.length < 3 := by
        omega
      have hentry := h.held.inner p g hp hshort i
      cases hnode : T.node (i :: p) with
      | none =>
          rw [hnode] at hentry
          rw [hentry] at hpresent
          simp [isPresent] at hpresent
      | some f =>
          rw [hnode] at hentry
          refine ⟨by omega, i :: p, ?_, ?_⟩
          · rw [List.length_cons]
            omega
          · rw [hentry, Option.elim_some, h.entryFrame_link _ f hnode, hnode]

/-- The bytes of a page. -/
theorem byteAt_of_isPage (hok : RegionsOk σ.memRegions) (hhost : HostOk σ.memRegions)
    {g hva y : U64} (hpage : IsPage σ.memRegions g hva)
    (hlo : g.toNat ≤ y.toNat) (hhi : y.toNat < g.toNat + 4096) :
    σ.byteAt y = some (σ.mem (hva + (y - g))) := by
  exact byteAt_of_mem hok hhost hpage hlo (by rwa [hi_page])

/-- Bytes that a page holds both times are the same host bytes. -/
theorem mem_of_byteAt_eq {τ : VmMem} (hok : RegionsOk σ.memRegions)
    (hhost : HostOk σ.memRegions) (hregions : τ.memRegions = σ.memRegions)
    {g hva : U64} (hpage : IsPage σ.memRegions g hva)
    (hbytes : ∀ y : U64, g.toNat ≤ y.toNat → y.toNat < g.toNat + 4096 →
      τ.byteAt y = σ.byteAt y)
    {x : U64} (hlo : hva.toNat ≤ x.toNat) (hhi : x.toNat < hva.toNat + 4096) :
    τ.mem x = σ.mem x := by
  have hbelow := hok.below _ hpage
  rw [hi_page] at hbelow
  have hy : (g + (x - hva)).toNat = g.toNat + (x.toNat - hva.toNat) := by
    bv_omega
  have heq := hbytes (g + (x - hva)) (by omega) (by omega)
  have hpage' : IsPage τ.memRegions g hva := by
    rwa [hregions]
  rw [byteAt_of_isPage (hregions ▸ hok) (hregions ▸ hhost) hpage' (by omega) (by omega),
    byteAt_of_isPage hok hhost hpage (by omega) (by omega)] at heq
  have hx : hva + (g + (x - hva) - g) = x := by
    bv_omega
  rw [hx] at heq
  exact Option.some.inj heq

/-- A region that is no table keeps its bytes. -/
theorem Grown.byteAt {σ τ : VmMem} {T T' : Tables} (h : Grown σ T τ T')
    (hok : RegionsOk τ.memRegions) (hhost : HostOk τ.memRegions)
    {p : MemRegion} (hp : p ∈ σ.memRegions)
    (hnot : ∀ q g hva, T.node q = some g → p ≠ ⟨g, 1, hva⟩)
    {y : U64} (hlo : p.lo ≤ y.toNat) (hhi : y.toNat < p.hi) :
    τ.byteAt y = σ.byteAt y := by
  have hp' := h.regions.subset hp
  rw [byteAt_of_mem hok hhost hp' hlo hhi,
    byteAt_of_mem (hok.sublist h.regions) (hhost.sublist h.regions) hp hlo hhi]
  refine congrArg some (h.frame _ ?_)
  rintro ⟨q, g, hva, hq, hpage, hx⟩
  by_cases heq : p = ⟨g, 1, hva⟩
  · -- a table of that address would have been one before, or be new there
    rcases h.fresh q g hq with hold | hfresh
    · exact hnot q g hva hold heq
    · subst heq
      exact hfresh ⟨_, hp, le_rfl, hok.laid.proper _ hp'⟩
  · have hapart := hhost.apart hp' hpage heq
    obtain ⟨_, hwrap⟩ := hhost.block p hp'
    unfold Apart at hapart
    rw [hostHi_page] at hapart
    unfold MemRegion.hostLo MemRegion.hostHi at hapart
    unfold MemRegion.hostHi at hwrap
    unfold MemRegion.lo at hlo
    unfold MemRegion.hi at hhi
    dsimp only at hapart
    bv_omega

/-- Registering a region changes no byte of another one. -/
theorem byteAt_regionOp {σ : VmMem} (op : RegionOp)
    (hok : RegionsOk (op.step σ).memRegions) (hhost : HostOk (op.step σ).memRegions)
    {p : MemRegion} (hp : p ∈ σ.memRegions)
    {y : U64} (hlo : p.lo ≤ y.toNat) (hhi : y.toNat < p.hi) :
    (op.step σ).byteAt y = σ.byteAt y := by
  have hsub := op.sublist_step σ
  rw [byteAt_of_mem hok hhost (hsub.subset hp) hlo hhi,
    byteAt_of_mem (hok.sublist hsub) (hhost.sublist hsub) hp hlo hhi, (op.step_frame σ).1]

/-- Another memory with the same bytes in all tables maps the same pages. -/
theorem RefinesPages.of_tableBytes {τ : VmMem} {m : PageMap} (h : RefinesPages σ T m)
    (hok : TablesOk σ T) {mem : U64 → Byte} (hτ : τ = { σ with mem := mem })
    (hbytes : ∀ k g, TablePage σ k g → ∀ y : U64, g.toNat ≤ y.toNat →
      y.toNat < g.toNat + 4096 → τ.byteAt y = σ.byteAt y) :
    RefinesPages τ T m := by
  subst hτ
  refine ⟨h.build.congr h.build.regions h.build.host h.build.low (List.Sublist.refl _) rfl
    rfl ?_, h.leaf, h.bound⟩
  rintro x ⟨p, g, hva, hp, hpage, hlo, hhi⟩
  exact mem_of_byteAt_eq (τ := { σ with mem := mem }) h.build.regions h.build.host rfl hpage
    (hbytes _ g (hok.tablePage p g hp)) hlo hhi

end Tables

end Hvexec
