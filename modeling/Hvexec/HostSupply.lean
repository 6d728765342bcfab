import Hvexec.PageTables

/-!
# A host with fresh pages

The results about page tables ask that the blocks behind the regions are
disjoint at the end of a run.  Here this is derived from what the host hands
out: when its first pages are disjoint from each other and from what is
registered, every call of `map_gva` that draws from them ends with disjoint
blocks.  A call draws at most three pages for each page it maps and one for the
PML4, and the gap search puts each at an end of a region, so the regions also
stay low.
-/

namespace Hvexec

open IntervalList RadixTable

/-- The first `n` pages of the host are granted, and disjoint from each other and
from the blocks behind the regions `l`. -/
structure FreshPages
    (answers : Nat → HostAnswer) (l : List MemRegion) (n : Nat) : Prop where
  valloc : ∀ k, (answers k).valloc ≠ 0
  hvVmMap : ∀ k, (answers k).hvVmMap = true
  malloc : ∀ k, (answers k).malloc = true
  block : ∀ k < n, (answers k).valloc.toNat + 4096 ≤ 2 ^ 64
  apart : ∀ j < n, ∀ k < n, j ≠ k →
    (answers j).valloc.toNat + 4096 ≤ (answers k).valloc.toNat ∨
      (answers k).valloc.toNat + 4096 ≤ (answers j).valloc.toNat
  old : ∀ p ∈ l, ∀ k < n,
    p.hostHi ≤ (answers k).valloc.toNat ∨
      (answers k).valloc.toNat + 4096 ≤ p.hostLo

/-- After `used` pages were drawn: every region is an old one or one of them. -/
structure Drawn
    (answers : Nat → HostAnswer) (l : List MemRegion) (top : Nat)
    (σ : VmMem) (used : Nat) : Prop where
  ok : RegionsOk σ.memRegions
  host : HostOk σ.memRegions
  source : ∀ p ∈ σ.memRegions,
    p ∈ l ∨ ∃ k < used, p.hva = (answers k).valloc ∧ p.npages = 1
  low : ∀ p ∈ σ.memRegions, p.hi ≤ top + 4096 * used

section Draw

variable {answers : Nat → HostAnswer} {l : List MemRegion} {n top used : Nat}
  {σ : VmMem}

/-- Nothing drawn yet. -/
theorem Drawn.start
    (hok : RegionsOk σ.memRegions) (hhost : HostOk σ.memRegions)
    (hlow : ∀ p ∈ σ.memRegions, p.hi ≤ top) :
    Drawn answers σ.memRegions top σ 0 :=
  ⟨hok, hhost, fun _ hp => Or.inl hp, fun p hp => hlow p hp⟩

/-- Only the region list matters. -/
theorem Drawn.congr {τ : VmMem} (h : Drawn answers l top σ used)
    (heq : τ.memRegions = σ.memRegions) :
    Drawn answers l top τ used :=
  ⟨heq ▸ h.ok, heq ▸ h.host, heq ▸ h.source, heq ▸ h.low⟩

/-- One page is drawn. -/
theorem Drawn.alloc
    (hfresh : FreshPages answers l n) (h : Drawn answers l top σ used)
    (hused : used < n) (hlow : top + 4096 * used ≤ 2 ^ 52) (gpa₀ : U64) :
    Drawn answers l top (vmMemAlloc σ 1 gpa₀ (answers used)).vm (used + 1) := by
  obtain ⟨g, τ, heq, hnew⟩ := vmMemAlloc_page gpa₀ h.ok
    (fun p hp => (h.low p hp).trans hlow)
    (hfresh.valloc used) (hfresh.hvVmMap used) (hfresh.malloc used)
  rw [heq]
  refine ⟨hnew.ok, ⟨?_, ?_⟩, ?_, ?_⟩
  · intro p hp
    rcases hnew.only p hp with hp | rfl
    · exact h.host.block p hp
    · exact ⟨hfresh.valloc used, by rw [hostHi_page]; exact hfresh.block used hused⟩
  · rw [hnew.perm.pairwise_iff Apart.symm, List.pairwise_cons]
    refine ⟨?_, h.host.disjoint⟩
    intro p hp
    unfold Apart
    rw [hostHi_page]
    rcases h.source p hp with hold | ⟨k, hk, hhva, hone⟩
    · exact (hfresh.old p hold used hused).symm
    · have hpages : p.npages.toNat = 1 := by
        rw [hone]
        rfl
      have hapart := hfresh.apart used hused k (by omega) (by omega)
      simp only [MemRegion.hostLo, MemRegion.hostHi, hhva, hpages]
      omega
  · intro p hp
    rcases hnew.only p hp with hp | rfl
    · refine (h.source p hp).imp_right ?_
      rintro ⟨k, hk, hrest⟩
      exact ⟨k, by omega, hrest⟩
    · exact Or.inr ⟨used, by omega, rfl, rfl⟩
  · intro p hp
    rcases hnew.only p hp with hp | rfl
    · have := h.low p hp
      omega
    · rw [hi_page]
      rcases hnew.place with hg | ⟨q, hq, hg⟩
      · omega
      · have := h.low q hq
        omega

/-- A level draws one page or none. -/
theorem Drawn.level
    (hfresh : FreshPages answers l n) (h : Drawn answers l top σ used)
    (hused : used < n) (hlow : top + 4096 * used ≤ 2 ^ 52)
    (slot entry₀ next₀ : U64) :
    let r := mapGvaLevel answers σ used slot entry₀ next₀
    r.used ≤ used + 1 ∧ Drawn answers l top r.vm r.used := by
  intro r
  by_cases hentry : readU64 σ slot entry₀ = 0
  · have hr : r = ⟨(vmMemAlloc σ 1 next₀ (answers used)).gpa,
        writeU64 (vmMemAlloc σ 1 next₀ (answers used)).vm slot
          (present ||| writable ||| (vmMemAlloc σ 1 next₀ (answers used)).gpa),
        used + 1⟩ := by
      simp only [r, mapGvaLevel, hentry, if_true]
    rw [hr]
    exact ⟨le_rfl, (h.alloc hfresh hused hlow next₀).congr (by simp)⟩
  · have hr : r.used = used ∧ r.vm.memRegions = σ.memRegions := by
      simp only [r, mapGvaLevel, hentry, if_false]
      exact ⟨trivial, by simp⟩
    rw [hr.1]
    exact ⟨Nat.le_succ used, h.congr hr.2⟩

/-- One iteration of the loop draws at most three pages. -/
theorem Drawn.page
    (hfresh : FreshPages answers l n) (h : Drawn answers l top σ used)
    (hused : used + 3 ≤ n) (hlow : top + 4096 * (used + 3) ≤ 2 ^ 52)
    (locals : LoopLocals) (gva gpa : U64) :
    let r := mapGvaPage answers locals σ used gva gpa
    r.2 ≤ used + 3 ∧ Drawn answers l top r.1 r.2 := by
  simp only [mapGvaPage]
  obtain ⟨hle₁, h₁⟩ := h.level hfresh (by omega) (by omega)
    (σ.pml4Gpa + (decodeGva gva).pml4Idx.setWidth 64) locals.pml4e locals.pdptGpa
  obtain ⟨hle₂, h₂⟩ := h₁.level hfresh (by omega) (by omega)
    (_ + (decodeGva gva).pdptIdx.setWidth 64) locals.pdpte locals.pdGpa
  obtain ⟨hle₃, h₃⟩ := h₂.level hfresh (by omega) (by omega)
    (_ + (decodeGva gva).pdIdx.setWidth 64) locals.pde locals.ptGpa
  exact ⟨by omega, h₃.congr (by simp)⟩

/-- The loop draws at most three pages for each page that it maps. -/
theorem Drawn.loop {env : MapGvaEnv}
    (hfresh : FreshPages env.answers l n) (h : Drawn env.answers l top σ used)
    (npages k : Nat) (gva gpa : U64)
    (hused : used + 3 * npages ≤ n)
    (hlow : top + 4096 * (used + 3 * npages) ≤ 2 ^ 52) :
    ∃ used' ≤ used + 3 * npages,
      Drawn env.answers l top (mapGvaLoop env npages k σ used gva gpa) used' := by
  induction npages generalizing k σ used gva gpa with
  | zero =>
      exact ⟨used, le_rfl, h⟩
  | succ m ih =>
      simp only [mapGvaLoop]
      have hle₀ : used + 3 ≤ used + 3 * (m + 1) := by omega
      obtain ⟨hle, hpage⟩ := h.page hfresh (hle₀.trans hused)
        (le_trans (by gcongr) hlow) (env.locals k) gva gpa
      have hle₁ : (mapGvaPage env.answers (env.locals k) σ used gva gpa).2 + 3 * m ≤
          used + 3 * (m + 1) := by
        omega
      obtain ⟨used', hle', hdrawn⟩ := ih hpage (k + 1) (gva + confPageSize)
        (gpa + confPageSize) (hle₁.trans hused) (le_trans (by gcongr) hlow)
      exact ⟨used', hle'.trans hle₁, hdrawn⟩

end Draw

/-- **A call of `map_gva` on a host with fresh pages.** -/
theorem mapGva_drawn
    {σ : VmMem} {gva npages gpa : U64} {env : MapGvaEnv} {top : Nat}
    (hok : RegionsOk σ.memRegions) (hhost : HostOk σ.memRegions)
    (hlow : ∀ p ∈ σ.memRegions, p.hi ≤ top)
    (hfresh : FreshPages env.answers σ.memRegions (1 + 3 * npages.toNat))
    (htop : top + 4096 * (1 + 3 * npages.toNat) ≤ 2 ^ 52) :
    (mapGva σ gva npages gpa env).1 = 0 ∧
      Drawn env.answers σ.memRegions top (mapGva σ gva npages gpa env).2
        (1 + 3 * npages.toNat) := by
  have hstart : Drawn env.answers σ.memRegions top σ 0 := Drawn.start hok hhost hlow
  have hmono : ∀ {τ used}, used ≤ 1 + 3 * npages.toNat →
      Drawn env.answers σ.memRegions top τ used →
      Drawn env.answers σ.memRegions top τ (1 + 3 * npages.toNat) := by
    intro τ used hle h
    refine ⟨h.ok, h.host, fun p hp => ?_, fun p hp => ?_⟩
    · refine (h.source p hp).imp_right ?_
      rintro ⟨k, hk, hrest⟩
      exact ⟨k, by omega, hrest⟩
    · have := h.low p hp
      omega
  simp only [mapGva]
  by_cases hnull : σ.pml4 = 0
  · have halloc := hstart.alloc hfresh (by omega) (by omega) σ.pml4Gpa
    obtain ⟨g, τ, heq, hnew⟩ := vmMemAlloc_page σ.pml4Gpa hok
      (fun p hp => (hlow p hp).trans (by omega))
      (hfresh.valloc 0) (hfresh.hvVmMap 0) (hfresh.malloc 0)
    rw [heq] at halloc
    simp only [if_pos hnull, heq, if_neg (hfresh.valloc 0)]
    have hroot : Drawn env.answers σ.memRegions top
        { τ with pml4 := (env.answers 0).valloc, pml4Gpa := g } 1 :=
      halloc.congr rfl
    obtain ⟨used, hle, hdrawn⟩ := hroot.loop hfresh npages.toNat 0
      (gva &&& pageMask) (gpa &&& pageMask) le_rfl htop
    exact ⟨trivial, hmono hle hdrawn⟩
  · simp only [if_neg hnull]
    obtain ⟨used, hle, hdrawn⟩ := hstart.loop hfresh npages.toNat 0
      (gva &&& pageMask) (gpa &&& pageMask) (by omega) (by omega)
    exact ⟨trivial, hmono (by omega) hdrawn⟩

theorem toNat_pagesFrom (base : U64) (h : base.toNat + 512 * 4096 ≤ 2 ^ 64) (k : Nat) :
    (((MapGvaEnv.pagesFrom base).answers k).valloc).toNat =
      base.toNat + k % 512 * 4096 := by
  have hpage : confPageSize.toNat = 4096 := rfl
  have hk : k % 512 < 512 := Nat.mod_lt k (by decide)
  simp only [MapGvaEnv.pagesFrom, BitVec.toNat_add, BitVec.toNat_mul,
    BitVec.toNat_ofNat, hpage]
  omega

/-- The host that hands out 512 pages from `base` on has fresh pages. -/
theorem freshPages_pagesFrom {base : U64} {l : List MemRegion} {n : Nat}
    (hpos : base ≠ 0) (h : base.toNat + 512 * 4096 ≤ 2 ^ 64) (hn : n ≤ 512)
    (hold : ∀ p ∈ l, p.hostHi ≤ base.toNat ∨ base.toNat + 512 * 4096 ≤ p.hostLo) :
    FreshPages (MapGvaEnv.pagesFrom base).answers l n := by
  have hpage := toNat_pagesFrom base h
  refine ⟨?_, fun _ => rfl, fun _ => rfl, ?_, ?_, ?_⟩
  · intro k hzero
    have hbase : base.toNat ≠ 0 := fun hcon => hpos (BitVec.eq_of_toNat_eq hcon)
    have := hpage k
    rw [hzero] at this
    have hz : (0 : U64).toNat = 0 := rfl
    omega
  · intro k hk
    rw [hpage]
    omega
  · intro j hj k hk hne
    rw [hpage, hpage]
    omega
  · intro p hp k hk
    rw [hpage]
    have := hold p hp
    omega

end Hvexec
