import Hvexec.MemRun

/-!
# The gap search

`find_free_mem_region` walks the list with a running start address.  Among all
page-aligned ranges of the size asked for that no region meets and that end within
the address space, it finds the lowest.

The product of `npages` and the page size is `2 ^ 64` for one size only; then no
region can be there, and the search answers zero.

`vm_mem_alloc` hands what it found to `map_gpa`, which walks the list again in its
own way.  The two walks agree as long as every region ends below `2 ^ 64`.
-/

namespace Hvexec

open IntervalList

/-- A page-aligned range of `npages` pages from `f` on that meets no region and ends
at or below `2 ^ 64`. -/
structure FreeRange (l : List MemRegion) (npages : U64) (f : Nat) : Prop where
  aligned : f % 4096 = 0
  fits : f + npages.toNat * 4096 ≤ 2 ^ 64
  free : ∀ x : U64, f ≤ x.toNat → x.toNat < f + npages.toNat * 4096 → ¬ InRegion l x

section Search

variable {l : List MemRegion} {npages : U64}

/-- A free range is apart from every region. -/
theorem FreeRange.apart {f : Nat} (h : FreeRange l npages f) (hok : RegionsOk l)
    (hn : 1 ≤ npages.toNat) :
    ∀ p ∈ l, f + npages.toNat * 4096 ≤ p.lo ∨ p.hi ≤ f := by
  intro p hp
  by_contra hcon
  push Not at hcon
  obtain ⟨hlo, hhi⟩ := hcon
  have hbelow := hok.below p hp
  have hproper := hok.laid.proper p hp
  -- the later one of the two starts lies in both
  have hx : (BitVec.ofNat 64 (max f p.lo)).toNat = max f p.lo := by
    rw [BitVec.toNat_ofNat]
    omega
  refine h.free (BitVec.ofNat 64 (max f p.lo)) ?_ ?_ ⟨p, hp, ?_, ?_⟩ <;> rw [hx] <;> omega

/-- Apart from every region, a range is free. -/
theorem freeRange_of_apart {f : Nat} (haligned : f % 4096 = 0)
    (hfits : f + npages.toNat * 4096 ≤ 2 ^ 64)
    (hapart : ∀ p ∈ l, f + npages.toNat * 4096 ≤ p.lo ∨ p.hi ≤ f) :
    FreeRange l npages f := by
  refine ⟨haligned, hfits, ?_⟩
  rintro x hlo hhi ⟨p, hp, hplo, hphi⟩
  have := hapart p hp
  omega

/-- A range as long as the address space is free in the empty list only. -/
theorem FreeRange.eq_nil {f : Nat} (h : FreeRange l npages f) (hok : RegionsOk l)
    (hn : npages.toNat * 4096 = 2 ^ 64) :
    l = [] := by
  cases l with
  | nil =>
      rfl
  | cons p ps =>
      have hbelow := hok.below p List.mem_cons_self
      have hproper := hok.laid.proper p List.mem_cons_self
      have hfits := h.fits
      have hapart := h.apart hok (by omega) p List.mem_cons_self
      omega

/-- **The lowest free range is found.** -/
theorem RegionsOk.findFree_isLeast (hok : RegionsOk l) (hn : 1 ≤ npages.toNat)
    (hfree : ∃ f, FreeRange l npages f) :
    ∃ g, findFreeMemRegion l npages = some g ∧
      IsLeast {f | FreeRange l npages f} g.toNat := by
  obtain ⟨f, hf⟩ := hfree
  have hfits := hf.fits
  have hpos : ¬ npages < 1 := by
    rw [lt_one_iff]
    omega
  have hg : findFreeMemRegion l npages = some (findFreeLoop npages 0 l) := if_neg hpos
  refine ⟨_, hg, ?_⟩
  rcases Nat.lt_or_ge (npages.toNat * 4096) (2 ^ 64) with hlt | hge
  · have hloop : (findFreeLoop npages 0 l).toNat =
        firstFit MemRegion.lo MemRegion.hi (npages.toNat * 4096) 0 l :=
      findFreeLoop_eq hok (by simp) hlt
    have hle : ∀ f', FreeRange l npages f' → (findFreeLoop npages 0 l).toNat ≤ f' := by
      intro f' hf'
      rw [hloop]
      exact firstFit_le _ 0 (Nat.zero_le f') (hf'.apart hok hn)
    have hlow := hle f hf
    exact ⟨freeRange_of_apart (findFreeMemRegion_aligned hok hlt hg) (by omega)
      (findFreeMemRegion_apart hok hlt hg), hle⟩
  · obtain rfl := hf.eq_nil hok (by omega)
    refine ⟨freeRange_of_apart rfl ?_ (by simp), fun f' _ => Nat.zero_le f'⟩
    show 0 + npages.toNat * 4096 ≤ 2 ^ 64
    omega

end Search

/-- **First fit is correct and lowest**, in every state of a run. -/
theorem findFreeMemRegion_isLeast
    (mem : U64 → Byte) (ops : List MemOp) (npages : U64)
    (hbelow : RegionsBelow (MemOp.run (VmMem.init mem) ops).memRegions)
    (hn : 1 ≤ npages.toNat)
    (hfree : ∃ f, FreeRange (MemOp.run (VmMem.init mem) ops).memRegions npages f) :
    ∃ g, findFreeMemRegion (MemOp.run (VmMem.init mem) ops).memRegions npages = some g ∧
      IsLeast {f | FreeRange (MemOp.run (VmMem.init mem) ops).memRegions npages f}
        g.toNat :=
  (regionInv_run (regionInv_init mem) hbelow).ok.findFree_isLeast hn hfree

/-- Between the tables and the data of `mixedRun` two pages are free. -/
theorem findFreeMemRegion_isLeast_mixedRun :
    ∃ g, findFreeMemRegion (MemOp.run (VmMem.init fun _ => 0) mixedRun).memRegions 2 =
        some g ∧
      IsLeast {f | FreeRange (MemOp.run (VmMem.init fun _ => 0) mixedRun).memRegions 2 f}
        g.toNat := by
  have hapart : ∀ p ∈ (MemOp.run (VmMem.init fun _ => 0) mixedRun).memRegions,
      0x4000 + (2 : U64).toNat * 4096 ≤ p.lo ∨ p.hi ≤ 0x4000 := by
    decide +kernel
  exact findFreeMemRegion_isLeast (fun _ => 0) mixedRun 2
    (by unfold RegionsBelow; decide +kernel) (by decide)
    ⟨0x4000, freeRange_of_apart rfl (by decide) hapart⟩

/-! ## vm_mem_alloc -/

/-- What a caller of `vm_mem_alloc` can rely on. -/
structure AllocAtomic (σ : VmMem) (npages gpa₀ : U64) (a : HostAnswer) : Prop where
  null_iff :
    (vmMemAlloc σ npages gpa₀ a).hva = 0 ↔
      npages = 0 ∨ a.valloc = 0 ∨ a.hvVmMap = false ∨ a.malloc = false
  granted :
    (vmMemAlloc σ npages gpa₀ a).hva ≠ 0 →
      ∃ p : MemRegion,
        p.npages = npages ∧
        p.hva = (vmMemAlloc σ npages gpa₀ a).hva ∧
        p.gpa = (vmMemAlloc σ npages gpa₀ a).gpa ∧
        (vmMemAlloc σ npages gpa₀ a).vm.memRegions.Perm (p :: σ.memRegions) ∧
        ∀ q ∈ σ.memRegions, Apart MemRegion.lo MemRegion.hi p q
  null :
    (vmMemAlloc σ npages gpa₀ a).hva = 0 →
      (vmMemAlloc σ npages gpa₀ a).gpa = gpa₀ ∧
      (vmMemAlloc σ npages gpa₀ a).vm.memRegions = σ.memRegions ∧
      (vmMemAlloc σ npages gpa₀ a).vm.hvMaps = σ.hvMaps ∧
      (vmMemAlloc σ npages gpa₀ a).vm.heap = σ.heap

section Alloc

variable {σ : VmMem} {npages : U64} {a : HostAnswer}

/-- A call that the host refuses leaves everything as it was. -/
theorem vmMemAlloc_of_refused
    (gpa₀ : U64)
    (h : npages = 0 ∨ a.valloc = 0 ∨ a.hvVmMap = false ∨ a.malloc = false) :
    vmMemAlloc σ npages gpa₀ a = ⟨0, gpa₀, σ⟩ := by
  rcases vmMemAlloc_cases σ npages gpa₀ a with heq | ⟨g, hg, hv, hzero, _⟩
  · exact heq
  · obtain ⟨_, hn, hmap, hmalloc⟩ := mapGpa_of_eq_zero hzero
    rcases h with rfl | h | h | h
    · exact absurd hn (by decide)
    · exact absurd h hv
    · simp [hmap] at h
    · simp [hmalloc] at h

/-- On a list in order `vm_mem_alloc` does all of its work or none. -/
theorem RegionsOk.allocAtomic
    (hok : RegionsOk σ.memRegions) (gpa₀ : U64)
    (hfit : ∀ g, findFreeMemRegion σ.memRegions npages = some g →
      g.toNat + npages.toNat * 4096 < 2 ^ 64) :
    AllocAtomic σ npages gpa₀ a := by
  by_cases href : npages = 0 ∨ a.valloc = 0 ∨ a.hvVmMap = false ∨ a.malloc = false
  · have hcall := vmMemAlloc_of_refused (σ := σ) gpa₀ href
    refine ⟨?_, ?_, ?_⟩
    · rw [hcall]
      exact iff_of_true rfl href
    · intro hne
      exact absurd (congrArg VmMemAlloc.hva hcall) hne
    · intro _
      rw [hcall]
      exact ⟨rfl, rfl, rfl, rfl⟩
  · have href' := href
    push Not at href'
    obtain ⟨hn0, hvalloc, hmap, hmalloc⟩ := href'
    have hn : 1 ≤ npages.toNat := by
      have : npages.toNat ≠ (0 : U64).toNat := fun h => hn0 (BitVec.eq_of_toNat_eq h)
      exact Nat.one_le_iff_ne_zero.mpr this
    have hpos : ¬ npages < 1 := by
      rw [lt_one_iff]
      omega
    have hn' : npages.toNat * 4096 < 2 ^ 64 :=
      lt_of_le_of_lt (Nat.le_add_left _ _) (hfit _ (if_neg hpos))
    obtain ⟨g, hg, _, hcall⟩ := vmMemAlloc_granted gpa₀ hok hn hn' hfit hvalloc
      (by simpa using hmap) (by simpa using hmalloc)
    refine ⟨?_, ?_, ?_⟩
    · rw [hcall]
      exact iff_of_false hvalloc href
    · intro _
      rw [hcall]
      exact ⟨⟨g, npages, a.valloc⟩, rfl, rfl, rfl, perm_insertRegion hok.below _,
        findFreeMemRegion_apart hok hn' hg⟩
    · intro hnull
      rw [hcall] at hnull
      exact absurd hnull hvalloc

end Alloc

/-- **`vm_mem_alloc` is atomic and takes its own choice**, in every state of a run
whose regions end below `2 ^ 64`. -/
theorem vmMemAlloc_atomic
    (mem : U64 → Byte) (ops : List MemOp) (npages gpa₀ : U64) (a : HostAnswer)
    (hbelow : RegionsBelow (MemOp.run (VmMem.init mem) ops).memRegions)
    (hfit : ∀ g,
      findFreeMemRegion (MemOp.run (VmMem.init mem) ops).memRegions npages = some g →
      g.toNat + npages.toNat * 4096 < 2 ^ 64) :
    AllocAtomic (MemOp.run (VmMem.init mem) ops) npages gpa₀ a :=
  (regionInv_run (regionInv_init mem) hbelow).ok.allocAtomic gpa₀ hfit

/-- Two pages are asked for behind the tables of `mixedRun`, and `malloc` fails. -/
theorem vmMemAlloc_atomic_mixedRun :
    AllocAtomic (MemOp.run (VmMem.init fun _ => 0) mixedRun) 2 7
        ⟨0x50000000, true, false⟩ ∧
      AllocAtomic (MemOp.run (VmMem.init fun _ => 0) mixedRun) 2 7
        ⟨0x50000000, true, true⟩ := by
  have hbelow : RegionsBelow (MemOp.run (VmMem.init fun _ => 0) mixedRun).memRegions := by
    unfold RegionsBelow
    decide +kernel
  have hfit : ∀ g,
      findFreeMemRegion (MemOp.run (VmMem.init fun _ => 0) mixedRun).memRegions 2 = some g →
      g.toNat + (2 : U64).toNat * 4096 < 2 ^ 64 := by
    intro g hg
    have hchoice :
        findFreeMemRegion (MemOp.run (VmMem.init fun _ => 0) mixedRun).memRegions 2 =
          some 0x4000 := by
      decide +kernel
    obtain rfl := Option.some.inj (hchoice.symm.trans hg)
    decide
  exact ⟨vmMemAlloc_atomic _ mixedRun 2 7 _ hbelow hfit,
    vmMemAlloc_atomic _ mixedRun 2 7 _ hbelow hfit⟩

/-- The last page of the address space, whose end wraps around to zero, and then one
page that the gap search puts at zero. -/
def lastPageRun : List MemOp :=
  [.region (.mapGpa 0xFFFFFFFFFFFFF000 1 0x60000000 ⟨0, true, true⟩),
    .region (.vmMemAlloc 1 ⟨0x70000000, true, true⟩)]

/-- Past a region that ends at `2 ^ 64` the walks disagree: the gap search chooses
page zero again, and `map_gpa` refuses it. -/
theorem vmMemAlloc_rejects_lastPageRun :
    let σ := MemOp.run (VmMem.init fun _ => 0) lastPageRun
    findFreeMemRegion σ.memRegions 1 = some 0 ∧
      ¬ AllocAtomic σ 1 0 ⟨0x71000000, true, true⟩ := by
  refine ⟨by decide +kernel, fun h => ?_⟩
  have hnull := h.null_iff
  revert hnull
  decide +kernel

end Hvexec
