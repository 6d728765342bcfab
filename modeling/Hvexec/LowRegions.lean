import Hvexec.MemRun

/-!
# How high the regions go

The gap search puts a region at zero or at the end of another one.  So a call of
`map_gva`, whatever the host answers, ends at most one page above the highest region
for each allocation that it can make: one for the PML4, and three for each page.
-/

namespace Hvexec

open IntervalList

/-- The list is in order and ends at or below `top`. -/
structure EndsBelow (σ : VmMem) (top : Nat) : Prop where
  ok : RegionsOk σ.memRegions
  low : ∀ p ∈ σ.memRegions, p.hi ≤ top

section EndsBelow

variable {σ τ : VmMem} {top : Nat}

theorem EndsBelow.congr (h : EndsBelow σ top) (heq : τ.memRegions = σ.memRegions) :
    EndsBelow τ top :=
  ⟨heq ▸ h.ok, heq ▸ h.low⟩

theorem EndsBelow.mono (h : EndsBelow σ top) {top' : Nat} (hle : top ≤ top') :
    EndsBelow σ top' :=
  ⟨h.ok, fun p hp => (h.low p hp).trans hle⟩

/-- One allocation, granted or not. -/
theorem EndsBelow.alloc (h : EndsBelow σ top) (npages gpa₀ : U64) (a : HostAnswer)
    (htop : top + npages.toNat * 4096 < 2 ^ 64) :
    EndsBelow (vmMemAlloc σ npages gpa₀ a).vm (top + npages.toNat * 4096) := by
  rcases vmMemAlloc_cases σ npages gpa₀ a with heq | ⟨g, hg, _, hzero, heq⟩
  · rw [heq]
    exact h.mono (Nat.le_add_right _ _)
  · have hbytes : npages.toNat * 4096 < 2 ^ 64 := lt_of_le_of_lt (Nat.le_add_left _ _) htop
    have hnew := newRegion_gpa_of_findFree a.valloc h.ok hg hbytes
    have hhi : (newRegion g npages a.valloc).hi ≤ top + npages.toNat * 4096 := by
      rw [hnew]
      unfold MemRegion.hi
      dsimp only
      rcases findFreeMemRegion_eq h.ok hbytes hg with hzero | ⟨p, hp, hend⟩
      · omega
      · have := h.low p hp
        omega
    rw [heq]
    refine ⟨regionsOk_addRegion h.ok hzero (lt_of_le_of_lt hhi htop), ?_⟩
    intro p hp
    rcases (mem_insertRegion h.ok.below).mp hp with rfl | hp
    · exact hhi
    · exact (h.low p hp).trans (Nat.le_add_right _ _)

/-- A region registered below the bound. -/
theorem EndsBelow.mapGpa (h : EndsBelow σ top) (gpa npages hva : U64) (a : HostAnswer)
    (hhi : (newRegion gpa npages hva).hi ≤ top) (htop : top < 2 ^ 64) :
    EndsBelow (mapGpa σ gpa npages hva a).2 top := by
  by_cases hzero : (Hvexec.mapGpa σ gpa npages hva a).1 = 0
  · rw [(mapGpa_of_eq_zero hzero).1]
    refine ⟨regionsOk_addRegion h.ok hzero (lt_of_le_of_lt hhi htop), ?_⟩
    intro p hp
    rcases (mem_insertRegion h.ok.below).mp hp with rfl | hp
    · exact hhi
    · exact h.low p hp
  · rw [mapGpa_of_ne_zero hzero]
    exact h

/-- One level of `map_gva`. -/
theorem EndsBelow.level (h : EndsBelow σ top) (htop : top + 4096 < 2 ^ 64)
    {answers : Nat → HostAnswer} {used : Nat} {slot entry₀ next₀ : U64} :
    EndsBelow (mapGvaLevel answers σ used slot entry₀ next₀).vm (top + 4096) := by
  simp only [mapGvaLevel]
  split_ifs
  · exact (h.alloc 1 next₀ (answers used) htop).congr (by simp)
  · exact (h.mono (Nat.le_add_right _ _)).congr (by simp)

/-- One page of `map_gva`. -/
theorem EndsBelow.page (h : EndsBelow σ top) (htop : top + 12288 < 2 ^ 64)
    (answers : Nat → HostAnswer) (locals : LoopLocals) (used : Nat) (gva gpa : U64) :
    EndsBelow (mapGvaPage answers locals σ used gva gpa).1 (top + 12288) := by
  simp only [mapGvaPage]
  refine EndsBelow.congr ?_ (writeU64_memRegions _ _ _)
  have hsum : top + 12288 = top + 4096 + 4096 + 4096 := by
    omega
  rw [hsum] at htop ⊢
  apply EndsBelow.level _ htop
  apply EndsBelow.level _ (lt_of_le_of_lt (Nat.le_add_right _ _) htop)
  apply EndsBelow.level h
  omega

/-- The loop of `map_gva`. -/
theorem EndsBelow.loop (env : MapGvaEnv) (npages : Nat) {k used : Nat} {gva gpa : U64}
    (h : EndsBelow σ top) (htop : top + 12288 * npages < 2 ^ 64) :
    EndsBelow (mapGvaLoop env npages k σ used gva gpa) (top + 12288 * npages) := by
  induction npages generalizing k σ used gva gpa top with
  | zero =>
      rw [Nat.mul_zero, Nat.add_zero]
      exact h
  | succ n ih =>
      have hsum : top + 12288 * (n + 1) = top + 12288 + 12288 * n := by
        ring
      rw [hsum] at htop ⊢
      exact ih (h.page (lt_of_le_of_lt (Nat.le_add_right _ _) htop) env.answers (env.locals k)
        used gva gpa) htop

/-- A call of `map_gva`. -/
theorem EndsBelow.mapGva (h : EndsBelow σ top) (gva npages gpa : U64) (env : MapGvaEnv)
    (htop : top + 4096 * (1 + 3 * npages.toNat) < 2 ^ 64) :
    EndsBelow (mapGva σ gva npages gpa env).2 (top + 4096 * (1 + 3 * npages.toNat)) := by
  simp only [Hvexec.mapGva]
  have hone : (1 : U64).toNat * 4096 = 4096 := rfl
  have halloc := h.alloc 1 σ.pml4Gpa (env.answers 0) (by rw [hone]; omega)
  rw [hone] at halloc
  have hroot : EndsBelow { (vmMemAlloc σ 1 σ.pml4Gpa (env.answers 0)).vm with
      pml4 := (vmMemAlloc σ 1 σ.pml4Gpa (env.answers 0)).hva
      pml4Gpa := (vmMemAlloc σ 1 σ.pml4Gpa (env.answers 0)).gpa } (top + 4096) :=
    halloc.congr rfl
  split_ifs
  · exact hroot.mono (by omega)
  · exact (hroot.loop env npages.toNat (by omega)).mono (by omega)
  · exact (h.loop env npages.toNat (by omega)).mono (by omega)

end EndsBelow

end Hvexec
