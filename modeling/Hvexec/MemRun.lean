import Hvexec.RegionList
import Mathlib.Data.Multiset.Basic

/-!
# Runs of the memory calls

A run is any sequence of `map_gpa`, `vm_mem_alloc` and `map_gva` calls with any
answers of the host.  `map_gva` changes the state only by the allocations and
the entry writes in its loop, so whatever both preserve, it preserves; this
principle is stated once and used for everything that does not depend on what
the page tables say.

With it, the region list is shown to stay sorted and in step with the
hypervisor, through every interleaving and every failure.
-/

namespace Hvexec

open IntervalList

/-! ## Writes change nothing but bytes -/

/-- A write to guest memory changes host bytes only. -/
theorem vmMemWrite_snd (σ : VmMem) (gpa : U64) (buf : List Byte) :
    ∃ mem, (vmMemWrite σ gpa buf).2 = { σ with mem := mem } := by
  induction buf generalizing σ gpa with
  | nil =>
      exact ⟨σ.mem, rfl⟩
  | cons b buf ih =>
      simp only [vmMemWrite]
      split_ifs
      · exact ⟨σ.mem, rfl⟩
      · obtain ⟨mem, hmem⟩ :=
          ih { σ with mem := Function.update σ.mem (gpaToHva σ.memRegions gpa) b }
            (gpa + 1)
        exact ⟨mem, hmem⟩

section WriteFrame

variable (σ : VmMem) (gpa v : U64)

@[simp] theorem writeU64_memRegions :
    (writeU64 σ gpa v).memRegions = σ.memRegions := by
  obtain ⟨mem, hmem⟩ := vmMemWrite_snd σ gpa (ByteMemory.leBytes 8 v.toNat)
  rw [writeU64, hmem]

@[simp] theorem writeU64_hvMaps :
    (writeU64 σ gpa v).hvMaps = σ.hvMaps := by
  obtain ⟨mem, hmem⟩ := vmMemWrite_snd σ gpa (ByteMemory.leBytes 8 v.toNat)
  rw [writeU64, hmem]

@[simp] theorem writeU64_pml4 :
    (writeU64 σ gpa v).pml4 = σ.pml4 := by
  obtain ⟨mem, hmem⟩ := vmMemWrite_snd σ gpa (ByteMemory.leBytes 8 v.toNat)
  rw [writeU64, hmem]

@[simp] theorem writeU64_pml4Gpa :
    (writeU64 σ gpa v).pml4Gpa = σ.pml4Gpa := by
  obtain ⟨mem, hmem⟩ := vmMemWrite_snd σ gpa (ByteMemory.leBytes 8 v.toNat)
  rw [writeU64, hmem]

end WriteFrame

/-! ## What map_gva preserves -/

section MapGvaInvariant

variable {P : VmMem → Prop}
  (hwrite : ∀ σ gpa v, P σ → P (writeU64 σ gpa v))
  (halloc : ∀ σ gpa₀ a, P σ → P (vmMemAlloc σ 1 gpa₀ a).vm)
include hwrite halloc

theorem mapGvaLevel_invariant
    (answers : Nat → HostAnswer) {σ : VmMem}
    (used : Nat) (slot entry₀ next₀ : U64) (h : P σ) :
    P (mapGvaLevel answers σ used slot entry₀ next₀).vm := by
  simp only [mapGvaLevel]
  apply hwrite
  split_ifs
  · exact halloc _ _ _ h
  · exact h

theorem mapGvaPage_invariant
    (answers : Nat → HostAnswer) (locals : LoopLocals) {σ : VmMem}
    (used : Nat) (gva gpa : U64) (h : P σ) :
    P (mapGvaPage answers locals σ used gva gpa).1 := by
  simp only [mapGvaPage]
  apply hwrite
  apply mapGvaLevel_invariant hwrite halloc
  apply mapGvaLevel_invariant hwrite halloc
  apply mapGvaLevel_invariant hwrite halloc
  exact h

theorem mapGvaLoop_invariant
    (env : MapGvaEnv) (npages k : Nat) {σ : VmMem}
    (used : Nat) (gva gpa : U64) (h : P σ) :
    P (mapGvaLoop env npages k σ used gva gpa) := by
  induction npages generalizing k σ used gva gpa with
  | zero =>
      exact h
  | succ n ih =>
      simp only [mapGvaLoop]
      apply ih
      exact mapGvaPage_invariant hwrite halloc env.answers (env.locals k) used gva gpa h

/-- Whatever allocations, entry writes and a new root preserve, `mapGva`
preserves. -/
theorem mapGva_invariant
    (hroot : ∀ σ pml4 pml4Gpa,
      P σ → P { σ with pml4 := pml4, pml4Gpa := pml4Gpa })
    {σ : VmMem} (gva npages gpa : U64) (env : MapGvaEnv) (h : P σ) :
    P (mapGva σ gva npages gpa env).2 := by
  simp only [mapGva]
  split_ifs
  · exact hroot _ _ _ (halloc _ _ _ h)
  · apply mapGvaLoop_invariant hwrite halloc
    exact hroot _ _ _ (halloc _ _ _ h)
  · apply mapGvaLoop_invariant hwrite halloc
    exact h

end MapGvaInvariant

theorem sublist_vmMemAlloc (σ : VmMem) (npages gpa₀ : U64) (a : HostAnswer) :
    σ.memRegions.Sublist (vmMemAlloc σ npages gpa₀ a).vm.memRegions := by
  rcases vmMemAlloc_cases σ npages gpa₀ a with heq | ⟨g, _, _, _, heq⟩
  · rw [heq]
  · rw [heq]
    exact sublist_insertRegion _ _

/-- A region once registered stays registered. -/
theorem sublist_mapGva
    (σ : VmMem) (gva npages gpa : U64) (env : MapGvaEnv) :
    σ.memRegions.Sublist (mapGva σ gva npages gpa env).2.memRegions := by
  refine mapGva_invariant (P := fun τ => σ.memRegions.Sublist τ.memRegions)
    ?_ ?_ ?_ gva npages gpa env ?_
  · intro τ g v hτ
    simpa using hτ
  · intro τ g a hτ
    exact hτ.trans (sublist_vmMemAlloc τ 1 g a)
  · intro τ p g hτ
    exact hτ
  · exact List.Sublist.refl _

/-! ## Runs -/

/-- The calls that build guest memory. -/
inductive MemOp
  | region (op : RegionOp)
  | mapGva (gva npages gpa : U64) (env : MapGvaEnv)

namespace MemOp

def step (σ : VmMem) : MemOp → VmMem
  | region op => op.step σ
  | mapGva gva npages gpa env => (Hvexec.mapGva σ gva npages gpa env).2

def run (σ : VmMem) (ops : List MemOp) : VmMem :=
  ops.foldl step σ

theorem sublist_step (σ : VmMem) (op : MemOp) :
    σ.memRegions.Sublist (op.step σ).memRegions := by
  cases op with
  | region op =>
      exact RegionOp.sublist_step σ op
  | mapGva gva npages gpa env =>
      exact sublist_mapGva σ gva npages gpa env

theorem sublist_run (σ : VmMem) (ops : List MemOp) :
    σ.memRegions.Sublist (run σ ops).memRegions := by
  induction ops generalizing σ with
  | nil =>
      exact List.Sublist.refl _
  | cons op ops ih =>
      exact (sublist_step σ op).trans (ih (op.step σ))

theorem sublist_run_append (σ : VmMem) (ops ops' : List MemOp) :
    (run σ ops).memRegions.Sublist (run σ (ops ++ ops')).memRegions := by
  unfold run
  rw [List.foldl_append]
  exact sublist_run _ ops'

end MemOp

/-! ## The list and the hypervisor -/

/-- The list is in order and the hypervisor maps exactly its ranges. -/
structure RegionInv (σ : VmMem) : Prop where
  ok : RegionsOk σ.memRegions
  mapped : σ.hvMaps.Perm (σ.memRegions.map MemRegion.mapping)

theorem regionInv_init (mem : U64 → Byte) :
    RegionInv (VmMem.init mem) :=
  ⟨regionsOk_nil, List.Perm.refl _⟩

theorem regionInv_addRegion
    {σ : VmMem} {gpa npages hva : U64} {a : HostAnswer}
    (h : RegionInv σ)
    (hzero : (mapGpa σ gpa npages hva a).1 = 0)
    (hfit : (newRegion gpa npages hva).hi < 2 ^ 64) :
    RegionInv (addRegion σ (newRegion gpa npages hva)) := by
  refine ⟨regionsOk_addRegion h.ok hzero hfit, ?_⟩
  have hperm := perm_insertRegion h.ok.below (newRegion gpa npages hva)
  exact (h.mapped.cons _).trans (hperm.map MemRegion.mapping).symm

/-- One call of `vmMemAlloc` keeps the invariant, whatever the host answers. -/
theorem regionInv_vmMemAlloc
    {σ : VmMem} {npages gpa₀ : U64} {a : HostAnswer}
    (h : RegionInv σ)
    (hbelow : RegionsBelow (vmMemAlloc σ npages gpa₀ a).vm.memRegions) :
    RegionInv (vmMemAlloc σ npages gpa₀ a).vm := by
  rcases vmMemAlloc_cases σ npages gpa₀ a with heq | ⟨g, _, _, hzero, heq⟩
  · rw [heq]
    exact h
  · rw [heq] at hbelow ⊢
    have hadd := regionInv_addRegion h hzero
      (hbelow _ (mem_insertRegion_self _ _))
    exact ⟨hadd.ok, hadd.mapped⟩

theorem regionInv_mapGva
    {σ : VmMem} {gva npages gpa : U64} {env : MapGvaEnv}
    (h : RegionInv σ)
    (hbelow : RegionsBelow (mapGva σ gva npages gpa env).2.memRegions) :
    RegionInv (mapGva σ gva npages gpa env).2 := by
  -- a region never goes away, so a state below the bound was so all along
  refine mapGva_invariant
    (P := fun τ => RegionsBelow τ.memRegions → RegionInv τ)
    ?_ ?_ ?_ gva npages gpa env ?_ hbelow
  · intro τ g v hτ hb
    have hinv := hτ (by simpa using hb)
    exact ⟨by simpa using hinv.ok, by simpa using hinv.mapped⟩
  · intro τ g a hτ hb
    exact regionInv_vmMemAlloc
      (hτ (hb.sublist (sublist_vmMemAlloc τ 1 g a))) hb
  · intro τ p g hτ hb
    have hinv := hτ hb
    exact ⟨hinv.ok, hinv.mapped⟩
  · intro _
    exact h

theorem regionInv_step
    {σ : VmMem} {op : MemOp} (h : RegionInv σ)
    (hbelow : RegionsBelow (op.step σ).memRegions) :
    RegionInv (op.step σ) := by
  cases op with
  | mapGva gva npages gpa env =>
      exact regionInv_mapGva h hbelow
  | region op =>
      cases op with
      | vmMemAlloc npages a =>
          exact regionInv_vmMemAlloc h hbelow
      | mapGpa gpa npages hva a =>
          by_cases hzero : (mapGpa σ gpa npages hva a).1 = 0
          · simp only [MemOp.step, RegionOp.step,
              (mapGpa_of_eq_zero hzero).1] at hbelow ⊢
            exact regionInv_addRegion h hzero
              (hbelow _ (mem_insertRegion_self _ _))
          · simp only [MemOp.step, RegionOp.step, mapGpa_of_ne_zero hzero]
            exact h

theorem regionInv_run
    {σ : VmMem} {ops : List MemOp} (h : RegionInv σ)
    (hbelow : RegionsBelow (MemOp.run σ ops).memRegions) :
    RegionInv (MemOp.run σ ops) := by
  induction ops generalizing σ with
  | nil =>
      exact h
  | cons op ops ih =>
      have hstep := hbelow.sublist (MemOp.sublist_run (op.step σ) ops)
      exact ih (regionInv_step h hstep) hbelow

/-- **Region list invariant.**  After every run, through every failure of the
host, the list is strictly sorted and page-aligned, no two regions overlap, and
the hypervisor maps exactly the ranges of the list. -/
theorem memRegions_sorted_and_mapped
    (mem : U64 → Byte) (ops : List MemOp)
    (hbelow : RegionsBelow (MemOp.run (VmMem.init mem) ops).memRegions) :
    let σ := MemOp.run (VmMem.init mem) ops
    σ.memRegions.Pairwise (fun p q => p.gpa < q.gpa) ∧
    (∀ p ∈ σ.memRegions, p.gpa.toNat % 4096 = 0 ∧ 1 ≤ p.npages.toNat) ∧
    σ.memRegions.Pairwise
      (fun p q => p.gpa.toNat + p.npages.toNat * 4096 ≤ q.gpa.toNat) ∧
    (σ.hvMaps : Multiset HvMapping) =
      (σ.memRegions.map MemRegion.mapping : List HvMapping) := by
  intro σ
  have h : RegionInv σ := regionInv_run (regionInv_init mem) hbelow
  refine ⟨?_, ?_, h.ok.laid.sorted, Multiset.coe_eq_coe.mpr h.mapped⟩
  · refine h.ok.laid.sorted.imp_of_mem ?_
    intro p q hp _ hpq
    have hlt := h.ok.laid.proper p hp
    exact lt_of_lt_of_le hlt hpq
  · intro p hp
    exact ⟨h.ok.aligned p hp, h.ok.one_le_npages hp⟩

/-- A host that grants every request and hands out 512 pages from `base` on. -/
def MapGvaEnv.pagesFrom (base : U64) : MapGvaEnv where
  answers := fun k => ⟨base + BitVec.ofNat 64 (k % 512) * confPageSize, true, true⟩
  locals := fun _ => ⟨0, 0, 0, 0, 0, 0⟩

/-- Four tables are allocated, a data range is placed after them, and a range
that runs into it is refused. -/
def mixedRun : List MemOp :=
  [.mapGva 0x400000 2 0x9000 (.pagesFrom 0x70000000),
    .region (.mapGpa 0x9123 2 0x60000000 ⟨0, true, true⟩),
    .region (.mapGpa 0x8000 2 0x61000000 ⟨0, true, true⟩)]

theorem memRegions_sorted_and_mapped_mixedRun :
    let σ := MemOp.run (VmMem.init fun _ => 0) mixedRun
    σ.memRegions.length = 5 ∧
      σ.memRegions.Pairwise (fun p q => p.gpa < q.gpa) ∧
      (σ.hvMaps : Multiset HvMapping) =
        (σ.memRegions.map MemRegion.mapping : List HvMapping) := by
  have h := memRegions_sorted_and_mapped (fun _ => 0) mixedRun
    (by unfold RegionsBelow; decide +kernel)
  exact ⟨by decide +kernel, h.1, h.2.2.2⟩

end Hvexec
