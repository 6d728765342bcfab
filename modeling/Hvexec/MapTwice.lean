import Hvexec.SetUpStates

/-!
# Mapping a range twice

`MapRun` collects the states that `map_gva`, `map_gpa` and `vm_mem_alloc` lead to, in any
order and number, with anything written outside the tables in between.  Beside the calls it
keeps the regions that `map_gva` registered.

A second call of `map_gva` with the arguments of the first one finds every table there, and
the entries that it writes are those that it read.
-/

namespace Hvexec

open RadixTable

/-! ## Runs of calls -/

/-- The regions of `τ` that `σ` has not. -/
def newRegions (σ τ : VmMem) : List MemRegion :=
  τ.memRegions.filter fun r => r ∉ σ.memRegions

/-- `MapRun ops pages σ`: the calls `ops` lead to `σ`, and those of `map_gva` registered
`pages`.  The host grants them their tables, from pages of zeros, below `2 ^ 52`. -/
inductive MapRun : List MemOp → List MemRegion → VmMem → Prop
  | start (mem : U64 → Byte) :
      MapRun [] [] (VmMem.init mem)
  | region
      {ops : List MemOp} {pages : List MemRegion} {σ : VmMem}
      (h : MapRun ops pages σ) (op : RegionOp)
      (hplaced : Placed (op.step σ).memRegions) :
      MapRun (ops ++ [.region op]) pages (op.step σ)
  | mapGva
      {ops : List MemOp} {pages : List MemRegion} {σ : VmMem}
      (h : MapRun ops pages σ) (gva npages gpa : U64) (env : MapGvaEnv)
      (hsupplied : Supplied env.answers σ (mapGva σ gva npages gpa env).2.memRegions)
      (hplaced : Placed (mapGva σ gva npages gpa env).2.memRegions) :
      MapRun (ops ++ [.mapGva gva npages gpa env])
        (pages ++ newRegions σ (mapGva σ gva npages gpa env).2)
        (mapGva σ gva npages gpa env).2
  | write
      {ops : List MemOp} {pages : List MemRegion} {σ : VmMem}
      (h : MapRun ops pages σ) (mem : U64 → Byte)
      (htables : ∀ k g hva, TablePage σ k g → IsPage σ.memRegions g hva →
        ∀ x : U64, hva.toNat ≤ x.toNat → x.toNat < hva.toNat + 4096 →
          mem x = σ.mem x) :
      MapRun ops pages { σ with mem := mem }

theorem MapRun.buildOk {ops : List MemOp} {pages : List MemRegion} {σ : VmMem}
    (h : MapRun ops pages σ) :
    ∃ T, BuildOk σ T := by
  induction h with
  | start mem =>
      exact ⟨noTables, (refinesPages_init mem).build⟩
  | region h op hplaced ih =>
      obtain ⟨T, hT⟩ := ih
      exact ⟨T, hT.regionOp op hplaced⟩
  | mapGva h gva npages gpa env hsupplied hplaced ih =>
      obtain ⟨T, hT⟩ := ih
      obtain ⟨_, T', hok, _⟩ := mapGva_spec hT ⟨hsupplied, hplaced.host, hplaced.low⟩
      exact ⟨T', hok.buildOk⟩
  | write h mem htables ih =>
      obtain ⟨T, hT⟩ := ih
      exact ⟨T, hT.write htables⟩

/-- A run of calls alone. -/
theorem RunOk.mapRun {mem : U64 → Byte} (ops : List MemOp) (h : RunOk mem ops) :
    ∃ pages, MapRun ops pages (MemOp.run (VmMem.init mem) ops) := by
  induction ops using List.reverseRecOn with
  | nil =>
      exact ⟨[], .start mem⟩
  | append_singleton ops op ih =>
      obtain ⟨pages, hrun⟩ := ih h.of_append
      have hplaced : Placed (MemOp.run (VmMem.init mem) (ops ++ [op])).memRegions :=
        ⟨h.host, h.low⟩
      have hsupplied := (MemOp.suppliedRun_append.mp h.supplied).2.1
      have hstep : MemOp.run (VmMem.init mem) (ops ++ [op]) =
          op.step (MemOp.run (VmMem.init mem) ops) :=
        List.foldl_concat _ _ _ _
      rw [hstep] at hplaced ⊢
      cases op with
      | region op =>
          exact ⟨_, .region hrun op hplaced⟩
      | mapGva gva npages gpa env =>
          exact ⟨_, .mapGva hrun gva npages gpa env hsupplied hplaced⟩

/-! ## The second call -/

section Same

variable {σ : VmMem} {T : Tables}

/-- **One iteration over a page that is mapped already.** -/
theorem mapGvaPage_same (h : TablesOk σ T) {gva gpa : U64}
    (hleaf : T.leaf (tablePath gva) = some (gpa &&& pageMask))
    (answers : Nat → HostAnswer) (locals : LoopLocals) (used : Nat) :
    mapGvaPage answers locals σ used gva gpa = (σ, used) := by
  obtain ⟨hptIx, hpdIx, hpdptIx, hpml4Ix⟩ := decodeGva_slots gva
  obtain ⟨i, p, pt, hpath, hpt, hlen⟩ := h.held.leaf_parent _ _ hleaf
  obtain ⟨rfl, rfl⟩ : tableIx 12 gva = i ∧ [tableIx 21 gva, tableIx 30 gva, tableIx 39 gva] = p :=
    List.cons.inj hpath
  obtain ⟨pd, hpd⟩ := h.held.parent _ _ _ hpt
  obtain ⟨pdpt, hpdpt⟩ := h.held.parent _ _ _ hpd
  have hroot := h.held.root_node
  obtain ⟨hva, hpage⟩ := h.page _ pt hpt
  have hentry : σ.entry pt (tableIx 12 gva) = link (gpa &&& pageMask) := by
    have hlast := h.held.last _ pt hpt hlen (tableIx 12 gva)
    rw [hlast]
    exact congrArg (fun o => Option.elim o 0 link) hleaf
  have hback := writeU64_entry (i := tableIx 12 gva) h.regions h.host hpage
  rw [hentry] at hback
  simp only [mapGvaPage, hptIx, hpdIx, hpdptIx, hpml4Ix,
    mapGvaLevel_present answers h hroot (by simp) hpdpt,
    mapGvaLevel_present answers h hpdpt (by simp) hpd,
    mapGvaLevel_present answers h hpd (by simp) hpt]
  exact congrArg (fun τ => (τ, used)) hback

/-- **The loop over pages that are mapped already.** -/
theorem mapGvaLoop_same (h : TablesOk σ T) (env : MapGvaEnv) (n : Nat) {gva gpa : U64}
    (hleaf : ∀ i < n, T.leaf (tablePath (pageOf gva i)) = some (pageOf gpa i &&& pageMask))
    (k used : Nat) :
    mapGvaLoop env n k σ used gva gpa = σ := by
  induction n generalizing gva gpa k used with
  | zero =>
      rfl
  | succ n ih =>
      have hfirst := hleaf 0 (Nat.succ_pos n)
      rw [pageOf_zero, pageOf_zero] at hfirst
      rw [mapGvaLoop]
      simp only [mapGvaPage_same h hfirst]
      apply ih
      intro i hi
      rw [pageOf_succ, pageOf_succ]
      exact hleaf (i + 1) (by omega)

end Same

/-- **`map_gva` is idempotent.**  After any run, a second call right after the first one
returns 0 and leaves the state as it is: no region is added and no byte changes.  The host
need not grant anything then. -/
theorem mapGva_idempotent {ops : List MemOp} {pages : List MemRegion} {σ : VmMem}
    (h : MapRun ops pages σ) (gva npages gpa : U64) (env env' : MapGvaEnv)
    (hsupplied : Supplied env.answers σ (mapGva σ gva npages gpa env).2.memRegions)
    (hplaced : Placed (mapGva σ gva npages gpa env).2.memRegions)
    (hrange : gva.toNat / 4096 + npages.toNat ≤ 2 ^ 36) :
    mapGva (mapGva σ gva npages gpa env).2 gva npages gpa env' =
      (0, (mapGva σ gva npages gpa env).2) := by
  obtain ⟨T, hT⟩ := h.buildOk
  obtain ⟨_, T', hok, _, _, hleaf⟩ := mapGva_spec hT ⟨hsupplied, hplaced.host, hplaced.low⟩
  have hgva := toNat_and_pageMask gva
  simp only [mapGva.eq_def (mapGva σ gva npages gpa env).2, if_neg hok.root]
  rw [mapGvaLoop_same hok]
  intro i hi
  rw [hleaf]
  exact mapLeaves_pageOf (by omega) i hi

theorem run_mappedRun (σ : VmMem) :
    MemOp.run σ mappedRun =
      (mapGva (MemOp.run σ (mappedRun.take 2)) 0x400000 2 0x9000 (.pagesFrom 0x70000000)).2 :=
  rfl

theorem mapGva_idempotent_mappedRun :
    mapGva (MemOp.run (VmMem.init fun _ => 0) mappedRun) 0x400000 2 0x9000
        ⟨fun _ => ⟨0, false, false⟩, fun _ => ⟨0, 0, 0, 0, 0, 0⟩⟩ =
      (0, MemOp.run (VmMem.init fun _ => 0) mappedRun) := by
  have h : RunOk (fun _ => 0) (mappedRun.take 2 ++ mappedRun.drop 2) := runOk_mappedRun
  obtain ⟨pages, hrun⟩ := RunOk.mapRun (mappedRun.take 2) h.of_append
  have hsupplied := (MemOp.suppliedRun_append.mp h.supplied).2.1
  have hplaced : Placed (MemOp.run (VmMem.init fun _ => 0) mappedRun).memRegions :=
    ⟨h.host, h.low⟩
  rw [run_mappedRun] at hplaced ⊢
  exact mapGva_idempotent hrun 0x400000 2 0x9000 (.pagesFrom 0x70000000) _ hsupplied hplaced
    (by decide)

end Hvexec
