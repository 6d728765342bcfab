import Hvexec.AddressMap

/-!
# When map_gva reports failure

`map_gva` looks at the result of one of its four allocations, that of the PML4.  When
another one fails, the local that should hold the address of the new table keeps what
it held, and the call goes on and returns zero.

A call depends on the answers to the allocations that it makes and on no others.  So
when these are granted, it does what `mapGva_spec` says, whatever the host would have
answered later.
-/

namespace Hvexec

open IntervalList RadixTable

/-! ## The allocations of a call -/

/-- The number of allocations made when the loop ends. -/
def mapGvaLoopUsed (env : MapGvaEnv) :
    Nat → Nat → VmMem → Nat → U64 → U64 → Nat
  | 0, _, _, used, _, _ => used
  | npages + 1, k, σ, used, gva, gpa =>
      let r := mapGvaPage env.answers (env.locals k) σ used gva gpa
      mapGvaLoopUsed env npages (k + 1) r.1 r.2 (gva + confPageSize) (gpa + confPageSize)

/-- The number of allocations that a call of `map_gva` makes. -/
def mapGvaUsed (σ : VmMem) (gva npages gpa : U64) (env : MapGvaEnv) : Nat :=
  let gva := gva &&& pageMask
  let gpa := gpa &&& pageMask
  if σ.pml4 = 0 then
    let alloc := vmMemAlloc σ 1 σ.pml4Gpa (env.answers 0)
    let σ' := { alloc.vm with pml4 := alloc.hva, pml4Gpa := alloc.gpa }
    if alloc.hva = 0 then 1 else mapGvaLoopUsed env npages.toNat 0 σ' 1 gva gpa
  else mapGvaLoopUsed env npages.toNat 0 σ 0 gva gpa

/-- The host grants a request. -/
structure HostAnswer.Grants (a : HostAnswer) : Prop where
  valloc : a.valloc ≠ 0
  hvVmMap : a.hvVmMap = true
  malloc : a.malloc = true

/-- Every allocation of a PDPT, PD or PT that the call makes is granted; the first one is
that of the PML4 when there is none. -/
def InnerGranted (σ : VmMem) (gva npages gpa : U64) (env : MapGvaEnv) : Prop :=
  ∀ k, (σ.pml4 = 0 → 1 ≤ k) → k < mapGvaUsed σ gva npages gpa env → (env.answers k).Grants

section Congr

variable (answers answers' : Nat → HostAnswer) (σ : VmMem) (used : Nat)

theorem mapGvaLevel_used_le (slot entry₀ next₀ : U64) :
    used ≤ (mapGvaLevel answers σ used slot entry₀ next₀).used := by
  simp only [mapGvaLevel]
  split_ifs
  · exact Nat.le_succ used
  · exact le_rfl

/-- A level asks for at most the next answer. -/
theorem mapGvaLevel_congr (slot entry₀ next₀ : U64)
    (h : ∀ j, used ≤ j → j < (mapGvaLevel answers σ used slot entry₀ next₀).used →
      answers' j = answers j) :
    mapGvaLevel answers' σ used slot entry₀ next₀ =
      mapGvaLevel answers σ used slot entry₀ next₀ := by
  by_cases hread : readU64 σ slot entry₀ = 0
  · have hnext : answers' used = answers used := by
      apply h used le_rfl
      simp only [mapGvaLevel, if_pos hread]
      exact Nat.lt_succ_self used
    simp only [mapGvaLevel, if_pos hread, hnext]
  · simp only [mapGvaLevel, if_neg hread]

theorem mapGvaPage_used_le (locals : LoopLocals) (gva gpa : U64) :
    used ≤ (mapGvaPage answers locals σ used gva gpa).2 := by
  simp only [mapGvaPage]
  exact (mapGvaLevel_used_le _ _ _ _ _ _).trans
    ((mapGvaLevel_used_le _ _ _ _ _ _).trans (mapGvaLevel_used_le _ _ _ _ _ _))

theorem mapGvaPage_congr (locals : LoopLocals) (gva gpa : U64)
    (h : ∀ j, used ≤ j → j < (mapGvaPage answers locals σ used gva gpa).2 →
      answers' j = answers j) :
    mapGvaPage answers' locals σ used gva gpa = mapGvaPage answers locals σ used gva gpa := by
  obtain ⟨pdpt, hpdpt⟩ : ∃ r, mapGvaLevel answers σ used
      (σ.pml4Gpa + (decodeGva gva).pml4Idx.setWidth 64) locals.pml4e locals.pdptGpa = r :=
    ⟨_, rfl⟩
  obtain ⟨pd, hpd⟩ : ∃ r, mapGvaLevel answers pdpt.vm pdpt.used
      (pdpt.next + (decodeGva gva).pdptIdx.setWidth 64) locals.pdpte locals.pdGpa = r :=
    ⟨_, rfl⟩
  obtain ⟨pt, hpt⟩ : ∃ r, mapGvaLevel answers pd.vm pd.used
      (pd.next + (decodeGva gva).pdIdx.setWidth 64) locals.pde locals.ptGpa = r :=
    ⟨_, rfl⟩
  simp only [mapGvaPage, hpdpt, hpd, hpt] at h ⊢
  have hpdpt_le : used ≤ pdpt.used := hpdpt ▸ mapGvaLevel_used_le _ _ _ _ _ _
  have hpd_le : pdpt.used ≤ pd.used := hpd ▸ mapGvaLevel_used_le _ _ _ _ _ _
  have hpt_le : pd.used ≤ pt.used := hpt ▸ mapGvaLevel_used_le _ _ _ _ _ _
  -- each level finds the answers that it asks for
  have hpdpt' := mapGvaLevel_congr answers answers' σ used
    (σ.pml4Gpa + (decodeGva gva).pml4Idx.setWidth 64) locals.pml4e locals.pdptGpa
  have hpd' := mapGvaLevel_congr answers answers' pdpt.vm pdpt.used
    (pdpt.next + (decodeGva gva).pdptIdx.setWidth 64) locals.pdpte locals.pdGpa
  have hpt' := mapGvaLevel_congr answers answers' pd.vm pd.used
    (pd.next + (decodeGva gva).pdIdx.setWidth 64) locals.pde locals.ptGpa
  rw [hpdpt] at hpdpt'
  rw [hpd] at hpd'
  rw [hpt] at hpt'
  rw [hpdpt' fun j hlo hhi => h j hlo (by omega), hpd' fun j hlo hhi => h j (by omega) (by omega),
    hpt' fun j hlo hhi => h j (by omega) hhi]

end Congr

section CongrLoop

variable (env env' : MapGvaEnv) (hlocals : env'.locals = env.locals)

theorem mapGvaLoopUsed_le (n k : Nat) (σ : VmMem) (used : Nat) (gva gpa : U64) :
    used ≤ mapGvaLoopUsed env n k σ used gva gpa := by
  induction n generalizing k σ used gva gpa with
  | zero =>
      exact le_rfl
  | succ n ih =>
      rw [mapGvaLoopUsed]
      exact (mapGvaPage_used_le _ _ _ _ _ _).trans (ih _ _ _ _ _)

include hlocals

theorem mapGvaLoop_congr (n k : Nat) (σ : VmMem) (used : Nat) (gva gpa : U64)
    (h : ∀ j, used ≤ j → j < mapGvaLoopUsed env n k σ used gva gpa →
      env'.answers j = env.answers j) :
    mapGvaLoop env' n k σ used gva gpa = mapGvaLoop env n k σ used gva gpa := by
  induction n generalizing k σ used gva gpa with
  | zero =>
      rfl
  | succ n ih =>
      rw [mapGvaLoopUsed] at h
      have hpage := mapGvaPage_congr env.answers env'.answers σ used (env.locals k) gva gpa
        fun j hlo hhi => h j hlo (hhi.trans_le (mapGvaLoopUsed_le env _ _ _ _ _ _))
      rw [mapGvaLoop, mapGvaLoop, hlocals, hpage]
      exact ih _ _ _ _ _ fun j hlo hhi =>
        h j ((mapGvaPage_used_le _ _ _ _ _ _).trans hlo) hhi

/-- **A call depends on the answers to its own allocations.** -/
theorem mapGva_congr (σ : VmMem) (gva npages gpa : U64)
    (h : ∀ j < mapGvaUsed σ gva npages gpa env, env'.answers j = env.answers j) :
    mapGva σ gva npages gpa env' = mapGva σ gva npages gpa env := by
  simp only [mapGvaUsed] at h
  simp only [mapGva]
  split_ifs at h with hroot hnull
  · rw [if_pos hroot, if_pos hroot, h 0 (by decide), if_pos hnull, if_pos hnull]
  · have hzero := h 0 (lt_of_lt_of_le Nat.one_pos (mapGvaLoopUsed_le env _ _ _ _ _ _))
    rw [if_pos hroot, if_pos hroot, hzero, if_neg hnull, if_neg hnull,
      mapGvaLoop_congr env env' hlocals _ _ _ _ _ _ fun j _ hhi => h j hhi]
  · rw [if_neg hroot, if_neg hroot,
      mapGvaLoop_congr env env' hlocals _ _ _ _ _ _ fun j _ hhi => h j hhi]

end CongrLoop

/-! ## What a call does -/

/-- The blocks that a call registers hold zeros. -/
def ZeroFilled (σ : VmMem) (l : List MemRegion) : Prop :=
  ∀ p ∈ l, p ∉ σ.memRegions →
    ∀ x : U64, p.hostLo ≤ x.toNat → x.toNat < p.hostHi → σ.mem x = 0

/-- An allocation that was made was granted. -/
theorem grants_of_vmMemAlloc {σ : VmMem} {npages gpa₀ : U64} {a : HostAnswer}
    (h : (vmMemAlloc σ npages gpa₀ a).hva ≠ 0) :
    a.Grants := by
  rcases vmMemAlloc_cases σ npages gpa₀ a with heq | ⟨g, _, hvalloc, hzero, _⟩
  · rw [heq] at h
    exact absurd rfl h
  · obtain ⟨_, _, hmap, hmalloc⟩ := mapGpa_of_eq_zero hzero
    exact ⟨hvalloc, hmap, hmalloc⟩

section Call

variable {σ : VmMem} {gva npages gpa : U64} {env : MapGvaEnv}

/-- The only failure that is reported is that of the PML4, and then nothing changed. -/
theorem mapGva_ne_zero (h : (mapGva σ gva npages gpa env).1 ≠ 0) :
    σ.pml4 = 0 ∧ mapGvaUsed σ gva npages gpa env = 1 ∧
      (mapGva σ gva npages gpa env).2 = σ := by
  simp only [mapGva] at h
  split_ifs at h with hroot hnull
  · refine ⟨hroot, ?_, ?_⟩
    · simp only [mapGvaUsed, if_pos hroot, if_pos hnull]
    · simp only [mapGva, if_pos hroot, if_pos hnull]
      rcases vmMemAlloc_cases σ 1 σ.pml4Gpa (env.answers 0) with heq | ⟨g, _, hvalloc, _, heq⟩
      · rw [heq, ← hroot]
      · rw [heq] at hnull
        exact absurd hnull hvalloc
  · exact absurd rfl h
  · exact absurd rfl h

/-- Once the call returns zero, its PML4 was granted. -/
theorem grants_root (hroot : σ.pml4 = 0) (h : (mapGva σ gva npages gpa env).1 = 0) :
    (env.answers 0).Grants := by
  simp only [mapGva, if_pos hroot] at h
  split_ifs at h with hnull
  · simp at h
  · exact grants_of_vmMemAlloc hnull

/-- The answers to the allocations of the call, and grants after them. -/
def MapGvaEnv.upTo (env : MapGvaEnv) (used : Nat) : MapGvaEnv :=
  { env with answers := fun j => if j < used then env.answers j else ⟨1, true, true⟩ }

/-- A call whose own allocations are granted is a call of a host that grants all. -/
theorem supplied_upTo (hinner : InnerGranted σ gva npages gpa env)
    (hzero : (mapGva σ gva npages gpa env).1 = 0)
    {l : List MemRegion} (hfill : ZeroFilled σ l) :
    Supplied (env.upTo (mapGvaUsed σ gva npages gpa env)).answers σ l := by
  have hgrants : ∀ k, ((env.upTo (mapGvaUsed σ gva npages gpa env)).answers k).Grants := by
    intro k
    simp only [MapGvaEnv.upTo]
    split_ifs with hk
    · by_cases hfirst : σ.pml4 = 0 ∧ k = 0
      · obtain ⟨hroot, rfl⟩ := hfirst
        exact grants_root hroot hzero
      · exact hinner k (fun hroot => Nat.one_le_iff_ne_zero.mpr fun hk => hfirst ⟨hroot, hk⟩) hk
    · exact ⟨by decide, rfl, rfl⟩
  exact ⟨fun k => (hgrants k).valloc, fun k => (hgrants k).hvVmMap,
    fun k => (hgrants k).malloc, hfill⟩

/-- **A call whose inner allocations are granted** fails and changes nothing, or maps its
range. -/
theorem mapGva_granted {T : Tables} {m : PageMap} (h : RefinesPages σ T m)
    (hrange : (MemOp.mapGva gva npages gpa env).InRange)
    (hinner : InnerGranted σ gva npages gpa env)
    (hfill : ZeroFilled σ (mapGva σ gva npages gpa env).2.memRegions)
    (hhost : HostOk (mapGva σ gva npages gpa env).2.memRegions)
    (hlow : ∀ p ∈ (mapGva σ gva npages gpa env).2.memRegions, p.hi ≤ 2 ^ 52) :
    ((mapGva σ gva npages gpa env).1 ≠ 0 ∧ (mapGva σ gva npages gpa env).2 = σ) ∨
      ∃ T', RefinesPages (mapGva σ gva npages gpa env).2 T'
        (m.assign (gva.toNat / 4096) npages.toNat (gpa.toNat / 4096)) := by
  by_cases hzero : (mapGva σ gva npages gpa env).1 = 0
  · right
    have hcongr := mapGva_congr env (env.upTo (mapGvaUsed σ gva npages gpa env)) rfl σ gva
      npages gpa fun j hj => if_pos hj
    have hsupplied := supplied_upTo hinner hzero hfill
    rw [← hcongr] at hsupplied hhost hlow ⊢
    have hrange' : (MemOp.mapGva gva npages gpa
        (env.upTo (mapGvaUsed σ gva npages gpa env))).InRange := hrange
    obtain ⟨T', hT', _⟩ := h.mapGva hrange' ⟨hsupplied, hhost, hlow⟩
    exact ⟨T', hT'⟩
  · exact Or.inl ⟨hzero, (mapGva_ne_zero hzero).2.2⟩

end Call

/-- What a call of `map_gva` promises: when it returns zero, its range is mapped, and when
an allocation of a table failed, it does not return zero. -/
structure ReportsFailure (σ : VmMem) (gva npages gpa : U64) (env : MapGvaEnv) : Prop where
  translates : (mapGva σ gva npages gpa env).1 = 0 →
    ∀ a entry₀ : U64, gva.toNat / 4096 ≤ a.toNat / 4096 →
      a.toNat / 4096 < gva.toNat / 4096 + npages.toNat →
      (gvaToGpa (mapGva σ gva npages gpa env).2 entry₀ a).toNat =
        4096 * (gpa.toNat / 4096 + (a.toNat / 4096 - gva.toNat / 4096)) + a.toNat % 4096
  reports : ¬ InnerGranted σ gva npages gpa env → (mapGva σ gva npages gpa env).1 ≠ 0

/-- Nothing else than an inner allocation that fails keeps a call from it. -/
theorem reportsFailure_iff {σ : VmMem} {T : Tables} {m : PageMap} {gva npages gpa : U64}
    {env : MapGvaEnv} (h : RefinesPages σ T m)
    (hrange : (MemOp.mapGva gva npages gpa env).InRange)
    (hfill : ZeroFilled σ (mapGva σ gva npages gpa env).2.memRegions)
    (hhost : HostOk (mapGva σ gva npages gpa env).2.memRegions)
    (hlow : ∀ p ∈ (mapGva σ gva npages gpa env).2.memRegions, p.hi ≤ 2 ^ 52) :
    ReportsFailure σ gva npages gpa env ↔ InnerGranted σ gva npages gpa env := by
  constructor
  · intro hreports
    by_contra hinner
    -- a call that does not return zero made no inner allocation
    obtain ⟨hroot, hused, _⟩ := mapGva_ne_zero (hreports.reports hinner)
    apply hinner
    intro k hk hlt
    have := hk hroot
    omega
  · intro hinner
    refine ⟨fun hzero a entry₀ hlo hhi => ?_, fun hcon => absurd hinner hcon⟩
    rcases mapGva_granted h hrange hinner hfill hhost hlow with ⟨hne, _⟩ | ⟨T', hT'⟩
    · exact absurd hzero hne
    · exact hT'.toNat_gvaToGpa (if_pos ⟨hlo, hhi⟩) entry₀

/-! ## Runs -/

namespace MemOp

/-- The inner allocations of a call are granted, from blocks of zeros. -/
def Granted (σ : VmMem) (op : MemOp) : Prop :=
  match op with
  | region _ => True
  | mapGva gva npages gpa env =>
      InnerGranted σ gva npages gpa env ∧ ZeroFilled σ (op.step σ).memRegions

/-- So they are for every call of a run. -/
def GrantedRun (σ : VmMem) : List MemOp → Prop
  | [] => True
  | op :: ops => op.Granted σ ∧ GrantedRun (op.step σ) ops

theorem grantedRun_append {σ : VmMem} {ops ops' : List MemOp} :
    GrantedRun σ (ops ++ ops') ↔ GrantedRun σ ops ∧ GrantedRun (run σ ops) ops' := by
  induction ops generalizing σ with
  | nil =>
      simp [GrantedRun, run]
  | cons op ops ih =>
      simp only [List.cons_append, GrantedRun, ih, run, List.foldl_cons, and_assoc]

end MemOp

/-- One call keeps the refinement, with the map it had or the one it makes. -/
theorem RefinesPages.step_granted {σ : VmMem} {T : Tables} {m : PageMap} {op : MemOp}
    (h : RefinesPages σ T m) (hrange : op.InRange) (hgranted : op.Granted σ)
    (hregions : RegionsOk (op.step σ).memRegions) (hhost : HostOk (op.step σ).memRegions)
    (hlow : ∀ p ∈ (op.step σ).memRegions, p.hi ≤ 2 ^ 52) :
    ∃ T' m', RefinesPages (op.step σ) T' m' := by
  cases op with
  | region op =>
      exact ⟨T, m, h.region op hregions hhost hlow⟩
  | mapGva gva npages gpa env =>
      rcases mapGva_granted h hrange hgranted.1 hgranted.2 hhost hlow with ⟨_, heq⟩ | ⟨T', hT'⟩
      · have hstep : MemOp.step σ (.mapGva gva npages gpa env) = σ := heq
        rw [hstep]
        exact ⟨T, m, h⟩
      · exact ⟨T', _, hT'⟩

/-- A run keeps the refinement of some map. -/
theorem RefinesPages.run_granted {σ : VmMem} {T : Tables} {m : PageMap} {ops : List MemOp}
    (h : RefinesPages σ T m) (hinv : RegionInv σ)
    (hrange : ∀ op ∈ ops, op.InRange) (hgranted : MemOp.GrantedRun σ ops)
    (hhost : HostOk (MemOp.run σ ops).memRegions)
    (hlow : ∀ p ∈ (MemOp.run σ ops).memRegions, p.hi ≤ 2 ^ 52) :
    ∃ T' m', RefinesPages (MemOp.run σ ops) T' m' := by
  induction ops generalizing σ T m with
  | nil =>
      exact ⟨T, m, h⟩
  | cons op ops ih =>
      obtain ⟨hinv', hhost', hlow'⟩ := MemOp.step_placed hinv hhost hlow
      obtain ⟨T', m', h'⟩ := h.step_granted (hrange op (by simp)) hgranted.1 hinv'.ok hhost'
        hlow'
      exact ih h' hinv' (fun op' hop' => hrange op' (List.mem_cons_of_mem op hop'))
        hgranted.2 hhost hlow

/-- A run of calls in range whose inner allocations are granted, over disjoint blocks. -/
structure GrantedCalls (mem : U64 → Byte) (ops : List MemOp) : Prop where
  inRange : ∀ op ∈ ops, op.InRange
  granted : MemOp.GrantedRun (VmMem.init mem) ops
  host : HostOk (MemOp.run (VmMem.init mem) ops).memRegions
  low : ∀ p ∈ (MemOp.run (VmMem.init mem) ops).memRegions, p.hi ≤ 2 ^ 52

theorem GrantedCalls.of_append {mem : U64 → Byte} {ops ops' : List MemOp}
    (h : GrantedCalls mem (ops ++ ops')) :
    GrantedCalls mem ops := by
  have hsub := MemOp.sublist_run_append (VmMem.init mem) ops ops'
  exact ⟨fun op hop => h.inRange op (List.mem_append_left ops' hop),
    (MemOp.grantedRun_append.mp h.granted).1, h.host.sublist hsub,
    fun p hp => h.low p (hsub.subset hp)⟩

theorem GrantedCalls.refinesPages {mem : U64 → Byte} {ops : List MemOp}
    (h : GrantedCalls mem ops) :
    ∃ T m, RefinesPages (MemOp.run (VmMem.init mem) ops) T m :=
  (refinesPages_init mem).run_granted (regionInv_init mem) h.inRange h.granted h.host h.low

/-- **What `map_gva` promises.**  In a run in which no inner allocation fails, every call
keeps its promise.  After such a run a call keeps it exactly when no allocation of a
PDPT, PD or PT that it makes fails. -/
theorem mapGva_reportsFailure (mem : U64 → Byte) (ops : List MemOp)
    (h : GrantedCalls mem ops) :
    (∀ pre post gva npages gpa env, ops = pre ++ .mapGva gva npages gpa env :: post →
      ReportsFailure (MemOp.run (VmMem.init mem) pre) gva npages gpa env) ∧
    ∀ gva npages gpa env,
      let σ := MemOp.run (VmMem.init mem) ops
      let l := (mapGva σ gva npages gpa env).2.memRegions
      (MemOp.mapGva gva npages gpa env).InRange → ZeroFilled σ l → HostOk l →
        (∀ p ∈ l, p.hi ≤ 2 ^ 52) →
        (ReportsFailure σ gva npages gpa env ↔ InnerGranted σ gva npages gpa env) := by
  constructor
  · rintro pre post gva npages gpa env rfl
    have hcall : GrantedCalls mem (pre ++ [.mapGva gva npages gpa env]) := by
      have hsplit : pre ++ .mapGva gva npages gpa env :: post =
          (pre ++ [.mapGva gva npages gpa env]) ++ post := by
        simp
      rw [hsplit] at h
      exact h.of_append
    obtain ⟨T, m, hT⟩ := hcall.of_append.refinesPages
    have hgranted := (MemOp.grantedRun_append.mp hcall.granted).2.1
    have hlast : (mapGva (MemOp.run (VmMem.init mem) pre) gva npages gpa env).2 =
        MemOp.run (VmMem.init mem) (pre ++ [.mapGva gva npages gpa env]) := by
      rw [MemOp.run, MemOp.run, List.foldl_append]
      rfl
    have hhost := hcall.host
    have hlow := hcall.low
    rw [← hlast] at hhost hlow
    exact (reportsFailure_iff hT (hcall.inRange _ (by simp)) hgranted.2 hhost hlow).mpr
      hgranted.1
  · intro gva npages gpa env σ l hrange hfill hhost hlow
    obtain ⟨T, m, hT⟩ := h.refinesPages
    exact reportsFailure_iff hT hrange hfill hhost hlow

/-- A host that grants everything. -/
theorem MemOp.grantedRun_of_suppliedRun {σ : VmMem} {ops : List MemOp}
    (h : MemOp.SuppliedRun σ ops) :
    MemOp.GrantedRun σ ops := by
  induction ops generalizing σ with
  | nil =>
      trivial
  | cons op ops ih =>
      refine ⟨?_, ih h.2⟩
      cases op with
      | region op =>
          trivial
      | mapGva gva npages gpa env =>
          exact ⟨fun k _ _ => ⟨h.1.valloc k, h.1.hvVmMap k, h.1.malloc k⟩, h.1.zero⟩

theorem mapGva_reportsFailure_mappedRun :
    ReportsFailure (MemOp.run (VmMem.init fun _ => 0) (mappedRun.take 2)) 0x400000 2 0x9000
      (.pagesFrom 0x70000000) := by
  have h := runOk_mappedRun
  exact (mapGva_reportsFailure (fun _ => 0) mappedRun ⟨h.inRange,
    MemOp.grantedRun_of_suppliedRun h.supplied, h.host, h.low⟩).1 (mappedRun.take 2) [] 0x400000 2
    0x9000 (.pagesFrom 0x70000000) rfl

/-- A host that has one page, for the PML4; the locals hold `0x5000`. -/
def onePage : MapGvaEnv where
  answers := fun k => if k = 0 then ⟨0x70000000, true, true⟩ else ⟨0, true, true⟩
  locals := fun _ => ⟨0, 0x5000, 0, 0x5000, 0, 0x5000⟩

/-- The allocation of the PDPT fails, `map_gva` returns zero, and the page is mapped where
nobody asked for. -/
theorem mapGva_unreported :
    (mapGva (VmMem.init fun _ => 0) 0x400000 1 0x9000 onePage).1 = 0 ∧
      gvaToGpa (mapGva (VmMem.init fun _ => 0) 0x400000 1 0x9000 onePage).2 0 0x400000 =
        0x5000 ∧
      ¬ ReportsFailure (VmMem.init fun _ => 0) 0x400000 1 0x9000 onePage := by
  have hcode : (mapGva (VmMem.init fun _ => 0) 0x400000 1 0x9000 onePage).1 = 0 := by
    decide +kernel
  have hgpa : gvaToGpa (mapGva (VmMem.init fun _ => 0) 0x400000 1 0x9000 onePage).2 0 0x400000 =
      0x5000 := by
    decide +kernel
  refine ⟨hcode, hgpa, fun h => ?_⟩
  have hpage := h.translates hcode 0x400000 0 (by decide) (by decide)
  rw [hgpa] at hpage
  exact absurd hpage (by decide)

end Hvexec
