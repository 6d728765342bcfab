import Hvexec.SetUpStates
import Hvexec.MapFailure

/-!
# What the pages of valloc held

`valloc` promises an aligned block, not zeros, and `map_gva` reads an entry of a new
table before it writes it.  An entry that held something else than zero is taken for a
link.

Two runs of the same calls are compared that differ in what the blocks held: one over
zeros, the other one over any memory.  As long as the entries that the first one uses in
its PML4, PDPTs and PDs held zero in the second one as well, both do the same: they
agree on every byte of a table that they read.  The entries of a PT are written and
never read.
-/

namespace Hvexec

open ByteMemory IntervalList RadixTable

/-! ## States that agree on some bytes -/

/-- A byte of entry `i` of the page at `hva`. -/
def EntryByte (hva : U64) (i : Fin 512) (x : U64) : Prop :=
  (x - (hva + BitVec.ofNat 64 (8 * i.val))).toNat < 8

/-- The bytes of an entry decide what it is. -/
theorem pageEntry_eq_of_bytes {mem mem' : U64 → Byte} {hva : U64} {i : Fin 512}
    (h : ∀ x, EntryByte hva i x → mem' x = mem x) :
    pageEntry mem' hva i = pageEntry mem hva i := by
  rw [pageEntry, pageEntry, slice_congr]
  intro j hj
  apply h
  unfold EntryByte
  bv_omega

/-- An entry that is zero has zeros for bytes. -/
theorem byte_of_pageEntry_zero {mem : U64 → Byte} {hva : U64} {i : Fin 512}
    (h : pageEntry mem hva i = 0) {x : U64} (hx : EntryByte hva i x) :
    mem x = 0 := by
  have hlt := leNat_lt (slice mem (hva + BitVec.ofNat 64 (8 * i.val)) 8)
  rw [length_slice] at hlt
  have hzero : leNat (slice mem (hva + BitVec.ofNat 64 (8 * i.val)) 8) = 0 := by
    have htoNat := congrArg BitVec.toNat h
    have hzero : (0 : U64).toNat = 0 := rfl
    rw [pageEntry, BitVec.toNat_ofNat, hzero] at htoNat
    omega
  have hbytes := leBytes_leNat (slice mem (hva + BitVec.ofNat 64 (8 * i.val)) 8)
  rw [hzero, length_slice] at hbytes
  have hget := slice_getD mem (hva + BitVec.ofNat 64 (8 * i.val)) 0 hx
  rw [← hbytes] at hget
  have hsum : hva + BitVec.ofNat 64 (8 * i.val) +
      BitVec.ofNat 64 (x - (hva + BitVec.ofNat 64 (8 * i.val))).toNat = x := by
    bv_omega
  have hnull : leBytes 8 0 = List.replicate 8 0 := by
    decide
  rw [hsum, hnull, List.getD_replicate 0 hx] at hget
  exact hget.symm

/-- Two states that differ in host bytes only, and not in those of `E`. -/
structure AgreeOn (E : U64 → Prop) (σ τ : VmMem) : Prop where
  state : τ = { σ with mem := τ.mem }
  bytes : ∀ x, E x → τ.mem x = σ.mem x

section Agree

variable {E : U64 → Prop} {σ τ : VmMem}

theorem AgreeOn.memRegions (h : AgreeOn E σ τ) : τ.memRegions = σ.memRegions := by
  rw [h.state]

theorem AgreeOn.mono {E' : U64 → Prop} (h : AgreeOn E σ τ) (hsub : ∀ x, E' x → E x) :
    AgreeOn E' σ τ :=
  ⟨h.state, fun x hx => h.bytes x (hsub x hx)⟩

/-- The same bytes written to both. -/
theorem AgreeOn.write (h : AgreeOn E σ τ) (gpa : U64) (buf : List Byte) :
    AgreeOn E (vmMemWrite σ gpa buf).2 (vmMemWrite τ gpa buf).2 := by
  induction buf generalizing σ τ gpa with
  | nil =>
      exact h
  | cons b buf ih =>
      rw [vmMemWrite, vmMemWrite, h.memRegions]
      dsimp only
      split_ifs
      · exact h
      · apply ih
        constructor
        · rw [h.state]
        · intro x hx
          show Function.update τ.mem _ b x = Function.update σ.mem _ b x
          by_cases heq : x = gpaToHva σ.memRegions gpa
          · subst heq
            rw [Function.update_self, Function.update_self]
          · rw [Function.update_of_ne heq, Function.update_of_ne heq, h.bytes x hx]

/-- An allocation does not look at the bytes. -/
theorem vmMemAlloc_setMem (σ : VmMem) (mem : U64 → Byte) (npages gpa₀ : U64)
    (a : HostAnswer) :
    vmMemAlloc { σ with mem := mem } npages gpa₀ a =
      { vmMemAlloc σ npages gpa₀ a with
        vm := { (vmMemAlloc σ npages gpa₀ a).vm with mem := mem } } := by
  simp only [vmMemAlloc]
  cases findFreeMemRegion σ.memRegions npages with
  | none =>
      rfl
  | some g =>
      simp only [mapGpa, hvVmMap, hvVmUnmap]
      split_ifs <;> rfl

theorem vmMemAlloc_mem (σ : VmMem) (npages gpa₀ : U64) (a : HostAnswer) :
    (vmMemAlloc σ npages gpa₀ a).vm.mem = σ.mem := by
  rw [vmMemAlloc_vm]
  exact (RegionOp.step_frame σ (.vmMemAlloc npages a)).1

/-- The same allocation in both. -/
theorem AgreeOn.alloc (h : AgreeOn E σ τ) (npages gpa₀ : U64) (a : HostAnswer) :
    (vmMemAlloc τ npages gpa₀ a).hva = (vmMemAlloc σ npages gpa₀ a).hva ∧
      (vmMemAlloc τ npages gpa₀ a).gpa = (vmMemAlloc σ npages gpa₀ a).gpa ∧
      AgreeOn E (vmMemAlloc σ npages gpa₀ a).vm (vmMemAlloc τ npages gpa₀ a).vm := by
  rw [h.state, vmMemAlloc_setMem]
  refine ⟨rfl, rfl, rfl, ?_⟩
  intro x hx
  rw [vmMemAlloc_mem]
  exact h.bytes x hx

/-- The same region registered in both. -/
theorem AgreeOn.region (h : AgreeOn E σ τ) (op : RegionOp) :
    AgreeOn E (op.step σ) (op.step τ) := by
  cases op with
  | vmMemAlloc npages a =>
      exact (h.alloc npages 0 a).2.2
  | mapGpa gpa npages hva a =>
      have hset : (mapGpa τ gpa npages hva a).2 =
          { (mapGpa σ gpa npages hva a).2 with mem := τ.mem } := by
        rw [h.state]
        simp only [mapGpa, hvVmMap, hvVmUnmap]
        split_ifs <;> rfl
      have hmem := (RegionOp.step_frame σ (.mapGpa gpa npages hva a)).1
      constructor
      · simp only [RegionOp.step, hset]
      · intro x hx
        simp only [RegionOp.step, hset]
        rw [h.bytes x hx]
        exact (congrFun hmem x).symm

/-- The same block of `map_gva` in both, once they read the same entry. -/
theorem AgreeOn.level (h : AgreeOn E σ τ) (answers : Nat → HostAnswer) (used : Nat)
    {slot entry₀ : U64} (next₀ : U64)
    (hread : readU64 τ slot entry₀ = readU64 σ slot entry₀) :
    (mapGvaLevel answers τ used slot entry₀ next₀).next =
        (mapGvaLevel answers σ used slot entry₀ next₀).next ∧
      (mapGvaLevel answers τ used slot entry₀ next₀).used =
        (mapGvaLevel answers σ used slot entry₀ next₀).used ∧
      AgreeOn E (mapGvaLevel answers σ used slot entry₀ next₀).vm
        (mapGvaLevel answers τ used slot entry₀ next₀).vm := by
  obtain ⟨_, hgpa, halloc⟩ := h.alloc 1 next₀ (answers used)
  simp only [mapGvaLevel, hread]
  split_ifs
  · simp only [hgpa]
    exact ⟨trivial, trivial, halloc.write _ _⟩
  · exact ⟨rfl, rfl, h.write _ _⟩

/-- The same code of `map_gva` from both. -/
theorem AgreeOn.mapGva_fst (h : AgreeOn E σ τ) (gva npages gpa : U64) (env : MapGvaEnv) :
    (mapGva τ gva npages gpa env).1 = (mapGva σ gva npages gpa env).1 := by
  have hpml4 : τ.pml4 = σ.pml4 := by
    rw [h.state]
  have hpml4Gpa : τ.pml4Gpa = σ.pml4Gpa := by
    rw [h.state]
  obtain ⟨hhva, _⟩ := h.alloc 1 σ.pml4Gpa (env.answers 0)
  simp only [mapGva, hpml4, hpml4Gpa, hhva]
  split_ifs <;> rfl

/-- An entry that was stored in both is the same. -/
theorem AgreeOn.storeEntry (h : AgreeOn E σ τ) (hok : RegionsOk σ.memRegions)
    (hhost : HostOk σ.memRegions) {f hva : U64} (hpage : IsPage σ.memRegions f hva)
    (i : Fin 512) (v : U64) :
    AgreeOn (fun x => E x ∨ EntryByte hva i x)
      (writeU64 σ (f + BitVec.ofNat 64 (8 * i.val)) v)
      (writeU64 τ (f + BitVec.ofNat 64 (8 * i.val)) v) := by
  have hregions := h.memRegions
  have hpage' : IsPage τ.memRegions f hva := hregions ▸ hpage
  rw [writeU64_of_isPage hok hhost hpage,
    writeU64_of_isPage (hregions ▸ hok) (hregions ▸ hhost) hpage']
  constructor
  · rw [h.state]
  · intro x hx
    show overwrite τ.mem _ _ x = overwrite σ.mem _ _ x
    by_cases hin : EntryByte hva i x
    · rw [overwrite_of_lt τ.mem 0 (by rw [length_leBytes]; exact hin),
        overwrite_of_lt σ.mem 0 (by rw [length_leBytes]; exact hin)]
    · rw [overwrite, overwrite, h.bytes x (hx.resolve_right hin)]

/-- What both read in a page on whose bytes they agree. -/
theorem AgreeOn.readU64_eq (h : AgreeOn E σ τ) (hok : RegionsOk σ.memRegions)
    (hhost : HostOk σ.memRegions) {f hva : U64} (hpage : IsPage σ.memRegions f hva)
    (i : Fin 512) (old old' : U64) (hbytes : ∀ x, EntryByte hva i x → E x) :
    readU64 τ (f + BitVec.ofNat 64 (8 * i.val)) old' =
      readU64 σ (f + BitVec.ofNat 64 (8 * i.val)) old := by
  have hregions := h.memRegions
  have hpage' : IsPage τ.memRegions f hva := hregions ▸ hpage
  rw [readU64_of_isPage hok hhost hpage,
    readU64_of_isPage (hregions ▸ hok) (hregions ▸ hhost) hpage']
  exact pageEntry_eq_of_bytes fun x hx => h.bytes x (hbytes x hx)

end Agree

/-! ## The bytes that matter -/

/-- A byte of an entry that links a table. -/
def LinkByte (σ : VmMem) (T : Tables) (x : U64) : Prop :=
  ∃ i p g f hva, T.node p = some g ∧ T.node (i :: p) = some f ∧
    IsPage σ.memRegions g hva ∧ EntryByte hva i x

/-- A byte of an entry that maps a page. -/
def LeafByte (σ : VmMem) (T : Tables) (x : U64) : Prop :=
  ∃ i p g v hva, T.node p = some g ∧ T.leaf (i :: p) = some v ∧
    IsPage σ.memRegions g hva ∧ EntryByte hva i x

theorem LinkByte.mono {σ σ' : VmMem} {T T' : Tables} {x : U64} (h : LinkByte σ T x)
    (hsub : σ.memRegions.Sublist σ'.memRegions) (hnodes : T'.Extends T) :
    LinkByte σ' T' x := by
  obtain ⟨i, p, g, f, hva, hg, hf, hpage, hx⟩ := h
  exact ⟨i, p, g, f, hva, hnodes p g hg, hnodes _ f hf, hpage.sublist hsub, hx⟩

theorem LinkByte.of_grown {σ σ' : VmMem} {T T' : Tables} {x : U64} (h : LinkByte σ T x)
    (hgrown : Grown σ T σ' T') :
    LinkByte σ' T' x :=
  h.mono hgrown.regions hgrown.nodes

/-- Entries that map a page are those that did before, while no page is mapped. -/
theorem LeafByte.of_later {σ σ' : VmMem} {T T' : Tables} {x : U64} (h : LeafByte σ' T' x)
    (hok : TablesOk σ T) (hregions : RegionsOk σ'.memRegions)
    (hsub : σ.memRegions.Sublist σ'.memRegions) (hnodes : T'.Extends T)
    (hleaf : T'.leaf = T.leaf) :
    LeafByte σ T x := by
  obtain ⟨i, p, g, v, hva, hg, hv, hpage, hx⟩ := h
  rw [hleaf] at hv
  obtain ⟨j, q, f, heq, hf, _⟩ := hok.held.leaf_parent _ v hv
  obtain ⟨rfl, rfl⟩ := List.cons.inj heq
  obtain rfl : g = f := Option.some.inj (hg.symm.trans (hnodes _ f hf))
  obtain ⟨hva', hpage'⟩ := hok.page _ _ hf
  obtain rfl := hpage.hva_unique hregions (hpage'.sublist hsub)
  exact ⟨i, p, g, v, hva, hf, hv, hpage', hx⟩

/-- Setting an entry of a PT adds its bytes. -/
theorem LeafByte.of_setLeaf {σ τ : VmMem} {T : Tables} {p : List (Fin 512)} {f hva v : U64}
    {i : Fin 512} {x : U64} (h : LeafByte τ (T.setLeaf (i :: p) v) x)
    (hregions : τ.memRegions = σ.memRegions) (hok : TablesOk σ T) (hp : T.node p = some f)
    (hpage : IsPage σ.memRegions f hva) :
    LeafByte σ T x ∨ EntryByte hva i x := by
  obtain ⟨j, q, g, w, hva', hg, hw, hpage', hx⟩ := h
  rw [hregions] at hpage'
  by_cases heq : j :: q = i :: p
  · obtain ⟨rfl, rfl⟩ := List.cons.inj heq
    obtain rfl : g = f := Option.some.inj (hg.symm.trans hp)
    obtain rfl := hpage.hva_unique hok.regions hpage'
    exact Or.inr hx
  · simp only [Tree.setLeaf, Function.update_of_ne heq] at hw
    exact Or.inl ⟨j, q, g, w, hva', hg, hw, hpage', hx⟩

/-! ## The same call in both -/

section Call

variable {l : List MemRegion} {σ₀ σ : VmMem} {T₀ T : Tables}

/-- **One level in both.**  The table at the next index is the same, when the link to it
is one of the entries on which the two agree. -/
theorem mapGvaLevel_agree {answers : Nat → HostAnswer} {p : List (Fin 512)} {f : U64}
    (hgr : Granted answers σ₀ l) (hgrown : Grown σ₀ T₀ σ T)
    (h : TablesOk σ T) (hp : T.node p = some f) (hlen : p.length < 3)
    (i : Fin 512) (used : Nat) (entry₀ next₀ : U64) :
    let slot := f + BitVec.ofNat 64 (8 * i.val)
    let r := mapGvaLevel answers σ used slot entry₀ next₀
    r.vm.memRegions.Sublist l →
      ∃ T', TablesOk r.vm T' ∧ Grown σ T r.vm T' ∧
        T'.node (i :: p) = some r.next ∧ T'.leaf = T.leaf ∧
        ∀ (E : U64 → Prop) (τ : VmMem), AgreeOn E σ τ → (∀ x, LinkByte r.vm T' x → E x) →
          let r' := mapGvaLevel answers τ used slot entry₀ next₀
          r'.next = r.next ∧ r'.used = r.used ∧ AgreeOn E r.vm r'.vm := by
  intro slot r hsub
  obtain ⟨T', hok, hgrow, hnode, _, hleaf⟩ :=
    mapGvaLevel_spec hgr hgrown h hp hlen i used entry₀ next₀ hsub
  refine ⟨T', hok, hgrow, hnode, hleaf, ?_⟩
  intro E τ hagree hlinks
  obtain ⟨hva, hpage⟩ := h.page p f hp
  apply hagree.level answers used next₀
  apply hagree.readU64_eq h.regions h.host hpage i entry₀ entry₀
  intro x hx
  exact hlinks x ⟨i, p, f, r.next, hva, hgrow.nodes p f hp, hnode,
    hpage.sublist hgrow.regions, hx⟩

/-- **One iteration in both.** -/
theorem mapGvaPage_agree {answers : Nat → HostAnswer}
    (hgr : Granted answers σ₀ l) (hgrown : Grown σ₀ T₀ σ T) (h : TablesOk σ T)
    (locals : LoopLocals) (used : Nat) (gva gpa : U64) :
    let r := mapGvaPage answers locals σ used gva gpa
    r.1.memRegions.Sublist l →
      ∃ T', TablesOk r.1 T' ∧ Grown σ T r.1 T' ∧
        T'.leaf = Function.update T.leaf (tablePath gva) (some (gpa &&& pageMask)) ∧
        ∀ (E : U64 → Prop) (τ : VmMem), AgreeOn (fun x => E x ∨ LeafByte σ T x) σ τ →
          (∀ x, LinkByte r.1 T' x → E x) →
          let r' := mapGvaPage answers locals τ used gva gpa
          r'.2 = r.2 ∧ AgreeOn (fun x => E x ∨ LeafByte r.1 T' x) r.1 r'.1 := by
  intro r hsub
  obtain ⟨hpt, hpd, hpdpt, hpml4⟩ := decodeGva_slots gva
  simp only [r, mapGvaPage, hpt, hpd, hpdpt, hpml4] at hsub ⊢
  rw [writeU64_memRegions] at hsub
  have hsub₂ := (sublist_mapGvaLevel answers _ _ _ _ _).trans hsub
  have hsub₁ := (sublist_mapGvaLevel answers _ _ _ _ _).trans hsub₂
  obtain ⟨T₁, hok₁, hgrow₁, hnode₁, hleaf₁, hagree₁⟩ :=
    mapGvaLevel_agree hgr hgrown h h.held.root_node (by simp)
      (tableIx 39 gva) used locals.pml4e locals.pdptGpa hsub₁
  obtain ⟨T₂, hok₂, hgrow₂, hnode₂, hleaf₂, hagree₂⟩ :=
    mapGvaLevel_agree hgr (hgrown.trans hgrow₁) hok₁ hnode₁ (by simp)
      (tableIx 30 gva) _ locals.pdpte locals.pdGpa hsub₂
  obtain ⟨T₃, hok₃, hgrow₃, hnode₃, hleaf₃, hagree₃⟩ :=
    mapGvaLevel_agree hgr ((hgrown.trans hgrow₁).trans hgrow₂) hok₂ hnode₂ (by simp)
      (tableIx 21 gva) _ locals.pde locals.ptGpa hsub
  obtain ⟨hok, hgrow⟩ := hok₃.setLeaf hnode₃ rfl (tableIx 12 gva)
    (toNat_and_pageMask_aligned gpa)
  have hgrow₁₃ := (hgrow₁.trans hgrow₂).trans hgrow₃
  have hleaf₁₃ : T₃.leaf = T.leaf := hleaf₃.trans (hleaf₂.trans hleaf₁)
  refine ⟨_, hok, hgrow₁₃.trans hgrow, ?_, ?_⟩
  · show Function.update T₃.leaf _ _ = _
    rw [hleaf₁₃]
    rfl
  intro E τ hagree hlinks
  obtain ⟨hva, hpage⟩ := hok₃.page _ _ hnode₃
  have hroot : τ.pml4Gpa = σ.pml4Gpa := by
    rw [hagree.state]
  obtain ⟨hnext₁, hused₁, hag₁⟩ := hagree₁ _ τ hagree fun x hx =>
    Or.inl (hlinks x (((hx.of_grown hgrow₂).of_grown hgrow₃).of_grown hgrow))
  obtain ⟨hnext₂, hused₂, hag₂⟩ := hagree₂ _ _ hag₁ fun x hx =>
    Or.inl (hlinks x ((hx.of_grown hgrow₃).of_grown hgrow))
  obtain ⟨hnext₃, hused₃, hag₃⟩ := hagree₃ _ _ hag₂ fun x hx =>
    Or.inl (hlinks x (hx.of_grown hgrow))
  simp only [hroot, hnext₁, hused₁, hnext₂, hused₂, hnext₃, hused₃]
  refine ⟨trivial, (hag₃.storeEntry hok₃.regions hok₃.host hpage (tableIx 12 gva) _).mono ?_⟩
  rintro x (hx | hx)
  · exact Or.inl (Or.inl hx)
  · rcases hx.of_setLeaf (writeU64_memRegions _ _ _) hok₃ hnode₃ hpage with hold | hnew
    · exact Or.inl (Or.inr (hold.of_later h hok₃.regions hgrow₁₃.regions hgrow₁₃.nodes hleaf₁₃))
    · exact Or.inr hnew

/-- **The loop in both.** -/
theorem mapGvaLoop_agree {env : MapGvaEnv}
    (hgr : Granted env.answers σ₀ l) (hgrown : Grown σ₀ T₀ σ T) (h : TablesOk σ T)
    (n k used : Nat) (gva gpa : U64)
    (hsub : (mapGvaLoop env n k σ used gva gpa).memRegions.Sublist l) :
    ∃ T', TablesOk (mapGvaLoop env n k σ used gva gpa) T' ∧
      Grown σ T (mapGvaLoop env n k σ used gva gpa) T' ∧
      T'.leaf = mapLeaves T.leaf n gva gpa ∧
      ∀ (E : U64 → Prop) (τ : VmMem), AgreeOn (fun x => E x ∨ LeafByte σ T x) σ τ →
        (∀ x, LinkByte (mapGvaLoop env n k σ used gva gpa) T' x → E x) →
        AgreeOn (fun x => E x ∨ LeafByte (mapGvaLoop env n k σ used gva gpa) T' x)
          (mapGvaLoop env n k σ used gva gpa) (mapGvaLoop env n k τ used gva gpa) := by
  induction n generalizing k σ T used gva gpa with
  | zero =>
      exact ⟨T, h, Grown.refl σ T, rfl, fun E τ hagree _ => hagree⟩
  | succ n ih =>
      simp only [mapGvaLoop] at hsub ⊢
      obtain ⟨T₁, hok₁, hgrow₁, hleaf₁, hagree₁⟩ :=
        mapGvaPage_agree hgr hgrown h (env.locals k) used gva gpa
          ((sublist_mapGvaLoop env n _ _ _ _ _).trans hsub)
      obtain ⟨T₂, hok₂, hgrow₂, hleaf₂, hagree₂⟩ :=
        ih (hgrown.trans hgrow₁) hok₁ (k + 1) _ (gva + confPageSize)
          (gpa + confPageSize) hsub
      refine ⟨T₂, hok₂, hgrow₁.trans hgrow₂, ?_, ?_⟩
      · rw [hleaf₂, hleaf₁]
        rfl
      · intro E τ hagree hlinks
        obtain ⟨hused, hpage⟩ := hagree₁ E τ hagree fun x hx => hlinks x (hx.of_grown hgrow₂)
        rw [hused]
        exact hagree₂ E _ hpage hlinks

/-- **A call of `map_gva` in both.** -/
theorem mapGva_agree {gva npages gpa : U64} {env : MapGvaEnv} (h : BuildOk σ T)
    (hgr : Granted env.answers σ (mapGva σ gva npages gpa env).2.memRegions) :
    ∃ T', TablesOk (mapGva σ gva npages gpa env).2 T' ∧
      Grown σ T (mapGva σ gva npages gpa env).2 T' ∧
      T'.leaf = mapLeaves T.leaf npages.toNat (gva &&& pageMask) (gpa &&& pageMask) ∧
      ∀ (E : U64 → Prop) (τ : VmMem), AgreeOn (fun x => E x ∨ LeafByte σ T x) σ τ →
        (∀ x, LinkByte (mapGva σ gva npages gpa env).2 T' x → E x) →
        AgreeOn (fun x => E x ∨ LeafByte (mapGva σ gva npages gpa env).2 T' x)
          (mapGva σ gva npages gpa env).2 (mapGva τ gva npages gpa env).2 := by
  have hroot : ∀ {E : U64 → Prop} {τ : VmMem}, AgreeOn E σ τ →
      τ.pml4 = σ.pml4 ∧ τ.pml4Gpa = σ.pml4Gpa := by
    intro E τ hagree
    rw [hagree.state]
    exact ⟨rfl, rfl⟩
  rcases h.tables with htables | ⟨hnull, rfl⟩
  · simp only [mapGva, if_neg htables.root] at hgr ⊢
    obtain ⟨T', hok, hgrow, hleaf, hagree⟩ := mapGvaLoop_agree hgr (Grown.refl σ T) htables
      npages.toNat 0 0 (gva &&& pageMask) (gpa &&& pageMask) (List.Sublist.refl _)
    refine ⟨T', hok, hgrow, hleaf, fun E τ hτ hlinks => ?_⟩
    rw [if_neg (by rw [(hroot hτ).1]; exact htables.root)]
    exact hagree E τ hτ hlinks
  · obtain ⟨g, υ, halloc, hnew⟩ := vmMemAlloc_page σ.pml4Gpa h.regions h.low
      (hgr.valloc 0) (hgr.hvVmMap 0) (hgr.malloc 0)
    simp only [mapGva, if_pos hnull, halloc, if_neg (hgr.valloc 0)] at hgr ⊢
    have hsub := sublist_mapGvaLoop env npages.toNat 0
      { υ with pml4 := (env.answers 0).valloc, pml4Gpa := g } 1
      (gva &&& pageMask) (gpa &&& pageMask)
    obtain ⟨htree, hgrown⟩ := hnew.tablesOk hgr (hgr.valloc 0) hsub
    obtain ⟨T', hok, hgrow, hleaf, hagree⟩ := mapGvaLoop_agree hgr hgrown htree
      npages.toNat 0 1 (gva &&& pageMask) (gpa &&& pageMask) (List.Sublist.refl _)
    refine ⟨T', hok, hgrown.trans hgrow, hleaf, fun E τ hτ hlinks => ?_⟩
    obtain ⟨hhva, hgpa, hvm⟩ := hτ.alloc 1 σ.pml4Gpa (env.answers 0)
    rw [halloc] at hhva hgpa hvm
    simp only [(hroot hτ).1, (hroot hτ).2, if_pos hnull, hhva, hgpa, if_neg (hgr.valloc 0)]
    refine hagree E _ ⟨?_, ?_⟩ hlinks
    · rw [hvm.state]
    · rintro x (hx | ⟨i, p, g', v, hva, _, hv, _⟩)
      · exact hvm.bytes x (Or.inl hx)
      · cases hv

end Call

/-! ## What gva_to_gpa reads -/

/-- A mapped address translates the same, when the links on the way to its page and the
entry that maps it are the same. -/
theorem TablesOk.gvaToGpa_agree {σ τ : VmMem} {T : Tables} {E : U64 → Prop}
    (h : TablesOk σ T) (hagree : AgreeOn E σ τ)
    (hlinks : ∀ x, LinkByte σ T x → E x) (hleaves : ∀ x, LeafByte σ T x → E x)
    {a v : U64} (hv : T.leaf (tablePath a) = some v) (entry₀ entry₁ : U64) :
    gvaToGpa τ entry₁ a = gvaToGpa σ entry₀ a := by
  obtain ⟨i, p, pt, heq, hpt, _⟩ := h.held.leaf_parent _ v hv
  obtain ⟨rfl, rfl⟩ := List.cons.inj heq
  obtain ⟨pd, hpd⟩ := h.held.parent _ _ pt hpt
  obtain ⟨pdpt, hpdpt⟩ := h.held.parent _ _ pd hpd
  have hroot : τ.pml4Gpa = σ.pml4Gpa := by
    rw [hagree.state]
  -- a link that both read
  have hlink : ∀ {q : List (Fin 512)} {g f : U64} (j : Fin 512), T.node q = some g →
      T.node (j :: q) = some f → q.length < 3 → ∀ e e' : U64,
      readU64 τ (g + BitVec.ofNat 64 (8 * j.val)) e' = link f ∧
        readU64 σ (g + BitVec.ofNat 64 (8 * j.val)) e = link f := by
    intro q g f j hg hf hlen e e'
    obtain ⟨hva, hpage⟩ := h.page q g hg
    have hread : readU64 σ (g + BitVec.ofNat 64 (8 * j.val)) e = link f := by
      rw [h.readU64_node hg hlen, hf]
      rfl
    refine ⟨?_, hread⟩
    rw [← hread]
    exact hagree.readU64_eq h.regions h.host hpage j e e'
      fun x hx => hlinks x ⟨j, q, g, f, hva, hg, hf, hpage, hx⟩
  obtain ⟨hslotPt, hslotPd, hslotPdpt, hslotPml4⟩ := decodeGva_slots a
  simp only [gvaToGpa, hslotPt, hslotPd, hslotPdpt, hslotPml4, hroot]
  obtain ⟨hτ, hσ⟩ := hlink (tableIx 39 a) h.held.root_node hpdpt (by simp) entry₀ entry₁
  rw [hτ, hσ, link_and_entryMask (h.isFrame hpdpt)]
  obtain ⟨hτ, hσ⟩ := hlink (tableIx 30 a) hpdpt hpd (by simp) (link pdpt) (link pdpt)
  rw [hτ, hσ, link_and_entryMask (h.isFrame hpd)]
  obtain ⟨hτ, hσ⟩ := hlink (tableIx 21 a) hpd hpt (by simp) (link pd) (link pd)
  rw [hτ, hσ, link_and_entryMask (h.isFrame hpt)]
  obtain ⟨hva, hpage⟩ := h.page _ pt hpt
  rw [hagree.readU64_eq h.regions h.host hpage (tableIx 12 a) (link pt) (link pt)
    fun x hx => hleaves x ⟨tableIx 12 a, _, pt, v, hva, hpt, hv, hpage, hx⟩]

/-! ## Runs -/

/-- What is mapped stays mapped. -/
theorem mapLeaves_isSome (leaf : List (Fin 512) → Option U64) (n : Nat) (gva gpa : U64)
    {q : List (Fin 512)} (h : (leaf q).isSome) :
    (mapLeaves leaf n gva gpa q).isSome :=
  isSome_mapLeaves_iff.mpr (Or.inl h)

/-- The loop maps every page of its range. -/
theorem mapLeaves_covers (leaf : List (Fin 512) → Option U64) (n : Nat) (gva gpa : U64)
    {a : U64} (hlo : gva.toNat / 4096 ≤ a.toNat / 4096)
    (hhi : a.toNat / 4096 < gva.toNat / 4096 + n) :
    (mapLeaves leaf n gva gpa (tablePath a)).isSome := by
  have ha := a.isLt
  have hpage := toNat_pageOf (a := gva) (i := a.toNat / 4096 - gva.toNat / 4096) (by omega)
  refine isSome_mapLeaves_iff.mpr
    (Or.inr ⟨a.toNat / 4096 - gva.toNat / 4096, by omega, tablePath_congr ?_⟩)
  rw [hpage]
  omega

namespace MemOp

/-- The pages mapped after a call. -/
def leaves (leaf : List (Fin 512) → Option U64) : MemOp → List (Fin 512) → Option U64
  | region _ => leaf
  | mapGva gva npages gpa _ => mapLeaves leaf npages.toNat (gva &&& pageMask) (gpa &&& pageMask)

/-- The address is in a range that the call maps. -/
def Covers (a : U64) : MemOp → Prop
  | region _ => False
  | mapGva gva npages _ _ =>
      gva.toNat / 4096 ≤ a.toNat / 4096 ∧ a.toNat / 4096 < gva.toNat / 4096 + npages.toNat

/-- The host grants the tables that the call asks for. -/
def AllGranted : MemOp → Prop
  | region _ => True
  | mapGva _ _ _ env => ∀ k, (env.answers k).Grants

theorem leaves_isSome (op : MemOp) (leaf : List (Fin 512) → Option U64) {q : List (Fin 512)}
    (h : (leaf q).isSome) :
    (op.leaves leaf q).isSome := by
  cases op with
  | region op =>
      exact h
  | mapGva gva npages gpa env =>
      exact mapLeaves_isSome _ _ _ _ h

theorem Covers.leaves {op : MemOp} {a : U64} (h : op.Covers a)
    (leaf : List (Fin 512) → Option U64) :
    (op.leaves leaf (tablePath a)).isSome := by
  cases op with
  | region op =>
      exact absurd h id
  | mapGva gva npages gpa env =>
      obtain ⟨hlo, hhi⟩ := h
      have hgva := toNat_and_pageMask gva
      apply mapLeaves_covers
      · omega
      · omega

/-- An address that a call of the run covers is mapped after it. -/
theorem foldl_leaves_isSome {ops : List MemOp} {op : MemOp} (hmem : op ∈ ops) {a : U64}
    (h : op.Covers a) (leaf : List (Fin 512) → Option U64) :
    (ops.foldl MemOp.leaves leaf (tablePath a)).isSome := by
  have hkeep : ∀ (ops : List MemOp) (leaf : List (Fin 512) → Option U64),
      (leaf (tablePath a)).isSome → (ops.foldl MemOp.leaves leaf (tablePath a)).isSome := by
    intro ops
    induction ops with
    | nil =>
        exact fun leaf hleaf => hleaf
    | cons op ops ih =>
        exact fun leaf hleaf => ih _ (leaves_isSome op leaf hleaf)
  induction ops generalizing leaf with
  | nil =>
      cases hmem
  | cons op' ops ih =>
      rcases List.mem_cons.mp hmem with rfl | hmem
      · exact hkeep ops _ (h.leaves leaf)
      · exact ih hmem _

end MemOp

/-- The host bytes outside the blocks of the regions are zero. -/
def ZeroOutside (σ : VmMem) : Prop :=
  ∀ x : U64, (∀ p ∈ σ.memRegions, ¬ (p.hostLo ≤ x.toNat ∧ x.toNat < p.hostHi)) → σ.mem x = 0

/-- So a call gets its pages with zeros, as their blocks are disjoint from the others. -/
theorem ZeroOutside.supplied {σ : VmMem} {answers : Nat → HostAnswer} {l : List MemRegion}
    (h : ZeroOutside σ) (hgranted : ∀ k, (answers k).Grants)
    (hsub : σ.memRegions.Sublist l) (hhost : HostOk l) :
    Supplied answers σ l := by
  refine ⟨fun k => (hgranted k).valloc, fun k => (hgranted k).hvVmMap,
    fun k => (hgranted k).malloc, ?_⟩
  intro p hp hnew x hlo hhi
  apply h
  rintro q hq ⟨hqlo, hqhi⟩
  have hapart := hhost.apart hp (hsub.subset hq) fun hcon => hnew (hcon ▸ hq)
  unfold Apart at hapart
  omega

/-- Only tables are written, and they are regions. -/
theorem ZeroOutside.of_grown {σ σ' : VmMem} {T T' : Tables} (h : ZeroOutside σ)
    (hgrown : Grown σ T σ' T') :
    ZeroOutside σ' := by
  intro x hx
  rw [hgrown.frame x]
  · exact h x fun p hp => hx p (hgrown.regions.subset hp)
  · rintro ⟨p, g, hva, _, hpage, hlo, hhi⟩
    apply hx _ hpage
    rw [hostHi_page]
    exact ⟨hlo, hhi⟩

section Runs

variable {σ : VmMem} {T : Tables}

/-- **One call in both.** -/
theorem BuildOk.step_agree {op : MemOp} (h : BuildOk σ T) (hzero : ZeroOutside σ)
    (hgranted : op.AllGranted) (hregions : RegionsOk (op.step σ).memRegions)
    (hhost : HostOk (op.step σ).memRegions)
    (hlow : ∀ p ∈ (op.step σ).memRegions, p.hi ≤ 2 ^ 52) :
    ∃ T', BuildOk (op.step σ) T' ∧ ZeroOutside (op.step σ) ∧ T'.Extends T ∧
      T'.leaf = op.leaves T.leaf ∧
      ∀ (E : U64 → Prop) (τ : VmMem), AgreeOn (fun x => E x ∨ LeafByte σ T x) σ τ →
        (∀ x, LinkByte (op.step σ) T' x → E x) →
        AgreeOn (fun x => E x ∨ LeafByte (op.step σ) T' x) (op.step σ) (op.step τ) := by
  cases op with
  | region op =>
      obtain ⟨hmem, hpml4, hpml4Gpa⟩ := op.step_frame σ
      have hsub := op.sublist_step σ
      have hbuild : BuildOk (op.step σ) T := h.congr hregions hhost hlow hsub hpml4 hpml4Gpa
        fun x _ => congrFun hmem x
      refine ⟨T, hbuild, ?_, Tree.Extends.refl T, rfl, ?_⟩
      · intro x hx
        have hzero := hzero x fun p hp => hx p (hsub.subset hp)
        rw [← hzero]
        exact congrFun hmem x
      · intro E τ hagree _
        refine (hagree.region op).mono fun x hx => hx.imp_right fun hleaf => ?_
        rcases h.tables with htables | ⟨_, rfl⟩
        · exact hleaf.of_later htables hregions hsub (Tree.Extends.refl T) rfl
        · obtain ⟨i, p, g, v, hva, _, hv, _⟩ := hleaf
          cases hv
  | mapGva gva npages gpa env =>
      have hsupplied := hzero.supplied hgranted (sublist_mapGva σ gva npages gpa env) hhost
      obtain ⟨T', hok, hgrown, hleaf, hagree⟩ := mapGva_agree h ⟨hsupplied, hhost, hlow⟩
      exact ⟨T', hok.buildOk, hzero.of_grown hgrown, hgrown.nodes, hleaf, hagree⟩

/-- **A run in both.** -/
theorem BuildOk.run_agree {ops : List MemOp} (h : BuildOk σ T) (hinv : RegionInv σ)
    (hzero : ZeroOutside σ) (hgranted : ∀ op ∈ ops, op.AllGranted)
    (hhost : HostOk (MemOp.run σ ops).memRegions)
    (hlow : ∀ p ∈ (MemOp.run σ ops).memRegions, p.hi ≤ 2 ^ 52) :
    ∃ T', BuildOk (MemOp.run σ ops) T' ∧ T'.Extends T ∧
      T'.leaf = ops.foldl MemOp.leaves T.leaf ∧
      ∀ (E : U64 → Prop) (τ : VmMem), AgreeOn (fun x => E x ∨ LeafByte σ T x) σ τ →
        (∀ x, LinkByte (MemOp.run σ ops) T' x → E x) →
        AgreeOn (fun x => E x ∨ LeafByte (MemOp.run σ ops) T' x)
          (MemOp.run σ ops) (MemOp.run τ ops) := by
  induction ops generalizing σ T with
  | nil =>
      exact ⟨T, h, Tree.Extends.refl T, rfl, fun E τ hagree _ => hagree⟩
  | cons op ops ih =>
      have hsub := MemOp.sublist_run (op.step σ) ops
      obtain ⟨hinv', hhost', hlow'⟩ := MemOp.step_placed hinv hhost hlow
      obtain ⟨T₁, hbuild, hzero', hnodes₁, hleaf₁, hagree₁⟩ := h.step_agree hzero
        (hgranted op (by simp)) hinv'.ok hhost' hlow'
      obtain ⟨T₂, hbuild₂, hnodes₂, hleaf₂, hagree₂⟩ := ih hbuild hinv' hzero'
        (fun op' hop' => hgranted op' (List.mem_cons_of_mem op hop')) hhost hlow
      refine ⟨T₂, hbuild₂, hnodes₂.trans hnodes₁, ?_, fun E τ hagree hlinks => ?_⟩
      · rw [hleaf₂, hleaf₁]
        rfl
      · exact hagree₂ E _ (hagree₁ E τ hagree fun x hx => hlinks x (hx.mono hsub hnodes₂)) hlinks

end Runs

/-! ## Runs of vm_mem_init -/

/-- The calls of a run: `vm_mem_init`, then `ops`, with the answers of the host. -/
structure InitRun where
  numPages : BitVec 32
  gpa₀ : U64
  answer : HostAnswer
  env : MapGvaEnv
  ops : List MemOp

namespace InitRun

/-- What `vm_mem_init` returns over the host bytes `mem`. -/
def init (r : InitRun) (mem : U64 → Byte) : Int × VmMem :=
  vmMemInit (VmMem.init mem) r.numPages r.gpa₀ r.answer r.env

/-- The state after the run over the host bytes `mem`. -/
def state (r : InitRun) (mem : U64 → Byte) : VmMem :=
  MemOp.run (r.init mem).2 r.ops

/-- The state after the run over zeros. -/
def zeroed (r : InitRun) : VmMem :=
  r.state fun _ => 0

/-- A call of `map_gva` covers the address: that of `vm_mem_init` or a later one. -/
def Covers (r : InitRun) (a : U64) : Prop :=
  a.toNat / 4096 < r.numPages.toNat ∨ ∃ op ∈ r.ops, op.Covers a

/-- All allocations of the run succeed, over disjoint blocks. -/
structure Granted (r : InitRun) : Prop where
  init : (r.init fun _ => 0).1 = 0
  tables : ∀ k, (r.env.answers k).Grants
  ops : ∀ op ∈ r.ops, op.AllGranted
  host : HostOk r.zeroed.memRegions
  low : ∀ p ∈ r.zeroed.memRegions, p.hi ≤ 2 ^ 52

/-- Every entry of a PML4, PDPT or PD that the run over zeros makes use of is zero in
`mem`. -/
def Clean (r : InitRun) (mem : U64 → Byte) : Prop :=
  ∀ k g hva i, TablePage r.zeroed (k + 1) g → IsPage r.zeroed.memRegions g hva →
    isPresent (r.zeroed.entry g i) = true → pageEntry mem hva i = 0

/-- The calls of the run, `vm_mem_init` unfolded. -/
def calls (r : InitRun) : List MemOp :=
  .region (.vmMemAlloc (r.numPages.setWidth 64) r.answer) ::
    .mapGva 0 (r.numPages.setWidth 64) 0 r.env :: r.ops

theorem state_eq_run {r : InitRun} {mem : U64 → Byte} (h : (r.init mem).1 = 0) :
    r.state mem = MemOp.run (VmMem.init mem) r.calls := by
  rw [state, init, (vmMemInit_eq_run h).1]
  rfl

/-- Whether `vm_mem_init` succeeds does not depend on the bytes. -/
theorem init_code (r : InitRun) (mem mem' : U64 → Byte) :
    (r.init mem).1 = (r.init mem').1 := by
  have hagree : AgreeOn (fun _ => False) (VmMem.init mem') (VmMem.init mem) :=
    ⟨rfl, fun _ hx => hx.elim⟩
  obtain ⟨hhva, hgpa, hvm⟩ := hagree.alloc (r.numPages.setWidth 64) r.gpa₀ r.answer
  simp only [init, vmMemInit, hhva, hgpa, hvm.mapGva_fst]
  split_ifs <;> rfl

/-- Bytes of the links of the run over zeros are zero in clean memory. -/
theorem Clean.linkByte {r : InitRun} {mem : U64 → Byte} (h : r.Clean mem) {T : Tables}
    (hbuild : BuildOk r.zeroed T) {x : U64} (hx : LinkByte r.zeroed T x) :
    mem x = 0 := by
  obtain ⟨i, p, g, f, hva, hg, hf, hpage, hx⟩ := hx
  rcases hbuild.tables with htables | ⟨_, rfl⟩
  · have hlen : p.length < 3 := by
      have := htables.held.short (i :: p) f hf
      simpa using this
    have htable := htables.tablePage p g hg
    obtain ⟨k, hk⟩ : ∃ k, 3 - p.length = k + 1 := ⟨2 - p.length, by omega⟩
    rw [hk] at htable
    have hentry : r.zeroed.entry g i = link f := by
      rw [htables.held.inner p g hg hlen i, hf]
      rfl
    refine byte_of_pageEntry_zero (h k g hva i htable hpage ?_) hx
    rw [hentry]
    exact isPresent_link f
  · cases hg

/-- Pages of zeros are clean. -/
theorem Granted.clean {r : InitRun} (h : r.Granted) {mem : U64 → Byte} (hzero : ∀ g hva, IsPage r.zeroed.memRegions g hva →
      ∀ x : U64, hva.toNat ≤ x.toNat → x.toNat < hva.toNat + 4096 → mem x = 0) :
    r.Clean mem := by
  intro k g hva i _ hpage _
  exact pageEntry_of_zero i (hpage.wrap h.host) (hzero g hva hpage)

/-- In the run over zeros every covered address is mapped, and a run over clean bytes agrees
with it on what `gva_to_gpa` reads. -/
theorem Granted.agree {r : InitRun} (h : r.Granted) :
    ∃ T, BuildOk r.zeroed T ∧ (∀ a, r.Covers a → (T.leaf (tablePath a)).isSome) ∧
      ∀ mem, r.Clean mem →
        AgreeOn (fun x => LinkByte r.zeroed T x ∨ LeafByte r.zeroed T x) r.zeroed
          (r.state mem) := by
  have hrun : r.zeroed = MemOp.run (VmMem.init fun _ => 0) r.calls := state_eq_run h.init
  have hgranted : ∀ op ∈ r.calls, op.AllGranted := by
    intro op hop
    rcases List.mem_cons.mp hop with rfl | hop
    · trivial
    · rcases List.mem_cons.mp hop with rfl | hop
      · exact h.tables
      · exact h.ops op hop
  have hhost := h.host
  have hlow := h.low
  rw [hrun] at hhost hlow
  obtain ⟨T, hbuild, _, hleaf, hagree⟩ := (refinesPages_init fun _ => 0).build.run_agree
    (regionInv_init fun _ => 0) (fun _ _ => rfl) hgranted hhost hlow
  rw [← hrun] at hbuild hagree
  have hcovers : ∀ a, r.Covers a → (T.leaf (tablePath a)).isSome := by
    intro a ha
    rw [hleaf]
    rcases ha with ha | ⟨op, hop, ha⟩
    · have hcall : .mapGva 0 (r.numPages.setWidth 64) 0 r.env ∈ r.calls := by
        simp [calls]
      refine MemOp.foldl_leaves_isSome hcall ?_ _
      have hzero : (0 : U64).toNat = 0 := rfl
      have hn : (r.numPages.setWidth 64 : U64).toNat = r.numPages.toNat :=
        BitVec.toNat_setWidth_of_le (by decide)
      simp only [MemOp.Covers, hzero, hn]
      omega
    · exact MemOp.foldl_leaves_isSome (by simp [calls, hop]) ha _
  refine ⟨T, hbuild, hcovers, fun mem hclean => ?_⟩
  have hstart : AgreeOn (fun x => LinkByte r.zeroed T x ∨
      LeafByte (VmMem.init fun _ => 0) noTables x) (VmMem.init fun _ => 0)
      (VmMem.init mem) := by
    refine ⟨rfl, ?_⟩
    rintro x (hx | ⟨i, p, g, v, hva, hg, _⟩)
    · exact hclean.linkByte hbuild hx
    · cases hg
  rw [state_eq_run ((r.init_code mem _).trans h.init)]
  exact hagree _ _ hstart fun x hx => hx

end InitRun

/-- **Translation over any memory.**  When all allocations succeed, an address that a call
of `map_gva` covers is translated in the same way over any two host memories that hold
zeros where the tables link each other. -/
theorem gvaToGpa_independent (r : InitRun) (h : r.Granted) (mem₁ mem₂ : U64 → Byte)
    (h₁ : r.Clean mem₁) (h₂ : r.Clean mem₂) (a : U64) (ha : r.Covers a)
    (entry₁ entry₂ : U64) :
    gvaToGpa (r.state mem₁) entry₁ a = gvaToGpa (r.state mem₂) entry₂ a := by
  obtain ⟨T, hbuild, hcovers, hagree⟩ := h.agree
  obtain ⟨v, hv⟩ := Option.isSome_iff_exists.mp (hcovers a ha)
  rcases hbuild.tables with htables | ⟨_, rfl⟩
  · have hsame : ∀ mem, r.Clean mem → ∀ entry₀,
        gvaToGpa (r.state mem) entry₀ a = gvaToGpa r.zeroed 0 a := by
      intro mem hclean entry₀
      exact htables.gvaToGpa_agree (hagree mem hclean) (fun _ hx => Or.inl hx)
        (fun _ hx => Or.inr hx) hv 0 entry₀
    rw [hsame mem₁ h₁, hsame mem₂ h₂]
  · cases hv

/-- A page at zero, and two pages of data of which the first is mapped at `0x400000`. -/
def dataRun : InitRun where
  numPages := 1
  gpa₀ := 0
  answer := ⟨0x60000000, true, true⟩
  env := .pagesFrom 0x70000000
  ops := [.region (.mapGpa 0x100000 2 0x50000000 ⟨0, true, true⟩),
    .mapGva 0x400000 1 0x100000 (.pagesFrom 0x70010000)]

theorem memRegions_dataRun :
    dataRun.zeroed.memRegions =
      [⟨0, 1, 0x60000000⟩, ⟨0x1000, 1, 0x70000000⟩, ⟨0x2000, 1, 0x70001000⟩,
        ⟨0x3000, 1, 0x70002000⟩, ⟨0x4000, 1, 0x70003000⟩, ⟨0x5000, 1, 0x70010000⟩,
        ⟨0x100000, 2, 0x50000000⟩] := by
  decide +kernel

theorem granted_pagesFrom {base : U64} (hpos : base ≠ 0)
    (h : base.toNat + 512 * 4096 ≤ 2 ^ 64) (k : Nat) :
    ((MapGvaEnv.pagesFrom base).answers k).Grants :=
  ⟨(freshPages_pagesFrom (l := []) (n := 0) hpos h (by decide) (by simp)).valloc k, rfl, rfl⟩

theorem granted_dataRun : dataRun.Granted := by
  refine ⟨by decide +kernel, granted_pagesFrom (by decide) (by decide), ?_, ?_, ?_⟩
  · intro op hop
    simp only [dataRun, List.mem_cons, List.not_mem_nil, or_false] at hop
    rcases hop with rfl | rfl
    · trivial
    · exact granted_pagesFrom (by decide) (by decide)
  · rw [memRegions_dataRun]
    constructor
    · decide
    · unfold Apart
      decide
  · rw [memRegions_dataRun]
    decide

theorem covers_dataRun : dataRun.Covers 0x400123 := by
  refine Or.inr ⟨.mapGva 0x400000 1 0x100000 (.pagesFrom 0x70010000), ?_, ?_⟩
  · simp [dataRun]
  · exact ⟨by decide, by decide⟩

/-- The blocks of data may hold anything. -/
theorem gvaToGpa_independent_dataRun :
    gvaToGpa (dataRun.state fun x => if x.toNat < 0x60000000 then 0xAA else 0) 7 0x400123 =
      gvaToGpa (dataRun.state fun _ => 0) 9 0x400123 := by
  refine gvaToGpa_independent dataRun granted_dataRun _ _ ?_ ?_ _ covers_dataRun 7 9
  · apply granted_dataRun.clean
    intro g hva hpage x hlo _
    have hblock : 0x60000000 ≤ hva.toNat := by
      unfold IsPage at hpage
      rw [memRegions_dataRun] at hpage
      simp only [List.mem_cons, List.not_mem_nil, or_false, MemRegion.mk.injEq] at hpage
      rcases hpage with ⟨_, _, rfl⟩ | ⟨_, _, rfl⟩ | ⟨_, _, rfl⟩ | ⟨_, _, rfl⟩ | ⟨_, _, rfl⟩ |
        ⟨_, _, rfl⟩ | ⟨_, h, _⟩
      all_goals first | decide | exact absurd h (by decide)
    exact if_neg (by omega)
  · exact granted_dataRun.clean fun _ _ _ _ _ _ => rfl

/-- The block of the PML4 as the host returned it: its first entry reads `0x9000`. -/
def staleRoot : U64 → Byte :=
  fun x => if x = 0x70000001 then 0x90 else 0

/-- The entry left in the PML4 is taken for a link, and the mapped page is somewhere else. -/
theorem gvaToGpa_stale :
    dataRun.Granted ∧ dataRun.Covers 0x400123 ∧
      gvaToGpa (dataRun.state fun _ => 0) 0 0x400123 = 0x100123 ∧
      gvaToGpa (dataRun.state staleRoot) 0 0x400123 = 0x9123 := by
  refine ⟨granted_dataRun, covers_dataRun, ?_, ?_⟩
  · decide +kernel
  · decide +kernel

end Hvexec
