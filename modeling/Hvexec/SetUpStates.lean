import Hvexec.Loader

/-!
# The states after set-up

`Built` collects the states that the calls of a set-up lead to, in any order and
number, with anything written to memory in between except into the page tables.
The tables are named as the processor finds them: the page of CR3, and every page
that a present entry of a table of a higher level names (`TablePage`).

In every such state the memory holds a tree of tables.
-/

namespace Hvexec

open IntervalList RadixTable

/-- The page at `g` is a table; a PT has level 0, the PML4 has level 3. -/
inductive TablePage (σ : VmMem) : Nat → U64 → Prop
  | root
      (hroot : σ.pml4 ≠ 0) :
      TablePage σ 3 σ.pml4Gpa
  | next
      {k : Nat} {g : U64} (i : Fin 512)
      (htable : TablePage σ (k + 1) g)
      (hpresent : isPresent (σ.entry g i) = true) :
      TablePage σ k (entryFrame (σ.entry g i))

/-- The regions lie where an entry can name them, over disjoint blocks. -/
structure Placed (l : List MemRegion) : Prop where
  host : HostOk l
  low : ∀ p ∈ l, p.hi ≤ 2 ^ 52

/-- The states of a set-up.  All calls succeed, and the host grants the
allocations inside from pages of zeros. -/
inductive Built : VmMem → Prop
  | start
      (mem : U64 → Byte) :
      Built (VmMem.init mem)
  | vmMemInit
      {σ : VmMem} (h : Built σ)
      (n : BitVec 32) (gpa₀ : U64) (a : HostAnswer) (env : MapGvaEnv)
      (hcode : (vmMemInit σ n gpa₀ a env).1 = 0)
      (hsupplied : Supplied env.answers (vmMemAlloc σ (n.setWidth 64) gpa₀ a).vm
        (vmMemInit σ n gpa₀ a env).2.memRegions)
      (hplaced : Placed (vmMemInit σ n gpa₀ a env).2.memRegions) :
      Built (vmMemInit σ n gpa₀ a env).2
  | mapGpa
      {σ : VmMem} (h : Built σ)
      (gpa npages hva : U64) (a : HostAnswer)
      (hcode : (mapGpa σ gpa npages hva a).1 = 0)
      (hplaced : Placed (mapGpa σ gpa npages hva a).2.memRegions) :
      Built (mapGpa σ gpa npages hva a).2
  | mapGva
      {σ : VmMem} (h : Built σ)
      (gva npages gpa : U64) (env : MapGvaEnv)
      (hsupplied : Supplied env.answers σ (mapGva σ gva npages gpa env).2.memRegions)
      (hplaced : Placed (mapGva σ gva npages gpa env).2.memRegions) :
      Built (mapGva σ gva npages gpa env).2
  | loadMachObj
      {σ : VmMem} (h : Built σ)
      (path : Option String) (entryoff₀ : U64) (e : LoadMachObjEnv)
      (hcode : (loadMachObj σ path entryoff₀ e).code = 0)
      (hsupplied : Supplied e.mapGva.answers
        (mapGpa σ imageAddr (numPages e.stSize) e.mmap e.mapGpa).2
        (loadMachObj σ path entryoff₀ e).vm.memRegions)
      (hplaced : Placed (loadMachObj σ path entryoff₀ e).vm.memRegions) :
      Built (loadMachObj σ path entryoff₀ e).vm
  | write
      {σ : VmMem} (h : Built σ) (mem : U64 → Byte)
      (htables : ∀ k g hva, TablePage σ k g → IsPage σ.memRegions g hva →
        ∀ x : U64, hva.toNat ≤ x.toNat → x.toNat < hva.toNat + 4096 →
          mem x = σ.mem x) :
      Built { σ with mem := mem }

/-- The tables of the tree are tables for the processor. -/
theorem TablesOk.tablePage {σ : VmMem} {T : Tables} (h : TablesOk σ T) :
    ∀ p g, T.node p = some g → TablePage σ (3 - p.length) g
  | [], g, hp => by
      have hroot : σ.pml4Gpa = g :=
        Option.some.inj (h.held.root_node.symm.trans hp)
      rw [← hroot]
      exact .root h.root
  | i :: p, g, hp => by
      obtain ⟨f, hf⟩ := h.held.parent i p g hp
      have hlen : p.length < 3 := by
        have := h.held.short (i :: p) g hp
        simpa using this
      have hentry : σ.entry f i = link g := by
        rw [h.held.inner p f hf hlen i, hp]
        rfl
      have hparent : TablePage σ (3 - (i :: p).length + 1) f := by
        have hlevel : 3 - (i :: p).length + 1 = 3 - p.length := by
          rw [List.length_cons]
          omega
        rw [hlevel]
        exact h.tablePage p f hf
      have hnext := TablePage.next i hparent (by rw [hentry]; exact isPresent_link g)
      rwa [hentry, h.entryFrame_link _ g hp] at hnext

/-- Registering a region keeps the tables. -/
theorem BuildOk.regionOp {σ : VmMem} {T : Tables} (h : BuildOk σ T) (op : RegionOp)
    (hplaced : Placed (op.step σ).memRegions) :
    BuildOk (op.step σ) T := by
  obtain ⟨hmem, hpml4, hpml4Gpa⟩ := op.step_frame σ
  have hok := RegionOp.regionsOk_step h.regions
    fun p hp => lt_of_le_of_lt (hplaced.low p hp) (by decide)
  exact h.congr hok hplaced.host hplaced.low (op.sublist_step σ) hpml4 hpml4Gpa
    fun x _ => congrFun hmem x

theorem Placed.sublist {l l' : List MemRegion} (h : Placed l') (hsub : l.Sublist l') :
    Placed l :=
  ⟨h.host.sublist hsub, fun p hp => h.low p (hsub.subset hp)⟩

/-- A region is registered and then mapped. -/
theorem BuildOk.regionOp_mapGva {σ : VmMem} {T : Tables} (h : BuildOk σ T)
    (op : RegionOp) (gva npages gpa : U64) (env : MapGvaEnv)
    (hsupplied : Supplied env.answers (op.step σ)
      (mapGva (op.step σ) gva npages gpa env).2.memRegions)
    (hplaced : Placed (mapGva (op.step σ) gva npages gpa env).2.memRegions) :
    ∃ T', TablesOk (mapGva (op.step σ) gva npages gpa env).2 T' := by
  have hop := h.regionOp op (hplaced.sublist (sublist_mapGva _ _ _ _ _))
  obtain ⟨_, T', hok, _⟩ := mapGva_spec hop ⟨hsupplied, hplaced.host, hplaced.low⟩
  exact ⟨T', hok⟩

/-- What is written outside the tables does not concern them. -/
theorem BuildOk.write {σ : VmMem} {T : Tables} (h : BuildOk σ T) {mem : U64 → Byte}
    (htables : ∀ k g hva, TablePage σ k g → IsPage σ.memRegions g hva →
      ∀ x : U64, hva.toNat ≤ x.toNat → x.toNat < hva.toNat + 4096 → mem x = σ.mem x) :
    BuildOk { σ with mem := mem } T := by
  rcases h.tables with htree | ⟨hnull, hnone⟩
  · refine h.congr h.regions h.host h.low (List.Sublist.refl _) rfl rfl ?_
    rintro x ⟨p, g, hva, hp, hpage, hlo, hhi⟩
    exact htables _ g hva (htree.tablePage p g hp) hpage x hlo hhi
  · exact ⟨h.regions, h.host, h.low, Or.inr ⟨hnull, hnone⟩, h.unrooted⟩

/-- **In every state of a set-up** the memory holds a tree of tables. -/
theorem Built.buildOk {σ : VmMem} (h : Built σ) :
    ∃ T, BuildOk σ T := by
  induction h with
  | start mem =>
      exact ⟨noTables, (refinesPages_init mem).build⟩
  | vmMemInit h n gpa₀ a env hcode hsupplied hplaced ih =>
      obtain ⟨T, hT⟩ := ih
      rw [(vmMemInit_eq_run hcode).1] at hsupplied hplaced ⊢
      rw [vmMemAlloc_vm] at hsupplied
      obtain ⟨T', hok⟩ := hT.regionOp_mapGva (.vmMemAlloc (n.setWidth 64) a) 0
        (n.setWidth 64) 0 env hsupplied hplaced
      exact ⟨T', hok.buildOk⟩
  | mapGpa h gpa npages hva a hcode hplaced ih =>
      obtain ⟨T, hT⟩ := ih
      exact ⟨T, hT.regionOp (.mapGpa gpa npages hva a) hplaced⟩
  | mapGva h gva npages gpa env hsupplied hplaced ih =>
      obtain ⟨T, hT⟩ := ih
      obtain ⟨_, T', hok, _⟩ :=
        mapGva_spec hT ⟨hsupplied, hplaced.host, hplaced.low⟩
      exact ⟨T', hok.buildOk⟩
  | loadMachObj h path entryoff₀ e hcode hsupplied hplaced ih =>
      obtain ⟨T, hT⟩ := ih
      rw [(loadMachObj_eq_run hcode).1] at hsupplied hplaced ⊢
      obtain ⟨T', hok⟩ := hT.regionOp_mapGva
        (.mapGpa imageAddr (numPages e.stSize) e.mmap e.mapGpa) imageAddr
        (numPages e.stSize) imageAddr e.mapGva hsupplied hplaced
      exact ⟨T', hok.buildOk⟩
  | write h mem htables ih =>
      obtain ⟨T, hT⟩ := ih
      exact ⟨T, hT.write htables⟩

/-- Once there is a root, there is a tree. -/
theorem Built.tablesOk {σ : VmMem} (h : Built σ) (hroot : σ.pml4 ≠ 0) :
    ∃ T, TablesOk σ T := by
  obtain ⟨T, hT⟩ := h.buildOk
  exact ⟨T, hT.tables.resolve_right fun hnull => hroot hnull.1⟩

namespace SetUp

variable {s : SetUp}

theorem Ok.built (h : s.Ok) : Built s.afterLoad.vm := by
  have hsub : s.afterInit.2.memRegions.Sublist s.afterLoad.vm.memRegions :=
    s.sublist_mapGpa.trans h.sublist_load
  have hplaced : Placed s.afterLoad.vm.memRegions :=
    ⟨h.host, fun p hp => (h.low p hp).trans (by decide)⟩
  have hinit : Built s.afterInit.2 :=
    .vmMemInit (.start s.mem) _ _ _ _ h.init h.suppliedInit (hplaced.sublist hsub)
  exact .loadMachObj hinit _ _ _ h.load h.suppliedLoad hplaced

/-- The initial region is there to the end. -/
theorem Ok.mem_afterLoad (h : s.Ok) :
    (⟨0, s.numPages.setWidth 64, s.answer.valloc⟩ : MemRegion) ∈
      s.afterLoad.vm.memRegions :=
  (h.sublist_init.trans (s.sublist_mapGpa.trans h.sublist_load)).subset h.mem_afterAlloc

/-- No table lies in the initial region, when this has more than one page. -/
theorem Ok.not_ownByte (h : s.Ok) (hn : s.numPages.setWidth 64 ≠ (1 : U64))
    {g hva x : U64} (hpage : IsPage s.afterLoad.vm.memRegions g hva)
    (hx : hva.toNat ≤ x.toNat ∧ x.toNat < hva.toNat + 4096) :
    ¬ s.OwnByte x :=
  hpage.not_mem_block h.host h.mem_afterLoad hn hx

/-- The state after the set-up, with another memory. -/
def withMem (s : SetUp) (mem : U64 → Byte) : VmMem :=
  { s.afterLoad.vm with mem := mem }

/-- Bytes stored in the initial region change no other byte. -/
theorem overwrite_outside (s : SetUp) (mem : U64 → Byte) {a x : U64} {bs : List Byte}
    (hlo : s.answer.valloc.toNat ≤ a.toNat)
    (hhi : a.toNat + bs.length ≤
      s.answer.valloc.toNat + (s.numPages.setWidth 64).toNat * 4096)
    (hwrap : a.toNat + bs.length ≤ 2 ^ 64) (hx : ¬ s.OwnByte x) :
    ByteMemory.overwrite mem a bs x = mem x := by
  refine ByteMemory.overwrite_of_le ?_
  have hapart : x.toNat < a.toNat ∨ a.toNat + bs.length ≤ x.toNat := by
    unfold OwnByte at hx
    omega
  have ha := a.isLt
  have hx := x.isLt
  rw [BitVec.toNat_sub]
  omega

/-- Whatever the guest writes there, the tables stand. -/
theorem Ok.write (h : s.Ok) (hn : s.numPages.setWidth 64 ≠ (1 : U64))
    {mem : U64 → Byte} (hmem : ∀ x, ¬ s.OwnByte x → mem x = s.afterLoad.vm.mem x) :
    Built (s.withMem mem) ∧ ∃ T, RefinesPages (s.withMem mem) T (pageMap s.ops) := by
  constructor
  · exact .write h.built mem fun _ _ _ _ hpage x hlo hhi =>
      hmem x (h.not_ownByte hn hpage ⟨hlo, hhi⟩)
  · obtain ⟨T, hT⟩ := h.runOk.refinesPages
    rw [← h.eq_run] at hT
    refine ⟨T, ?_, hT.leaf, hT.bound⟩
    refine hT.build.congr hT.build.regions hT.build.host hT.build.low
      (List.Sublist.refl _) rfl rfl ?_
    rintro x ⟨p, g, hva, _, hpage, hx⟩
    exact hmem x (h.not_ownByte hn hpage hx)

end SetUp

end Hvexec
