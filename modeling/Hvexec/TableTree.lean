import Hvexec.MapTwice

/-!
# The tree of the tables

The pages that `map_gva` registers are the tables of a tree: a PML4, a PDPT for each value
that bits 39 to 47 take among the mapped addresses, a PD for each value of bits 30 to 47, a
PT for each value of bits 21 to 47.  None is shared, none is lost, and no entry leads to
anything else.

`tableAt` finds the tables in memory, as `map_gva` does.  In every state of a run they are
the tables of the tree that the memory holds.
-/

namespace Hvexec

open RadixTable

/-! ## The tables that memory holds, and those that the calls need -/

/-- The table at a path from the PML4 on, the latest index first. -/
def VmMem.tableAt (σ : VmMem) : List (Fin 512) → Option U64
  | [] => if σ.pml4 = 0 then none else some σ.pml4Gpa
  | i :: p =>
      (σ.tableAt p).bind fun f =>
        if σ.entry f i = 0 then none else some (σ.entry f i &&& pageMask)

/-- The address lies in one of the pages that the call maps. -/
def MemOp.Maps (a : U64) : MemOp → Prop
  | region _ => False
  | mapGva gva npages _ _ =>
      ∃ i < npages.toNat, a &&& pageMask = pageOf (gva &&& pageMask) i

/-- The address was mapped by one of the calls. -/
def Mapped (ops : List MemOp) (a : U64) : Prop :=
  ∃ op ∈ ops, op.Maps a

/-- The tables that the mapped addresses need, by path. -/
inductive Needed (ops : List MemOp) : List (Fin 512) → Prop
  | pml4
      {gva npages gpa : U64} {env : MapGvaEnv}
      (h : .mapGva gva npages gpa env ∈ ops) :
      Needed ops []
  | pdpt
      {a : U64} (h : Mapped ops a) :
      Needed ops [tableIx 39 a]
  | pd
      {a : U64} (h : Mapped ops a) :
      Needed ops [tableIx 30 a, tableIx 39 a]
  | pt
      {a : U64} (h : Mapped ops a) :
      Needed ops [tableIx 21 a, tableIx 30 a, tableIx 39 a]

/-- The regions `pages` are the tables that the calls need, linked as a tree. -/
structure TableTree (σ : VmMem) (ops : List MemOp) (pages : List MemRegion) : Prop where
  exact : ∀ p, p.length ≤ 3 → ((σ.tableAt p).isSome ↔ Needed ops p)
  distinct : ∀ p q g, p.length ≤ 3 → q.length ≤ 3 →
    σ.tableAt p = some g → σ.tableAt q = some g → p = q
  region : ∀ p g, p.length ≤ 3 → σ.tableAt p = some g → ∃ hva, ⟨g, 1, hva⟩ ∈ pages
  only : ∀ r, r ∈ pages ↔
    r ∈ σ.memRegions ∧ ∃ p g hva, p.length ≤ 3 ∧ σ.tableAt p = some g ∧ r = ⟨g, 1, hva⟩
  nodup : pages.Nodup
  referenced : ∀ i p g, p.length ≤ 2 → σ.tableAt (i :: p) = some g →
    ∀ q f j, q.length ≤ 2 → σ.tableAt q = some f →
      (isPresent (σ.entry f j) = true ∧ entryFrame (σ.entry f j) = g ↔ q = p ∧ j = i)
  zero : ∀ p f i, p.length ≤ 3 → σ.tableAt p = some f →
    (∀ a, Mapped ops a → ¬ (i :: p) <:+ tablePath a) → σ.entry f i = 0

theorem mapped_append {ops : List MemOp} {op : MemOp} {a : U64} :
    Mapped (ops ++ [op]) a ↔ Mapped ops a ∨ op.Maps a := by
  simp [Mapped, or_and_right, exists_or]

theorem Needed.of_mapped {ops : List MemOp} {a : U64} (h : Mapped ops a)
    {p : List (Fin 512)} (hp : p <:+ tablePath a) (hne : p ≠ []) (hlen : p.length ≤ 3) :
    Needed ops p := by
  simp only [tablePath, List.suffix_cons_iff, List.suffix_nil] at hp
  rcases hp with rfl | rfl | rfl | rfl | rfl
  · simp at hlen
  · exact .pt h
  · exact .pd h
  · exact .pdpt h
  · exact absurd rfl hne

/-! ## The tree in memory -/

section Tree

variable {σ : VmMem} {T : Tables}

/-- What `map_gva` finds in memory is the tree. -/
theorem TablesOk.tableAt (h : TablesOk σ T) :
    ∀ p, p.length ≤ 3 → σ.tableAt p = T.node p
  | [], _ => by
      rw [VmMem.tableAt, if_neg h.root, h.held.root_node]
  | i :: p, hlen => by
      have hlen' : p.length < 3 := hlen
      rw [VmMem.tableAt, h.tableAt p (Nat.le_of_lt hlen')]
      cases hp : T.node p with
      | none =>
          cases hnode : T.node (i :: p) with
          | none =>
              rfl
          | some g =>
              obtain ⟨f, hf⟩ := h.held.parent i p g hnode
              rw [hp] at hf
              exact absurd hf (by simp)
      | some f =>
          rw [Option.bind_some, h.held.inner p f hp hlen' i]
          cases hnode : T.node (i :: p) with
          | none =>
              exact if_pos rfl
          | some g =>
              have hmask := link_and_pageMask (h.isFrame hnode).aligned
              simp only [Option.elim_some, if_neg (link_ne_zero g), hmask]

theorem BuildOk.tableAt (h : BuildOk σ T) :
    ∀ p, p.length ≤ 3 → σ.tableAt p = T.node p := by
  rcases h.tables with htree | ⟨hnull, rfl⟩
  · exact htree.tableAt
  · intro p _
    induction p with
    | nil =>
        exact if_pos hnull
    | cons i p ih =>
        rw [VmMem.tableAt, ih (Nat.le_of_succ_le ‹_›)]
        rfl

theorem BuildOk.of_node (h : BuildOk σ T) {p : List (Fin 512)} {g : U64}
    (hp : T.node p = some g) :
    TablesOk σ T := by
  refine h.tables.resolve_right fun hnone => ?_
  rw [hnone.2] at hp
  simp [noTables] at hp

end Tree

/-! ## What a run keeps -/

theorem pageOf_and_pageMask {a : U64} (ha : a.toNat % 4096 = 0) (i : Nat) :
    pageOf a i &&& pageMask = pageOf a i := by
  have hpage : confPageSize.toNat = 4096 := rfl
  apply BitVec.eq_of_toNat_eq
  rw [toNat_and_pageMask, pageOf, BitVec.toNat_add, BitVec.toNat_mul, hpage]
  omega

/-- The paths that a call sets are those of the addresses that it maps. -/
theorem exists_maps_iff (gva npages gpa : U64) (env : MapGvaEnv) {q : List (Fin 512)} :
    (∃ a, (MemOp.mapGva gva npages gpa env).Maps a ∧ q = tablePath a) ↔
      ∃ i < npages.toNat, q = tablePath (pageOf (gva &&& pageMask) i) := by
  constructor
  · rintro ⟨a, ⟨i, hi, ha⟩, rfl⟩
    refine ⟨i, hi, ?_⟩
    rw [← ha]
    apply tablePath_congr
    rw [toNat_and_pageMask]
    omega
  · rintro ⟨i, hi, rfl⟩
    exact ⟨_, ⟨i, hi, pageOf_and_pageMask (toNat_and_pageMask_aligned gva) i⟩, rfl⟩

theorem RegionsOk.nodup {l : List MemRegion} (h : RegionsOk l) : l.Nodup := by
  refine h.laid.sorted.imp_of_mem ?_
  rintro p q hp _ hpq rfl
  have hproper := h.laid.proper p hp
  omega

/-- Beside the tree: no table is without a mapped address, and the regions `pages` are
those of the tables. -/
structure TreeInv (ops : List MemOp) (pages : List MemRegion) (σ : VmMem) (T : Tables) :
    Prop where
  build : BuildOk σ T
  pruned : T.Pruned
  root : (T.node []).isSome ↔ ∃ gva npages gpa env, .mapGva gva npages gpa env ∈ ops
  leaf : ∀ q, (T.leaf q).isSome ↔ ∃ a, Mapped ops a ∧ q = tablePath a
  only : ∀ r, r ∈ pages ↔ r ∈ σ.memRegions ∧ ∃ p g hva, T.node p = some g ∧ r = ⟨g, 1, hva⟩
  nodup : pages.Nodup

section Steps

variable {ops : List MemOp} {pages : List MemRegion} {σ : VmMem} {T : Tables}

/-- Regions may be added and bytes outside the tables written. -/
theorem TreeInv.congr (h : TreeInv ops pages σ T) {ops' : List MemOp} {τ : VmMem}
    (hbuild : BuildOk τ T) (hsub : σ.memRegions.Sublist τ.memRegions)
    (hops : ∀ gva npages gpa env, .mapGva gva npages gpa env ∈ ops' ↔
      .mapGva gva npages gpa env ∈ ops)
    (hmapped : ∀ a, Mapped ops' a ↔ Mapped ops a) :
    TreeInv ops' pages τ T := by
  refine ⟨hbuild, h.pruned, ?_, ?_, ?_, h.nodup⟩
  · simp only [hops]
    exact h.root
  · simp only [hmapped]
    exact h.leaf
  · intro r
    rw [h.only r]
    constructor
    · rintro ⟨hr, p, g, hva, hp, rfl⟩
      exact ⟨hsub.subset hr, p, g, hva, hp, rfl⟩
    · rintro ⟨hr, p, g, hva, hp, rfl⟩
      obtain ⟨hva', hpage⟩ := (h.build.of_node hp).page p g hp
      obtain rfl := IsPage.hva_unique hbuild.regions (hpage.sublist hsub) hr
      exact ⟨hpage, p, g, hva', hp, rfl⟩

theorem TreeInv.mapGva (h : TreeInv ops pages σ T) {gva npages gpa : U64} {env : MapGvaEnv}
    (hsupplied : Supplied env.answers σ (mapGva σ gva npages gpa env).2.memRegions)
    (hplaced : Placed (mapGva σ gva npages gpa env).2.memRegions) :
    ∃ T', TreeInv (ops ++ [.mapGva gva npages gpa env])
      (pages ++ newRegions σ (mapGva σ gva npages gpa env).2)
      (mapGva σ gva npages gpa env).2 T' := by
  obtain ⟨_, T', hok, hgrown, hpruned, hleaf⟩ :=
    mapGva_spec h.build ⟨hsupplied, hplaced.host, hplaced.low⟩
  refine ⟨T', hok.buildOk, hpruned h.pruned, ?_, ?_, ?_, ?_⟩
  · rw [hok.held.root_node]
    simp only [Option.isSome_some, true_iff]
    exact ⟨gva, npages, gpa, env, by simp⟩
  · intro q
    rw [hleaf, isSome_mapLeaves_iff, h.leaf q, ← exists_maps_iff gva npages gpa env]
    simp only [mapped_append, or_and_right, exists_or]
  · intro r
    rw [List.mem_append, h.only r, newRegions, List.mem_filter, decide_eq_true_eq]
    constructor
    · rintro (⟨hr, p, g, hva, hp, rfl⟩ | ⟨hr, hnew⟩)
      · exact ⟨hgrown.regions.subset hr, p, g, hva, hgrown.nodes p g hp, rfl⟩
      · exact ⟨hr, (hgrown.added r hr).resolve_left hnew⟩
    · rintro ⟨hr, p, g, hva, hp, rfl⟩
      rcases hgrown.fresh p g hp with hold | hfresh
      · left
        obtain ⟨hva', hpage⟩ := (h.build.of_node hold).page p g hold
        obtain rfl := IsPage.hva_unique hok.regions (hpage.sublist hgrown.regions) hr
        exact ⟨hpage, p, g, hva', hold, rfl⟩
      · right
        exact ⟨hr, fun hmem => hfresh (IsPage.inRegion hmem)⟩
  · refine h.nodup.append (hok.regions.nodup.filter _) ?_
    intro r hr hnew
    rw [newRegions, List.mem_filter, decide_eq_true_eq] at hnew
    exact hnew.2 ((h.only r).mp hr).1

end Steps

/-- **Every state of a run** holds a tree without leaks. -/
theorem MapRun.treeInv {ops : List MemOp} {pages : List MemRegion} {σ : VmMem}
    (h : MapRun ops pages σ) :
    ∃ T, TreeInv ops pages σ T := by
  induction h with
  | start mem =>
      refine ⟨noTables, (refinesPages_init mem).build, ?_, ?_, ?_, ?_, List.nodup_nil⟩
      · intro i p hp
        simp [noTables] at hp
      · simp [noTables]
      · simp [noTables, Mapped]
      · simp [noTables]
  | region h op hplaced ih =>
      obtain ⟨T, hT⟩ := ih
      refine ⟨T, hT.congr (hT.build.regionOp op hplaced) (op.sublist_step _) ?_ ?_⟩
      · simp
      · simp [mapped_append, MemOp.Maps]
  | mapGva h gva npages gpa env hsupplied hplaced ih =>
      obtain ⟨T, hT⟩ := ih
      exact hT.mapGva hsupplied hplaced
  | write h mem htables ih =>
      obtain ⟨T, hT⟩ := ih
      refine ⟨T, hT.congr (hT.build.write htables) (List.Sublist.refl _) ?_ ?_⟩
      · simp
      · simp

section Inv

variable {ops : List MemOp} {pages : List MemRegion} {σ : VmMem} {T : Tables}

/-- The tables on the way to a mapped address are there. -/
theorem TreeInv.path (h : TreeInv ops pages σ T) {a : U64} (ha : Mapped ops a) :
    (T.node [tableIx 39 a]).isSome ∧ (T.node [tableIx 30 a, tableIx 39 a]).isSome ∧
      (T.node [tableIx 21 a, tableIx 30 a, tableIx 39 a]).isSome := by
  obtain ⟨v, hv⟩ := Option.isSome_iff_exists.mp ((h.leaf _).mpr ⟨a, ha, rfl⟩)
  rcases h.build.tables with htree | ⟨_, rfl⟩
  · obtain ⟨i, p, pt, hpath, hpt, _⟩ := htree.held.leaf_parent _ v hv
    obtain rfl : [tableIx 21 a, tableIx 30 a, tableIx 39 a] = p := (List.cons.inj hpath).2
    obtain ⟨pd, hpd⟩ := htree.held.parent _ _ _ hpt
    obtain ⟨pdpt, hpdpt⟩ := htree.held.parent _ _ _ hpd
    rw [hpt, hpd, hpdpt]
    exact ⟨rfl, rfl, rfl⟩
  · simp [noTables] at hv

theorem TreeInv.length_le (h : TreeInv ops pages σ T) {p : List (Fin 512)}
    (hp : (T.node p).isSome) : p.length ≤ 3 := by
  obtain ⟨g, hg⟩ := Option.isSome_iff_exists.mp hp
  exact (h.build.of_node hg).held.short p g hg

theorem TreeInv.needed_iff (h : TreeInv ops pages σ T) (p : List (Fin 512)) :
    (T.node p).isSome ↔ Needed ops p := by
  constructor
  · intro hp
    cases p with
    | nil =>
        obtain ⟨gva, npages, gpa, env, hmem⟩ := h.root.mp hp
        exact .pml4 hmem
    | cons i p =>
        obtain ⟨q, hq, hsuffix⟩ := h.pruned i p hp
        obtain ⟨a, ha, rfl⟩ := (h.leaf q).mp hq
        exact .of_mapped ha hsuffix (List.cons_ne_nil i p) (h.length_le hp)
  · intro hneeded
    cases hneeded with
    | pml4 hmem =>
        exact h.root.mpr ⟨_, _, _, _, hmem⟩
    | pdpt ha =>
        exact (h.path ha).1
    | pd ha =>
        exact (h.path ha).2.1
    | pt ha =>
        exact (h.path ha).2.2

/-- The entry that links a table is found in its parent only. -/
theorem TablesOk.referenced (h : TablesOk σ T) {i : Fin 512} {p : List (Fin 512)} {g : U64}
    (hg : T.node (i :: p) = some g) {q : List (Fin 512)} {f : U64} (hf : T.node q = some f)
    (hlen : q.length < 3) (j : Fin 512) :
    isPresent (σ.entry f j) = true ∧ entryFrame (σ.entry f j) = g ↔ q = p ∧ j = i := by
  rw [h.held.inner q f hf hlen j]
  constructor
  · rintro ⟨hpresent, hframe⟩
    cases hnode : T.node (j :: q) with
    | none =>
        rw [hnode] at hpresent
        exact absurd hpresent (by decide)
    | some g' =>
        rw [hnode, Option.elim_some, h.entryFrame_link _ _ hnode] at hframe
        have hpath := h.held.inj _ _ _ hnode (hframe ▸ hg)
        exact ⟨(List.cons.inj hpath).2, (List.cons.inj hpath).1⟩
  · rintro ⟨rfl, rfl⟩
    rw [hg, Option.elim_some]
    exact ⟨isPresent_link g, h.entryFrame_link _ _ hg⟩

/-- An entry off the paths of the mapped addresses is zero. -/
theorem TreeInv.entry_eq_zero (h : TreeInv ops pages σ T) {p : List (Fin 512)} {f : U64}
    (hf : T.node p = some f) {i : Fin 512}
    (hoff : ∀ a, Mapped ops a → ¬ (i :: p) <:+ tablePath a) :
    σ.entry f i = 0 := by
  have htree := h.build.of_node hf
  have hlen := htree.held.short p f hf
  rcases Nat.lt_or_eq_of_le hlen with hinner | hlast
  · rw [htree.held.inner p f hf hinner i]
    cases hnode : T.node (i :: p) with
    | none =>
        rfl
    | some g =>
        obtain ⟨q, hq, hsuffix⟩ := h.pruned i p (by rw [hnode]; rfl)
        obtain ⟨a, ha, rfl⟩ := (h.leaf q).mp hq
        exact absurd hsuffix (hoff a ha)
  · rw [htree.held.last p f hf hlast i]
    cases hleaf : T.leaf (i :: p) with
    | none =>
        rfl
    | some v =>
        obtain ⟨a, ha, hpath⟩ := (h.leaf _).mp (by rw [hleaf]; rfl)
        exact absurd (hpath ▸ List.suffix_rfl) (hoff a ha)

end Inv

/-- **A page-table tree without leaks.**  After every run the regions that `map_gva`
registered are one table for each path that the mapped addresses need; each is linked from
its place in the tree and from nowhere else, and all other entries are zero. -/
theorem mapGva_tableTree {ops : List MemOp} {pages : List MemRegion} {σ : VmMem}
    (h : MapRun ops pages σ) :
    TableTree σ ops pages := by
  obtain ⟨T, hT⟩ := h.treeInv
  have htable := hT.build.tableAt
  refine ⟨?_, ?_, ?_, ?_, hT.nodup, ?_, ?_⟩
  · intro p hlen
    rw [htable p hlen]
    exact hT.needed_iff p
  · intro p q g hp hq hpg hqg
    rw [htable p hp] at hpg
    rw [htable q hq] at hqg
    exact (hT.build.of_node hpg).held.inj p q g hpg hqg
  · intro p g hlen hp
    rw [htable p hlen] at hp
    obtain ⟨hva, hpage⟩ := (hT.build.of_node hp).page p g hp
    exact ⟨hva, (hT.only _).mpr ⟨hpage, p, g, hva, hp, rfl⟩⟩
  · intro r
    rw [hT.only r]
    refine and_congr_right fun _ => exists_congr fun p => ?_
    constructor
    · rintro ⟨g, hva, hp, rfl⟩
      have hlen := hT.length_le (by rw [hp]; rfl)
      exact ⟨g, hva, hlen, (htable p hlen).trans hp, rfl⟩
    · rintro ⟨g, hva, hlen, hp, rfl⟩
      exact ⟨g, hva, (htable p hlen).symm.trans hp, rfl⟩
  · intro i p g hlen hg q f j hq hf
    rw [htable (i :: p) (Nat.succ_le_succ hlen)] at hg
    rw [htable q (by omega)] at hf
    exact (hT.build.of_node hf).referenced hg hf (by omega) j
  · intro p f i hlen hf hoff
    rw [htable p hlen] at hf
    exact hT.entry_eq_zero hf hoff

theorem mapGva_tableTree_mappedRun :
    ∃ pages, TableTree (MemOp.run (VmMem.init fun _ => 0) mappedRun) mappedRun pages := by
  obtain ⟨pages, hrun⟩ := RunOk.mapRun mappedRun runOk_mappedRun
  exact ⟨pages, mapGva_tableTree hrun⟩

end Hvexec
