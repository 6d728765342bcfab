import Hvexec.GuestMemory
import Hvexec.Lib.RadixTable

/-!
# Page tables

The page tables that `map_gva` builds are a radix table of depth three: the PML4
is the root, then come the PDPT, the PD and the PT, and the entries of a PT hold
page frames.  A table is named by the indices that lead to it, the latest first.

`TablesOk` says that the memory of a state holds such a tree, each table in a
registered page of its own.  `Grown` says what a call of `map_gva` may do to a
state: add tables, each in a page registered for it, and write into tables.

Each part of `map_gva` has one lemma that says what it does to the tree; the
calls outside, and every later module, use these lemmas only.
-/

namespace Hvexec

open ByteMemory IntervalList RadixTable

/-! ## Indices and entries -/

/-- The index of nine bits from bit `k` on. -/
def tableIx (k : Nat) (gva : U64) : Fin 512 :=
  ⟨gva.toNat / 2 ^ k % 512, Nat.mod_lt _ (by decide)⟩

/-- The indices of an address, the one into the PT first. -/
def tablePath (gva : U64) : List (Fin 512) :=
  [tableIx 12 gva, tableIx 21 gva, tableIx 30 gva, tableIx 39 gva]

theorem index_eq (k : Nat) (gva : U64) :
    ((((gva >>> k) &&& 0x1FF) * 8).setWidth 16).setWidth 64 =
      BitVec.ofNat 64 (8 * (tableIx k gva).val) := by
  apply BitVec.eq_of_toNat_eq
  have hmask : (0x1FF : U64).toNat = 2 ^ 9 - 1 := rfl
  have height : (8 : U64).toNat = 8 := rfl
  have hlt : gva.toNat / 2 ^ k % 512 < 512 := Nat.mod_lt _ (by decide)
  simp only [BitVec.toNat_setWidth, BitVec.toNat_mul, BitVec.toNat_and,
    BitVec.toNat_ushiftRight, BitVec.toNat_ofNat, hmask, height, tableIx,
    Nat.and_two_pow_sub_one_eq_mod, Nat.shiftRight_eq_div_pow]
  omega

/-- The slots that `map_gva` and `gva_to_gpa` compute are those of the path. -/
theorem decodeGva_slots (gva : U64) :
    (decodeGva gva).ptIdx.setWidth 64 = BitVec.ofNat 64 (8 * (tableIx 12 gva).val) ∧
    (decodeGva gva).pdIdx.setWidth 64 = BitVec.ofNat 64 (8 * (tableIx 21 gva).val) ∧
    (decodeGva gva).pdptIdx.setWidth 64 = BitVec.ofNat 64 (8 * (tableIx 30 gva).val) ∧
    (decodeGva gva).pml4Idx.setWidth 64 = BitVec.ofNat 64 (8 * (tableIx 39 gva).val) :=
  ⟨index_eq 12 gva, index_eq 21 gva, index_eq 30 gva, index_eq 39 gva⟩

/-- The entry that refers to a page: present, writable, the page's address. -/
def link (g : U64) : U64 :=
  present ||| writable ||| g

/-- The address of a frame: a page below `2 ^ 52`. -/
structure IsFrame (g : U64) : Prop where
  aligned : g.toNat % 4096 = 0
  low : g.toNat < 2 ^ 52

theorem toNat_link {g : U64} (hg : g.toNat % 4096 = 0) :
    (link g).toNat = g.toNat + 3 := by
  have hor := BitField.mul_or 12 (g.toNat / 4096) 3 (by decide)
  have hmul : 2 ^ 12 * (g.toNat / 4096) = g.toNat := by
    omega
  have h3 : (present ||| writable : U64).toNat = 3 := rfl
  rw [link, BitVec.toNat_or, h3, Nat.or_comm]
  rwa [hmul] at hor

theorem toNat_and_entryMask (x : U64) :
    (x &&& entryMask).toNat = 4096 * (x.toNat / 4096 % 2 ^ 40) :=
  BitField.and_mask 12 40 x.toNat

/-- `map_gva` gets the page back from an entry. -/
theorem link_and_pageMask {g : U64} (hg : g.toNat % 4096 = 0) :
    link g &&& pageMask = g := by
  apply BitVec.eq_of_toNat_eq
  rw [toNat_and_pageMask, toNat_link hg]
  omega

/-- `gva_to_gpa`, whose mask is shorter, gets it back below `2 ^ 52`. -/
theorem link_and_entryMask {g : U64} (hg : IsFrame g) :
    link g &&& entryMask = g := by
  have hlow := hg.low
  have haligned := hg.aligned
  apply BitVec.eq_of_toNat_eq
  rw [toNat_and_entryMask, toNat_link haligned]
  omega

theorem link_ne_zero (g : U64) : link g ≠ 0 := by
  intro hcon
  have hbit : (link g).getLsbD 0 = true := by
    simp [link, present]
  rw [hcon] at hbit
  simp at hbit

/-- The entry `i` of the page at `g`, as the program reads it. -/
def VmMem.entry (σ : VmMem) (g : U64) (i : Fin 512) : U64 :=
  readU64 σ (g + BitVec.ofNat 64 (8 * i.val)) 0

theorem VmMem.entry_of_isPage {σ : VmMem} {g hva : U64}
    (h : RegionsOk σ.memRegions) (hhost : HostOk σ.memRegions)
    (hpage : IsPage σ.memRegions g hva) (i : Fin 512) :
    σ.entry g i = pageEntry σ.mem hva i :=
  readU64_of_isPage h hhost hpage i 0

/-- What the buffer of a read held before does not matter inside a page. -/
theorem readU64_eq_entry {σ : VmMem} {g hva : U64}
    (h : RegionsOk σ.memRegions) (hhost : HostOk σ.memRegions)
    (hpage : IsPage σ.memRegions g hva) (i : Fin 512) (old : U64) :
    readU64 σ (g + BitVec.ofNat 64 (8 * i.val)) old = σ.entry g i := by
  rw [VmMem.entry_of_isPage h hhost hpage, readU64_of_isPage h hhost hpage]

theorem VmMem.entry_setMem {σ : VmMem} {g hva : U64}
    (h : RegionsOk σ.memRegions) (hhost : HostOk σ.memRegions)
    (hpage : IsPage σ.memRegions g hva) (mem : U64 → Byte) (i : Fin 512) :
    { σ with mem := mem }.entry g i = pageEntry mem hva i :=
  VmMem.entry_of_isPage (σ := { σ with mem := mem }) h hhost hpage i

section EntryWrites

variable {σ : VmMem} {f g hva hva' : U64} {i j : Fin 512} {v : U64}

theorem entry_writeU64_same
    (h : RegionsOk σ.memRegions) (hhost : HostOk σ.memRegions)
    (hf : IsPage σ.memRegions f hva) :
    (writeU64 σ (f + BitVec.ofNat 64 (8 * i.val)) v).entry f i = v := by
  rw [writeU64_of_isPage h hhost hf, VmMem.entry_setMem h hhost hf]
  exact pageEntry_storeEntry_same σ.mem hva i v

/-- An entry written back changes nothing. -/
theorem writeU64_entry
    (h : RegionsOk σ.memRegions) (hhost : HostOk σ.memRegions)
    (hf : IsPage σ.memRegions f hva) :
    writeU64 σ (f + BitVec.ofNat 64 (8 * i.val)) (σ.entry f i) = σ := by
  rw [writeU64_of_isPage h hhost hf, VmMem.entry_of_isPage h hhost hf, storeEntry_pageEntry]

/-- Writing an entry leaves every other entry of every page alone. -/
theorem entry_writeU64_of_ne
    (h : RegionsOk σ.memRegions) (hhost : HostOk σ.memRegions)
    (hf : IsPage σ.memRegions f hva) (hg : IsPage σ.memRegions g hva')
    (hne : g ≠ f ∨ j ≠ i) :
    (writeU64 σ (f + BitVec.ofNat 64 (8 * i.val)) v).entry g j = σ.entry g j := by
  rw [writeU64_of_isPage h hhost hf, VmMem.entry_setMem h hhost hg,
    VmMem.entry_of_isPage h hhost hg]
  by_cases hgf : g = f
  · subst hgf
    have hji : j ≠ i := hne.resolve_left (fun hcon => hcon rfl)
    rw [IsPage.hva_unique h hg hf]
    exact pageEntry_storeEntry_of_ne σ.mem hva v hji
  · have hapart := hf.apart hhost hg hgf
    apply pageEntry_congr j (hg.wrap hhost)
    intro x hlo hhi
    apply storeEntry_of_outside σ.mem i v (hf.wrap hhost)
    omega

theorem mem_writeU64_of_outside
    (h : RegionsOk σ.memRegions) (hhost : HostOk σ.memRegions)
    (hf : IsPage σ.memRegions f hva) {x : U64}
    (hx : ¬ (hva.toNat ≤ x.toNat ∧ x.toNat < hva.toNat + 4096)) :
    (writeU64 σ (f + BitVec.ofNat 64 (8 * i.val)) v).mem x = σ.mem x := by
  rw [writeU64_of_isPage h hhost hf]
  apply storeEntry_of_outside σ.mem i v (hf.wrap hhost)
  omega

end EntryWrites

/-! ## A tree of tables -/

/-- The tables and the page frames they map, by path. -/
abbrev Tables := Tree (Fin 512) U64 U64

/-- The memory of a state holds the tables `T`. -/
structure TablesOk (σ : VmMem) (T : Tables) : Prop where
  regions : RegionsOk σ.memRegions
  host : HostOk σ.memRegions
  low : ∀ p ∈ σ.memRegions, p.hi ≤ 2 ^ 52
  root : σ.pml4 ≠ 0
  held : Held 3 0 link link σ.pml4Gpa σ.entry T
  page : ∀ p g, T.node p = some g → ∃ hva, IsPage σ.memRegions g hva
  leaf : ∀ q v, T.leaf q = some v → v.toNat % 4096 = 0

/-- The address of a table is the address of a frame. -/
theorem TablesOk.isFrame {σ : VmMem} {T : Tables} (h : TablesOk σ T)
    {p : List (Fin 512)} {g : U64} (hp : T.node p = some g) :
    IsFrame g := by
  obtain ⟨hva, hpage⟩ := h.page p g hp
  have hhi := h.low _ hpage
  rw [hi_page] at hhi
  exact ⟨h.regions.aligned _ hpage, by omega⟩

/-- A host byte of a table. -/
def TableByte (σ : VmMem) (T : Tables) (x : U64) : Prop :=
  ∃ p g hva, T.node p = some g ∧ IsPage σ.memRegions g hva ∧
    hva.toNat ≤ x.toNat ∧ x.toNat < hva.toNat + 4096

/-- Regions may be added and bytes outside the tables written. -/
theorem TablesOk.congr {σ τ : VmMem} {T : Tables} (h : TablesOk σ T)
    (hregions : RegionsOk τ.memRegions) (hhost : HostOk τ.memRegions)
    (hlow : ∀ p ∈ τ.memRegions, p.hi ≤ 2 ^ 52)
    (hsub : σ.memRegions.Sublist τ.memRegions)
    (hpml4 : τ.pml4 = σ.pml4) (hpml4Gpa : τ.pml4Gpa = σ.pml4Gpa)
    (hmem : ∀ x, TableByte σ T x → τ.mem x = σ.mem x) :
    TablesOk τ T := by
  refine ⟨hregions, hhost, hlow, hpml4 ▸ h.root, ?_, ?_, h.leaf⟩
  · rw [hpml4Gpa]
    apply h.held.congr
    intro p g hp i
    obtain ⟨hva, hpage⟩ := h.page p g hp
    rw [VmMem.entry_of_isPage hregions hhost (hpage.sublist hsub),
      VmMem.entry_of_isPage h.regions h.host hpage]
    apply pageEntry_congr i (hpage.wrap h.host)
    intro x hlo hhi
    exact hmem x ⟨p, g, hva, hp, hpage, hlo, hhi⟩
  · intro p g hp
    obtain ⟨hva, hpage⟩ := h.page p g hp
    exact ⟨hva, hpage.sublist hsub⟩

/-- From `σ` to `τ` tables were added, each in a page registered for it, and
only tables were written. -/
structure Grown (σ : VmMem) (T : Tables) (τ : VmMem) (T' : Tables) : Prop where
  regions : σ.memRegions.Sublist τ.memRegions
  nodes : T'.Extends T
  added : ∀ r ∈ τ.memRegions, r ∈ σ.memRegions ∨
    ∃ p g hva, T'.node p = some g ∧ r = ⟨g, 1, hva⟩
  fresh : ∀ p g, T'.node p = some g →
    T.node p = some g ∨ ¬ InRegion σ.memRegions g
  frame : ∀ x, ¬ TableByte τ T' x → τ.mem x = σ.mem x

theorem Grown.refl (σ : VmMem) (T : Tables) : Grown σ T σ T where
  regions := List.Sublist.refl _
  nodes := Tree.Extends.refl T
  added := fun _ hr => Or.inl hr
  fresh := fun _ _ hp => Or.inl hp
  frame := fun _ _ => rfl

theorem TableByte.mono {σ τ : VmMem} {T T' : Tables} {x : U64}
    (h : TableByte σ T x)
    (hregions : σ.memRegions.Sublist τ.memRegions) (hnodes : T'.Extends T) :
    TableByte τ T' x := by
  obtain ⟨p, g, hva, hp, hpage, hx⟩ := h
  exact ⟨p, g, hva, hnodes p g hp, hpage.sublist hregions, hx⟩

theorem InRegion.sublist {l l' : List MemRegion} {x : U64}
    (h : InRegion l x) (hsub : l.Sublist l') :
    InRegion l' x := by
  obtain ⟨p, hp, hx⟩ := h
  exact ⟨p, hsub.subset hp, hx⟩

theorem Grown.trans {σ σ' σ'' : VmMem} {T T' T'' : Tables}
    (h : Grown σ T σ' T') (h' : Grown σ' T' σ'' T'') :
    Grown σ T σ'' T'' where
  regions := h.regions.trans h'.regions
  nodes := h'.nodes.trans h.nodes
  added := by
    intro r hr
    rcases h'.added r hr with hr | hnew
    · rcases h.added r hr with hr | ⟨p, g, hva, hp, heq⟩
      · exact Or.inl hr
      · exact Or.inr ⟨p, g, hva, h'.nodes p g hp, heq⟩
    · exact Or.inr hnew
  fresh := by
    intro p g hp
    rcases h'.fresh p g hp with hp | hnot
    · exact h.fresh p g hp
    · exact Or.inr fun hcon => hnot (hcon.sublist h.regions)
  frame := by
    intro x hx
    rw [h'.frame x hx]
    apply h.frame
    intro hcon
    exact hx (hcon.mono h'.regions h'.nodes)

/-- A block that is registered later is not written. -/
theorem Grown.mem_of_later {σ τ : VmMem} {T T' : Tables} {l : List MemRegion}
    (h : Grown σ T τ T') (hhost : HostOk l) (hsub : τ.memRegions.Sublist l)
    {p : MemRegion} (hp : p ∈ l) (hnew : p ∉ τ.memRegions)
    {x : U64} (hx : p.hostLo ≤ x.toNat ∧ x.toNat < p.hostHi) :
    τ.mem x = σ.mem x := by
  apply h.frame
  rintro ⟨q, g, hva, _, hpage, hlo, hhi⟩
  have hne : (⟨g, 1, hva⟩ : MemRegion) ≠ p := fun hcon => hnew (hcon ▸ hpage)
  have hapart := hhost.apart (hsub.subset hpage) hp hne
  unfold Apart at hapart
  rw [hostHi_page] at hapart
  simp only [MemRegion.hostLo] at hapart hx
  omega

/-! ## Allocating a page -/

/-- After the allocation of a page at `g`, backed by the block at `hva`. -/
structure NewPage (σ τ : VmMem) (g hva : U64) : Prop where
  ok : RegionsOk τ.memRegions
  regions : σ.memRegions.Sublist τ.memRegions
  perm : τ.memRegions.Perm (⟨g, 1, hva⟩ :: σ.memRegions)
  place : g.toNat = 0 ∨ ∃ p ∈ σ.memRegions, g.toNat = p.hi
  fresh : ¬ InRegion σ.memRegions g
  mem : τ.mem = σ.mem
  pml4 : τ.pml4 = σ.pml4
  pml4Gpa : τ.pml4Gpa = σ.pml4Gpa

/-- A granted allocation of one page. -/
theorem vmMemAlloc_page
    {σ : VmMem} (gpa₀ : U64) {a : HostAnswer}
    (h : RegionsOk σ.memRegions) (hlow : ∀ p ∈ σ.memRegions, p.hi ≤ 2 ^ 52)
    (hvalloc : a.valloc ≠ 0) (hmap : a.hvVmMap = true) (hmalloc : a.malloc = true) :
    ∃ g τ, vmMemAlloc σ 1 gpa₀ a = ⟨a.valloc, g, τ⟩ ∧ NewPage σ τ g a.valloc := by
  have hone : (1 : U64).toNat = 1 := rfl
  have hfit : ∀ g, findFreeMemRegion σ.memRegions 1 = some g →
      g.toNat + (1 : U64).toNat * 4096 < 2 ^ 64 := by
    intro g hg
    rcases findFreeMemRegion_eq h (by decide) hg with heq | ⟨p, hp, heq⟩
    · omega
    · have := hlow p hp
      omega
  obtain ⟨g, hg, hzero, heq⟩ :=
    vmMemAlloc_granted gpa₀ h (by decide) (by decide) hfit hvalloc hmap hmalloc
  have hnew := newRegion_gpa_of_findFree a.valloc h hg (by decide)
  have hhi : (newRegion g 1 a.valloc).hi < 2 ^ 64 := by
    rw [hnew]
    exact hfit g hg
  have hok := regionsOk_addRegion h hzero hhi
  rw [hnew] at hok
  refine ⟨g, _, heq, hok, sublist_insertRegion _ _, ?_,
    findFreeMemRegion_eq h (by decide) hg, ?_, rfl, rfl, rfl⟩
  · exact perm_insertRegion h.below _
  · rintro ⟨p, hp, hlo, hhi'⟩
    rcases findFreeMemRegion_apart h (by decide) hg p hp with hle | hle
    · omega
    · omega

theorem NewPage.page {σ τ : VmMem} {g hva : U64} (h : NewPage σ τ g hva) :
    IsPage τ.memRegions g hva :=
  h.perm.symm.subset (by simp)

theorem NewPage.only {σ τ : VmMem} {g hva : U64} (h : NewPage σ τ g hva) :
    ∀ r ∈ τ.memRegions, r ∈ σ.memRegions ∨ r = ⟨g, 1, hva⟩ := by
  intro r hr
  exact (List.mem_cons.mp (h.perm.subset hr)).symm

/-- The new region was not registered before. -/
theorem NewPage.not_mem {σ τ : VmMem} {g hva : U64} (h : NewPage σ τ g hva) :
    (⟨g, 1, hva⟩ : MemRegion) ∉ σ.memRegions :=
  fun hmem => h.fresh (IsPage.inRegion hmem)

/-- An allocation changes no entry. -/
theorem NewPage.entry {σ τ : VmMem} {g hva : U64} (h : NewPage σ τ g hva)
    (hok : RegionsOk σ.memRegions)
    (hhost : HostOk τ.memRegions) {f hvaf : U64}
    (hf : IsPage σ.memRegions f hvaf) (i : Fin 512) :
    τ.entry f i = σ.entry f i := by
  rw [VmMem.entry_of_isPage h.ok hhost (hf.sublist h.regions),
    VmMem.entry_of_isPage hok (hhost.sublist h.regions) hf, h.mem]

/-! ## Calls whose allocations are granted -/

/-- What is asked of the allocations of a call that starts in `σ` and ends with
the regions `l`: the host grants them, and the pages hold zeros. -/
structure Supplied
    (answers : Nat → HostAnswer) (σ : VmMem) (l : List MemRegion) : Prop where
  valloc : ∀ k, (answers k).valloc ≠ 0
  hvVmMap : ∀ k, (answers k).hvVmMap = true
  malloc : ∀ k, (answers k).malloc = true
  zero : ∀ p ∈ l, p ∉ σ.memRegions →
    ∀ x : U64, p.hostLo ≤ x.toNat → x.toNat < p.hostHi → σ.mem x = 0

/-- The regions lie where an entry can name them, over disjoint blocks. -/
structure Granted
    (answers : Nat → HostAnswer) (σ : VmMem) (l : List MemRegion) : Prop
    extends Supplied answers σ l where
  host : HostOk l
  low : ∀ p ∈ l, p.hi ≤ 2 ^ 52

/-- A page that was just allocated holds no entry: it was handed out with zeros,
and only tables have been written since the call began. -/
theorem Granted.empty
    {answers : Nat → HostAnswer} {l : List MemRegion}
    {σ₀ σ τ : VmMem} {T₀ T : Tables} {g hva : U64}
    (hgr : Granted answers σ₀ l) (hgrown : Grown σ₀ T₀ σ T)
    (hnew : NewPage σ τ g hva) (hsub : τ.memRegions.Sublist l) (i : Fin 512) :
    τ.entry g i = 0 := by
  have hhost : HostOk τ.memRegions := hgr.host.sublist hsub
  have hnot : (⟨g, 1, hva⟩ : MemRegion) ∉ σ₀.memRegions :=
    fun hcon => hnew.not_mem (hgrown.regions.subset hcon)
  rw [VmMem.entry_of_isPage hnew.ok hhost hnew.page, hnew.mem]
  apply pageEntry_of_zero i (hnew.page.wrap hhost)
  intro x hlo hhi
  rw [hgrown.frame x]
  · refine hgr.zero _ (hsub.subset hnew.page) hnot x hlo ?_
    rw [hostHi_page]
    exact hhi
  · rintro ⟨p, f, hvaf, hp, hf, hx⟩
    -- the new page is none of the tables, so their blocks are disjoint
    have hne : g ≠ f := by
      rintro rfl
      exact hnew.fresh hf.inRegion
    have hapart := (hf.sublist hnew.regions).apart hhost hnew.page hne
    omega

/-! ## One level -/

section Level

variable {answers : Nat → HostAnswer} {l : List MemRegion}
  {σ₀ σ : VmMem} {T₀ T : Tables} {p : List (Fin 512)} {f : U64}

/-- The entry that a level reads. -/
theorem TablesOk.readU64_node
    (h : TablesOk σ T) (hp : T.node p = some f) (hlen : p.length < 3)
    (i : Fin 512) (old : U64) :
    readU64 σ (f + BitVec.ofNat 64 (8 * i.val)) old =
      (T.node (i :: p)).elim 0 link := by
  obtain ⟨hva, hpage⟩ := h.page p f hp
  rw [readU64_eq_entry h.regions h.host hpage, h.held.inner p f hp hlen]

/-- Only the entry of the table `p` at `i` is written. -/
theorem TablesOk.entry_writeU64
    (h : TablesOk σ T) (hp : T.node p = some f) (i : Fin 512) (v : U64)
    {q : List (Fin 512)} {g : U64} (hq : T.node q = some g) (j : Fin 512)
    (hne : q ≠ p ∨ j ≠ i) :
    (writeU64 σ (f + BitVec.ofNat 64 (8 * i.val)) v).entry g j = σ.entry g j := by
  obtain ⟨hva, hpage⟩ := h.page p f hp
  obtain ⟨hva', hpage'⟩ := h.page q g hq
  apply entry_writeU64_of_ne h.regions h.host hpage hpage'
  rcases hne with hqp | hji
  · left
    rintro rfl
    exact hqp (h.held.inj q p g hq hp)
  · exact Or.inr hji

/-- The write of an entry changes bytes of a table only. -/
theorem TablesOk.mem_writeU64
    (h : TablesOk σ T) (hp : T.node p = some f) (i : Fin 512) (v : U64)
    {x : U64} (hx : ¬ TableByte σ T x) :
    (writeU64 σ (f + BitVec.ofNat 64 (8 * i.val)) v).mem x = σ.mem x := by
  obtain ⟨hva, hpage⟩ := h.page p f hp
  apply mem_writeU64_of_outside h.regions h.host hpage
  rintro ⟨hlo, hhi⟩
  exact hx ⟨p, f, hva, hp, hpage, hlo, hhi⟩

/-- A table that is there already is found, and its entry is written back. -/
theorem mapGvaLevel_present
    (answers : Nat → HostAnswer)
    (h : TablesOk σ T) (hp : T.node p = some f) (hlen : p.length < 3)
    {i : Fin 512} {g : U64} (hg : T.node (i :: p) = some g)
    (used : Nat) (entry₀ next₀ : U64) :
    mapGvaLevel answers σ used (f + BitVec.ofNat 64 (8 * i.val)) entry₀ next₀ =
      ⟨g, σ, used⟩ := by
  have hread : readU64 σ (f + BitVec.ofNat 64 (8 * i.val)) entry₀ = link g := by
    rw [h.readU64_node hp hlen, hg]
    rfl
  obtain ⟨hva, hpage⟩ := h.page p f hp
  have hback : writeU64 σ (f + BitVec.ofNat 64 (8 * i.val)) (link g) = σ := by
    have hentry : σ.entry f i = link g := by
      rw [h.held.inner p f hp hlen i, hg]
      rfl
    rw [← hentry]
    exact writeU64_entry h.regions h.host hpage
  simp only [mapGvaLevel, hread]
  rw [if_neg (link_ne_zero g), link_and_pageMask (h.isFrame hg).aligned]
  exact congrArg (fun τ => (⟨g, τ, used⟩ : MapGvaLevel)) hback

/-- A new page is none of the tables. -/
theorem TablesOk.node_ne_of_newPage (h : TablesOk σ T) {τ : VmMem} {g hva : U64}
    (hnew : NewPage σ τ g hva) (q : List (Fin 512)) :
    T.node q ≠ some g := by
  intro hq
  obtain ⟨hvaq, hpageq⟩ := h.page q g hq
  exact hnew.fresh hpageq.inRegion

/-- A new page without entries is linked as a table. -/
theorem TablesOk.addNode
    (h : TablesOk σ T) (hp : T.node p = some f) (hlen : p.length < 3)
    {i : Fin 512} (hnone : T.node (i :: p) = none)
    {τ : VmMem} {g hva : U64} (hnew : NewPage σ τ g hva)
    (hhost : HostOk τ.memRegions) (hlow : ∀ r ∈ τ.memRegions, r.hi ≤ 2 ^ 52)
    (hempty : ∀ j, τ.entry g j = 0) :
    TablesOk (writeU64 τ (f + BitVec.ofNat 64 (8 * i.val)) (link g))
      (T.addNode (i :: p) g) := by
  obtain ⟨hvaf, hpage⟩ := h.page p f hp
  have hpage' := hpage.sublist hnew.regions
  have hfresh := h.node_ne_of_newPage hnew
  have hfg : g ≠ f := by
    rintro rfl
    exact hfresh p hp
  refine ⟨by simpa using hnew.ok, by simpa using hhost, by simpa using hlow, ?_, ?_, ?_,
    h.leaf⟩
  · rw [writeU64_pml4, hnew.pml4]
    exact h.root
  · rw [writeU64_pml4Gpa, hnew.pml4Gpa]
    apply h.held.addNode hp hlen hnone hfresh
    · intro j
      rw [entry_writeU64_of_ne hnew.ok hhost hpage' hnew.page (Or.inl hfg)]
      exact hempty j
    · exact entry_writeU64_same hnew.ok hhost hpage'
    · intro q k j hq hne
      obtain ⟨hvak, hpagek⟩ := h.page q k hq
      have hne' : k ≠ f ∨ j ≠ i := by
        rcases hne with hqp | hji
        · left
          rintro rfl
          exact hqp (h.held.inj q p k hq hp)
        · exact Or.inr hji
      rw [entry_writeU64_of_ne hnew.ok hhost hpage'
        (hpagek.sublist hnew.regions) hne']
      exact hnew.entry h.regions hhost hpagek j
  · intro q k hq
    rw [writeU64_memRegions]
    by_cases hqp : q = i :: p
    · subst hqp
      rw [T.addNode_node_self] at hq
      exact ⟨hva, Option.some.inj hq ▸ hnew.page⟩
    · rw [T.addNode_node_of_ne g hqp] at hq
      obtain ⟨hvak, hpagek⟩ := h.page q k hq
      exact ⟨hvak, hpagek.sublist hnew.regions⟩

/-- Nothing else is written or registered then. -/
theorem TablesOk.grown_addNode
    (h : TablesOk σ T) (hp : T.node p = some f)
    {i : Fin 512} (hnone : T.node (i :: p) = none)
    {τ : VmMem} {g hva : U64} (hnew : NewPage σ τ g hva) (hhost : HostOk τ.memRegions) :
    Grown σ T (writeU64 τ (f + BitVec.ofNat 64 (8 * i.val)) (link g))
      (T.addNode (i :: p) g) := by
  have hnodes : (T.addNode (i :: p) g).Extends T := T.addNode_extends g hnone
  obtain ⟨hvaf, hpage⟩ := h.page p f hp
  have hpage' := hpage.sublist hnew.regions
  refine ⟨by simpa using hnew.regions, hnodes, ?_, ?_, ?_⟩
  · intro r hr
    rw [writeU64_memRegions] at hr
    refine (hnew.only r hr).imp_right fun heq => ?_
    exact ⟨i :: p, g, _, T.addNode_node_self _ g, heq⟩
  · intro q k hq
    by_cases hqp : q = i :: p
    · subst hqp
      rw [T.addNode_node_self] at hq
      exact Or.inr (Option.some.inj hq ▸ hnew.fresh)
    · rw [T.addNode_node_of_ne g hqp] at hq
      exact Or.inl hq
  · intro x hx
    rw [mem_writeU64_of_outside hnew.ok hhost hpage', hnew.mem]
    rintro ⟨hlo, hhi⟩
    apply hx
    refine ⟨p, f, hvaf, hnodes p f hp, ?_, hlo, hhi⟩
    rwa [writeU64_memRegions]

/-- An absent table is allocated and linked. -/
theorem mapGvaLevel_absent
    (hgr : Granted answers σ₀ l) (hgrown : Grown σ₀ T₀ σ T)
    (h : TablesOk σ T) (hp : T.node p = some f) (hlen : p.length < 3)
    {i : Fin 512} (hnone : T.node (i :: p) = none)
    (used : Nat) (entry₀ next₀ : U64) :
    let slot := f + BitVec.ofNat 64 (8 * i.val)
    ∃ g τ,
      mapGvaLevel answers σ used slot entry₀ next₀ =
          ⟨g, writeU64 τ slot (link g), used + 1⟩ ∧
        (τ.memRegions.Sublist l →
          TablesOk (writeU64 τ slot (link g)) (T.addNode (i :: p) g) ∧
          Grown σ T (writeU64 τ slot (link g)) (T.addNode (i :: p) g)) := by
  intro slot
  have hread : readU64 σ slot entry₀ = 0 := by
    rw [h.readU64_node hp hlen, hnone]
    rfl
  obtain ⟨g, τ, halloc, hnew⟩ := vmMemAlloc_page next₀ h.regions h.low
    (hgr.valloc used) (hgr.hvVmMap used) (hgr.malloc used)
  refine ⟨g, τ, ?_, fun hsub => ?_⟩
  · simp only [mapGvaLevel, hread, halloc, if_true]
    rfl
  · have hhost : HostOk τ.memRegions := hgr.host.sublist hsub
    exact ⟨h.addNode hp hlen hnone hnew hhost (fun r hr => hgr.low r (hsub.subset hr))
      (hgr.empty hgrown hnew hsub), h.grown_addNode hp hnone hnew hhost⟩

/-- **One level of `map_gva`.**  The table at the next index is there afterwards,
and nothing else of the tree changed. -/
theorem mapGvaLevel_spec
    (hgr : Granted answers σ₀ l) (hgrown : Grown σ₀ T₀ σ T)
    (h : TablesOk σ T) (hp : T.node p = some f) (hlen : p.length < 3)
    (i : Fin 512) (used : Nat) (entry₀ next₀ : U64) :
    let r := mapGvaLevel answers σ used (f + BitVec.ofNat 64 (8 * i.val)) entry₀ next₀
    r.vm.memRegions.Sublist l →
      ∃ T', TablesOk r.vm T' ∧ Grown σ T r.vm T' ∧
        T'.node (i :: p) = some r.next ∧ (∀ q, q ≠ i :: p → T'.node q = T.node q) ∧
        T'.leaf = T.leaf := by
  intro r hsub
  cases hnode : T.node (i :: p) with
  | some g =>
      have hr : r = _ :=
        mapGvaLevel_present answers h hp hlen hnode used entry₀ next₀
      rw [hr]
      exact ⟨T, h, Grown.refl σ T, hnode, fun _ _ => rfl, rfl⟩
  | none =>
      obtain ⟨g, τ, heq, hrest⟩ :=
        mapGvaLevel_absent hgr hgrown h hp hlen hnode used entry₀ next₀
      have hr : r = _ := heq
      rw [hr, writeU64_memRegions] at hsub
      obtain ⟨hok, hgrow⟩ := hrest hsub
      rw [hr]
      exact ⟨_, hok, hgrow, T.addNode_node_self _ g,
        fun q hq => T.addNode_node_of_ne g hq, rfl⟩

/-- The entry of a PT is written. -/
theorem TablesOk.setLeaf
    (h : TablesOk σ T) (hp : T.node p = some f) (hlen : p.length = 3)
    (i : Fin 512) {v : U64} (hv : v.toNat % 4096 = 0) :
    let τ := writeU64 σ (f + BitVec.ofNat 64 (8 * i.val)) (link v)
    TablesOk τ (T.setLeaf (i :: p) v) ∧ Grown σ T τ (T.setLeaf (i :: p) v) := by
  intro τ
  obtain ⟨hva, hpage⟩ := h.page p f hp
  constructor
  · refine ⟨by simpa [τ] using h.regions, by simpa [τ] using h.host,
      by simpa [τ] using h.low, by simpa [τ] using h.root, ?_,
      by simpa [τ] using h.page, ?_⟩
    · rw [writeU64_pml4Gpa]
      apply h.held.setLeaf hp hlen
      · exact entry_writeU64_same h.regions h.host hpage
      · intro q g j hq hne
        exact h.entry_writeU64 hp i (link v) hq j hne
    · intro q w hq
      by_cases hqp : q = i :: p
      · subst hqp
        simp only [Tree.setLeaf, Function.update_self] at hq
        rwa [← Option.some.inj hq]
      · simp only [Tree.setLeaf, Function.update_of_ne hqp] at hq
        exact h.leaf q w hq
  · refine ⟨by simp [τ], T.setLeaf_extends _ v, ?_, ?_, ?_⟩
    · intro r hr
      exact Or.inl (by simpa [τ] using hr)
    · intro q k hq
      exact Or.inl hq
    · intro x hx
      apply h.mem_writeU64 hp i (link v)
      intro hcon
      exact hx (hcon.mono (by simp [τ]) (T.setLeaf_extends _ v))

end Level

/-! ## One page and the loop -/

theorem sublist_mapGvaLevel
    (answers : Nat → HostAnswer) (σ : VmMem) (used : Nat)
    (slot entry₀ next₀ : U64) :
    σ.memRegions.Sublist
      (mapGvaLevel answers σ used slot entry₀ next₀).vm.memRegions := by
  refine mapGvaLevel_invariant (P := fun τ => σ.memRegions.Sublist τ.memRegions)
    ?_ ?_ answers used slot entry₀ next₀ (List.Sublist.refl _)
  · intro τ g v hτ
    simpa using hτ
  · intro τ g a hτ
    exact hτ.trans (sublist_vmMemAlloc τ 1 g a)

theorem sublist_mapGvaLoop
    (env : MapGvaEnv) (n k : Nat) (σ : VmMem) (used : Nat) (gva gpa : U64) :
    σ.memRegions.Sublist (mapGvaLoop env n k σ used gva gpa).memRegions := by
  refine mapGvaLoop_invariant (P := fun τ => σ.memRegions.Sublist τ.memRegions)
    ?_ ?_ env n k used gva gpa (List.Sublist.refl _)
  · intro τ g v hτ
    simpa using hτ
  · intro τ g a hτ
    exact hτ.trans (sublist_vmMemAlloc τ 1 g a)

theorem toNat_and_pageMask_aligned (x : U64) : (x &&& pageMask).toNat % 4096 = 0 := by
  rw [toNat_and_pageMask]
  omega

section Loop

variable {l : List MemRegion} {σ₀ σ : VmMem} {T₀ T : Tables}

/-- **One iteration of the loop.**  The page is mapped, and no other; tables are added on
the way to it only. -/
theorem mapGvaPage_spec
    {answers : Nat → HostAnswer}
    (hgr : Granted answers σ₀ l) (hgrown : Grown σ₀ T₀ σ T)
    (h : TablesOk σ T)
    (locals : LoopLocals) (used : Nat) (gva gpa : U64) :
    let r := mapGvaPage answers locals σ used gva gpa
    r.1.memRegions.Sublist l →
      ∃ T', TablesOk r.1 T' ∧ Grown σ T r.1 T' ∧
        (∀ p, (T'.node p).isSome → (T.node p).isSome ∨ p <:+ tablePath gva) ∧
        T'.leaf = Function.update T.leaf (tablePath gva) (some (gpa &&& pageMask)) := by
  intro r hsub
  obtain ⟨hpt, hpd, hpdpt, hpml4⟩ := decodeGva_slots gva
  simp only [r, mapGvaPage, hpt, hpd, hpdpt, hpml4] at hsub ⊢
  rw [writeU64_memRegions] at hsub
  -- the PDPT
  have hsub₂ := (sublist_mapGvaLevel answers _ _ _ _ _).trans hsub
  have hsub₁ := (sublist_mapGvaLevel answers _ _ _ _ _).trans hsub₂
  obtain ⟨T₁, hok₁, hgrow₁, hnode₁, hrest₁, hleaf₁⟩ :=
    mapGvaLevel_spec hgr hgrown h h.held.root_node (by simp)
      (tableIx 39 gva) used locals.pml4e locals.pdptGpa hsub₁
  -- the PD
  obtain ⟨T₂, hok₂, hgrow₂, hnode₂, hrest₂, hleaf₂⟩ :=
    mapGvaLevel_spec hgr (hgrown.trans hgrow₁) hok₁ hnode₁ (by simp)
      (tableIx 30 gva) _ locals.pdpte locals.pdGpa hsub₂
  -- the PT
  obtain ⟨T₃, hok₃, hgrow₃, hnode₃, hrest₃, hleaf₃⟩ :=
    mapGvaLevel_spec hgr ((hgrown.trans hgrow₁).trans hgrow₂) hok₂ hnode₂ (by simp)
      (tableIx 21 gva) _ locals.pde locals.ptGpa hsub
  obtain ⟨hok, hgrow⟩ := hok₃.setLeaf hnode₃ rfl (tableIx 12 gva)
    (toNat_and_pageMask_aligned gpa)
  refine ⟨_, hok, ((hgrow₁.trans hgrow₂).trans hgrow₃).trans hgrow, ?_, ?_⟩
  · intro p hp
    by_cases hpath : p <:+ tablePath gva
    · exact Or.inr hpath
    · -- off the path the three levels changed nothing
      have hne : ∀ q, q <:+ tablePath gva → p ≠ q := fun q hq hcon => hpath (hcon ▸ hq)
      left
      rw [Tree.setLeaf_node, hrest₃ p (hne _ (List.suffix_cons _ _)),
        hrest₂ p (hne _ ⟨[tableIx 12 gva, tableIx 21 gva], rfl⟩),
        hrest₁ p (hne _ ⟨[tableIx 12 gva, tableIx 21 gva, tableIx 30 gva], rfl⟩)] at hp
      exact hp
  · show Function.update T₃.leaf _ _ = _
    rw [hleaf₃, hleaf₂, hleaf₁]
    rfl

/-- The frames that the loop sets, by path. -/
def mapLeaves (leaf : List (Fin 512) → Option U64) :
    Nat → U64 → U64 → List (Fin 512) → Option U64
  | 0, _, _ => leaf
  | n + 1, gva, gpa =>
      mapLeaves (Function.update leaf (tablePath gva) (some (gpa &&& pageMask)))
        n (gva + confPageSize) (gpa + confPageSize)

/-- **The loop of `map_gva`.** -/
theorem mapGvaLoop_spec
    {env : MapGvaEnv}
    (hgr : Granted env.answers σ₀ l) (hgrown : Grown σ₀ T₀ σ T)
    (h : TablesOk σ T)
    (n k used : Nat) (gva gpa : U64)
    (hsub : (mapGvaLoop env n k σ used gva gpa).memRegions.Sublist l) :
    ∃ T', TablesOk (mapGvaLoop env n k σ used gva gpa) T' ∧
      Grown σ T (mapGvaLoop env n k σ used gva gpa) T' ∧
      (T.Pruned → T'.Pruned) ∧
      T'.leaf = mapLeaves T.leaf n gva gpa := by
  induction n generalizing k σ T used gva gpa with
  | zero =>
      exact ⟨T, h, Grown.refl σ T, id, rfl⟩
  | succ n ih =>
      simp only [mapGvaLoop] at hsub ⊢
      obtain ⟨T₁, hok₁, hgrow₁, hnode₁, hleaf₁⟩ :=
        mapGvaPage_spec hgr hgrown h (env.locals k) used gva gpa
          ((sublist_mapGvaLoop env n _ _ _ _ _).trans hsub)
      obtain ⟨T₂, hok₂, hgrow₂, hpruned₂, hleaf₂⟩ :=
        ih (hgrown.trans hgrow₁) hok₁ (k + 1) _ (gva + confPageSize)
          (gpa + confPageSize) hsub
      refine ⟨T₂, hok₂, hgrow₁.trans hgrow₂,
        fun hpruned => hpruned₂ (hpruned.setLeaf hnode₁ hleaf₁), ?_⟩
      rw [hleaf₂, hleaf₁]
      rfl

end Loop

/-! ## The whole call -/

/-- No table. -/
def noTables : Tables where
  node := fun _ => none
  leaf := fun _ => none

/-- The memory holds the tables `T`; there are none before the first call of
`map_gva`. -/
structure BuildOk (σ : VmMem) (T : Tables) : Prop where
  regions : RegionsOk σ.memRegions
  host : HostOk σ.memRegions
  low : ∀ p ∈ σ.memRegions, p.hi ≤ 2 ^ 52
  tables : TablesOk σ T ∨ (σ.pml4 = 0 ∧ T = noTables)
  unrooted : σ.pml4 = 0 → σ.pml4Gpa = 0

theorem TablesOk.buildOk {σ : VmMem} {T : Tables} (h : TablesOk σ T) :
    BuildOk σ T :=
  ⟨h.regions, h.host, h.low, Or.inl h, fun hnull => absurd hnull h.root⟩

theorem BuildOk.congr {σ τ : VmMem} {T : Tables} (h : BuildOk σ T)
    (hregions : RegionsOk τ.memRegions) (hhost : HostOk τ.memRegions)
    (hlow : ∀ p ∈ τ.memRegions, p.hi ≤ 2 ^ 52)
    (hsub : σ.memRegions.Sublist τ.memRegions)
    (hpml4 : τ.pml4 = σ.pml4) (hpml4Gpa : τ.pml4Gpa = σ.pml4Gpa)
    (hmem : ∀ x, TableByte σ T x → τ.mem x = σ.mem x) :
    BuildOk τ T := by
  refine ⟨hregions, hhost, hlow, ?_,
    fun hnull => hpml4Gpa.trans (h.unrooted (hpml4.symm.trans hnull))⟩
  rcases h.tables with htables | ⟨hnull, hT⟩
  · exact Or.inl
      (htables.congr hregions hhost hlow hsub hpml4 hpml4Gpa hmem)
  · exact Or.inr ⟨hpml4.trans hnull, hT⟩

/-- A page without entries is a root. -/
theorem NewPage.tablesOk
    {answers : Nat → HostAnswer} {l : List MemRegion}
    {σ τ : VmMem} {g hva : U64}
    (hgr : Granted answers σ l) (hnew : NewPage σ τ g hva)
    (hva_ne : hva ≠ 0) (hsub : τ.memRegions.Sublist l) :
    let τ' := { τ with pml4 := hva, pml4Gpa := g }
    TablesOk τ' (Tree.rootOnly g) ∧ Grown σ noTables τ' (Tree.rootOnly g) := by
  intro τ'
  have hhost : HostOk τ.memRegions := hgr.host.sublist hsub
  have hnode : ∀ p k, (Tree.rootOnly g : Tables).node p = some k → g = k := by
    intro p k hp
    simp only [Tree.rootOnly] at hp
    split_ifs at hp
    exact Option.some.inj hp
  constructor
  · refine ⟨hnew.ok, hhost, fun p hp => hgr.low p (hsub.subset hp), hva_ne, ?_, ?_, ?_⟩
    · apply held_rootOnly
      intro i
      rw [← hgr.empty (Grown.refl σ noTables) hnew hsub i,
        VmMem.entry_of_isPage hnew.ok hhost hnew.page]
      exact VmMem.entry_of_isPage (σ := τ') hnew.ok hhost hnew.page i
    · intro p k hp
      exact ⟨hva, hnode p k hp ▸ hnew.page⟩
    · intro q v hq
      simp [Tree.rootOnly] at hq
  · refine ⟨hnew.regions, fun p k hp => ?_, ?_, ?_, fun x _ => congrFun hnew.mem x⟩
    · simp [noTables] at hp
    · intro r hr
      refine (hnew.only r hr).imp_right fun heq => ?_
      exact ⟨[], g, hva, by simp [Tree.rootOnly], heq⟩
    · intro p k hp
      exact Or.inr (hnode p k hp ▸ hnew.fresh)

/-- **What a call of `map_gva` does**, when the host grants what it asks for. -/
theorem mapGva_spec
    {σ : VmMem} {T : Tables} {gva npages gpa : U64} {env : MapGvaEnv}
    (h : BuildOk σ T)
    (hgr : Granted env.answers σ (mapGva σ gva npages gpa env).2.memRegions) :
    (mapGva σ gva npages gpa env).1 = 0 ∧
      ∃ T', TablesOk (mapGva σ gva npages gpa env).2 T' ∧
        Grown σ T (mapGva σ gva npages gpa env).2 T' ∧
        (T.Pruned → T'.Pruned) ∧
        T'.leaf =
          mapLeaves T.leaf npages.toNat (gva &&& pageMask) (gpa &&& pageMask) := by
  rcases h.tables with htables | ⟨hnull, rfl⟩
  · simp only [mapGva, if_neg htables.root] at hgr ⊢
    exact ⟨trivial, mapGvaLoop_spec hgr (Grown.refl σ T) htables _ _ _ _ _
      (List.Sublist.refl _)⟩
  · obtain ⟨g, τ, halloc, hnew⟩ := vmMemAlloc_page σ.pml4Gpa h.regions h.low
      (hgr.valloc 0) (hgr.hvVmMap 0) (hgr.malloc 0)
    simp only [mapGva, if_pos hnull, halloc, if_neg (hgr.valloc 0)] at hgr ⊢
    have hsub := sublist_mapGvaLoop env npages.toNat 0
      { τ with pml4 := (env.answers 0).valloc, pml4Gpa := g } 1
      (gva &&& pageMask) (gpa &&& pageMask)
    obtain ⟨hroot, hgrown⟩ := hnew.tablesOk hgr (hgr.valloc 0) hsub
    obtain ⟨T', hok, hgrow, hpruned, hleaf⟩ := mapGvaLoop_spec hgr hgrown hroot
      npages.toNat 0 1 (gva &&& pageMask) (gpa &&& pageMask) (List.Sublist.refl _)
    exact ⟨trivial, T', hok, hgrown.trans hgrow,
      fun _ => hpruned (Tree.pruned_rootOnly g), hleaf⟩

end Hvexec
