import Hvexec.BufferCheck

/-!
# The page tables of the guest

The guest may manage its own page tables.  It may write to those that hvexec made, and
it may make others and load CR3 with their root, which causes no exit.

`gva_to_gpa` keeps to the root that `map_gva` allocated.  Whatever flags the entries
carry, it agrees with the processor as long as CR3 names that page, and with any other
page of guest memory as a root some contents of the memory lead it astray.
-/

namespace Hvexec

open ByteMemory RadixTable

/-- The bit of an entry that makes it map a large page. -/
def isLarge (e : U64) : Bool :=
  e[7]

/-- `PageWalk σ g is page`: from the table at `g` the processor finds `page` through the
entries numbered `is`.  Each lies in a region and is present, and none but the last one
may be large: in a PT the bit means something else. -/
inductive PageWalk (σ : VmMem) : U64 → List (Fin 512) → U64 → Prop
  | page (g : U64) : PageWalk σ g [] g
  | entry {g page : U64} {i : Fin 512} {is : List (Fin 512)}
      (hregion : InRegion σ.memRegions (g + BitVec.ofNat 64 (8 * i.val)))
      (hpresent : isPresent (σ.entry g i) = true)
      (hsmall : is ≠ [] → isLarge (σ.entry g i) = false)
      (rest : PageWalk σ (entryFrame (σ.entry g i)) is page) :
      PageWalk σ g (i :: is) page

/-- With `cr3` in CR3 the processor translates `gva` to `x`, by pages of 4 KB. -/
def GuestTranslates (σ : VmMem) (cr3 gva x : U64) : Prop :=
  ∃ page, PageWalk σ (entryFrame cr3) (indices gva) page ∧ x = withOffset page gva

/-- `gva_to_gpa` agrees with the processor about every address that it translates. -/
def HostAgrees (σ : VmMem) (cr3 : U64) : Prop :=
  ∀ entry₀ gva x, GuestTranslates σ cr3 gva x → gvaToGpa σ entry₀ gva = x

theorem PageWalk.lookup {σ : VmMem} {g page : U64} {is : List (Fin 512)}
    (h : PageWalk σ g is page) :
    RadixTable.lookup isPresent entryFrame σ.entry g is = .ok page := by
  induction h with
  | page g =>
      rfl
  | entry hregion hpresent hsmall rest ih =>
      rw [RadixTable.lookup, if_pos hpresent]
      exact ih

/-- Regions are made of whole pages. -/
theorem inRegion_page_iff {l : List MemRegion} (h : RegionsOk l) {g : U64}
    (hg : g.toNat % 4096 = 0) {n : Nat} (hn : n < 4096) :
    InRegion l (g + BitVec.ofNat 64 n) ↔ InRegion l g := by
  have hsum : (g + BitVec.ofNat 64 n).toNat = g.toNat + n :=
    toNat_add_ofNat (by omega)
  refine exists_congr fun p => and_congr_right fun hp => ?_
  have haligned := h.aligned p hp
  rw [hsum]
  unfold MemRegion.lo MemRegion.hi
  omega

theorem entryFrame_aligned (e : U64) : (entryFrame e).toNat % 4096 = 0 := by
  rw [entryFrame, toNat_and_entryMask]
  omega

theorem isFrame_entryFrame (e : U64) : IsFrame (entryFrame e) := by
  refine ⟨entryFrame_aligned e, ?_⟩
  rw [entryFrame, toNat_and_entryMask]
  omega

/-! ## CR3 names the root of the host -/

section Agree

variable {σ : VmMem} {cr3 : U64}

/-- **The same root**: whatever the entries hold, the two walks agree. -/
theorem GuestState.hostAgrees (h : GuestState σ) (hcr3 : entryFrame cr3 = σ.pml4Gpa) :
    HostAgrees σ cr3 := by
  rintro entry₀ gva x ⟨page, hwalk, rfl⟩
  rw [hcr3] at hwalk
  exact h.gvaToGpa_of_lookup hwalk.lookup entry₀

/-- Where CR3 names no memory there is nothing to agree about. -/
theorem GuestState.hostAgrees_of_not_inRegion (h : GuestState σ)
    (hcr3 : ¬ InRegion σ.memRegions (entryFrame cr3)) :
    HostAgrees σ cr3 := by
  rintro entry₀ gva x ⟨page, hwalk, rfl⟩
  cases hwalk with
  | entry hregion _ _ _ =>
      exact absurd ((inRegion_page_iff h.regions (entryFrame_aligned cr3) (by omega)).mp hregion)
        hcr3

end Agree

/-! ## CR3 names another page -/

/-- Guest-physical memory may hold anything. -/
theorem exists_mem {l : List MemRegion} (h : RegionsOk l) (hhost : HostOk l) (c : U64 → Byte) :
    ∃ mem : U64 → Byte, ∀ x, InRegion l x → mem (gpaToHva l x) = c x := by
  have hinj : Set.InjOn (gpaToHva l) {x | InRegion l x} :=
    fun x hx y hy heq => gpaToHva_injective h hhost hx hy heq
  refine ⟨fun v => c (Function.invFunOn (gpaToHva l) {x | InRegion l x} v), fun x hx => ?_⟩
  exact congrArg c (hinj.leftInvOn_invFunOn hx)

/-- Every page is a table all of whose entries name the page itself. -/
def SelfMapped (σ : VmMem) : Prop :=
  ∀ g : U64, g.toNat % 4096 = 0 → InRegion σ.memRegions g → ∀ i, σ.entry g i = link g

/-- An entry is read from its eight bytes, the lowest first. -/
theorem GuestState.entry_of_bytes {σ : VmMem} (h : GuestState σ) {g w : U64}
    (hg : g.toNat % 4096 = 0) (hin : InRegion σ.memRegions g) (i : Fin 512)
    (hbytes : ∀ j < 8, σ.byteAt (g + BitVec.ofNat 64 (8 * i.val) + BitVec.ofNat 64 j) =
      some ((leBytes 8 w.toNat).getD j 0)) :
    σ.entry g i = w := by
  have hi := i.isLt
  have hslot := (inRegion_page_iff h.regions hg (n := 8 * i.val) (by omega)).mpr hin
  obtain ⟨p, hp, hlo, hend, hread⟩ := h.read_slot hg i hslot
  generalize hx : g + BitVec.ofNat 64 (8 * i.val) = x at hlo hend hread hbytes
  have hslice : slice σ.mem (p.hva + (x - p.gpa)) 8 = leBytes 8 w.toNat := by
    have hall := @slice_eq_of_bytes σ.mem (p.hva + (x - p.gpa)) (leBytes 8 w.toNat)
    rw [length_leBytes] at hall
    refine hall fun j hj => ?_
    have hbelow := h.regions.below p hp
    have hsum : (x + BitVec.ofNat 64 j).toNat = x.toNat + j :=
      toNat_add_ofNat (by omega)
    have hbyte := hbytes j hj
    rw [byteAt_of_mem h.regions h.host hp (by omega) (by omega)] at hbyte
    have haddr : p.hva + (x - p.gpa) + BitVec.ofNat 64 j =
        p.hva + (x + BitVec.ofNat 64 j - p.gpa) := by
      bv_omega
    rw [haddr]
    exact Option.some.inj hbyte
  rw [VmMem.entry, hx, readU64, hread, hslice, leNat_leBytes,
    Nat.mod_eq_of_lt (show w.toNat < 256 ^ 8 from w.isLt), BitVec.ofNat_toNat,
    BitVec.setWidth_eq]

/-- A byte of a self-mapped memory. -/
def selfMapByte (x : U64) : Byte :=
  (leBytes 8 (link (x &&& pageMask)).toNat).getD (x.toNat % 8) 0

theorem exists_selfMapped (σ : VmMem) (h : GuestState σ) :
    ∃ mem, SelfMapped { σ with mem := mem } := by
  obtain ⟨mem, hmem⟩ := exists_mem h.regions h.host selfMapByte
  have hstate : GuestState { σ with mem := mem } := ⟨h.regions, h.host, h.root⟩
  refine ⟨mem, fun g hg hin i => hstate.entry_of_bytes hg hin i fun j hj => ?_⟩
  have hi := i.isLt
  have hoff : g + BitVec.ofNat 64 (8 * i.val) + BitVec.ofNat 64 j =
      g + BitVec.ofNat 64 (8 * i.val + j) := by
    rw [BitVec.add_assoc, ← BitVec.ofNat_add]
  have hsum : (g + BitVec.ofNat 64 (8 * i.val + j)).toNat = g.toNat + (8 * i.val + j) :=
    toNat_add_ofNat (by omega)
  have hpage : (g + BitVec.ofNat 64 (8 * i.val + j)) &&& pageMask = g := by
    apply BitVec.eq_of_toNat_eq
    rw [toNat_and_pageMask, hsum]
    omega
  have hbyte : selfMapByte (g + BitVec.ofNat 64 (8 * i.val + j)) =
      (leBytes 8 (link g).toNat).getD j 0 := by
    rw [selfMapByte, hpage, hsum]
    congr 1
    omega
  have hslot := (inRegion_page_iff h.regions hg (n := 8 * i.val + j) (by omega)).mpr hin
  have hne := (gpaToHva_ne_zero_iff h.regions h.host _).mpr hslot
  rw [hoff, VmMem.byteAt, if_neg hne]
  exact congrArg some ((hmem _ hslot).trans hbyte)

theorem isLarge_link {g : U64} (hg : g.toNat % 4096 = 0) : isLarge (link g) = false := by
  have hbit : (link g).toNat.testBit 7 = false := by
    rw [toNat_link hg, Nat.testBit_eq_decide_div_mod_eq, decide_eq_false_iff_not]
    omega
  exact hbit

/-- The processor never leaves a page that names itself. -/
theorem SelfMapped.pageWalk {σ : VmMem} (h : SelfMapped σ) (hregions : RegionsOk σ.memRegions)
    {g : U64} (hg : IsFrame g) (hin : InRegion σ.memRegions g) :
    ∀ is, PageWalk σ g is g
  | [] => .page g
  | i :: is => by
      have hi := i.isLt
      have hentry := h g hg.aligned hin i
      have hback : entryFrame (σ.entry g i) = g := by
        rw [hentry]
        exact link_and_entryMask hg
      refine .entry ?_ ?_ ?_ ?_
      · exact (inRegion_page_iff hregions hg.aligned (by omega)).mpr hin
      · rw [hentry]
        exact isPresent_link g
      · intro _
        rw [hentry]
        exact isLarge_link hg.aligned
      · rw [hback]
        exact h.pageWalk hregions hg hin is

theorem Built.root {σ : VmMem} (h : Built σ) (hroot : σ.pml4 ≠ 0) :
    IsFrame σ.pml4Gpa ∧ InRegion σ.memRegions σ.pml4Gpa := by
  obtain ⟨T, hT⟩ := h.tablesOk hroot
  obtain ⟨hva, hpage⟩ := hT.page [] _ hT.held.root_node
  exact ⟨hT.isFrame hT.held.root_node, hpage.inRegion⟩

/-- The frames of two addresses are one when the addresses are. -/
theorem withOffset_inj {e e' gva : U64}
    (h : withOffset (entryFrame e) gva = withOffset (entryFrame e') gva) :
    entryFrame e = entryFrame e' := by
  have hsum := congrArg BitVec.toNat h
  rw [toNat_withOffset, toNat_withOffset, Nat.add_right_cancel_iff] at hsum
  apply BitVec.eq_of_toNat_eq
  rw [entryFrame, entryFrame, toNat_and_entryMask, toNat_and_entryMask]
  exact hsum

/-- **When the host keeps up with CR3.**  `gva_to_gpa` agrees with the processor on
every memory if and only if CR3 names the page of `pml4_gpa`, or no memory at all. -/
theorem gvaToGpa_agrees_iff (σ : VmMem) (h : Built σ) (hroot : σ.pml4 ≠ 0) (cr3 : U64) :
    (∀ mem, HostAgrees { σ with mem := mem } cr3) ↔
      entryFrame cr3 = σ.pml4Gpa ∨ ¬ InRegion σ.memRegions (entryFrame cr3) := by
  have hstate := h.guestState_mem
  constructor
  · intro hagree
    by_contra hcon
    obtain ⟨hother, hnamed⟩ := not_or.mp hcon
    obtain ⟨hframe, hin⟩ := h.root hroot
    obtain ⟨mem, hself⟩ := exists_selfMapped σ h.guestState
    have hback : entryFrame (link σ.pml4Gpa) = σ.pml4Gpa :=
      link_and_entryMask hframe
    -- each of the two roots names itself as the page of address zero
    have hguest := hself.pageWalk h.guestState.regions (isFrame_entryFrame cr3)
      (not_not.mp hnamed) (indices 0)
    have hhost := hself.pageWalk h.guestState.regions hframe hin (indices 0)
    have hleft := hagree mem 0 0 _ ⟨_, hguest, rfl⟩
    have hright := (hstate mem).hostAgrees hback 0 0 _
      ⟨_, by rw [hback]; exact hhost, rfl⟩
    apply hother
    rw [← hback]
    have hsame : withOffset (entryFrame cr3) 0 =
        withOffset (entryFrame (link σ.pml4Gpa)) 0 := by
      rw [← hleft, hright, hback]
    exact withOffset_inj hsame
  · rintro (hsame | hout) mem
    · exact (hstate mem).hostAgrees hsame
    · exact (hstate mem).hostAgrees_of_not_inRegion hout

theorem gvaToGpa_agrees_iff_bootSetUp :
    (∀ mem, HostAgrees { bootSetUp.afterLoad.vm with mem := mem }
        bootSetUp.afterLoad.vm.pml4Gpa) ↔
      entryFrame bootSetUp.afterLoad.vm.pml4Gpa = bootSetUp.afterLoad.vm.pml4Gpa ∨
        ¬ InRegion bootSetUp.afterLoad.vm.memRegions
          (entryFrame bootSetUp.afterLoad.vm.pml4Gpa) := by
  refine gvaToGpa_agrees_iff _ bootSetUp_ok.built ?_ _
  intro hnull
  have hlookup := bootSetUp_lookup_image
  rw [VmMem.lookup, if_pos hnull] at hlookup
  simp at hlookup

/-! ## A root in the initial region -/

/-- The guest made a table of its own at `0x9000`; the first entry names the table. -/
def ownTables : VmMem :=
  bootSetUp.withMem (overwrite bootSetUp.afterLoad.vm.mem 0x60009000 (leBytes 8 0x9003))

theorem ownTables_outside (x : U64) (hx : ¬ bootSetUp.OwnByte x) :
    overwrite bootSetUp.afterLoad.vm.mem 0x60009000 (leBytes 8 0x9003) x =
      bootSetUp.afterLoad.vm.mem x :=
  bootSetUp.overwrite_outside _ (by decide) (by decide) (by decide) hx

theorem SetUp.memRegions_withMem (s : SetUp) (mem : U64 → Byte) :
    (s.withMem mem).memRegions = s.afterLoad.vm.memRegions :=
  rfl

theorem ownTables_memRegions : ownTables.memRegions = bootSetUp.afterLoad.vm.memRegions :=
  bootSetUp.memRegions_withMem _

theorem ownTables_entry : ownTables.entry 0x9000 0 = 0x9003 := by
  have hstate : GuestState ownTables :=
    (bootSetUp_ok.write (by decide) ownTables_outside).1.guestState
  have hin : InRegion ownTables.memRegions 0x9000 := by
    rw [ownTables_memRegions]
    exact bootSetUp_region (by decide)
  have hnum : bootSetUp.numPages.toNat = 16 := rfl
  refine hstate.entry_of_bytes (by decide) hin 0 fun j hj => ?_
  have haddr : (0x9000 + BitVec.ofNat 64 (8 * (0 : Fin 512).val) + BitVec.ofNat 64 j : U64) =
      0x9000 + BitVec.ofNat 64 j := rfl
  have hoff : bootSetUp.answer.valloc + (0x9000 + BitVec.ofNat 64 j) - 0x60009000 =
      BitVec.ofNat 64 j := by
    have hvalloc : bootSetUp.answer.valloc = 0x60000000 := rfl
    rw [hvalloc]
    bv_omega
  have hlen : (leBytes 8 0x9003).length = 8 := rfl
  have hbyte := bootSetUp_ok.byteAt_own
    (overwrite bootSetUp.afterLoad.vm.mem 0x60009000 (leBytes 8 0x9003))
    (a := 0x9000 + BitVec.ofNat 64 j) (by rw [hnum]; bv_omega)
  rw [overwrite_of_lt _ 0 (by rw [hoff, hlen]; bv_omega), hoff, BitVec.toNat_ofNat,
    Nat.mod_eq_of_lt (by omega)] at hbyte
  rw [ownTables, haddr, hbyte]
  rfl

/-- The processor finds the table again at every level, `gva_to_gpa` the page that the
tables of the host map. -/
theorem ownTables_not_hostAgrees :
    Built ownTables ∧ ¬ HostAgrees ownTables 0x9000 := by
  obtain ⟨hbuilt, _⟩ := bootSetUp_ok.write (by decide) ownTables_outside
  refine ⟨hbuilt, fun hagree => ?_⟩
  have hin : InRegion ownTables.memRegions (0x9000 + BitVec.ofNat 64 (8 * (0 : Fin 512).val)) := by
    rw [ownTables_memRegions]
    exact bootSetUp_region (by decide)
  have hwalk : ∀ n, PageWalk ownTables 0x9000 (List.replicate n 0) 0x9000 := by
    intro n
    induction n with
    | zero =>
        exact .page 0x9000
    | succ n ih =>
        refine .entry hin ?_ ?_ ?_
        · rw [ownTables_entry]
          rfl
        · intro _
          rw [ownTables_entry]
          rfl
        · rw [ownTables_entry]
          exact ih
  have hguest : gvaToGpa ownTables 0 0 = withOffset 0x9000 0 :=
    hagree 0 0 _ ⟨_, hwalk 4, rfl⟩
  have htranslate := bootSetUp_ok.translate_own (by decide) ownTables_outside
    (a := 0) (by decide)
  have hhost : gvaToGpa ownTables 0 0 = 0 :=
    hbuilt.gvaToGpa_of_translate htranslate 0
  rw [hhost] at hguest
  exact absurd hguest (by decide)

end Hvexec
