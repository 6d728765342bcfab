import Hvexec.SetUpStates
import Hvexec.Transfers

/-!
# The check of a buffer

`vm_mem_verify` is meant to accept the buffers that the guest can reach: every
byte present at all four levels of the tables, at a physical address in a
region.  It asks `gva_to_gpa`, which tests no entry.  Where an entry is missing
the walk goes on in physical page zero, which may well be memory of the guest.

So a buffer with missing bytes is accepted exactly when all its bytes, strayed
or not, end in a region.
-/

namespace Hvexec

open ByteMemory RadixTable

/-! ## What the check reads -/

theorem vmMemVerifyLoop_eq_zero_iff {σ : VmMem}
    (h : RegionsOk σ.memRegions) (hhost : HostOk σ.memRegions)
    (entry₀ : Nat → U64) :
    ∀ (n : Nat) (gva : U64),
      vmMemVerifyLoop σ entry₀ n gva = 0 ↔
        ∀ i < n, InRegion σ.memRegions
          (gvaToGpa σ (entry₀ (n - i)) (gva + BitVec.ofNat 64 i))
  | 0, gva => by
      simp [vmMemVerifyLoop]
  | n + 1, gva => by
      have hfirst := gpaToHva_ne_zero_iff h hhost (gvaToGpa σ (entry₀ (n + 1)) gva)
      rw [vmMemVerifyLoop]
      split_ifs with hnull
      · have hout := mt hfirst.mpr (not_not.mpr hnull)
        constructor
        · intro hcode
          simp at hcode
        · intro hall
          have hzero := hall 0 (Nat.succ_pos n)
          rw [Nat.sub_zero, BitVec.add_zero] at hzero
          exact absurd hzero hout
      · have hin := hfirst.mp hnull
        rw [vmMemVerifyLoop_eq_zero_iff h hhost entry₀ n (gva + 1)]
        constructor
        · intro hrest i hi
          cases i with
          | zero =>
              rw [Nat.sub_zero, BitVec.add_zero]
              exact hin
          | succ i =>
              have hnext := hrest i (by omega)
              rwa [add_one_ofNat, ← Nat.succ_sub_succ n i] at hnext
        · intro hall i hi
          rw [add_one_ofNat, ← Nat.succ_sub_succ n i]
          exact hall (i + 1) (by omega)

/-! ## What the processor finds -/

/-- The physical address that the processor finds. -/
def VmMem.translate (σ : VmMem) (gva : U64) : Option U64 :=
  match σ.lookup gva with
  | .ok g => some (withOffset g gva)
  | .error _ => none

/-- The guest can reach the byte at `gva`. -/
def Reachable (σ : VmMem) (gva : U64) : Prop :=
  ∃ x, σ.translate gva = some x ∧ InRegion σ.memRegions x

/-- The regions are in order, over disjoint blocks, and the PML4 begins a page.  What the
tables and the rest of memory hold is left open. -/
structure GuestState (σ : VmMem) : Prop where
  regions : RegionsOk σ.memRegions
  host : HostOk σ.memRegions
  root : σ.pml4Gpa.toNat % 4096 = 0

theorem Built.regionsOk {σ : VmMem} (h : Built σ) :
    RegionsOk σ.memRegions ∧ HostOk σ.memRegions := by
  obtain ⟨T, hT⟩ := h.buildOk
  exact ⟨hT.regions, hT.host⟩

theorem Built.guestState {σ : VmMem} (h : Built σ) :
    GuestState σ := by
  obtain ⟨hregions, hhost⟩ := h.regionsOk
  refine ⟨hregions, hhost, ?_⟩
  obtain ⟨T, hT⟩ := h.buildOk
  rcases hT.tables with htables | ⟨hnull, _⟩
  · exact (htables.isFrame htables.held.root_node).aligned
  · rw [hT.unrooted hnull]
    rfl

/-- So it stays, whatever is written. -/
theorem Built.guestState_mem {σ : VmMem} (h : Built σ) (mem : U64 → Byte) :
    GuestState { σ with mem := mem } :=
  ⟨h.guestState.regions, h.guestState.host, h.guestState.root⟩

section State

variable {σ : VmMem}

/-- The slot of an entry lies in one region, and reading it gives eight bytes. -/
theorem GuestState.read_slot (h : GuestState σ) {g : U64} (hg : g.toNat % 4096 = 0)
    (i : Fin 512) (hin : InRegion σ.memRegions (g + BitVec.ofNat 64 (8 * i.val))) :
    ∃ p ∈ σ.memRegions, p.lo ≤ (g + BitVec.ofNat 64 (8 * i.val)).toNat ∧
      (g + BitVec.ofNat 64 (8 * i.val)).toNat + 8 ≤ p.hi ∧
      ∀ old : U64, (vmMemRead σ (g + BitVec.ofNat 64 (8 * i.val)) (leBytes 8 old.toNat)).2 =
        slice σ.mem (p.hva + (g + BitVec.ofNat 64 (8 * i.val) - p.gpa)) 8 := by
  have hi := i.isLt
  have hslot : (g + BitVec.ofNat 64 (8 * i.val)).toNat = g.toNat + 8 * i.val :=
    toNat_add_ofNat (by omega)
  obtain ⟨p, hp, hlo, hhi⟩ := hin
  have haligned := h.regions.aligned p hp
  have hend : (g + BitVec.ofNat 64 (8 * i.val)).toNat + 8 ≤ p.hi := by
    unfold MemRegion.hi at *
    omega
  refine ⟨p, hp, hlo, hend, fun old => ?_⟩
  have hmem := vmMemRead_of_mem (g + BitVec.ofNat 64 (8 * i.val)) h.regions h.host hp
    (leBytes 8 old.toNat) hlo (by rw [length_leBytes]; exact hend)
  rw [length_leBytes] at hmem
  rw [hmem]

/-- An entry that is present was read. -/
theorem GuestState.readEntry (h : GuestState σ) {g : U64} (hg : g.toNat % 4096 = 0)
    (entry : U64) (i : Fin 512) (hpresent : isPresent (σ.entry g i) = true) :
    σ.readEntry entry g i = σ.entry g i := by
  unfold VmMem.readEntry VmMem.entry at *
  by_cases hin : InRegion σ.memRegions (g + BitVec.ofNat 64 (8 * i.val))
  · obtain ⟨p, _, _, _, hread⟩ := h.read_slot hg i hin
    rw [readU64, readU64, hread, hread]
  · -- outside the regions the zero in the buffer stays, which is not present
    have hnull := not_not.mp (mt (gpaToHva_ne_zero_iff h.regions h.host _).mp hin)
    rw [readU64, vmMemRead_of_null hnull, leNat_leBytes] at hpresent
    exact absurd hpresent (by decide)

/-- Where the processor finds its way from the PML4, `gva_to_gpa` does. -/
theorem GuestState.gvaToGpa_of_lookup (h : GuestState σ) {gva g : U64}
    (hlookup : RadixTable.lookup isPresent entryFrame σ.entry σ.pml4Gpa (indices gva) = .ok g)
    (entry₀ : U64) :
    gvaToGpa σ entry₀ gva = withOffset g gva := by
  have hframe : ∀ e, (entryFrame e).toNat % 4096 = 0 := by
    intro e
    rw [entryFrame, toNat_and_entryMask]
    omega
  have hwalk := follow_of_lookup (P := fun g : U64 => g.toNat % 4096 = 0) hframe
    (fun g e i hg hpresent => h.readEntry hg e i hpresent) (indices gva) σ.pml4Gpa g
    entry₀ h.root (fun hnil => by simp [indices] at hnil) hlookup
  rw [gvaToGpa_eq_walk]
  exact congrArg (withOffset · gva) hwalk

/-- `gva_to_gpa` finds what the processor finds. -/
theorem GuestState.gvaToGpa_of_translate (h : GuestState σ) {gva x : U64}
    (hx : σ.translate gva = some x) (entry₀ : U64) :
    gvaToGpa σ entry₀ gva = x := by
  unfold VmMem.translate at hx
  cases hlookup : σ.lookup gva with
  | error rest =>
      rw [hlookup] at hx
      simp at hx
  | ok g =>
      rw [hlookup] at hx
      obtain rfl := Option.some.inj hx
      have hroot : σ.pml4 ≠ 0 := by
        intro hnull
        rw [VmMem.lookup, if_pos hnull] at hlookup
        simp at hlookup
      rw [VmMem.lookup, if_neg hroot] at hlookup
      exact h.gvaToGpa_of_lookup hlookup entry₀

end State

/-! ## Where the walk ends -/

/-- Where a walk ends that does not stop at a missing entry: it goes on in the
table at physical page zero, with the indices that are left.  `entry` is zero
then, or, when there is no PML4, still unassigned. -/
def strayed (σ : VmMem) (entry₀ gva : U64) : U64 :=
  match σ.lookup gva with
  | .ok g => withOffset g gva
  | .error rest =>
      withOffset (entryFrame (σ.walk 0 (if σ.pml4 = 0 then entry₀ else 0) rest)) gva

/-- `gva_to_gpa` strays at missing entries, in every state of a set-up. -/
theorem Built.gvaToGpa_eq_strayed {σ : VmMem} (h : Built σ) (entry₀ gva : U64) :
    gvaToGpa σ entry₀ gva = strayed σ entry₀ gva := by
  unfold strayed
  by_cases hroot : σ.pml4 = 0
  · obtain ⟨T, hT⟩ := h.buildOk
    have hlookup : σ.lookup gva = .error (indices gva) := if_pos hroot
    simp only [gvaToGpa_eq_walk, hT.unrooted hroot, hlookup, if_pos hroot]
  · obtain ⟨T, hT⟩ := h.tablesOk hroot
    refine (hT.gvaToGpa_eq_lookup entry₀ gva).trans ?_
    cases σ.lookup gva with
    | ok g =>
        rfl
    | error rest =>
        simp only [if_neg hroot]

/-- `gva_to_gpa` agrees with the processor about the bytes that are there. -/
theorem Built.gvaToGpa_of_translate {σ : VmMem} (h : Built σ) {gva x : U64}
    (hx : σ.translate gva = some x) (entry₀ : U64) :
    gvaToGpa σ entry₀ gva = x :=
  h.guestState.gvaToGpa_of_translate hx entry₀

theorem reachable_iff {σ : VmMem} {entry₀ gva : U64} :
    Reachable σ gva ↔
      (σ.translate gva).isSome ∧ InRegion σ.memRegions (strayed σ entry₀ gva) := by
  unfold Reachable VmMem.translate strayed
  cases σ.lookup gva with
  | ok g =>
      simp
  | error rest =>
      simp

/-- The check accepts when every byte, strayed or not, is in a region. -/
theorem Built.vmMemVerify_eq_zero_iff {σ : VmMem} (h : Built σ)
    (entry₀ : Nat → U64) (gva nbytes : U64) :
    vmMemVerify σ entry₀ gva nbytes = 0 ↔
      ∀ i < nbytes.toNat, InRegion σ.memRegions
        (strayed σ (entry₀ (nbytes.toNat - i)) (gva + BitVec.ofNat 64 i)) := by
  obtain ⟨hregions, hhost⟩ := h.regionsOk
  rw [vmMemVerify, vmMemVerifyLoop_eq_zero_iff hregions hhost]
  simp only [h.gvaToGpa_eq_strayed]

/-- **When the check is right.**  `vm_mem_verify` accepts exactly the reachable
buffers if and only if every byte of the buffer is present, or the walk from
some byte, through page zero where an entry is missing, ends outside the
regions. -/
theorem vmMemVerify_exact_iff
    (σ : VmMem) (h : Built σ) (entry₀ : Nat → U64) (gva nbytes : U64) :
    (vmMemVerify σ entry₀ gva nbytes = 0 ↔
      ∀ i < nbytes.toNat, Reachable σ (gva + BitVec.ofNat 64 i)) ↔
    ((∀ i < nbytes.toNat, (σ.translate (gva + BitVec.ofNat 64 i)).isSome) ∨
      ∃ i < nbytes.toNat, ¬ InRegion σ.memRegions
        (strayed σ (entry₀ (nbytes.toNat - i)) (gva + BitVec.ofNat 64 i))) := by
  have hreach : (∀ i < nbytes.toNat, Reachable σ (gva + BitVec.ofNat 64 i)) ↔
      (∀ i < nbytes.toNat, (σ.translate (gva + BitVec.ofNat 64 i)).isSome) ∧
        ∀ i < nbytes.toNat, InRegion σ.memRegions
          (strayed σ (entry₀ (nbytes.toNat - i)) (gva + BitVec.ofNat 64 i)) := by
    rw [← forall₂_and]
    exact forall₂_congr fun i _ => reachable_iff
  have hout : (∃ i < nbytes.toNat, ¬ InRegion σ.memRegions
        (strayed σ (entry₀ (nbytes.toNat - i)) (gva + BitVec.ofNat 64 i))) ↔
      ¬ ∀ i < nbytes.toNat, InRegion σ.memRegions
        (strayed σ (entry₀ (nbytes.toNat - i)) (gva + BitVec.ofNat 64 i)) := by
    push Not
    rfl
  rw [h.vmMemVerify_eq_zero_iff, hreach, hout]
  tauto

/-! ## A page that nothing maps -/

/-- The processor stops at the last level when the PT has no entry. -/
theorem TablesOk.lookup_of_no_leaf {σ : VmMem} {T : Tables} (h : TablesOk σ T)
    (gva : U64) {pt : U64}
    (hpt : T.node [tableIx 21 gva, tableIx 30 gva, tableIx 39 gva] = some pt)
    (hleaf : T.leaf (tablePath gva) = none) :
    σ.lookup gva = .error [] := by
  have hentry : σ.entry pt (tableIx 12 gva) = 0 := by
    rw [h.held.last _ pt hpt rfl]
    simp only [tablePath] at hleaf
    rw [hleaf]
    rfl
  have hwalk := h.held.lookup_append h.entryFrame_link isPresent_link [tableIx 12 gva]
    [tableIx 39 gva, tableIx 30 gva, tableIx 21 gva] [] σ.pml4Gpa pt
    h.held.root_node hpt
  rw [VmMem.lookup, if_neg h.root]
  refine hwalk.trans ?_
  simp [RadixTable.lookup, hentry, isPresent]

/-- A byte that a PT lacks is taken from page zero. -/
theorem toNat_strayed {σ : VmMem} {gva : U64} (hlookup : σ.lookup gva = .error [])
    (entry₀ : U64) :
    (strayed σ entry₀ gva).toNat = gva.toNat % 4096 := by
  have hroot : σ.pml4 ≠ 0 := by
    intro hnull
    rw [VmMem.lookup, if_pos hnull] at hlookup
    simp [indices] at hlookup
  simp only [strayed, hlookup, if_neg hroot, VmMem.walk, follow, toNat_withOffset]
  simp

/-- Where page zero is registered, the check accepts a byte that a PT lacks. -/
theorem Built.accepts_missing {σ : VmMem} (h : Built σ) {entry₀ : Nat → U64} {gva : U64}
    (hlookup : σ.lookup gva = .error [])
    (hzero : ∀ x : U64, x.toNat < 4096 → InRegion σ.memRegions x) :
    ¬ (vmMemVerify σ entry₀ gva 1 = 0 ↔
      ∀ i < (1 : U64).toNat, Reachable σ (gva + BitVec.ofNat 64 i)) := by
  have hone : (1 : U64).toNat = 1 := rfl
  have haccept : vmMemVerify σ entry₀ gva 1 = 0 := by
    rw [h.vmMemVerify_eq_zero_iff, hone]
    intro i hi
    obtain rfl : i = 0 := by omega
    rw [BitVec.add_zero]
    apply hzero
    rw [toNat_strayed hlookup]
    exact Nat.mod_lt _ (by decide)
  intro hiff
  obtain ⟨x, hx, _⟩ := hiff.mp haccept 0 Nat.one_pos
  rw [BitVec.add_zero, VmMem.translate, hlookup] at hx
  simp at hx

/-! ## The set-up of main -/

namespace SetUp

variable {s : SetUp}

/-- The host address of a byte of the initial region. -/
theorem Ok.gpaToHva_own (h : s.Ok) {a : U64} (ha : a.toNat < s.numPages.toNat * 4096) :
    gpaToHva s.afterLoad.vm.memRegions a = s.answer.valloc + a ∧
      gpaToHva s.afterLoad.vm.memRegions a ≠ 0 := by
  obtain ⟨hregions, hhost⟩ := h.built.regionsOk
  have hlen := s.numPages.isLt
  have hlo : MemRegion.lo ⟨0, s.numPages.setWidth 64, s.answer.valloc⟩ ≤ a.toNat := by
    simp [MemRegion.lo]
  have hhi : a.toNat < MemRegion.hi ⟨0, s.numPages.setWidth 64, s.answer.valloc⟩ := by
    simp only [MemRegion.hi, BitVec.toNat_setWidth, BitVec.ofNat_eq_ofNat,
      BitVec.toNat_ofNat]
    omega
  have heq := gpaToHva_of_mem hregions h.mem_afterLoad hlo hhi
  simp only [BitVec.ofNat_eq_ofNat, BitVec.sub_zero] at heq
  exact ⟨heq, gpaToHva_ne_zero hregions hhost h.mem_afterLoad hlo hhi⟩

/-- What the guest has in the initial region. -/
theorem Ok.byteAt_own (h : s.Ok) (mem : U64 → Byte) {a : U64}
    (ha : a.toNat < s.numPages.toNat * 4096) :
    (s.withMem mem).byteAt a = some (mem (s.answer.valloc + a)) := by
  obtain ⟨heq, hne⟩ := h.gpaToHva_own ha
  rw [VmMem.byteAt]
  refine (if_neg ?_).trans ?_
  · exact hne
  · exact congrArg (fun hva => some (mem hva)) heq

/-- The initial region is mapped to itself, whatever the guest wrote to it. -/
theorem Ok.translate_own (h : s.Ok) (hn : s.numPages.setWidth 64 ≠ (1 : U64))
    {mem : U64 → Byte} (hmem : ∀ x, ¬ s.OwnByte x → mem x = s.afterLoad.vm.mem x)
    {a : U64} (ha : a.toNat < s.numPages.toNat * 4096) :
    (s.withMem mem).translate a = some a := by
  obtain ⟨hbuilt, T, hT⟩ := h.write hn hmem
  have hmap := pageMap_ops s (Or.inl ha)
  have hsome : (s.withMem mem).translate a =
      some (withOffset (BitVec.ofNat 64 (4096 * (a.toNat / 4096))) a) := by
    rw [VmMem.translate, hT.lookup_of_map hmap]
  rw [hsome, ← hbuilt.gvaToGpa_of_translate hsome 0]
  refine congrArg some (BitVec.eq_of_toNat_eq ?_)
  rw [hT.toNat_gvaToGpa hmap]
  omega

theorem Ok.translate_afterLoad (h : s.Ok) (hn : s.numPages.setWidth 64 ≠ (1 : U64))
    {a : U64} (ha : a.toNat < s.numPages.toNat * 4096) :
    s.afterLoad.vm.translate a = some a :=
  h.translate_own hn (fun _ _ => rfl) ha

end SetUp

section BootSetUp

theorem bootSetUp_region {x : U64} (hx : x.toNat < 0x10000) :
    InRegion bootSetUp.afterLoad.vm.memRegions x := by
  have hnum : (bootSetUp.numPages.setWidth 64).toNat = 16 := by
    decide
  refine ⟨_, bootSetUp_ok.mem_afterLoad, ?_, ?_⟩
  · simp [MemRegion.lo]
  · simp only [MemRegion.hi, hnum, BitVec.ofNat_eq_ofNat, BitVec.toNat_ofNat]
    omega

/-- Nothing maps the page after the first 16. -/
theorem bootSetUp_lookup : bootSetUp.afterLoad.vm.lookup 0x10000 = .error [] := by
  obtain ⟨T, hT⟩ := bootSetUp_ok.runOk.refinesPages
  rw [← bootSetUp_ok.eq_run] at hT
  have hfirst : T.leaf (tablePath 0) = some (BitVec.ofNat 64 (4096 * 0)) := by
    rw [hT.leaf 0 (by decide)]
    rfl
  have hnone : T.leaf (tablePath 0x10000) = none := by
    rw [hT.leaf 0x10000 (by decide)]
    rfl
  rcases hT.build.tables with htables | ⟨_, rfl⟩
  · obtain ⟨i, p, pt, hpath, hpt, _⟩ := htables.held.leaf_parent _ _ hfirst
    obtain rfl : [tableIx 21 0, tableIx 30 0, tableIx 39 0] = p := (List.cons.inj hpath).2
    exact htables.lookup_of_no_leaf 0x10000 hpt hnone
  · simp [noTables] at hfirst

/-- The image is mapped. -/
theorem bootSetUp_lookup_image :
    bootSetUp.afterLoad.vm.lookup 0x100000004 = .ok 0x100000000 := by
  obtain ⟨T, hT⟩ := bootSetUp_ok.runOk.refinesPages
  rw [← bootSetUp_ok.eq_run] at hT
  exact hT.lookup_of_map (a := 0x100000004) (f := 0x100000) rfl

/-- The byte at `0x10000` is not present; its walk ends in page zero, which the
first region holds, and the check accepts it. -/
theorem vmMemVerify_accepts_missing :
    Built bootSetUp.afterLoad.vm ∧
    ¬ (vmMemVerify bootSetUp.afterLoad.vm (fun _ => 0) 0x10000 1 = 0 ↔
      ∀ i < (1 : U64).toNat,
        Reachable bootSetUp.afterLoad.vm (0x10000 + BitVec.ofNat 64 i)) :=
  ⟨bootSetUp_ok.built, bootSetUp_ok.built.accepts_missing bootSetUp_lookup
    fun _ hx => bootSetUp_region (lt_trans hx (by decide))⟩

theorem vmMemVerify_exact_iff_bootSetUp :
    vmMemVerify bootSetUp.afterLoad.vm (fun _ => 0) 0x100000004 1 = 0 ↔
      ∀ i < (1 : U64).toNat,
        Reachable bootSetUp.afterLoad.vm (0x100000004 + BitVec.ofNat 64 i) := by
  refine (vmMemVerify_exact_iff _ bootSetUp_ok.built (fun _ => 0) 0x100000004 1).mpr
    (Or.inl ?_)
  intro i hi
  obtain rfl : i = 0 := Nat.lt_one_iff.mp hi
  rw [BitVec.add_zero, VmMem.translate, bootSetUp_lookup_image]
  rfl

end BootSetUp

end Hvexec
