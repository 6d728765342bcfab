import Hvexec.PageTables

/-!
# The address map

What the page tables stand for is a partial map from virtual to physical page
numbers: the latest call of `map_gva` that covers a page decides.  The tables
refine this map through every run: `gva_to_gpa` follows the map at every page
that a call covered.

Builder and walker use different masks; below `2 ^ 52` they agree.
-/

namespace Hvexec

open ByteMemory IntervalList RadixTable

/-! ## The walk of gva_to_gpa -/

/-- The indices of an address in the order in which a walk uses them. -/
def indices (gva : U64) : List (Fin 512) :=
  [tableIx 39 gva, tableIx 30 gva, tableIx 21 gva, tableIx 12 gva]

/-- The frame that an entry names. -/
def entryFrame (e : U64) : U64 :=
  e &&& entryMask

/-- `PRESENT` in an entry. -/
def isPresent (e : U64) : Bool :=
  e[0]

/-- Read the entry `i` of the table at `g` into `entry`. -/
def VmMem.readEntry (σ : VmMem) (entry g : U64) (i : Fin 512) : U64 :=
  readU64 σ (g + BitVec.ofNat 64 (8 * i.val)) entry

/-- The entry that the reads of `gva_to_gpa` end with, from the table at `g` on. -/
def VmMem.walk (σ : VmMem) (g entry : U64) (is : List (Fin 512)) : U64 :=
  follow σ.readEntry entryFrame g entry is

/-- What the processor finds for an address: a page frame, or the indices that
are left when an entry is not present.  Without a PML4 no entry is. -/
def VmMem.lookup (σ : VmMem) (gva : U64) : Except (List (Fin 512)) U64 :=
  if σ.pml4 = 0 then .error (indices gva)
  else RadixTable.lookup isPresent entryFrame σ.entry σ.pml4Gpa (indices gva)

/-- A frame and the low bits of an address. -/
def withOffset (g gva : U64) : U64 :=
  g ||| (decodeGva gva).offset.setWidth 64

theorem gvaToGpa_eq_walk (σ : VmMem) (entry₀ gva : U64) :
    gvaToGpa σ entry₀ gva =
      withOffset (entryFrame (σ.walk σ.pml4Gpa entry₀ (indices gva))) gva := by
  obtain ⟨hpt, hpd, hpdpt, hpml4⟩ := decodeGva_slots gva
  simp only [gvaToGpa, hpt, hpd, hpdpt, hpml4]
  rfl

theorem toNat_offset (gva : U64) :
    ((decodeGva gva).offset.setWidth 64).toNat = gva.toNat % 4096 := by
  have hmask : (0xFFF : U64).toNat = 2 ^ 12 - 1 := rfl
  simp only [decodeGva, BitVec.toNat_setWidth, BitVec.toNat_and, hmask,
    Nat.and_two_pow_sub_one_eq_mod]
  omega

/-- The address that an entry of a PT gives to an address inside its page. -/
theorem toNat_withOffset (e gva : U64) :
    (withOffset (entryFrame e) gva).toNat =
      4096 * (e.toNat / 4096 % 2 ^ 40) + gva.toNat % 4096 := by
  rw [withOffset, entryFrame, BitVec.toNat_or, toNat_and_entryMask, toNat_offset]
  exact BitField.mul_or 12 _ _ (Nat.mod_lt _ (by decide))

/-- Inside a page translation goes on as the address does. -/
theorem gvaToGpa_add_one (σ : VmMem) (entry₀ : U64) {gva : U64}
    (hpage : gva.toNat % 4096 ≠ 4095) :
    gvaToGpa σ entry₀ (gva + 1) = gvaToGpa σ entry₀ gva + 1 := by
  have hone : (1 : U64).toNat = 1 := rfl
  have hsucc : (gva + 1).toNat = gva.toNat + 1 := by
    rw [BitVec.toNat_add, hone]
    omega
  have hindices : indices (gva + 1) = indices gva := by
    simp only [indices, tableIx, hsucc, List.cons.injEq, Fin.mk.injEq, and_true]
    omega
  have hgpa := toNat_withOffset (σ.walk σ.pml4Gpa entry₀ (indices gva)) gva
  apply BitVec.eq_of_toNat_eq
  rw [gvaToGpa_eq_walk, gvaToGpa_eq_walk, hindices, toNat_withOffset, hsucc,
    BitVec.toNat_add, hgpa, hone]
  omega

theorem isPresent_link (g : U64) : isPresent (link g) = true := by
  simp [isPresent, link, present]

section Walk

variable {σ : VmMem} {T : Tables}

theorem TablesOk.entryFrame_link (h : TablesOk σ T) :
    ∀ p g, T.node p = some g → entryFrame (link g) = g :=
  fun _ _ hp => link_and_entryMask (h.isFrame hp)

/-- **`gva_to_gpa` follows the processor** up to the first entry that is not
present, and continues from physical page zero there. -/
theorem TablesOk.gvaToGpa_eq_lookup (h : TablesOk σ T) (entry₀ gva : U64) :
    gvaToGpa σ entry₀ gva =
      match σ.lookup gva with
      | .ok g => withOffset g gva
      | .error rest => withOffset (entryFrame (σ.walk 0 0 rest)) gva := by
  have hread : ∀ p g, T.node p = some g → ∀ e i, σ.readEntry e g i = σ.entry g i := by
    intro p g hp e i
    obtain ⟨hva, hpage⟩ := h.page p g hp
    exact readU64_eq_entry h.regions h.host hpage i e
  have hwalk := h.held.follow_eq_lookup h.entryFrame_link isPresent_link isPresent_link
    rfl hread (indices gva) [] σ.pml4Gpa entry₀ h.held.root_node rfl
  rw [gvaToGpa_eq_walk, VmMem.lookup, if_neg h.root]
  cases hlookup : RadixTable.lookup isPresent entryFrame σ.entry σ.pml4Gpa
      (indices gva) with
  | ok g =>
      rw [hlookup] at hwalk
      exact congrArg (withOffset · gva) hwalk
  | error rest =>
      rw [hlookup] at hwalk
      exact congrArg (fun e => withOffset (entryFrame e) gva) hwalk

/-- The processor finds the frame that the tree maps. -/
theorem TablesOk.lookup_of_leaf
    (h : TablesOk σ T) {gva v : U64} (hv : T.leaf (tablePath gva) = some v) :
    σ.lookup gva = .ok (entryFrame (link v)) := by
  rw [VmMem.lookup, if_neg h.root]
  exact h.held.lookup_of_leaf h.entryFrame_link isPresent_link isPresent_link hv

/-- A mapped address translates to its page frame and offset. -/
theorem TablesOk.toNat_gvaToGpa
    (h : TablesOk σ T) {gva v : U64} (hv : T.leaf (tablePath gva) = some v)
    (entry₀ : U64) :
    (gvaToGpa σ entry₀ gva).toNat = v.toNat % 2 ^ 52 + gva.toNat % 4096 := by
  have haligned := h.leaf _ v hv
  simp only [h.gvaToGpa_eq_lookup, h.lookup_of_leaf hv]
  rw [toNat_withOffset, toNat_link haligned]
  omega

end Walk

/-! ## Paths and pages -/

/-- Below `2 ^ 48` the path of an address names its page. -/
theorem tablePath_eq_iff {a b : U64}
    (ha : a.toNat < 2 ^ 48) (hb : b.toNat < 2 ^ 48) :
    tablePath a = tablePath b ↔ a.toNat / 4096 = b.toNat / 4096 := by
  simp only [tablePath, tableIx, List.cons.injEq, Fin.mk.injEq, and_true]
  omega

/-- The path of an address depends on its page only. -/
theorem tablePath_congr {a b : U64} (h : a.toNat / 4096 = b.toNat / 4096) :
    tablePath a = tablePath b := by
  simp only [tablePath, tableIx, List.cons.injEq, Fin.mk.injEq, and_true]
  omega

/-- Page `i` of a range. -/
def pageOf (a : U64) (i : Nat) : U64 :=
  a + BitVec.ofNat 64 i * confPageSize

theorem pageOf_zero (a : U64) : pageOf a 0 = a := by
  simp [pageOf]

theorem pageOf_succ (a : U64) (i : Nat) : pageOf (a + confPageSize) i = pageOf a (i + 1) := by
  rw [pageOf, pageOf, BitVec.ofNat_add, BitVec.add_mul]
  have hone : BitVec.ofNat 64 1 * confPageSize = confPageSize := rfl
  rw [hone]
  ac_rfl

theorem toNat_pageOf {a : U64} {i : Nat} (h : a.toNat + i * 4096 < 2 ^ 64) :
    (pageOf a i).toNat = a.toNat + i * 4096 := by
  have hpage : confPageSize.toNat = 4096 := rfl
  rw [pageOf, BitVec.toNat_add, BitVec.toNat_mul, BitVec.toNat_ofNat, hpage]
  omega

/-- The loop leaves the pages alone that are not in its range. -/
theorem mapLeaves_of_ne {leaf : List (Fin 512) → Option U64} {q : List (Fin 512)} :
    ∀ {n : Nat} {gva gpa : U64}, (∀ i < n, q ≠ tablePath (pageOf gva i)) →
      mapLeaves leaf n gva gpa q = leaf q := by
  intro n
  induction n generalizing leaf with
  | zero =>
      exact fun _ => rfl
  | succ n ih =>
      intro gva gpa hne
      have hrest : ∀ i < n, q ≠ tablePath (pageOf (gva + confPageSize) i) := by
        intro i hi
        rw [pageOf_succ]
        exact hne (i + 1) (by omega)
      have hfirst := hne 0 (Nat.succ_pos n)
      rw [pageOf_zero] at hfirst
      rw [mapLeaves, ih hrest, Function.update_of_ne hfirst]

/-- It maps each page of a range that does not wrap around to its frame. -/
theorem mapLeaves_pageOf {leaf : List (Fin 512) → Option U64} :
    ∀ {n : Nat} {gva gpa : U64}, gva.toNat + n * 4096 ≤ 2 ^ 48 →
      ∀ i < n, mapLeaves leaf n gva gpa (tablePath (pageOf gva i)) =
        some (pageOf gpa i &&& pageMask) := by
  intro n
  induction n generalizing leaf with
  | zero =>
      intro gva gpa _ i hi
      omega
  | succ n ih =>
      intro gva gpa hrange i hi
      have hnext : (gva + confPageSize).toNat = gva.toNat + 4096 := by
        have hone := toNat_pageOf (a := gva) (i := 1) (by omega)
        rwa [← pageOf_succ, pageOf_zero, Nat.one_mul] at hone
      rw [mapLeaves]
      cases i with
      | zero =>
          -- the later pages are others
          rw [pageOf_zero, pageOf_zero, mapLeaves_of_ne, Function.update_self]
          intro j hj hcon
          rw [tablePath_eq_iff (by omega) (by rw [toNat_pageOf] <;> omega), toNat_pageOf,
            hnext] at hcon
          · omega
          · omega
      | succ i =>
          rw [← pageOf_succ, ← pageOf_succ]
          exact ih (by omega) i (by omega)

/-- The loop sets the frames of its pages. -/
theorem isSome_mapLeaves_iff {leaf : List (Fin 512) → Option U64} {q : List (Fin 512)} :
    ∀ {n : Nat} {gva gpa : U64}, (mapLeaves leaf n gva gpa q).isSome ↔
      (leaf q).isSome ∨ ∃ i < n, q = tablePath (pageOf gva i) := by
  intro n
  induction n generalizing leaf with
  | zero =>
      simp [mapLeaves]
  | succ n ih =>
      intro gva gpa
      rw [mapLeaves, ih]
      simp only [pageOf_succ]
      constructor
      · rintro (hleaf | ⟨i, hi, hq⟩)
        · by_cases hq : q = tablePath gva
          · exact Or.inr ⟨0, Nat.succ_pos n, by rw [pageOf_zero]; exact hq⟩
          · rw [Function.update_of_ne hq] at hleaf
            exact Or.inl hleaf
        · exact Or.inr ⟨i + 1, Nat.succ_lt_succ hi, hq⟩
      · rintro (hleaf | ⟨i, hi, hq⟩)
        · left
          by_cases hq : q = tablePath gva
          · rw [hq, Function.update_self]
            rfl
          · rw [Function.update_of_ne hq]
            exact hleaf
        · cases i with
          | zero =>
              rw [pageOf_zero] at hq
              left
              rw [hq, Function.update_self]
              rfl
          | succ i =>
              exact Or.inr ⟨i, Nat.lt_of_succ_lt_succ hi, hq⟩

/-- What the loop of `map_gva` maps, when its ranges do not wrap around. -/
theorem mapLeaves_tablePath
    (leaf : List (Fin 512) → Option U64) (n : Nat) {gva gpa : U64}
    (hgva : gva.toNat + n * 4096 ≤ 2 ^ 48) (hgpa : gpa.toNat + n * 4096 ≤ 2 ^ 52)
    (hva : gva.toNat % 4096 = 0) (hpa : gpa.toNat % 4096 = 0)
    {a : U64} (ha : a.toNat < 2 ^ 48) :
    mapLeaves leaf n gva gpa (tablePath a) =
      if gva.toNat / 4096 ≤ a.toNat / 4096 ∧
          a.toNat / 4096 < gva.toNat / 4096 + n then
        some (BitVec.ofNat 64
          (4096 * (gpa.toNat / 4096 + (a.toNat / 4096 - gva.toNat / 4096))))
      else leaf (tablePath a) := by
  have hpath : ∀ i < n,
      (tablePath a = tablePath (pageOf gva i) ↔ a.toNat / 4096 = gva.toNat / 4096 + i) := by
    intro i hi
    have hpage := toNat_pageOf (a := gva) (i := i) (by omega)
    rw [tablePath_eq_iff ha (by omega), hpage]
    omega
  split_ifs with hin
  · obtain ⟨hlo, hhi⟩ := hin
    have hi : a.toNat / 4096 - gva.toNat / 4096 < n := by
      omega
    have hframe := toNat_pageOf (a := gpa) (i := a.toNat / 4096 - gva.toNat / 4096) (by omega)
    rw [(hpath _ hi).mpr (by omega), mapLeaves_pageOf hgva _ hi]
    refine congrArg some (BitVec.eq_of_toNat_eq ?_)
    rw [toNat_and_pageMask, hframe, BitVec.toNat_ofNat]
    omega
  · refine mapLeaves_of_ne fun i hi hcon => hin ?_
    have hpage := (hpath i hi).mp hcon
    omega

/-! ## The map -/

/-- A partial map from virtual to physical page numbers. -/
abbrev PageMap := Nat → Option Nat

/-- The map after the `n` pages from `first` on were mapped to those from
`frame` on. -/
def PageMap.assign (m : PageMap) (first n frame : Nat) : PageMap :=
  fun v => if first ≤ v ∧ v < first + n then some (frame + (v - first)) else m v

namespace MemOp

/-- The map after a call. -/
def assign (m : PageMap) : MemOp → PageMap
  | region _ => m
  | mapGva gva npages gpa _ =>
      m.assign (gva.toNat / 4096) npages.toNat (gpa.toNat / 4096)

/-- The ranges of a call lie in the 48-bit virtual space and below `2 ^ 52`. -/
def InRange : MemOp → Prop
  | region _ => True
  | mapGva gva npages gpa _ =>
      gva.toNat / 4096 + npages.toNat ≤ 2 ^ 36 ∧
        gpa.toNat / 4096 + npages.toNat ≤ 2 ^ 40

/-- The host grants the allocations inside a call, from pages of zeros. -/
def Supplied (σ : VmMem) (op : MemOp) : Prop :=
  match op with
  | region _ => True
  | mapGva _ _ _ env => Hvexec.Supplied env.answers σ (op.step σ).memRegions

/-- Every call of a run is supplied. -/
def SuppliedRun (σ : VmMem) : List MemOp → Prop
  | [] => True
  | op :: ops => op.Supplied σ ∧ SuppliedRun (op.step σ) ops

end MemOp

/-- The map that a sequence of calls stands for: the last call that covers a page
decides. -/
def pageMap (ops : List MemOp) : PageMap :=
  ops.foldl MemOp.assign (fun _ => none)

/-- The tables refine the map. -/
structure RefinesPages (σ : VmMem) (T : Tables) (m : PageMap) : Prop where
  build : BuildOk σ T
  leaf : ∀ a : U64, a.toNat < 2 ^ 48 →
    T.leaf (tablePath a) = (m (a.toNat / 4096)).map (fun f => BitVec.ofNat 64 (4096 * f))
  bound : ∀ v f, m v = some f → v < 2 ^ 36 ∧ f < 2 ^ 40

theorem refinesPages_init (mem : U64 → Byte) :
    RefinesPages (VmMem.init mem) noTables (fun _ => none) where
  build := ⟨regionsOk_nil, ⟨by simp [VmMem.init], List.Pairwise.nil⟩,
    by simp [VmMem.init], Or.inr ⟨rfl, rfl⟩, fun _ => rfl⟩
  leaf := fun _ _ => rfl
  bound := by simp

/-- A mapped page translates as the map says. -/
theorem RefinesPages.toNat_gvaToGpa
    {σ : VmMem} {T : Tables} {m : PageMap} (h : RefinesPages σ T m)
    {a : U64} {f : Nat} (hf : m (a.toNat / 4096) = some f) (entry₀ : U64) :
    (gvaToGpa σ entry₀ a).toNat = 4096 * f + a.toNat % 4096 := by
  obtain ⟨hv, hflt⟩ := h.bound _ f hf
  have hleaf := h.leaf a (by omega)
  rw [hf, Option.map_some] at hleaf
  rcases h.build.tables with htables | ⟨_, rfl⟩
  · rw [htables.toNat_gvaToGpa hleaf, BitVec.toNat_ofNat]
    omega
  · simp [noTables] at hleaf

/-- The processor finds the frames of the map. -/
theorem RefinesPages.lookup_of_map
    {σ : VmMem} {T : Tables} {m : PageMap} (h : RefinesPages σ T m)
    {a : U64} {f : Nat} (hf : m (a.toNat / 4096) = some f) :
    σ.lookup a = .ok (BitVec.ofNat 64 (4096 * f)) := by
  obtain ⟨hv, hflt⟩ := h.bound _ f hf
  have hleaf := h.leaf a (by omega)
  rw [hf, Option.map_some] at hleaf
  rcases h.build.tables with htables | ⟨_, rfl⟩
  · have hframe : IsFrame (BitVec.ofNat 64 (4096 * f)) :=
      ⟨htables.leaf _ _ hleaf, by rw [BitVec.toNat_ofNat]; omega⟩
    rw [htables.lookup_of_leaf hleaf]
    exact congrArg Except.ok (link_and_entryMask hframe)
  · simp [noTables] at hleaf

/-- It finds nothing where the map has nothing; the bits from 48 on play no part. -/
theorem RefinesPages.lookup_of_unmapped
    {σ : VmMem} {T : Tables} {m : PageMap} (h : RefinesPages σ T m)
    {a : U64} (hnone : m (a.toNat % 2 ^ 48 / 4096) = none) :
    ∃ rest, σ.lookup a = .error rest := by
  have hlow : (BitVec.ofNat 64 (a.toNat % 2 ^ 48)).toNat = a.toNat % 2 ^ 48 := by
    rw [BitVec.toNat_ofNat]
    omega
  have hpath : tablePath a = tablePath (BitVec.ofNat 64 (a.toNat % 2 ^ 48)) := by
    simp only [tablePath, tableIx, hlow, List.cons.injEq, Fin.mk.injEq, and_true]
    omega
  have hleaf := h.leaf (BitVec.ofNat 64 (a.toNat % 2 ^ 48)) (by rw [hlow]; omega)
  rw [hlow, hnone, ← hpath, Option.map_none] at hleaf
  rcases h.build.tables with htables | ⟨hroot, _⟩
  · rw [VmMem.lookup, if_neg htables.root]
    exact htables.held.lookup_of_no_value htables.entryFrame_link isPresent_link rfl
      (indices a) [] σ.pml4Gpa htables.held.root_node rfl hleaf
  · exact ⟨indices a, if_pos hroot⟩

/-- Calls that add regions touch neither the tables nor their root. -/
theorem RegionOp.step_frame (σ : VmMem) (op : RegionOp) :
    (op.step σ).mem = σ.mem ∧ (op.step σ).pml4 = σ.pml4 ∧
      (op.step σ).pml4Gpa = σ.pml4Gpa := by
  cases op with
  | mapGpa gpa npages hva a =>
      rcases mapGpa_cases σ gpa npages hva a with heq | ⟨heq, _⟩
      · rw [step, heq]
        exact ⟨rfl, rfl, rfl⟩
      · rw [step, heq]
        exact ⟨rfl, rfl, rfl⟩
  | vmMemAlloc npages a =>
      rcases vmMemAlloc_cases σ npages 0 a with heq | ⟨g, _, _, _, heq⟩
      · rw [step, heq]
        exact ⟨rfl, rfl, rfl⟩
      · rw [step, heq]
        exact ⟨rfl, rfl, rfl⟩

/-- **A call of `map_gva` keeps the refinement.** -/
theorem RefinesPages.mapGva
    {σ : VmMem} {T : Tables} {m : PageMap} {gva npages gpa : U64} {env : MapGvaEnv}
    (h : RefinesPages σ T m)
    (hrange : (MemOp.mapGva gva npages gpa env).InRange)
    (hgr : Granted env.answers σ (mapGva σ gva npages gpa env).2.memRegions) :
    ∃ T', RefinesPages (mapGva σ gva npages gpa env).2 T'
        (m.assign (gva.toNat / 4096) npages.toNat (gpa.toNat / 4096)) ∧
      TablesOk (mapGva σ gva npages gpa env).2 T' ∧
      Grown σ T (mapGva σ gva npages gpa env).2 T' := by
  obtain ⟨hv, hp⟩ := hrange
  have hgva := toNat_and_pageMask gva
  have hgpa := toNat_and_pageMask gpa
  obtain ⟨_, T', hok, hgrown, _, hleaf⟩ := mapGva_spec h.build hgr
  refine ⟨T', ⟨hok.buildOk, ?_, ?_⟩, hok, hgrown⟩
  · intro a ha
    rw [hleaf, mapLeaves_tablePath _ _ (by omega) (by omega)
      (toNat_and_pageMask_aligned gva) (toNat_and_pageMask_aligned gpa) ha,
      h.leaf a ha, hgva, hgpa]
    simp only [PageMap.assign, Nat.mul_div_cancel_left _ (Nat.succ_pos 4095)]
    split_ifs <;> rfl
  · intro v f hf
    simp only [PageMap.assign] at hf
    split_ifs at hf with hin
    · have heq := Option.some.inj hf
      omega
    · exact h.bound v f hf

/-- A registered region keeps the refinement. -/
theorem RefinesPages.region
    {σ : VmMem} {T : Tables} {m : PageMap} (h : RefinesPages σ T m) (op : RegionOp)
    (hregions : RegionsOk (op.step σ).memRegions)
    (hhost : HostOk (op.step σ).memRegions)
    (hlow : ∀ p ∈ (op.step σ).memRegions, p.hi ≤ 2 ^ 52) :
    RefinesPages (op.step σ) T m := by
  obtain ⟨hmem, hpml4, hpml4Gpa⟩ := op.step_frame σ
  exact ⟨h.build.congr hregions hhost hlow (op.sublist_step σ) hpml4 hpml4Gpa
    (fun x _ => congrFun hmem x), h.leaf, h.bound⟩

/-- **One call keeps the refinement.** -/
theorem RefinesPages.step
    {σ : VmMem} {T : Tables} {m : PageMap} {op : MemOp}
    (h : RefinesPages σ T m)
    (hrange : op.InRange) (hsupplied : op.Supplied σ)
    (hregions : RegionsOk (op.step σ).memRegions)
    (hhost : HostOk (op.step σ).memRegions)
    (hlow : ∀ p ∈ (op.step σ).memRegions, p.hi ≤ 2 ^ 52) :
    ∃ T', RefinesPages (op.step σ) T' (op.assign m) := by
  cases op with
  | region op =>
      exact ⟨T, h.region op hregions hhost hlow⟩
  | mapGva gva npages gpa env =>
      obtain ⟨T', hT', _, _⟩ := h.mapGva hrange ⟨hsupplied, hhost, hlow⟩
      exact ⟨T', hT'⟩

/-- A run that ends over disjoint blocks, low enough for the tables, was so after its first
call. -/
theorem MemOp.step_placed {σ : VmMem} {op : MemOp} {ops : List MemOp} (hinv : RegionInv σ)
    (hhost : HostOk (MemOp.run σ (op :: ops)).memRegions)
    (hlow : ∀ p ∈ (MemOp.run σ (op :: ops)).memRegions, p.hi ≤ 2 ^ 52) :
    RegionInv (op.step σ) ∧ HostOk (op.step σ).memRegions ∧
      ∀ p ∈ (op.step σ).memRegions, p.hi ≤ 2 ^ 52 := by
  have hsub := MemOp.sublist_run (op.step σ) ops
  have hlow' : ∀ p ∈ (op.step σ).memRegions, p.hi ≤ 2 ^ 52 :=
    fun p hp => hlow p (hsub.subset hp)
  exact ⟨regionInv_step hinv fun p hp => lt_of_le_of_lt (hlow' p hp) (by decide),
    hhost.sublist hsub, hlow'⟩

/-- **A run keeps the refinement.** -/
theorem RefinesPages.run
    {σ : VmMem} {T : Tables} {m : PageMap} {ops : List MemOp}
    (h : RefinesPages σ T m) (hinv : RegionInv σ)
    (hrange : ∀ op ∈ ops, op.InRange) (hsupplied : MemOp.SuppliedRun σ ops)
    (hhost : HostOk (MemOp.run σ ops).memRegions)
    (hlow : ∀ p ∈ (MemOp.run σ ops).memRegions, p.hi ≤ 2 ^ 52) :
    ∃ T', RefinesPages (MemOp.run σ ops) T' (ops.foldl MemOp.assign m) := by
  induction ops generalizing σ T m with
  | nil =>
      exact ⟨T, h⟩
  | cons op ops ih =>
      obtain ⟨hinv', hhost', hlow'⟩ := MemOp.step_placed hinv hhost hlow
      obtain ⟨T', h'⟩ := h.step (hrange op (by simp)) hsupplied.1 hinv'.ok hhost' hlow'
      exact ih h' hinv' (fun op' hop' => hrange op' (List.mem_cons_of_mem op hop'))
        hsupplied.2 hhost hlow

theorem MemOp.suppliedRun_append {σ : VmMem} {ops ops' : List MemOp} :
    MemOp.SuppliedRun σ (ops ++ ops') ↔
      MemOp.SuppliedRun σ ops ∧ MemOp.SuppliedRun (MemOp.run σ ops) ops' := by
  induction ops generalizing σ with
  | nil =>
      simp [SuppliedRun, run]
  | cons op ops ih =>
      simp only [List.cons_append, SuppliedRun, ih, run, List.foldl_cons, and_assoc]

/-- The calls that the map is about, and what they are given. -/
structure RunOk (mem : U64 → Byte) (ops : List MemOp) : Prop where
  inRange : ∀ op ∈ ops, op.InRange
  supplied : MemOp.SuppliedRun (VmMem.init mem) ops
  host : HostOk (MemOp.run (VmMem.init mem) ops).memRegions
  low : ∀ p ∈ (MemOp.run (VmMem.init mem) ops).memRegions, p.hi ≤ 2 ^ 52

theorem RunOk.of_append {mem : U64 → Byte} {ops ops' : List MemOp}
    (h : RunOk mem (ops ++ ops')) :
    RunOk mem ops := by
  have hsub := MemOp.sublist_run_append (VmMem.init mem) ops ops'
  exact ⟨fun op hop => h.inRange op (List.mem_append_left ops' hop),
    (MemOp.suppliedRun_append.mp h.supplied).1, h.host.sublist hsub,
    fun p hp => h.low p (hsub.subset hp)⟩

theorem RunOk.refinesPages {mem : U64 → Byte} {ops : List MemOp}
    (h : RunOk mem ops) :
    ∃ T, RefinesPages (MemOp.run (VmMem.init mem) ops) T (pageMap ops) :=
  (refinesPages_init mem).run (regionInv_init mem) h.inRange h.supplied h.host h.low

/-- **The page tables refine the page map.**  After every run `gva_to_gpa`
translates every page that a call of `map_gva` covered as the last such call
said.  So each call maps its own range and leaves every other mapped page as
it was. -/
theorem gvaToGpa_refines_pageMap
    (mem : U64 → Byte) (ops : List MemOp) (h : RunOk mem ops) :
    (∀ (a entry₀ : U64) (f : Nat), pageMap ops (a.toNat / 4096) = some f →
      (gvaToGpa (MemOp.run (VmMem.init mem) ops) entry₀ a).toNat =
        4096 * f + a.toNat % 4096) ∧
    ∀ (pre : List MemOp) (gva npages gpa : U64) (env : MapGvaEnv),
      ops = pre ++ [.mapGva gva npages gpa env] →
      ∀ a entry₀ entry₁ : U64,
        if gva.toNat / 4096 ≤ a.toNat / 4096 ∧
            a.toNat / 4096 < gva.toNat / 4096 + npages.toNat then
          (gvaToGpa (MemOp.run (VmMem.init mem) ops) entry₀ a).toNat =
            4096 * (gpa.toNat / 4096 + (a.toNat / 4096 - gva.toNat / 4096)) +
              a.toNat % 4096
        else (pageMap pre (a.toNat / 4096)).isSome →
          gvaToGpa (MemOp.run (VmMem.init mem) ops) entry₀ a =
            gvaToGpa (MemOp.run (VmMem.init mem) pre) entry₁ a := by
  obtain ⟨T, hT⟩ := h.refinesPages
  refine ⟨fun a entry₀ f hf => hT.toNat_gvaToGpa hf entry₀, ?_⟩
  rintro pre gva npages gpa env rfl a entry₀ entry₁
  have hmap :
      pageMap (pre ++ [.mapGva gva npages gpa env]) =
        (pageMap pre).assign (gva.toNat / 4096) npages.toNat (gpa.toNat / 4096) := by
    simp [pageMap, MemOp.assign]
  rw [hmap] at hT
  split_ifs with hin
  · exact hT.toNat_gvaToGpa (if_pos hin) entry₀
  · intro hsome
    obtain ⟨f, hf⟩ := Option.isSome_iff_exists.mp hsome
    obtain ⟨T₁, hT₁⟩ := h.of_append.refinesPages
    apply BitVec.eq_of_toNat_eq
    rw [hT₁.toNat_gvaToGpa hf entry₁]
    exact hT.toNat_gvaToGpa ((if_neg hin).trans hf) entry₀

/-- Two data pages, a page that the gap search puts at zero, and tables that
map the data at `0x400000`. -/
def mappedRun : List MemOp :=
  [.region (.mapGpa 0x9123 2 0x60000000 ⟨0, true, true⟩),
    .region (.vmMemAlloc 1 ⟨0x80000000, true, true⟩),
    .mapGva 0x400000 2 0x9000 (.pagesFrom 0x70000000)]

/-- The regions after the run, in order. -/
theorem memRegions_mappedRun :
    (MemOp.run (VmMem.init fun _ => 0) mappedRun).memRegions =
      [⟨0, 1, 0x80000000⟩, ⟨0x1000, 1, 0x70000000⟩, ⟨0x2000, 1, 0x70001000⟩,
        ⟨0x3000, 1, 0x70002000⟩, ⟨0x4000, 1, 0x70003000⟩,
        ⟨0x9000, 2, 0x60000000⟩] := by
  decide +kernel

theorem runOk_mappedRun : RunOk (fun _ => 0) mappedRun := by
  refine ⟨by simp [mappedRun, MemOp.InRange], ⟨trivial, trivial, ?_, trivial⟩, ?_, ?_⟩
  · refine ⟨?_, fun _ => rfl, fun _ => rfl, fun _ _ _ _ _ _ => rfl⟩
    intro k
    simp only [MapGvaEnv.pagesFrom, confPageSize]
    bv_omega
  · rw [memRegions_mappedRun]
    constructor
    · decide
    · unfold Apart
      decide
  · rw [memRegions_mappedRun]
    decide

theorem gvaToGpa_refines_pageMap_mappedRun :
    (gvaToGpa (MemOp.run (VmMem.init fun _ => 0) mappedRun) 7 0x400123).toNat = 0x9123 ∧
      (gvaToGpa (MemOp.run (VmMem.init fun _ => 0) mappedRun) 7 0x401FFF).toNat = 0xAFFF := by
  have h := (gvaToGpa_refines_pageMap (fun _ => 0) mappedRun runOk_mappedRun).1
  exact ⟨h 0x400123 7 9 (by decide), h 0x401FFF 7 10 (by decide)⟩

end Hvexec
