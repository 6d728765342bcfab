import Hvexec.VmMem
import Hvexec.Lib.IntervalList

/-!
# The region list

`mem_regions` is a sorted list of disjoint, page-aligned ranges, and it records
exactly what the hypervisor maps.  The list lives in 64-bit arithmetic; as long
as every region ends below `2 ^ 64`, its three walks are those of
`IntervalList` on the numbers that the addresses denote.

A region that was registered once stays, so it is enough to ask of the list at
the end of a run that its regions end below `2 ^ 64` (`RegionsBelow`).

The first half treats single calls.  The second half runs arbitrary sequences of
calls: the list refines a partial map from guest-physical to host addresses that
is built from what the calls returned, and it agrees with the hypervisor.
-/

namespace Hvexec

open IntervalList

/-! ## Addresses as numbers -/

/-- Rounding down to a page. -/
theorem toNat_and_pageMask (x : U64) :
    (x &&& pageMask).toNat = 4096 * (x.toNat / 4096) := by
  have h := BitField.and_mask 12 52 x.toNat
  have hlt : x.toNat / 2 ^ 12 < 2 ^ 52 := by
    omega
  rw [Nat.mod_eq_of_lt hlt] at h
  exact h

/-- First address of a region. -/
def MemRegion.lo (p : MemRegion) : Nat :=
  p.gpa.toNat

/-- The address just after a region, without wrapping around. -/
def MemRegion.hi (p : MemRegion) : Nat :=
  p.gpa.toNat + p.npages.toNat * 4096

/-- Every region ends below `2 ^ 64`. -/
def RegionsBelow (l : List MemRegion) : Prop :=
  ∀ p ∈ l, p.hi < 2 ^ 64

theorem RegionsBelow.sublist {l l' : List MemRegion}
    (h : RegionsBelow l') (hsub : l.Sublist l') :
    RegionsBelow l :=
  fun p hp => h p (hsub.subset hp)

theorem MemRegion.toNat_stop {p : MemRegion} (h : p.hi < 2 ^ 64) :
    p.stop.toNat = p.hi := by
  unfold MemRegion.hi at h ⊢
  have hpage : confPageSize.toNat = 4096 := rfl
  rw [MemRegion.stop, BitVec.toNat_add, BitVec.toNat_mul, hpage]
  omega

/-- What `mem_regions` looks like in every state of a run. -/
structure RegionsOk (l : List MemRegion) : Prop where
  laid : Laid MemRegion.lo MemRegion.hi l
  aligned : ∀ p ∈ l, p.gpa.toNat % 4096 = 0
  below : RegionsBelow l

theorem RegionsOk.sublist {l l' : List MemRegion}
    (h : RegionsOk l') (hsub : l.Sublist l') :
    RegionsOk l :=
  ⟨h.laid.sublist hsub, fun p hp => h.aligned p (hsub.subset hp),
    h.below.sublist hsub⟩

theorem regionsOk_nil : RegionsOk [] :=
  ⟨⟨by simp, List.Pairwise.nil⟩, by simp, by simp [RegionsBelow]⟩

/-- A region has at least one page. -/
theorem RegionsOk.one_le_npages {l : List MemRegion}
    (h : RegionsOk l) {p : MemRegion} (hp : p ∈ l) :
    1 ≤ p.npages.toNat := by
  have := h.laid.proper p hp
  unfold MemRegion.lo MemRegion.hi at this
  omega

/-! ## Lookup -/

/-- The early-exit lookup finds the region that covers the address. -/
theorem gpaToHva_eq_find {l : List MemRegion}
    (h : RegionsBelow l) (x : U64) :
    gpaToHva l x =
      ((find MemRegion.lo MemRegion.hi x.toNat l).map
        (fun p => p.hva + (x - p.gpa))).getD 0 := by
  induction l with
  | nil =>
      rfl
  | cons p ps ih =>
      have hstop : p.stop.toNat = p.hi :=
        MemRegion.toNat_stop (h p (by simp))
      have ih' := ih (fun q hq => h q (List.mem_cons_of_mem p hq))
      have hle : (p.gpa ≤ x) = (p.lo ≤ x.toNat) := rfl
      have hlt : (x < p.stop) = (x.toNat < p.hi) := by
        rw [BitVec.lt_def, hstop]
      simp only [gpaToHva, find, hle, hlt, ih']
      split_ifs <;> rfl

theorem gpaToHva_of_mem {l : List MemRegion}
    (h : RegionsOk l) {p : MemRegion} (hp : p ∈ l) {x : U64}
    (hlo : p.lo ≤ x.toNat) (hhi : x.toNat < p.hi) :
    gpaToHva l x = p.hva + (x - p.gpa) := by
  rw [gpaToHva_eq_find h.below,
    (find_eq_some_iff h.laid x.toNat p).mpr ⟨hp, hlo, hhi⟩]
  rfl

theorem gpaToHva_of_not_covered {l : List MemRegion}
    (h : RegionsOk l) {x : U64}
    (hx : ∀ p ∈ l, ¬ (p.lo ≤ x.toNat ∧ x.toNat < p.hi)) :
    gpaToHva l x = 0 := by
  rw [gpaToHva_eq_find h.below, (find_eq_none_iff h.laid x.toNat).mpr hx]
  rfl

/-- The address lies in a registered region. -/
def InRegion (l : List MemRegion) (x : U64) : Prop :=
  ∃ p ∈ l, p.lo ≤ x.toNat ∧ x.toNat < p.hi

/-! ## The gap search -/

theorem findFreeLoop_eq {l : List MemRegion} {npages start : U64}
    (h : RegionsOk l) (hstart : ∀ p ∈ l, start.toNat ≤ p.lo)
    (hn : npages.toNat * 4096 < 2 ^ 64) :
    (findFreeLoop npages start l).toNat =
      firstFit MemRegion.lo MemRegion.hi (npages.toNat * 4096) start.toNat l := by
  induction l generalizing start with
  | nil =>
      rfl
  | cons p ps ih =>
      have hsp : start.toNat ≤ p.lo := hstart p (by simp)
      have hstop : p.stop.toNat = p.hi :=
        MemRegion.toNat_stop (h.below p (by simp))
      have hnext : ∀ q ∈ ps, p.stop.toNat ≤ q.lo := by
        rw [hstop]
        exact (List.pairwise_cons.mp h.laid.sorted).1
      have hgap :
          (npages * confPageSize ≤ p.gpa - start) =
            (npages.toNat * 4096 ≤ p.lo - start.toNat) := by
        have hpage : confPageSize.toNat = 4096 := rfl
        unfold MemRegion.lo at hsp ⊢
        rw [BitVec.le_def, BitVec.toNat_mul, hpage, Nat.mod_eq_of_lt hn,
          BitVec.toNat_sub_of_le (by rwa [BitVec.le_def])]
      have ih' := ih (h.sublist (List.sublist_cons_self p ps)) hnext
      simp only [findFreeLoop, firstFit, hgap]
      split_ifs
      · rfl
      · rw [ih', hstop]

/-- The address chosen by the gap search is zero or the end of a region. -/
theorem findFreeMemRegion_eq {l : List MemRegion} {npages g : U64}
    (h : RegionsOk l) (hn : npages.toNat * 4096 < 2 ^ 64)
    (hg : findFreeMemRegion l npages = some g) :
    g.toNat = 0 ∨ ∃ p ∈ l, g.toNat = p.hi := by
  unfold findFreeMemRegion at hg
  split_ifs at hg
  rw [← Option.some.inj hg, findFreeLoop_eq h (by simp) hn]
  exact firstFit_eq MemRegion.lo MemRegion.hi (npages.toNat * 4096) l 0

/-- The address chosen by the gap search is a page. -/
theorem findFreeMemRegion_aligned {l : List MemRegion} {npages g : U64}
    (h : RegionsOk l) (hn : npages.toNat * 4096 < 2 ^ 64)
    (hg : findFreeMemRegion l npages = some g) :
    g.toNat % 4096 = 0 := by
  rcases findFreeMemRegion_eq h hn hg with heq | ⟨p, hp, heq⟩
  · omega
  · have := h.aligned p hp
    unfold MemRegion.hi at heq
    omega

/-- The range chosen by the gap search overlaps no region. -/
theorem findFreeMemRegion_apart {l : List MemRegion} {npages g : U64}
    (h : RegionsOk l) (hn : npages.toNat * 4096 < 2 ^ 64)
    (hg : findFreeMemRegion l npages = some g) :
    ∀ p ∈ l, g.toNat + npages.toNat * 4096 ≤ p.lo ∨ p.hi ≤ g.toNat := by
  unfold findFreeMemRegion at hg
  split_ifs at hg
  have hfit := firstFit_apart (npages.toNat * 4096) 0 h.laid (by simp)
  rw [← Option.some.inj hg, findFreeLoop_eq h (by simp) hn]
  exact hfit.2

/-! ## map_gpa -/

/-- The region that a call of `mapGpa` registers. -/
def newRegion (gpa npages hva : U64) : MemRegion where
  gpa := gpa &&& pageMask
  npages := npages
  hva := hva

/-- The list after the walk of `mapGpa` inserted `r`. -/
def insertRegion (r : MemRegion) (l : List MemRegion) : List MemRegion :=
  l.takeWhile (fun p => decide (p.stop ≤ r.gpa)) ++
    r :: l.dropWhile (fun p => decide (p.stop ≤ r.gpa))

/-- What the hypervisor is asked to map for a region. -/
def MemRegion.mapping (p : MemRegion) : HvMapping where
  gpa := p.gpa
  size := p.npages * confPageSize
  uva := p.hva

/-- The state after a region was registered. -/
def addRegion (σ : VmMem) (r : MemRegion) : VmMem :=
  { σ with
    hvMaps := r.mapping :: σ.hvMaps
    memRegions := insertRegion r σ.memRegions }

/-- Unmapping what was just mapped restores the state. -/
theorem hvVmUnmap_hvVmMap (σ : VmMem) (uva gpa size : U64) :
    hvVmUnmap (hvVmMap σ uva gpa size) gpa size = σ := by
  simp [hvVmUnmap, hvVmMap]

theorem lt_one_iff (npages : U64) :
    npages < 1 ↔ ¬ 1 ≤ npages.toNat := by
  rw [BitVec.lt_def, Nat.not_le]
  rfl

/-- A call of `mapGpa` fails and changes nothing, or registers its region. -/
theorem mapGpa_cases (σ : VmMem) (gpa npages hva : U64) (a : HostAnswer) :
    mapGpa σ gpa npages hva a = (-1, σ) ∨
      (mapGpa σ gpa npages hva a = (0, addRegion σ (newRegion gpa npages hva)) ∧
        1 ≤ npages.toNat ∧ a.hvVmMap = true ∧ a.malloc = true) := by
  simp only [mapGpa, hvVmUnmap_hvVmMap]
  by_cases hn : npages < 1
  · exact Or.inl (if_pos hn)
  · rw [if_neg hn]
    split_ifs with hfit hmap hmalloc
    · right
      exact ⟨rfl, not_not.mp (mt (lt_one_iff npages).mpr hn), hmap, hmalloc⟩
    · exact Or.inl rfl
    · exact Or.inl rfl
    · exact Or.inl rfl

theorem mapGpa_of_ne_zero
    {σ : VmMem} {gpa npages hva : U64} {a : HostAnswer}
    (h : (mapGpa σ gpa npages hva a).1 ≠ 0) :
    mapGpa σ gpa npages hva a = (-1, σ) := by
  rcases mapGpa_cases σ gpa npages hva a with heq | ⟨heq, _⟩
  · exact heq
  · rw [heq] at h
    exact absurd rfl h

theorem mapGpa_of_eq_zero
    {σ : VmMem} {gpa npages hva : U64} {a : HostAnswer}
    (h : (mapGpa σ gpa npages hva a).1 = 0) :
    (mapGpa σ gpa npages hva a).2 = addRegion σ (newRegion gpa npages hva) ∧
      1 ≤ npages.toNat ∧ a.hvVmMap = true ∧ a.malloc = true := by
  rcases mapGpa_cases σ gpa npages hva a with heq | ⟨heq, hrest⟩
  · rw [heq] at h
    simp at h
  · rw [heq]
    exact ⟨rfl, hrest⟩

theorem sublist_insertRegion (r : MemRegion) (l : List MemRegion) :
    l.Sublist (insertRegion r l) := by
  have h :
      (l.takeWhile (fun p => decide (p.stop ≤ r.gpa)) ++
        l.dropWhile (fun p => decide (p.stop ≤ r.gpa))).Sublist
        (insertRegion r l) :=
    (List.Sublist.refl _).append (List.sublist_cons_self r _)
  rwa [List.takeWhile_append_dropWhile] at h

theorem mem_insertRegion_self (r : MemRegion) (l : List MemRegion) :
    r ∈ insertRegion r l := by
  simp [insertRegion]

/-- The comparison made by the walk is the one on numbers. -/
theorem walk_eq {l : List MemRegion} (h : RegionsBelow l) (r : MemRegion) :
    l.takeWhile (fun p => decide (p.stop ≤ r.gpa)) =
        before MemRegion.lo MemRegion.hi r l ∧
      l.dropWhile (fun p => decide (p.stop ≤ r.gpa)) =
        after MemRegion.lo MemRegion.hi r l := by
  apply takeWhile_dropWhile_congr
  intro p hp
  have hiff : p.stop ≤ r.gpa ↔ p.hi ≤ r.lo := by
    rw [BitVec.le_def, MemRegion.toNat_stop (h p hp)]
    rfl
  simp only [hiff]

theorem insertRegion_eq_place {l : List MemRegion}
    (h : RegionsBelow l) (r : MemRegion) :
    insertRegion r l = place MemRegion.lo MemRegion.hi r l := by
  rw [insertRegion, (walk_eq h r).1, (walk_eq h r).2]
  rfl

theorem mem_insertRegion {l : List MemRegion}
    (h : RegionsBelow l) {r p : MemRegion} :
    p ∈ insertRegion r l ↔ p = r ∨ p ∈ l := by
  rw [insertRegion_eq_place h, mem_place]

theorem perm_insertRegion {l : List MemRegion} (h : RegionsBelow l) (r : MemRegion) :
    (insertRegion r l).Perm (r :: l) := by
  rw [insertRegion_eq_place h]
  exact place_perm _ _

section MapGpa

variable {σ : VmMem} {gpa npages hva : U64} {a : HostAnswer}

theorem newRegion_lo_lt_hi (gpa hva : U64) (h : 1 ≤ npages.toNat) :
    (newRegion gpa npages hva).lo < (newRegion gpa npages hva).hi := by
  unfold MemRegion.lo MemRegion.hi
  show (newRegion gpa npages hva).gpa.toNat <
    (newRegion gpa npages hva).gpa.toNat + npages.toNat * 4096
  omega

/-- **When `mapGpa` succeeds.**  The test against one neighbour finds every
overlap. -/
theorem mapGpa_eq_zero_iff
    (h : RegionsOk σ.memRegions)
    (hfit : (newRegion gpa npages hva).hi < 2 ^ 64) :
    (mapGpa σ gpa npages hva a).1 = 0 ↔
      1 ≤ npages.toNat ∧
      (∀ p ∈ σ.memRegions,
        Apart MemRegion.lo MemRegion.hi (newRegion gpa npages hva) p) ∧
      a.hvVmMap = true ∧ a.malloc = true := by
  have hstop := MemRegion.toNat_stop hfit
  have hwalk := (walk_eq h.below (newRegion gpa npages hva)).2
  rw [← fits_iff h.laid]
  unfold mapGpa Fits
  by_cases hn : npages < 1
  · have hn' : ¬ 1 ≤ npages.toNat := (lt_one_iff npages).mp hn
    rw [if_pos hn]
    simp only [hn', false_and, iff_false]
    decide
  · have hn' : 1 ≤ npages.toNat := not_not.mp (mt (lt_one_iff npages).mpr hn)
    have htest : ∀ p : MemRegion,
        (gpa &&& pageMask) + npages * confPageSize ≤ p.gpa ↔
          (newRegion gpa npages hva).hi ≤ p.lo := by
      intro p
      rw [← hstop]
      rfl
    have hnext :
        σ.memRegions.dropWhile
            (fun p => decide (p.stop ≤ gpa &&& pageMask)) =
          after MemRegion.lo MemRegion.hi (newRegion gpa npages hva)
            σ.memRegions :=
      hwalk
    rw [if_neg hn]
    simp only [hnext, htest, hn', true_and]
    cases hhead :
        (after MemRegion.lo MemRegion.hi (newRegion gpa npages hva)
          σ.memRegions).head? with
    | none =>
        cases a.hvVmMap <;> cases a.malloc <;> simp
    | some q =>
        by_cases hq : (newRegion gpa npages hva).hi ≤ q.lo
        · cases a.hvVmMap <;> cases a.malloc <;> simp [hq]
        · cases a.hvVmMap <;> cases a.malloc <;> simp [hq]

/-- After a success the list is in order again. -/
theorem regionsOk_addRegion
    (h : RegionsOk σ.memRegions)
    (hzero : (mapGpa σ gpa npages hva a).1 = 0)
    (hfit : (newRegion gpa npages hva).hi < 2 ^ 64) :
    RegionsOk (addRegion σ (newRegion gpa npages hva)).memRegions := by
  obtain ⟨hn, hall, _⟩ := (mapGpa_eq_zero_iff h hfit).mp hzero
  have hlt := newRegion_lo_lt_hi gpa hva hn
  have hplace := laid_place h.laid hlt ((fits_iff h.laid).mpr hall)
  show RegionsOk (insertRegion (newRegion gpa npages hva) σ.memRegions)
  refine ⟨?_, ?_, ?_⟩
  · rwa [insertRegion_eq_place h.below]
  · intro p hp
    rcases (mem_insertRegion h.below).mp hp with rfl | hp
    · show (gpa &&& pageMask).toNat % 4096 = 0
      rw [toNat_and_pageMask]
      omega
    · exact h.aligned p hp
  · intro p hp
    rcases (mem_insertRegion h.below).mp hp with rfl | hp
    · exact hfit
    · exact h.below p hp

/-- After a success the lookup answers for the new range and as before
elsewhere. -/
theorem gpaToHva_addRegion
    (h : RegionsOk σ.memRegions)
    (hzero : (mapGpa σ gpa npages hva a).1 = 0)
    (hfit : (newRegion gpa npages hva).hi < 2 ^ 64) (x : U64) :
    gpaToHva (addRegion σ (newRegion gpa npages hva)).memRegions x =
      if (newRegion gpa npages hva).lo ≤ x.toNat ∧
          x.toNat < (newRegion gpa npages hva).hi then
        hva + (x - (gpa &&& pageMask))
      else gpaToHva σ.memRegions x := by
  obtain ⟨hn, hall, _⟩ := (mapGpa_eq_zero_iff h hfit).mp hzero
  have hlt := newRegion_lo_lt_hi gpa hva hn
  have hbelow := (regionsOk_addRegion h hzero hfit).below
  have hlist :
      (addRegion σ (newRegion gpa npages hva)).memRegions =
        place MemRegion.lo MemRegion.hi (newRegion gpa npages hva)
          σ.memRegions :=
    insertRegion_eq_place h.below _
  rw [gpaToHva_eq_find hbelow, hlist,
    find_place h.laid hlt ((fits_iff h.laid).mpr hall),
    gpaToHva_eq_find h.below]
  split_ifs
  · rfl
  · rfl

end MapGpa

/-! ## vm_mem_alloc -/

/-- Whether `mapGpa` succeeds does not depend on the blocks of `valloc`. -/
theorem mapGpa_heap
    (σ : VmMem) (heap : List U64) (gpa npages hva : U64) (a : HostAnswer) :
    mapGpa { σ with heap := heap } gpa npages hva a =
      ((mapGpa σ gpa npages hva a).1,
        { (mapGpa σ gpa npages hva a).2 with heap := heap }) := by
  simp only [mapGpa]
  split_ifs <;> rfl

/-- A call of `vmMemAlloc` fails and changes nothing, or registers the range
that the gap search chose. -/
theorem vmMemAlloc_cases (σ : VmMem) (npages gpa₀ : U64) (a : HostAnswer) :
    vmMemAlloc σ npages gpa₀ a = ⟨0, gpa₀, σ⟩ ∨
      ∃ g,
        findFreeMemRegion σ.memRegions npages = some g ∧
        a.valloc ≠ 0 ∧
        (mapGpa σ g npages a.valloc a).1 = 0 ∧
        vmMemAlloc σ npages gpa₀ a =
          ⟨a.valloc, g,
            { addRegion σ (newRegion g npages a.valloc) with
              heap := a.valloc :: σ.heap }⟩ := by
  unfold vmMemAlloc
  cases hfree : findFreeMemRegion σ.memRegions npages with
  | none =>
      exact Or.inl rfl
  | some g =>
      by_cases hv : a.valloc = 0
      · exact Or.inl (if_pos hv)
      · simp only [hv, if_false, mapGpa_heap]
        rcases mapGpa_cases σ g npages a.valloc a with heq | ⟨heq, _⟩
        · left
          simp [heq]
        · right
          exact ⟨g, rfl, hv, by rw [heq], by simp [heq]⟩

/-- The gap search chooses a page, so nothing is rounded off its address. -/
theorem newRegion_gpa_of_findFree
    {l : List MemRegion} {g npages : U64} (hva : U64)
    (h : RegionsOk l) (hg : findFreeMemRegion l npages = some g)
    (hn : npages.toNat * 4096 < 2 ^ 64) :
    newRegion g npages hva = ⟨g, npages, hva⟩ := by
  have halign := findFreeMemRegion_aligned h hn hg
  have hround : g &&& pageMask = g := by
    apply BitVec.eq_of_toNat_eq
    rw [toNat_and_pageMask]
    omega
  rw [newRegion, hround]

/-- **The gap search and the overlap test agree.**  A call that the host grants
succeeds when the range chosen ends below `2 ^ 64`. -/
theorem vmMemAlloc_granted
    {σ : VmMem} {npages : U64} (gpa₀ : U64) {a : HostAnswer}
    (h : RegionsOk σ.memRegions)
    (hn : 1 ≤ npages.toNat) (hn' : npages.toNat * 4096 < 2 ^ 64)
    (hfit : ∀ g, findFreeMemRegion σ.memRegions npages = some g →
      g.toNat + npages.toNat * 4096 < 2 ^ 64)
    (hvalloc : a.valloc ≠ 0) (hmap : a.hvVmMap = true) (hmalloc : a.malloc = true) :
    ∃ g,
      findFreeMemRegion σ.memRegions npages = some g ∧
      (mapGpa σ g npages a.valloc a).1 = 0 ∧
      vmMemAlloc σ npages gpa₀ a =
        ⟨a.valloc, g,
          { addRegion σ ⟨g, npages, a.valloc⟩ with
            heap := a.valloc :: σ.heap }⟩ := by
  have hpos : ¬ npages < 1 := by
    rw [lt_one_iff]
    omega
  obtain ⟨g, hg⟩ : ∃ g, findFreeMemRegion σ.memRegions npages = some g :=
    ⟨_, if_neg hpos⟩
  have hnew := newRegion_gpa_of_findFree a.valloc h hg hn'
  have hzero : (mapGpa σ g npages a.valloc a).1 = 0 := by
    have hhi : (newRegion g npages a.valloc).hi < 2 ^ 64 := by
      rw [hnew]
      exact hfit g hg
    rw [mapGpa_eq_zero_iff h hhi]
    refine ⟨hn, ?_, hmap, hmalloc⟩
    rw [hnew]
    exact findFreeMemRegion_apart h hn' hg
  refine ⟨g, hg, hzero, ?_⟩
  have hcode := (mapGpa_of_eq_zero hzero).1
  rw [hnew] at hcode
  simp only [vmMemAlloc, hg, if_neg hvalloc, mapGpa_heap, hzero, hcode]
  simp

theorem npages_of_hi {gpa npages hva : U64}
    (h : (newRegion gpa npages hva).hi < 2 ^ 64) :
    npages.toNat * 4096 < 2 ^ 64 := by
  have hhi : (newRegion gpa npages hva).hi =
      (newRegion gpa npages hva).gpa.toNat + npages.toNat * 4096 := rfl
  omega

/-! ## A partial map of addresses -/

/-- What `gpaToHva` stands for: a partial map from guest-physical to host
addresses. -/
abbrev HostMap := U64 → Option U64

/-- The map after a range was added. -/
def HostMap.cover (m : HostMap) (r : MemRegion) : HostMap :=
  fun x =>
    if r.lo ≤ x.toNat ∧ x.toNat < r.hi then some (r.hva + (x - r.gpa))
    else m x

/-- The calls that change the region list. -/
inductive RegionOp
  | mapGpa (gpa npages hva : U64) (a : HostAnswer)
  | vmMemAlloc (npages : U64) (a : HostAnswer)

namespace RegionOp

/-- The state after a call. -/
def step (σ : VmMem) : RegionOp → VmMem
  | mapGpa gpa npages hva a => (Hvexec.mapGpa σ gpa npages hva a).2
  | vmMemAlloc npages a => (Hvexec.vmMemAlloc σ npages 0 a).vm

def run (σ : VmMem) (ops : List RegionOp) : VmMem :=
  ops.foldl step σ

/-- The map after a call, by what the call returned. -/
def record (σ : VmMem) (m : HostMap) : RegionOp → HostMap
  | mapGpa gpa npages hva a =>
      if (Hvexec.mapGpa σ gpa npages hva a).1 = 0 then
        m.cover ⟨gpa &&& pageMask, npages, hva⟩
      else m
  | vmMemAlloc npages a =>
      let r := Hvexec.vmMemAlloc σ npages 0 a
      if r.hva ≠ 0 then m.cover ⟨r.gpa, npages, r.hva⟩ else m

/-- `hv_vm_map` accepts only memory of the process: the block it was given does
not contain NULL and does not wrap around. -/
def HostBlock : RegionOp → Prop
  | mapGpa _ npages hva a =>
      a.hvVmMap = true → hva ≠ 0 ∧ hva.toNat + npages.toNat * 4096 ≤ 2 ^ 64
  | vmMemAlloc npages a =>
      a.hvVmMap = true → a.valloc ≠ 0 →
        a.valloc.toNat + npages.toNat * 4096 ≤ 2 ^ 64

end RegionOp

/-- The map after a run that starts with the map `m`. -/
def hostMap (σ : VmMem) (m : HostMap) : List RegionOp → HostMap
  | [] => m
  | op :: ops => hostMap (op.step σ) (op.record σ m) ops

/-- The region list refines the map. -/
structure RefinesMap (σ : VmMem) (m : HostMap) : Prop where
  ok : RegionsOk σ.memRegions
  answers : ∀ x, gpaToHva σ.memRegions x = (m x).getD 0
  covers : ∀ x, InRegion σ.memRegions x ↔ (m x).isSome

theorem refinesMap_init (mem : U64 → Byte) :
    RefinesMap (VmMem.init mem) (fun _ => none) :=
  ⟨regionsOk_nil, fun _ => rfl, by simp [InRegion, VmMem.init]⟩

theorem refinesMap_addRegion
    {σ : VmMem} {m : HostMap} {gpa npages hva : U64} {a : HostAnswer}
    (h : RefinesMap σ m)
    (hzero : (mapGpa σ gpa npages hva a).1 = 0)
    (hfit : (newRegion gpa npages hva).hi < 2 ^ 64) :
    RefinesMap (addRegion σ (newRegion gpa npages hva))
      (m.cover (newRegion gpa npages hva)) := by
  refine ⟨regionsOk_addRegion h.ok hzero hfit, ?_, ?_⟩
  · intro x
    rw [gpaToHva_addRegion h.ok hzero hfit, h.answers, HostMap.cover]
    split_ifs <;> rfl
  · intro x
    have hmem : InRegion (addRegion σ (newRegion gpa npages hva)).memRegions x ↔
        ((newRegion gpa npages hva).lo ≤ x.toNat ∧
          x.toNat < (newRegion gpa npages hva).hi) ∨
        InRegion σ.memRegions x := by
      simp only [InRegion, addRegion, mem_insertRegion h.ok.below]
      constructor
      · rintro ⟨p, rfl | hp, hx⟩
        · exact Or.inl hx
        · exact Or.inr ⟨p, hp, hx⟩
      · rintro (hx | ⟨p, hp, hx⟩)
        · exact ⟨_, Or.inl rfl, hx⟩
        · exact ⟨p, Or.inr hp, hx⟩
    rw [hmem, h.covers, HostMap.cover]
    split_ifs with hx <;> simp [hx]

theorem RegionOp.sublist_step (σ : VmMem) (op : RegionOp) :
    σ.memRegions.Sublist (op.step σ).memRegions := by
  cases op with
  | mapGpa gpa npages hva a =>
      rcases mapGpa_cases σ gpa npages hva a with heq | ⟨heq, _⟩
      · rw [step, heq]
      · rw [step, heq]
        exact sublist_insertRegion _ _
  | vmMemAlloc npages a =>
      rcases vmMemAlloc_cases σ npages 0 a with heq | ⟨g, _, _, _, heq⟩
      · rw [step, heq]
      · rw [step, heq]
        exact sublist_insertRegion _ _

theorem RegionOp.sublist_run (σ : VmMem) (ops : List RegionOp) :
    σ.memRegions.Sublist (RegionOp.run σ ops).memRegions := by
  induction ops generalizing σ with
  | nil =>
      exact List.Sublist.refl _
  | cons op ops ih =>
      exact (RegionOp.sublist_step σ op).trans (ih (op.step σ))

/-- One call keeps the list in order. -/
theorem RegionOp.regionsOk_step
    {σ : VmMem} {op : RegionOp} (h : RegionsOk σ.memRegions)
    (hbelow : RegionsBelow (op.step σ).memRegions) :
    RegionsOk (op.step σ).memRegions := by
  cases op with
  | mapGpa gpa npages hva a =>
      by_cases hzero : (Hvexec.mapGpa σ gpa npages hva a).1 = 0
      · simp only [step, (mapGpa_of_eq_zero hzero).1] at hbelow ⊢
        exact regionsOk_addRegion h hzero (hbelow _ (mem_insertRegion_self _ _))
      · rw [step, mapGpa_of_ne_zero hzero]
        exact h
  | vmMemAlloc npages a =>
      rcases vmMemAlloc_cases σ npages 0 a with heq | ⟨g, _, _, hzero, heq⟩
      · rw [step, heq]
        exact h
      · rw [step, heq] at hbelow ⊢
        exact regionsOk_addRegion h hzero (hbelow _ (mem_insertRegion_self _ _))

/-- One call keeps the refinement. -/
theorem RegionOp.refinesMap_step
    {σ : VmMem} {m : HostMap} {op : RegionOp}
    (h : RefinesMap σ m)
    (hbelow : RegionsBelow (op.step σ).memRegions) :
    RefinesMap (op.step σ) (op.record σ m) := by
  cases op with
  | mapGpa gpa npages hva a =>
      by_cases hzero : (Hvexec.mapGpa σ gpa npages hva a).1 = 0
      · have heq := (mapGpa_of_eq_zero hzero).1
        simp only [step, record, heq, hzero, if_true] at hbelow ⊢
        exact refinesMap_addRegion h hzero
          (hbelow _ (mem_insertRegion_self _ _))
      · have heq := mapGpa_of_ne_zero hzero
        rw [step, record, if_neg hzero, heq]
        exact h
  | vmMemAlloc npages a =>
      rcases vmMemAlloc_cases σ npages 0 a with
        heq | ⟨g, hg, hv, hzero, heq⟩
      · simp only [step, record, heq]
        simpa using h
      · simp only [step, record, heq] at hbelow ⊢
        have hfit : (newRegion g npages a.valloc).hi < 2 ^ 64 :=
          hbelow _ (mem_insertRegion_self _ _)
        have hnew := newRegion_gpa_of_findFree a.valloc h.ok hg
          (npages_of_hi hfit)
        have hadd := refinesMap_addRegion h hzero hfit
        rw [if_pos hv, ← hnew]
        exact ⟨hadd.ok, hadd.answers, hadd.covers⟩

/-- A run keeps the refinement. -/
theorem RegionOp.refinesMap_run
    {σ : VmMem} {m : HostMap} {ops : List RegionOp}
    (h : RefinesMap σ m)
    (hbelow : RegionsBelow (RegionOp.run σ ops).memRegions) :
    RefinesMap (RegionOp.run σ ops) (hostMap σ m ops) := by
  induction ops generalizing σ m with
  | nil =>
      exact h
  | cons op ops ih =>
      have hstep := hbelow.sublist (RegionOp.sublist_run (op.step σ) ops)
      exact ih (RegionOp.refinesMap_step h hstep) hbelow

/-- No address of the map leads to NULL. -/
def HostMap.NonNull (m : HostMap) : Prop :=
  ∀ x v, m x = some v → v ≠ 0

theorem HostMap.nonNull_cover
    {m : HostMap} (h : m.NonNull) {r : MemRegion}
    (hhva : r.hva ≠ 0)
    (hwrap : r.hva.toNat + r.npages.toNat * 4096 ≤ 2 ^ 64) :
    (m.cover r).NonNull := by
  intro x v hv
  unfold HostMap.cover at hv
  split_ifs at hv with hx
  · have hv' : r.hva + (x - r.gpa) = v := Option.some.inj hv
    unfold MemRegion.lo MemRegion.hi at hx
    rw [← hv']
    bv_omega
  · exact h x v hv

theorem RegionOp.nonNull_record
    {σ : VmMem} {m : HostMap} {op : RegionOp}
    (h : m.NonNull) (hop : op.HostBlock) :
    (op.record σ m).NonNull := by
  cases op with
  | mapGpa gpa npages hva a =>
      by_cases hzero : (Hvexec.mapGpa σ gpa npages hva a).1 = 0
      · obtain ⟨hhva, hwrap⟩ := hop (mapGpa_of_eq_zero hzero).2.2.1
        rw [record, if_pos hzero]
        exact HostMap.nonNull_cover h hhva hwrap
      · rw [record, if_neg hzero]
        exact h
  | vmMemAlloc npages a =>
      rcases vmMemAlloc_cases σ npages 0 a with
        heq | ⟨g, _, hv, hzero, heq⟩
      · simp only [record, heq]
        simpa using h
      · have hwrap := hop (mapGpa_of_eq_zero hzero).2.2.1 hv
        simp only [record, heq]
        rw [if_pos hv]
        exact HostMap.nonNull_cover h hv hwrap

theorem nonNull_hostMap
    {σ : VmMem} {m : HostMap} {ops : List RegionOp}
    (h : m.NonNull) (hops : ∀ op ∈ ops, op.HostBlock) :
    (hostMap σ m ops).NonNull := by
  induction ops generalizing σ m with
  | nil =>
      exact h
  | cons op ops ih =>
      exact ih (RegionOp.nonNull_record h (hops op (by simp)))
        (fun o ho => hops o (List.mem_cons_of_mem op ho))

/-- A range is apart from every region when none of its addresses is in one. -/
theorem apart_iff_not_inRegion
    {l : List MemRegion} (h : RegionsOk l) {r : MemRegion}
    (hr : r.lo < r.hi) (hfit : r.hi < 2 ^ 64) :
    (∀ p ∈ l, Apart MemRegion.lo MemRegion.hi r p) ↔
      ∀ x : U64, r.lo ≤ x.toNat → x.toNat < r.hi → ¬ InRegion l x := by
  constructor
  · rintro hall x hlo hhi ⟨p, hp, hplo, hphi⟩
    rcases hall p hp with hle | hle <;> omega
  · intro hall p hp
    have hlt := h.laid.proper p hp
    -- the later of the two starts is a common address of overlapping ranges
    by_contra hcon
    unfold Apart at hcon
    push Not at hcon
    have hx : (BitVec.ofNat 64 (max r.lo p.lo)).toNat = max r.lo p.lo := by
      rw [BitVec.toNat_ofNat, Nat.mod_eq_of_lt (by omega)]
    apply hall (BitVec.ofNat 64 (max r.lo p.lo))
    · rw [hx]
      omega
    · rw [hx]
      omega
    · refine ⟨p, hp, ?_, ?_⟩
      · rw [hx]
        omega
      · rw [hx]
        omega

/-- **The region list refines a partial map.**  After any run of `mapGpa` and
`vmMemAlloc` calls, `gpaToHva` answers with the map that the successful calls
built; a further `mapGpa` succeeds exactly when its range is free of the map and
the host agrees, then adds its range, and changes no answer when it fails. -/
theorem regionList_refines_hostMap
    (mem : U64 → Byte) (ops : List RegionOp)
    (hbelow : RegionsBelow (RegionOp.run (VmMem.init mem) ops).memRegions) :
    let σ := RegionOp.run (VmMem.init mem) ops
    let m := hostMap (VmMem.init mem) (fun _ => none) ops
    (∀ x, gpaToHva σ.memRegions x = (m x).getD 0) ∧
    ((∀ op ∈ ops, op.HostBlock) →
      ∀ x, gpaToHva σ.memRegions x ≠ 0 ↔ (m x).isSome) ∧
    ∀ (gpa npages hva : U64) (a : HostAnswer),
      (gpa &&& pageMask).toNat + npages.toNat * 4096 < 2 ^ 64 →
      ((mapGpa σ gpa npages hva a).1 = 0 ↔
        1 ≤ npages.toNat ∧
        (∀ x : U64, (gpa &&& pageMask).toNat ≤ x.toNat →
          x.toNat < (gpa &&& pageMask).toNat + npages.toNat * 4096 →
          m x = none) ∧
        a.hvVmMap = true ∧ a.malloc = true) ∧
      ((mapGpa σ gpa npages hva a).1 = 0 →
        ∀ x, gpaToHva (mapGpa σ gpa npages hva a).2.memRegions x =
          if (gpa &&& pageMask).toNat ≤ x.toNat ∧
              x.toNat < (gpa &&& pageMask).toNat + npages.toNat * 4096 then
            hva + (x - (gpa &&& pageMask))
          else gpaToHva σ.memRegions x) ∧
      ((mapGpa σ gpa npages hva a).1 ≠ 0 →
        ∀ x, gpaToHva (mapGpa σ gpa npages hva a).2.memRegions x =
          gpaToHva σ.memRegions x) := by
  intro σ m
  have href : RefinesMap σ m :=
    RegionOp.refinesMap_run (refinesMap_init mem) hbelow
  refine ⟨href.answers, ?_, ?_⟩
  · intro hops x
    have hnull : m.NonNull :=
      nonNull_hostMap (by intro y v hy; simp at hy) hops
    rw [href.answers]
    cases hx : m x with
    | none =>
        simp
    | some v =>
        simpa using hnull x v hx
  · intro gpa npages hva a hfit
    have hfit' : (newRegion gpa npages hva).hi < 2 ^ 64 := hfit
    refine ⟨?_, ?_, ?_⟩
    · rw [mapGpa_eq_zero_iff href.ok hfit']
      refine and_congr_right fun hn => and_congr_left fun _ => ?_
      rw [apart_iff_not_inRegion href.ok (newRegion_lo_lt_hi gpa hva hn) hfit']
      have hnone : ∀ x, ¬ InRegion σ.memRegions x ↔ m x = none := by
        intro x
        rw [href.covers]
        simp
      simp only [hnone]
      rfl
    · intro hzero x
      rw [(mapGpa_of_eq_zero hzero).1]
      exact gpaToHva_addRegion href.ok hzero hfit' x
    · intro hne x
      rw [mapGpa_of_ne_zero hne]

/-- Two pages at `0x2000`, then one page that the gap search puts at zero. -/
def twoRegions : List RegionOp :=
  [.mapGpa 0x2345 2 0x70000000 ⟨0, true, true⟩,
    .vmMemAlloc 1 ⟨0x80000000, true, true⟩]

theorem regionList_refines_hostMap_twoRegions :
    let σ := RegionOp.run (VmMem.init fun _ => 0) twoRegions
    gpaToHva σ.memRegions 0x3001 ≠ 0 ∧
      (mapGpa σ 0x1000 1 0x90000000 ⟨0, true, true⟩).1 = 0 ∧
      (mapGpa σ 0x3000 1 0x90000000 ⟨0, true, true⟩).1 ≠ 0 := by
  have h := regionList_refines_hostMap (fun _ => 0) twoRegions
    (by unfold RegionsBelow; decide)
  have hblock : ∀ op ∈ twoRegions, op.HostBlock := by
    simp [twoRegions, RegionOp.HostBlock]
  refine ⟨(h.2.1 hblock 0x3001).mpr (by decide), ?_, ?_⟩
  · refine ((h.2.2 0x1000 1 0x90000000 ⟨0, true, true⟩ (by decide)).1).mpr ?_
    refine ⟨by decide, ?_, rfl, rfl⟩
    intro x hlo hhi
    have hmap :
        hostMap (VmMem.init fun _ => 0) (fun _ => none) twoRegions =
          (HostMap.cover (fun _ => none) ⟨0x2000, 2, 0x70000000⟩).cover
            ⟨0, 1, 0x80000000⟩ := rfl
    have hlo' : 0x1000 ≤ x.toNat := hlo
    have hhi' : x.toNat < 0x1000 + 1 * 4096 := hhi
    rw [hmap]
    simp only [HostMap.cover, MemRegion.lo, MemRegion.hi, BitVec.ofNat_eq_ofNat,
      BitVec.toNat_ofNat]
    rw [if_neg (by omega), if_neg (by omega)]
  · intro hzero
    have hnone := (((h.2.2 0x3000 1 0x90000000 ⟨0, true, true⟩ (by decide)).1).mp
      hzero).2.1 0x3000 (by decide) (by decide)
    revert hnone
    decide

end Hvexec
