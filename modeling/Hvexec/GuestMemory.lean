import Hvexec.MemRun

/-!
# Bytes of guest memory

Inside one region guest memory is one block of host memory, so reading and
writing through `gpaToHva`, byte after byte, is reading and storing one block.
This needs the list in order, and blocks of the host that neither contain NULL
nor wrap around.  That different regions do not disturb each other needs that
their blocks are disjoint.

A region of one page that is used as a table has 512 entries of eight bytes.
-/

namespace Hvexec

open ByteMemory IntervalList

/-- First host address of a region's block. -/
def MemRegion.hostLo (p : MemRegion) : Nat :=
  p.hva.toNat

/-- The host address just after a region's block. -/
def MemRegion.hostHi (p : MemRegion) : Nat :=
  p.hva.toNat + p.npages.toNat * 4096

/-- The blocks behind the regions are memory of the process and disjoint. -/
structure HostOk (l : List MemRegion) : Prop where
  block : ∀ p ∈ l, p.hva ≠ 0 ∧ p.hostHi ≤ 2 ^ 64
  disjoint : l.Pairwise (Apart MemRegion.hostLo MemRegion.hostHi)

theorem HostOk.sublist {l l' : List MemRegion}
    (h : HostOk l') (hsub : l.Sublist l') :
    HostOk l :=
  ⟨fun p hp => h.block p (hsub.subset hp), h.disjoint.sublist hsub⟩

theorem HostOk.apart {l : List MemRegion} (h : HostOk l)
    {p q : MemRegion} (hp : p ∈ l) (hq : q ∈ l) (hne : p ≠ q) :
    Apart MemRegion.hostLo MemRegion.hostHi p q :=
  h.disjoint.forall hp hq hne

/-- A region over a block of its own. -/
theorem HostOk.addRegion {σ : VmMem} (h : HostOk σ.memRegions)
    (hbelow : RegionsBelow σ.memRegions) {r : MemRegion}
    (hblock : r.hva ≠ 0 ∧ r.hostHi ≤ 2 ^ 64)
    (hapart : ∀ p ∈ σ.memRegions, Apart MemRegion.hostLo MemRegion.hostHi r p) :
    HostOk (Hvexec.addRegion σ r).memRegions := by
  show HostOk (insertRegion r σ.memRegions)
  refine ⟨?_, ?_⟩
  · intro p hp
    rcases (mem_insertRegion hbelow).mp hp with rfl | hp
    · exact hblock
    · exact h.block p hp
  · rw [insertRegion_eq_place hbelow, (place_perm r σ.memRegions).pairwise_iff Apart.symm,
      List.pairwise_cons]
    exact ⟨hapart, h.disjoint⟩

/-! ## Reading and writing inside a region -/

/-- Host addresses of a range inside one region are consecutive. -/
theorem gpaToHva_offset {l : List MemRegion}
    (h : RegionsOk l) {p : MemRegion} (hp : p ∈ l)
    {x : U64} (j : Nat)
    (hlo : p.lo ≤ x.toNat) (hhi : x.toNat + j < p.hi) :
    gpaToHva l (x + BitVec.ofNat 64 j) =
      p.hva + (x - p.gpa) + BitVec.ofNat 64 j := by
  have hbelow := h.below p hp
  have hsum : (x + BitVec.ofNat 64 j).toNat = x.toNat + j :=
    toNat_add_ofNat (by omega)
  rw [gpaToHva_of_mem h hp (by omega) (by omega)]
  bv_omega

/-- The host address of a registered address is not NULL. -/
theorem gpaToHva_ne_zero {l : List MemRegion}
    (h : RegionsOk l) (hhost : HostOk l) {p : MemRegion} (hp : p ∈ l)
    {x : U64} (hlo : p.lo ≤ x.toNat) (hhi : x.toNat < p.hi) :
    gpaToHva l x ≠ 0 := by
  obtain ⟨hne, hwrap⟩ := hhost.block p hp
  rw [gpaToHva_of_mem h hp hlo hhi]
  unfold MemRegion.lo MemRegion.hi MemRegion.hostHi at *
  bv_omega

/-- A lookup is NULL exactly outside the regions. -/
theorem gpaToHva_ne_zero_iff {l : List MemRegion}
    (h : RegionsOk l) (hhost : HostOk l) (x : U64) :
    gpaToHva l x ≠ 0 ↔ InRegion l x := by
  constructor
  · intro hne
    by_contra hcon
    apply hne
    apply gpaToHva_of_not_covered h
    intro p hp hx
    exact hcon ⟨p, hp, hx⟩
  · rintro ⟨p, hp, hlo, hhi⟩
    exact gpaToHva_ne_zero h hhost hp hlo hhi

/-- A read whose addresses lead to consecutive host addresses. -/
theorem vmMemRead_of_consecutive
    (σ : VmMem) (buf : List Byte) (gpa hva : U64)
    (h : ∀ j < buf.length,
      gpaToHva σ.memRegions (gpa + BitVec.ofNat 64 j) =
          hva + BitVec.ofNat 64 j ∧
        hva + BitVec.ofNat 64 j ≠ 0) :
    vmMemRead σ gpa buf = (buf.length, slice σ.mem hva buf.length) := by
  induction buf generalizing gpa hva with
  | nil =>
      rfl
  | cons b buf ih =>
      have hhead := h 0 (by simp)
      simp only [BitVec.ofNat_eq_ofNat, BitVec.add_zero] at hhead
      have hnull : hva ≠ 0 := hhead.2
      have htail := ih (gpa + 1) (hva + 1) (by
        intro j hj
        rw [add_one_ofNat, add_one_ofNat]
        exact h (j + 1) (by simpa using hj))
      simp only [vmMemRead, hhead.1, htail, slice, List.length_cons]
      rw [if_neg hnull]

/-- A write whose addresses lead to consecutive host addresses. -/
theorem vmMemWrite_of_consecutive
    (σ : VmMem) (buf : List Byte) (gpa hva : U64)
    (hlen : buf.length ≤ 2 ^ 64)
    (h : ∀ j < buf.length,
      gpaToHva σ.memRegions (gpa + BitVec.ofNat 64 j) =
          hva + BitVec.ofNat 64 j ∧
        hva + BitVec.ofNat 64 j ≠ 0) :
    vmMemWrite σ gpa buf =
      (buf.length, { σ with mem := overwrite σ.mem hva buf }) := by
  induction buf generalizing σ gpa hva with
  | nil =>
      simp [vmMemWrite]
  | cons b buf ih =>
      have hhead := h 0 (by simp)
      simp only [BitVec.ofNat_eq_ofNat, BitVec.add_zero] at hhead
      have hnull : hva ≠ 0 := hhead.2
      have hlen' : buf.length < 2 ^ 64 := by
        simpa using hlen
      have htail := ih { σ with mem := Function.update σ.mem hva b }
        (gpa + 1) (hva + 1) hlen'.le (by
          intro j hj
          rw [add_one_ofNat, add_one_ofNat]
          exact h (j + 1) (by simpa using hj))
      simp only [vmMemWrite, hhead.1, htail, List.length_cons]
      rw [if_neg hnull, overwrite_cons σ.mem hva b buf hlen']

section InsideRegion

variable {σ : VmMem} {p : MemRegion} (gpa : U64)

theorem consecutive_of_mem
    (h : RegionsOk σ.memRegions) (hhost : HostOk σ.memRegions)
    (hp : p ∈ σ.memRegions) {n : Nat}
    (hlo : p.lo ≤ gpa.toNat) (hhi : gpa.toNat + n ≤ p.hi) :
    ∀ j < n,
      gpaToHva σ.memRegions (gpa + BitVec.ofNat 64 j) =
          p.hva + (gpa - p.gpa) + BitVec.ofNat 64 j ∧
        p.hva + (gpa - p.gpa) + BitVec.ofNat 64 j ≠ 0 := by
  intro j hj
  have hbelow := h.below p hp
  have heq := gpaToHva_offset h hp j hlo (by omega)
  refine ⟨heq, ?_⟩
  rw [← heq]
  have hsum : (gpa + BitVec.ofNat 64 j).toNat = gpa.toNat + j :=
    toNat_add_ofNat (by omega)
  exact gpaToHva_ne_zero h hhost hp (by omega) (by omega)

/-- Reading inside a region. -/
theorem vmMemRead_of_mem
    (h : RegionsOk σ.memRegions) (hhost : HostOk σ.memRegions)
    (hp : p ∈ σ.memRegions) (buf : List Byte)
    (hlo : p.lo ≤ gpa.toNat) (hhi : gpa.toNat + buf.length ≤ p.hi) :
    vmMemRead σ gpa buf =
      (buf.length, slice σ.mem (p.hva + (gpa - p.gpa)) buf.length) :=
  vmMemRead_of_consecutive σ buf _ _ (consecutive_of_mem gpa h hhost hp hlo hhi)

/-- Writing inside a region. -/
theorem vmMemWrite_of_mem
    (h : RegionsOk σ.memRegions) (hhost : HostOk σ.memRegions)
    (hp : p ∈ σ.memRegions) (buf : List Byte)
    (hlo : p.lo ≤ gpa.toNat) (hhi : gpa.toNat + buf.length ≤ p.hi) :
    vmMemWrite σ gpa buf =
      (buf.length,
        { σ with mem := overwrite σ.mem (p.hva + (gpa - p.gpa)) buf }) := by
  have hbelow := h.below p hp
  exact vmMemWrite_of_consecutive σ buf _ _ (by omega)
    (consecutive_of_mem gpa h hhost hp hlo hhi)

end InsideRegion

/-! ## Entries of a page -/

/-- Entry `i` of the page that lies at a host address. -/
def pageEntry (mem : U64 → Byte) (hva : U64) (i : Fin 512) : U64 :=
  BitVec.ofNat 64 (leNat (slice mem (hva + BitVec.ofNat 64 (8 * i.val)) 8))

/-- The bytes of host memory after entry `i` of a page was stored. -/
def storeEntry (mem : U64 → Byte) (hva : U64) (i : Fin 512) (v : U64) :
    U64 → Byte :=
  overwrite mem (hva + BitVec.ofNat 64 (8 * i.val)) (leBytes 8 v.toNat)

/-- The first byte of an entry. -/
theorem toNat_pageEntry_mod (mem : U64 → Byte) (hva : U64) (i : Fin 512) :
    (pageEntry mem hva i).toNat % 256 = (mem (hva + BitVec.ofNat 64 (8 * i.val))).toNat := by
  have hb := (mem (hva + BitVec.ofNat 64 (8 * i.val))).isLt
  rw [pageEntry, slice, leNat, BitVec.toNat_ofNat]
  omega

theorem pageEntry_storeEntry_same
    (mem : U64 → Byte) (hva : U64) (i : Fin 512) (v : U64) :
    pageEntry (storeEntry mem hva i v) hva i = v := by
  have h := slice_overwrite_same mem (hva + BitVec.ofNat 64 (8 * i.val))
    (leBytes 8 v.toNat) (by simp)
  rw [length_leBytes] at h
  unfold pageEntry storeEntry
  rw [h, leNat_leBytes, Nat.mod_eq_of_lt (by have := v.isLt; omega),
    BitVec.ofNat_toNat, BitVec.setWidth_eq]

/-- An entry stored back. -/
theorem storeEntry_pageEntry (mem : U64 → Byte) (hva : U64) (i : Fin 512) :
    storeEntry mem hva i (pageEntry mem hva i) = mem := by
  have hlen := length_slice mem (hva + BitVec.ofNat 64 (8 * i.val)) 8
  have hbytes := leBytes_leNat (slice mem (hva + BitVec.ofNat 64 (8 * i.val)) 8)
  have hpow : 2 ^ 64 = 256 ^ 8 := rfl
  rw [hlen] at hbytes
  rw [storeEntry, pageEntry, BitVec.toNat_ofNat, hpow, leBytes_mod, hbytes]
  exact overwrite_slice mem _ 8

/-- Other entries of the same page keep their value. -/
theorem pageEntry_storeEntry_of_ne
    (mem : U64 → Byte) (hva : U64) {i j : Fin 512} (v : U64) (hij : j ≠ i) :
    pageEntry (storeEntry mem hva i v) hva j = pageEntry mem hva j := by
  have hne : j.val ≠ i.val := fun hcon => hij (Fin.ext hcon)
  have hi := i.isLt
  have hj := j.isLt
  unfold pageEntry storeEntry
  rw [slice_overwrite_apart]
  intro k hk
  rw [length_leBytes]
  bv_omega

/-- Bytes outside the page keep their value. -/
theorem storeEntry_of_outside
    (mem : U64 → Byte) {hva : U64} (i : Fin 512) (v : U64) {x : U64}
    (hwrap : hva.toNat + 4096 ≤ 2 ^ 64)
    (hx : x.toNat < hva.toNat ∨ hva.toNat + 4096 ≤ x.toNat) :
    storeEntry mem hva i v x = mem x := by
  have hi := i.isLt
  apply overwrite_of_le
  rw [length_leBytes]
  bv_omega

theorem pageEntry_congr
    {mem mem' : U64 → Byte} {hva : U64} (i : Fin 512)
    (hwrap : hva.toNat + 4096 ≤ 2 ^ 64)
    (h : ∀ x : U64, hva.toNat ≤ x.toNat → x.toNat < hva.toNat + 4096 →
      mem' x = mem x) :
    pageEntry mem' hva i = pageEntry mem hva i := by
  have hi := i.isLt
  unfold pageEntry
  rw [slice_congr]
  intro j hj
  apply h
  · bv_omega
  · bv_omega

/-- A page of zeros has no entry. -/
theorem pageEntry_of_zero
    {mem : U64 → Byte} {hva : U64} (i : Fin 512)
    (hwrap : hva.toNat + 4096 ≤ 2 ^ 64)
    (h : ∀ x : U64, hva.toNat ≤ x.toNat → x.toNat < hva.toNat + 4096 →
      mem x = 0) :
    pageEntry mem hva i = 0 := by
  have hzero : pageEntry mem hva i = pageEntry (fun _ => 0) hva i :=
    pageEntry_congr i hwrap h
  rw [hzero]
  simp [pageEntry, slice, leNat]

/-- A registered page, by its guest-physical and its host address. -/
def IsPage (l : List MemRegion) (g hva : U64) : Prop :=
  ⟨g, 1, hva⟩ ∈ l

theorem IsPage.sublist {l l' : List MemRegion} {g hva : U64}
    (h : IsPage l g hva) (hsub : l.Sublist l') :
    IsPage l' g hva :=
  hsub.subset h

theorem hi_page (g hva : U64) :
    (⟨g, 1, hva⟩ : MemRegion).hi = g.toNat + 4096 := by
  simp [MemRegion.hi]

theorem IsPage.inRegion {l : List MemRegion} {g hva : U64} (h : IsPage l g hva) :
    InRegion l g := by
  refine ⟨_, h, le_rfl, ?_⟩
  rw [hi_page]
  exact Nat.lt_add_of_pos_right (by decide)

theorem hostHi_page (g hva : U64) :
    (⟨g, 1, hva⟩ : MemRegion).hostHi = hva.toNat + 4096 := by
  simp [MemRegion.hostHi]

section Page

variable {σ : VmMem} {g hva : U64}

theorem IsPage.wrap
    (hhost : HostOk σ.memRegions) (hpage : IsPage σ.memRegions g hva) :
    hva.toNat + 4096 ≤ 2 ^ 64 := by
  rw [← hostHi_page g hva]
  exact (hhost.block _ hpage).2

/-- Reading an entry of a registered page; what the buffer held is gone. -/
theorem readU64_of_isPage
    (h : RegionsOk σ.memRegions) (hhost : HostOk σ.memRegions)
    (hpage : IsPage σ.memRegions g hva) (i : Fin 512) (old : U64) :
    readU64 σ (g + BitVec.ofNat 64 (8 * i.val)) old =
      pageEntry σ.mem hva i := by
  have hi := i.isLt
  have hbelow := h.below _ hpage
  rw [hi_page] at hbelow
  have hsum : (g + BitVec.ofNat 64 (8 * i.val)).toNat = g.toNat + 8 * i.val :=
    toNat_add_ofNat (by omega)
  have hread := vmMemRead_of_mem (g + BitVec.ofNat 64 (8 * i.val))
    h hhost hpage (leBytes 8 old.toNat)
    (by rw [hsum]; exact Nat.le_add_right _ _)
    (by
      rw [hsum, length_leBytes, hi_page]
      omega)
  have hoff : hva + (g + BitVec.ofNat 64 (8 * i.val) - g) =
      hva + BitVec.ofNat 64 (8 * i.val) := by
    bv_omega
  rw [readU64, hread, length_leBytes, hoff]
  rfl

/-- Writing an entry of a registered page. -/
theorem writeU64_of_isPage
    (h : RegionsOk σ.memRegions) (hhost : HostOk σ.memRegions)
    (hpage : IsPage σ.memRegions g hva) (i : Fin 512) (v : U64) :
    writeU64 σ (g + BitVec.ofNat 64 (8 * i.val)) v =
      { σ with mem := storeEntry σ.mem hva i v } := by
  have hi := i.isLt
  have hbelow := h.below _ hpage
  rw [hi_page] at hbelow
  have hsum : (g + BitVec.ofNat 64 (8 * i.val)).toNat = g.toNat + 8 * i.val :=
    toNat_add_ofNat (by omega)
  have hwrite := vmMemWrite_of_mem (g + BitVec.ofNat 64 (8 * i.val))
    h hhost hpage (leBytes 8 v.toNat)
    (by rw [hsum]; exact Nat.le_add_right _ _)
    (by
      rw [hsum, length_leBytes, hi_page]
      omega)
  have hoff : hva + (g + BitVec.ofNat 64 (8 * i.val) - g) =
      hva + BitVec.ofNat 64 (8 * i.val) := by
    bv_omega
  rw [writeU64, hwrite, hoff]
  rfl

/-- Two registered pages are the same or have disjoint blocks. -/
theorem IsPage.apart
    (hhost : HostOk σ.memRegions) {g' hva' : U64}
    (hpage : IsPage σ.memRegions g hva) (hpage' : IsPage σ.memRegions g' hva')
    (hne : g' ≠ g) :
    hva.toNat + 4096 ≤ hva'.toNat ∨ hva'.toNat + 4096 ≤ hva.toNat := by
  have hapart := hhost.apart hpage hpage'
    (fun hcon => hne (congrArg MemRegion.gpa hcon).symm)
  unfold Apart at hapart
  rw [hostHi_page, hostHi_page] at hapart
  exact hapart

/-- A page shares no host byte with a longer region. -/
theorem IsPage.not_mem_block {l : List MemRegion} (hhost : HostOk l)
    {g hva : U64} (hpage : IsPage l g hva)
    {p : MemRegion} (hp : p ∈ l) (hn : p.npages ≠ 1)
    {x : U64} (hx : hva.toNat ≤ x.toNat ∧ x.toNat < hva.toNat + 4096) :
    ¬ (p.hostLo ≤ x.toNat ∧ x.toNat < p.hostHi) := by
  have hapart := hhost.apart hp hpage fun hcon => hn (congrArg MemRegion.npages hcon)
  unfold Apart at hapart
  rw [hostHi_page] at hapart
  simp only [MemRegion.hostLo] at hapart ⊢
  omega

/-- A page is registered with one host address. -/
theorem IsPage.hva_unique
    (h : RegionsOk σ.memRegions) {hva' : U64}
    (hpage : IsPage σ.memRegions g hva) (hpage' : IsPage σ.memRegions g hva') :
    hva = hva' := by
  have heq := h.laid.eq_of_mem_of_mem (x := g.toNat) hpage hpage'
    ⟨le_rfl, h.laid.proper _ hpage⟩ ⟨le_rfl, h.laid.proper _ hpage'⟩
  exact congrArg MemRegion.hva heq

end Page

end Hvexec
