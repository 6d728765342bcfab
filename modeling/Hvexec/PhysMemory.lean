import Hvexec.GuestMemory

/-!
# Guest-physical memory

Through the region list, host memory is a partial function from guest-physical
addresses to bytes.  Different addresses have different host bytes, so a write
changes the addresses it covers and no other, and `vmMemWrite` is an update of
this function up to the first address without a region.

`Holds` says that a list of bytes is found from an address on.
-/

namespace Hvexec

open ByteMemory IntervalList

/-- The byte at a guest-physical address. -/
def VmMem.byteAt (σ : VmMem) (gpa : U64) : Option Byte :=
  if gpaToHva σ.memRegions gpa = 0 then none
  else some (σ.mem (gpaToHva σ.memRegions gpa))

/-- The bytes of a region. -/
theorem byteAt_of_mem {σ : VmMem} (h : RegionsOk σ.memRegions) (hhost : HostOk σ.memRegions)
    {p : MemRegion} (hp : p ∈ σ.memRegions) {y : U64} (hlo : p.lo ≤ y.toNat)
    (hhi : y.toNat < p.hi) :
    σ.byteAt y = some (σ.mem (p.hva + (y - p.gpa))) := by
  rw [VmMem.byteAt, if_neg (gpaToHva_ne_zero h hhost hp hlo hhi), gpaToHva_of_mem h hp hlo hhi]

/-- Different registered addresses have different host addresses. -/
theorem gpaToHva_injective {l : List MemRegion} (h : RegionsOk l) (hhost : HostOk l)
    {x y : U64} (hx : InRegion l x) (hy : InRegion l y)
    (heq : gpaToHva l x = gpaToHva l y) :
    x = y := by
  obtain ⟨p, hp, hplo, hphi⟩ := hx
  obtain ⟨q, hq, hqlo, hqhi⟩ := hy
  obtain ⟨_, hpwrap⟩ := hhost.block p hp
  obtain ⟨_, hqwrap⟩ := hhost.block q hq
  rw [gpaToHva_of_mem h hp hplo hphi, gpaToHva_of_mem h hq hqlo hqhi] at heq
  by_cases hpq : p = q
  · subst hpq
    bv_omega
  · have hapart := hhost.apart hp hq hpq
    unfold Apart MemRegion.hostLo MemRegion.hostHi at hapart
    unfold MemRegion.lo MemRegion.hi MemRegion.hostHi at *
    bv_omega

section Write

variable {σ : VmMem}

/-- The address after a registered one does not wrap around. -/
theorem InRegion.toNat_succ {l : List MemRegion} (h : RegionsOk l) {x : U64}
    (hx : InRegion l x) :
    (x + 1).toNat = x.toNat + 1 := by
  obtain ⟨p, hp, _, hhi⟩ := hx
  have hbelow := h.below p hp
  have hone : (1 : U64).toNat = 1 := rfl
  rw [BitVec.toNat_add, hone]
  omega

theorem byteAt_update (h : RegionsOk σ.memRegions) (hhost : HostOk σ.memRegions)
    {x : U64} (hx : gpaToHva σ.memRegions x ≠ 0) (b : Byte) (y : U64) :
    { σ with mem := Function.update σ.mem (gpaToHva σ.memRegions x) b }.byteAt y =
      if y = x then some b else σ.byteAt y := by
  unfold VmMem.byteAt
  by_cases hyx : y = x
  · subst hyx
    simp only [if_neg hx, if_true, Function.update_self]
  · simp only [if_neg hyx]
    split_ifs with hy
    · rfl
    · have hne : gpaToHva σ.memRegions y ≠ gpaToHva σ.memRegions x := by
        intro hcon
        exact hyx (gpaToHva_injective h hhost ((gpaToHva_ne_zero_iff h hhost y).mp hy)
          ((gpaToHva_ne_zero_iff h hhost x).mp hx) hcon)
      rw [Function.update_of_ne hne]

/-- **A write is an update of guest-physical memory**, as far as it gets. -/
theorem byteAt_vmMemWrite :
    ∀ {σ : VmMem} (buf : List Byte) (gpa : U64),
      RegionsOk σ.memRegions → HostOk σ.memRegions →
      gpa.toNat + (vmMemWrite σ gpa buf).1 < 2 ^ 64 ∧
        ∀ y : U64, (vmMemWrite σ gpa buf).2.byteAt y =
          if gpa.toNat ≤ y.toNat ∧ y.toNat < gpa.toNat + (vmMemWrite σ gpa buf).1 then
            some (buf.getD (y.toNat - gpa.toNat) 0)
          else σ.byteAt y
  | σ, [], gpa, _, _ => by
      refine ⟨gpa.isLt, fun y => ?_⟩
      rw [vmMemWrite, if_neg (by omega)]
  | σ, b :: buf, gpa, h, hhost => by
      rw [vmMemWrite]
      dsimp only
      split_ifs with hnull
      · refine ⟨gpa.isLt, fun y => ?_⟩
        rw [if_neg (by omega)]
      · have hsucc : (gpa + 1).toNat = gpa.toNat + 1 :=
          ((gpaToHva_ne_zero_iff h hhost gpa).mp hnull).toNat_succ h
        obtain ⟨hcount, hrest⟩ := byteAt_vmMemWrite
          (σ := { σ with mem := Function.update σ.mem (gpaToHva σ.memRegions gpa) b })
          buf (gpa + 1) h hhost
        rw [hsucc] at hcount hrest
        refine ⟨by omega, fun y => ?_⟩
        rw [hrest, byteAt_update h hhost hnull]
        by_cases hy : y = gpa
        · subst hy
          rw [if_neg (by omega), if_pos rfl, if_pos (by omega), Nat.sub_self]
          rfl
        · have hne : y.toNat ≠ gpa.toNat := fun hcon => hy (BitVec.eq_of_toNat_eq hcon)
          rw [if_neg hy]
          by_cases hin : gpa.toNat + 1 ≤ y.toNat ∧
              y.toNat < gpa.toNat + 1 + (vmMemWrite
                { σ with mem := Function.update σ.mem (gpaToHva σ.memRegions gpa) b }
                (gpa + 1) buf).1
          · have hsub : y.toNat - gpa.toNat = y.toNat - (gpa.toNat + 1) + 1 := by
              omega
            rw [if_pos hin, if_pos (by omega), hsub, List.getD_cons_succ]
          · rw [if_neg hin, if_neg (by omega)]

@[simp] theorem memRegions_vmMemWrite (buf : List Byte) (gpa : U64) :
    (vmMemWrite σ gpa buf).2.memRegions = σ.memRegions := by
  obtain ⟨mem, hmem⟩ := vmMemWrite_snd σ gpa buf
  rw [hmem]

end Write

/-! ## Bytes in a row -/

/-- The bytes `bs` are found from `gpa` on. -/
def Holds (σ : VmMem) (gpa : U64) (bs : List Byte) : Prop :=
  ∀ y : U64, gpa.toNat ≤ y.toNat → y.toNat < gpa.toNat + bs.length →
    σ.byteAt y = some (bs.getD (y.toNat - gpa.toNat) 0)

namespace Holds

variable {σ τ : VmMem} {gpa x : U64} {bs bs' : List Byte}

theorem congr (h : Holds σ gpa bs)
    (heq : ∀ y : U64, gpa.toNat ≤ y.toNat → y.toNat < gpa.toNat + bs.length →
      τ.byteAt y = σ.byteAt y) :
    Holds τ gpa bs :=
  fun y hlo hhi => (heq y hlo hhi).trans (h y hlo hhi)

/-- A read passes them, and goes on behind. -/
theorem read_append (h : Holds σ gpa bs) (hwrap : gpa.toNat + bs.length < 2 ^ 64)
    {out : List Byte} (hlen : bs.length ≤ out.length) :
    let r := vmMemRead σ (gpa + BitVec.ofNat 64 bs.length) (out.drop bs.length)
    vmMemRead σ gpa out = (bs.length + r.1, bs ++ r.2) := by
  induction bs generalizing gpa out with
  | nil =>
      intro r
      simp [r]
  | cons b bs ih =>
      cases out with
      | nil =>
          simp at hlen
      | cons b' out =>
          rw [List.length_cons] at hwrap
          have hone : (1 : U64).toNat = 1 := rfl
          have hsucc : (gpa + 1).toNat = gpa.toNat + 1 := by
            rw [BitVec.toNat_add, hone]
            omega
          have hhead := h gpa le_rfl (by simp)
          rw [Nat.sub_self] at hhead
          have htail : Holds σ (gpa + 1) bs := by
            intro y hlo hhi
            have hnext := h y (by omega) (by rw [List.length_cons]; omega)
            have hsub : y.toNat - gpa.toNat = y.toNat - (gpa + 1).toNat + 1 := by
              omega
            rwa [hsub, List.getD_cons_succ] at hnext
          unfold VmMem.byteAt at hhead
          split_ifs at hhead with hnull
          have hb := Option.some.inj hhead
          rw [vmMemRead]
          dsimp only
          rw [if_neg hnull, ih htail (by omega) (by simpa using hlen), hb, add_one_ofNat,
            List.length_cons, List.drop_succ_cons, Nat.add_right_comm]
          rfl

/-- They are read. -/
theorem read (h : Holds σ gpa bs) (hwrap : gpa.toNat + bs.length < 2 ^ 64)
    {buf : List Byte} (hlen : buf.length = bs.length) :
    vmMemRead σ gpa buf = (bs.length, bs) := by
  have hread := h.read_append hwrap hlen.ge
  rw [← hlen, List.drop_length] at hread
  simpa [vmMemRead, hlen] using hread

/-- Bytes in two parts. -/
theorem append (hwrap : gpa.toNat + (bs ++ bs').length < 2 ^ 64) :
    Holds σ gpa (bs ++ bs') ↔
      Holds σ gpa bs ∧ Holds σ (gpa + BitVec.ofNat 64 bs.length) bs' := by
  rw [List.length_append] at hwrap
  have hnext : (gpa + BitVec.ofNat 64 bs.length).toNat = gpa.toNat + bs.length :=
    toNat_add_ofNat (by omega)
  constructor
  · intro h
    constructor
    · intro y hlo hhi
      rw [h y hlo (by rw [List.length_append]; omega),
        List.getD_append _ _ _ _ (by omega)]
    · intro y hlo hhi
      rw [h y (by omega) (by rw [List.length_append]; omega),
        List.getD_append_right _ _ _ _ (by omega), hnext, Nat.sub_add_eq]
  · rintro ⟨h, h'⟩ y hlo hhi
    rw [List.length_append] at hhi
    by_cases hy : y.toNat < gpa.toNat + bs.length
    · rw [h y hlo hy, List.getD_append _ _ _ _ (by omega)]
    · rw [h' y (by omega) (by omega), List.getD_append_right _ _ _ _ (by omega), hnext,
        Nat.sub_add_eq]

section Write

variable (h : RegionsOk σ.memRegions) (hhost : HostOk σ.memRegions)

include h hhost

/-- What a write stored. -/
theorem write_self (hcount : (vmMemWrite σ gpa bs).1 = bs.length) :
    Holds (vmMemWrite σ gpa bs).2 gpa bs := by
  intro y hlo hhi
  rw [(byteAt_vmMemWrite bs gpa h hhost).2, hcount, if_pos ⟨hlo, hhi⟩]

/-- What a write leaves alone. -/
theorem write_apart (hx : Holds σ x bs)
    (hapart : x.toNat + bs.length ≤ gpa.toNat ∨
      gpa.toNat + (vmMemWrite σ gpa bs').1 ≤ x.toNat) :
    Holds (vmMemWrite σ gpa bs').2 x bs := by
  apply hx.congr
  intro y hlo hhi
  rw [(byteAt_vmMemWrite bs' gpa h hhost).2, if_neg (by omega)]

end Write

end Holds

end Hvexec
