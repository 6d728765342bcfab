import Hvexec.MainRun

/-!
# What the loop over the arguments leaves

The array of pointers ends where the strings begin after 32 pointers.  Up to there
every block that the loop lays is seen whole, and the guest finds its arguments.
Pointer 32 lies over the first string.

The strings grow towards the kernel.  The rest of guest memory stays as it is when
what comes to lie over it is what was there.
-/

namespace Hvexec

open ByteMemory IntervalList BlockWrites

/-- Each pointer of the array leads to its string. -/
def ArgvOk (τ : VmMem) (args : List CString) : Prop :=
  ∀ i (hi : i < args.length), ∃ p : U64,
    Holds τ (confArgvAddr + BitVec.ofNat 64 (8 * i)) (leBytes 8 p.toNat) ∧
      Holds τ p (args.get ⟨i, hi⟩).stored

/-- Where string `i` is written. -/
def strAddr (args : List CString) (i : Nat) : Nat :=
  argsEnd confArgsAddr.toNat (args.take i)

/-- The first string looks like the address of string 32, in the eight bytes of a
pointer and as far as the string goes. -/
def SpellsPointer (args : List CString) : Prop :=
  ∃ str ∈ args.head?,
    str.stored.take 8 = (leBytes 8 (strAddr args 32)).take str.stored.length

/-- The bytes that `main` lays for its arguments. -/
def argvBlocks (args : List CString) : List (Block Byte) :=
  argBlocks confArgvAddr.toNat confArgsAddr.toNat args

theorem setArgs_argvBlocks {σ τ : VmMem} {args : List CString}
    (h : RegionsOk σ.memRegions) (hhost : HostOk σ.memRegions)
    (hset : setArgs σ confArgvAddr confArgsAddr args = some τ) :
    confArgvAddr.toNat + 8 * args.length < 2 ^ 64 ∧
      argsEnd confArgsAddr.toNat args < 2 ^ 64 ∧
      ∀ y : U64, τ.byteAt y = (overlay (argvBlocks args) y.toNat).or (σ.byteAt y) :=
  (setArgs_spec h hhost hset).2

/-! ## The blocks of one argument -/

section Blocks

variable {args : List CString} {i : Nat}

/-- Pointer `i`, string `i` and what comes later. -/
theorem argvBlocks_at (hi : i < args.length) :
    ∃ earlier, argvBlocks args =
      earlier ++ ⟨confArgvAddr.toNat + 8 * i, leBytes 8 (strAddr args i)⟩ ::
        ⟨strAddr args i, (args.get ⟨i, hi⟩).stored⟩ ::
        argBlocks (confArgvAddr.toNat + 8 * i + 8)
          (strAddr args i + ((args.get ⟨i, hi⟩).bytes.length + 1)) (args.drop (i + 1)) := by
  refine ⟨argBlocks confArgvAddr.toNat confArgsAddr.toNat (args.take i), ?_⟩
  have hsplit : args = args.take i ++ args.get ⟨i, hi⟩ :: args.drop (i + 1) := by
    rw [List.get_eq_getElem, ← List.drop_eq_getElem_cons hi, List.take_append_drop]
  have hlen : (args.take i).length = i := by
    rw [List.length_take]
    omega
  have happend := argBlocks_append confArgvAddr.toNat confArgsAddr.toNat (args.take i)
    (args.get ⟨i, hi⟩ :: args.drop (i + 1))
  rw [← hsplit, hlen] at happend
  exact happend

theorem le_strAddr (args : List CString) (hi : i ≤ args.length) :
    confArgsAddr.toNat + i ≤ strAddr args i := by
  have hle := le_argsEnd confArgsAddr.toNat (args.take i)
  rw [List.length_take] at hle
  unfold strAddr
  omega

theorem strAddr_le (args : List CString) (i : Nat) :
    strAddr args i ≤ argsEnd confArgsAddr.toNat args := by
  have happend := argsEnd_append confArgsAddr.toNat (args.take i) (args.drop i)
  rw [List.take_append_drop] at happend
  have hle := le_argsEnd (strAddr args i) (args.drop i)
  rw [happend]
  unfold strAddr at hle ⊢
  omega

end Blocks

/-! ## The round trip -/

section RoundTrip

variable {σ τ : VmMem} {args : List CString}

/-- Two lists of bytes found at one address agree as far as both go. -/
theorem Holds.agree {x : U64} {bs bs' : List Byte} (h : Holds τ x bs) (h' : Holds τ x bs')
    (hwrap : x.toNat + bs.length ≤ 2 ^ 64) :
    bs.take bs'.length = bs'.take bs.length := by
  apply List.ext_getElem
  · rw [List.length_take, List.length_take, Nat.min_comm]
  · intro k hk hk'
    rw [List.length_take] at hk hk'
    have hsum : (x + BitVec.ofNat 64 k).toNat = x.toNat + k :=
      toNat_add_ofNat (by omega)
    have hb := h (x + BitVec.ofNat 64 k) (by omega) (by omega)
    have hb' := h' (x + BitVec.ofNat 64 k) (by omega) (by omega)
    have hsub : x.toNat + k - x.toNat = k := by
      omega
    rw [hb, hsum, hsub, List.getD_eq_getElem?_getD, List.getD_eq_getElem?_getD,
      List.getElem?_eq_getElem (by omega), List.getElem?_eq_getElem (by omega)] at hb'
    rw [List.getElem_take, List.getElem_take]
    exact Option.some.inj hb'

section Laid

variable
  (hbytes : ∀ y : U64, τ.byteAt y = (overlay (argvBlocks args) y.toNat).or (σ.byteAt y))

include hbytes

/-- A pointer that ends before its string is seen. -/
theorem holds_pointer (hargv : confArgvAddr.toNat + 8 * args.length < 2 ^ 64)
    {i : Nat} (hi : i < args.length)
    (hapart : confArgvAddr.toNat + 8 * i + 8 ≤ strAddr args i) :
    Holds τ (confArgvAddr + BitVec.ofNat 64 (8 * i)) (leBytes 8 (strAddr args i)) := by
  have hslot : (confArgvAddr + BitVec.ofNat 64 (8 * i)).toNat = confArgvAddr.toNat + 8 * i :=
    toNat_add_ofNat (by omega)
  obtain ⟨earlier, hblocks⟩ := argvBlocks_at hi
  apply holds_of_overlay hbytes
  intro y hy
  rw [hslot] at hy ⊢
  rw [hblocks]
  refine overlay_of_last hy fun v hv hcon => ?_
  obtain ⟨hlo, hhi⟩ := hy
  obtain ⟨hvlo, hvhi⟩ := hcon
  simp only [Block.stop, length_leBytes] at hlo hhi
  rcases List.mem_cons.mp hv with rfl | hv
  · simp only at hvlo
    omega
  · have hbounds := bounds_of_mem_argBlocks hv
    omega

/-- A string behind the array is seen. -/
theorem holds_string (hend : argsEnd confArgsAddr.toNat args < 2 ^ 64)
    {i : Nat} (hi : i < args.length)
    (hapart : confArgvAddr.toNat + 8 * args.length ≤ strAddr args i) :
    Holds τ (BitVec.ofNat 64 (strAddr args i)) (args.get ⟨i, hi⟩).stored := by
  have hle := strAddr_le args i
  have haddr : (BitVec.ofNat 64 (strAddr args i)).toNat = strAddr args i := by
    rw [BitVec.toNat_ofNat]
    omega
  obtain ⟨earlier, hblocks⟩ := argvBlocks_at hi
  apply holds_of_overlay hbytes
  intro y hy
  rw [haddr] at hy ⊢
  rw [hblocks, List.append_cons]
  refine overlay_of_last hy fun v hv hcon => ?_
  obtain ⟨hlo, hhi⟩ := hy
  obtain ⟨hvlo, hvhi⟩ := hcon
  simp only [Block.stop, CString.length_stored] at hlo hhi
  have hbounds := bounds_of_mem_argBlocks hv
  rw [List.length_drop] at hbounds
  omega

/-- Up to 32 arguments are found. -/
theorem argvOk_of_short (hargv : confArgvAddr.toNat + 8 * args.length < 2 ^ 64)
    (hend : argsEnd confArgsAddr.toNat args < 2 ^ 64) (hshort : args.length ≤ 32) :
    ArgvOk τ args := by
  have hargv_lo : confArgvAddr.toNat = 0x7100 := rfl
  have hargs_lo : confArgsAddr.toNat = 0x7200 := rfl
  intro i hi
  have hle := le_strAddr args hi.le
  have hend_i := strAddr_le args i
  have haddr : (BitVec.ofNat 64 (strAddr args i)).toNat = strAddr args i := by
    rw [BitVec.toNat_ofNat]
    omega
  refine ⟨BitVec.ofNat 64 (strAddr args i), ?_, ?_⟩
  · rw [haddr]
    exact holds_pointer hbytes hargv hi (by omega)
  · exact holds_string hbytes hend hi (by omega)

/-- With more of them pointer 32 is what the guest finds as the first string. -/
theorem spells_of_argvOk (hargv : confArgvAddr.toNat + 8 * args.length < 2 ^ 64)
    (hlong : 32 < args.length) (hok : ArgvOk τ args) :
    SpellsPointer args := by
  have hargv_lo : confArgvAddr.toNat = 0x7100 := rfl
  have hargs_lo : confArgsAddr.toNat = 0x7200 := rfl
  have hfirst : 0 < args.length := by
    omega
  obtain ⟨p, hptr, hstr⟩ := hok 0 hfirst
  -- the first pointer is still the one that was written
  have haddr₀ : strAddr args 0 = 0x7200 := rfl
  have hptr₀ := holds_pointer hbytes hargv hfirst (by rw [haddr₀]; omega)
  have hp : p = 0x7200 := by
    have hagree := hptr.agree hptr₀ (by simp [length_leBytes, hargv_lo])
    rw [length_leBytes, length_leBytes] at hagree
    have hnum := congrArg leNat hagree
    rw [List.take_of_length_le (by simp), List.take_of_length_le (by simp), leNat_leBytes,
      leNat_leBytes, haddr₀, Nat.mod_eq_of_lt (by have := p.isLt; omega)] at hnum
    exact BitVec.eq_of_toNat_eq hnum
  -- pointer 32 lies where the first string was
  have hle := le_strAddr args hlong.le
  have hptr₃₂ := holds_pointer hbytes hargv hlong (by omega)
  have hslot : confArgvAddr + BitVec.ofNat 64 (8 * 32) = 0x7200 := rfl
  rw [hslot] at hptr₃₂
  rw [hp] at hstr
  have hagree := hptr₃₂.agree hstr (by simp [length_leBytes])
  rw [length_leBytes] at hagree
  refine ⟨args.get ⟨0, hfirst⟩, ?_, hagree.symm⟩
  rw [Option.mem_def, List.head?_eq_getElem?, List.getElem?_eq_getElem hfirst]
  rfl

end Laid

end RoundTrip

/-- **The round trip of argv.**  Up to 32 arguments arrive, whatever they are.  More of
them arrive only if the first string, as far as pointer 32 covers it, is that
pointer. -/
theorem argv_roundTrip
    (σ τ : VmMem) (args : List CString)
    (h : RegionsOk σ.memRegions) (hhost : HostOk σ.memRegions)
    (hset : setArgs σ confArgvAddr confArgsAddr args = some τ) :
    (args.length ≤ 32 → ArgvOk τ args) ∧
      (32 < args.length → ArgvOk τ args → SpellsPointer args) := by
  obtain ⟨hargv, hend, hbytes⟩ := setArgs_argvBlocks h hhost hset
  exact ⟨argvOk_of_short hbytes hargv hend, spells_of_argvOk hbytes hargv⟩

/-- The letter a, `n` times. -/
def letters (n : Nat) : CString where
  bytes := List.replicate n 0x61
  nonzero := fun hcon => absurd (List.eq_of_mem_replicate hcon) (by decide)

theorem length_letters (n : Nat) : (letters n).bytes.length = n :=
  List.length_replicate

theorem stored_letters {n k : Nat} (hk : k < n) : (letters n).stored[k]? = some 0x61 := by
  have hlen : k < (List.replicate n (0x61 : Byte)).length := by
    rwa [List.length_replicate]
  rw [CString.stored, letters, List.getElem?_append_left hlen, List.getElem?_eq_getElem hlen,
    List.getElem_replicate]

/-- 33 arguments of nine letters. -/
def manyArgs : List CString :=
  List.replicate 33 (letters 9)

/-- With 33 arguments the guest does not find its arguments. -/
theorem argv_lost :
    ∃ τ, setArgs bootRun.afterApp.vm confArgvAddr confArgsAddr manyArgs = some τ ∧
      ¬ ArgvOk τ manyArgs := by
  have hlow := bootRun_loaded.afterApp_low.1
  obtain ⟨τ, hset⟩ : ∃ τ,
      setArgs bootRun.afterApp.vm confArgvAddr confArgsAddr manyArgs = some τ :=
    hlow.setArgs_fits (by decide) (by decide)
  obtain ⟨hargv, _, hbytes⟩ := setArgs_argvBlocks hlow.regions hlow.host hset
  refine ⟨τ, hset, fun hok => ?_⟩
  obtain ⟨str, hstr, heq⟩ := spells_of_argvOk hbytes hargv (by decide) hok
  obtain rfl : letters 9 = str := Option.some.inj hstr
  exact absurd heq (by decide)

theorem argv_roundTrip_bootRun :
    ∃ τ, setArgs bootRun.afterApp.vm confArgvAddr confArgsAddr bootRun.args = some τ ∧
      (bootRun.args.length ≤ 32 → ArgvOk τ bootRun.args) ∧
      (32 < bootRun.args.length → ArgvOk τ bootRun.args → SpellsPointer bootRun.args) := by
  have hlow := bootRun_loaded.afterApp_low.1
  obtain ⟨τ, hset⟩ : ∃ τ,
      setArgs bootRun.afterApp.vm confArgvAddr confArgsAddr bootRun.args = some τ :=
    hlow.setArgs_fits (by decide) (by decide)
  exact ⟨τ, hset, argv_roundTrip _ τ bootRun.args hlow.regions hlow.host hset⟩

/-! ## The rest of guest memory -/

/-- The array and the strings end before the kernel. -/
def ArgsFit (args : List CString) : Prop :=
  confArgvAddr.toNat + 8 * args.length ≤ confStartAddr.toNat ∧
    argsEnd confArgsAddr.toNat args ≤ confStartAddr.toNat

/-- What is laid from the kernel on is what is there. -/
def ArgsRepeat (σ : VmMem) (args : List CString) : Prop :=
  ∀ y : U64, confStartAddr.toNat ≤ y.toNat →
    ∀ b, overlay (argvBlocks args) y.toNat = some b → σ.byteAt y = some b

theorem ArgsFit.argsRepeat {args : List CString} (h : ArgsFit args) (σ : VmMem) :
    ArgsRepeat σ args := by
  intro y hy b hb
  have hnone : overlay (argvBlocks args) y.toNat = none := by
    rw [overlay_eq_none_iff]
    intro w hw hcon
    have hbounds := bounds_of_mem_argBlocks hw
    obtain ⟨harray, hstrings⟩ := h
    obtain ⟨_, hhi⟩ := hcon
    omega
  rw [hnone] at hb
  cases hb

/-- **When the arguments leave the rest of guest memory alone**: they end before the
kernel, or what they lay from there on is what is there. -/
theorem setArgs_frame_iff
    (σ τ : VmMem) (args : List CString)
    (h : RegionsOk σ.memRegions) (hhost : HostOk σ.memRegions)
    (hset : setArgs σ confArgvAddr confArgsAddr args = some τ) :
    (∀ y : U64, ¬ (confArgvAddr.toNat ≤ y.toNat ∧ y.toNat < confStartAddr.toNat) →
        τ.byteAt y = σ.byteAt y) ↔
      ArgsFit args ∨ ArgsRepeat σ args := by
  have hargv_lo : confArgvAddr.toNat = 0x7100 := rfl
  have hargs_lo : confArgsAddr.toNat = 0x7200 := rfl
  have hstart : confStartAddr.toNat = 0x8000 := rfl
  obtain ⟨_, _, hbytes⟩ := setArgs_argvBlocks h hhost hset
  constructor
  · intro hframe
    right
    intro y hy b hb
    have heq := hframe y (by omega)
    rw [hbytes, hb] at heq
    exact heq.symm
  · intro hcond y hy
    have hrep : ArgsRepeat σ args := hcond.elim (fun hfit => hfit.argsRepeat σ) id
    rw [hbytes]
    cases hover : overlay (argvBlocks args) y.toNat with
    | none =>
        rw [Option.none_or]
    | some b =>
        have hkernel : confStartAddr.toNat ≤ y.toNat := by
          by_contra hcon
          have hnone : overlay (argvBlocks args) y.toNat = none := by
            rw [overlay_eq_none_iff]
            intro w hw hcov
            have hbounds := bounds_of_mem_argBlocks hw
            have hlo := hcov.1
            omega
          rw [hnone] at hover
          cases hover
        rw [hrep y hkernel b hover]
        rfl

/-- One argument that is longer than the space before the kernel. -/
def longArgs : List CString :=
  [letters 0xE01]

/-- A long argument overwrites the kernel. -/
theorem setArgs_overwrites_kernel :
    ∃ τ, setArgs bootRun.afterApp.vm confArgvAddr confArgsAddr longArgs = some τ ∧
      bootRun.afterApp.vm.byteAt confStartAddr = some 0x58 ∧
      τ.byteAt confStartAddr = some 0x61 := by
  obtain ⟨hlow, _, hkernel⟩ := bootRun_loaded.afterApp_low
  obtain ⟨τ, hset⟩ : ∃ τ,
      setArgs bootRun.afterApp.vm confArgvAddr confArgsAddr longArgs = some τ :=
    hlow.setArgs_fits (by decide) (by
      rw [longArgs, argsEnd, argsEnd, length_letters]
      decide)
  obtain ⟨_, _, hbytes⟩ := setArgs_argvBlocks hlow.regions hlow.host hset
  refine ⟨τ, hset, hkernel confStartAddr le_rfl (by decide), ?_⟩
  have hcell : Block.cell ⟨confArgsAddr.toNat, (letters 0xE01).stored⟩ confStartAddr.toNat =
      some 0x61 := by
    rw [Block.cell, if_pos (by decide)]
    exact stored_letters (by decide)
  rw [hbytes, argvBlocks, longArgs, argBlocks, argBlocks, overlay, overlay, overlay, hcell]
  rfl

theorem setArgs_frame_iff_bootRun :
    ∃ τ, setArgs bootRun.afterApp.vm confArgvAddr confArgsAddr bootRun.args = some τ ∧
      ((∀ y : U64, ¬ (confArgvAddr.toNat ≤ y.toNat ∧ y.toNat < confStartAddr.toNat) →
          τ.byteAt y = bootRun.afterApp.vm.byteAt y) ↔
        ArgsFit bootRun.args ∨ ArgsRepeat bootRun.afterApp.vm bootRun.args) := by
  have hlow := bootRun_loaded.afterApp_low.1
  obtain ⟨τ, hset⟩ : ∃ τ,
      setArgs bootRun.afterApp.vm confArgvAddr confArgsAddr bootRun.args = some τ :=
    hlow.setArgs_fits (by decide) (by decide)
  exact ⟨τ, hset, setArgs_frame_iff _ τ bootRun.args hlow.regions hlow.host hset⟩

end Hvexec
