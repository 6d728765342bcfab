import Hvexec.PhysMemory
import Hvexec.Lib.BlockWrites

/-!
# The arguments of the guest's main

`main` writes the strings of argv one after the other from `0x7200` on, and their
addresses as an array from `0x7100` on, a pointer and its string in turn.  Nothing
keeps the array from the strings, or the strings from what lies behind them.

When all writes are complete, the memory afterwards is the memory before under the
blocks that were laid, the later ones over the earlier ones.
-/

namespace Hvexec

open ByteMemory IntervalList BlockWrites

/-- `CONF_ARGV_ADDR`. -/
def confArgvAddr : U64 := 0x7100

/-- `CONF_ARGS_ADDR`. -/
def confArgsAddr : U64 := 0x7200

/-- A string of C, without the zero that ends it. -/
structure CString where
  bytes : List Byte
  nonzero : 0 ∉ bytes

/-- The string as it lies in memory. -/
def CString.stored (str : CString) : List Byte :=
  str.bytes ++ [0]

/-- `strlen(str) + 1`. -/
@[simp] theorem CString.length_stored (str : CString) :
    str.stored.length = str.bytes.length + 1 := by
  rw [CString.stored, List.length_append, List.length_singleton]

/-- The loop of `main` over the arguments. -/
def setArgs (σ : VmMem) : U64 → U64 → List CString → Option VmMem
  | _, _, [] => some σ
  | argvAddr, argsAddr, str :: args =>
      let w := vmMemWrite σ argvAddr (leBytes 8 argsAddr.toNat)
      if w.1 ≠ 8 then none
      else
        let w' := vmMemWrite w.2 argsAddr str.stored
        if w'.1 ≠ str.bytes.length + 1 then none
        else
          setArgs w'.2 (argvAddr + 8) (argsAddr + BitVec.ofNat 64 (str.bytes.length + 1)) args

/-! ## The blocks that are laid -/

/-- A pointer and its string in turn. -/
def argBlocks : Nat → Nat → List CString → List (Block Byte)
  | _, _, [] => []
  | argvAddr, argsAddr, str :: args =>
      ⟨argvAddr, leBytes 8 argsAddr⟩ :: ⟨argsAddr, str.stored⟩ ::
        argBlocks (argvAddr + 8) (argsAddr + (str.bytes.length + 1)) args

/-- The address just after the strings. -/
def argsEnd : Nat → List CString → Nat
  | argsAddr, [] => argsAddr
  | argsAddr, str :: args => argsEnd (argsAddr + (str.bytes.length + 1)) args

theorem le_argsEnd (argsAddr : Nat) (args : List CString) :
    argsAddr + args.length ≤ argsEnd argsAddr args := by
  induction args generalizing argsAddr with
  | nil =>
      exact le_rfl
  | cons str args ih =>
      have hrest := ih (argsAddr + (str.bytes.length + 1))
      rw [argsEnd, List.length_cons]
      omega

theorem argsEnd_append (argsAddr : Nat) (args args' : List CString) :
    argsEnd argsAddr (args ++ args') = argsEnd (argsEnd argsAddr args) args' := by
  induction args generalizing argsAddr with
  | nil =>
      rfl
  | cons str args ih =>
      exact ih _

theorem argBlocks_append (argvAddr argsAddr : Nat) (args args' : List CString) :
    argBlocks argvAddr argsAddr (args ++ args') =
      argBlocks argvAddr argsAddr args ++
        argBlocks (argvAddr + 8 * args.length) (argsEnd argsAddr args) args' := by
  induction args generalizing argvAddr argsAddr with
  | nil =>
      rfl
  | cons str args ih =>
      have hnext : argvAddr + 8 + 8 * args.length = argvAddr + 8 * (args.length + 1) := by
        omega
      rw [List.cons_append, argBlocks, ih, argBlocks, argsEnd, List.length_cons, hnext]
      rfl

/-- A block is a pointer of the array or one of the strings. -/
theorem bounds_of_mem_argBlocks {argvAddr argsAddr : Nat} {args : List CString}
    {w : Block Byte} (h : w ∈ argBlocks argvAddr argsAddr args) :
    (argvAddr ≤ w.start ∧ w.stop ≤ argvAddr + 8 * args.length) ∨
      (argsAddr ≤ w.start ∧ w.stop ≤ argsEnd argsAddr args) := by
  induction args generalizing argvAddr argsAddr with
  | nil =>
      simp [argBlocks] at h
  | cons str args ih =>
      have hend := le_argsEnd (argsAddr + (str.bytes.length + 1)) args
      simp only [argBlocks, List.mem_cons] at h
      rw [argsEnd, List.length_cons]
      rcases h with rfl | rfl | h
      · left
        simp only [Block.stop, length_leBytes]
        omega
      · right
        simp only [Block.stop, CString.length_stored]
        omega
      · have hrest := ih h
        omega

/-! ## The loop lays the blocks -/

/-- A complete write lays one block. -/
theorem byteAt_write_block {σ : VmMem} {gpa : U64} {buf : List Byte}
    (h : RegionsOk σ.memRegions) (hhost : HostOk σ.memRegions)
    (hcount : (vmMemWrite σ gpa buf).1 = buf.length) :
    gpa.toNat + buf.length < 2 ^ 64 ∧
      ∀ y : U64, (vmMemWrite σ gpa buf).2.byteAt y =
        (Block.cell ⟨gpa.toNat, buf⟩ y.toNat).or (σ.byteAt y) := by
  obtain ⟨hwrap, hbytes⟩ := byteAt_vmMemWrite buf gpa h hhost
  rw [hcount] at hwrap hbytes
  refine ⟨hwrap, fun y => ?_⟩
  rw [hbytes y, Block.cell]
  dsimp only
  split_ifs with hin hle hle
  · rw [List.getD_eq_getElem?_getD, List.getElem?_eq_getElem (by omega)]
    rfl
  · exact absurd hin.1 hle
  · rw [List.getElem?_eq_none (by omega)]
    rfl
  · rfl

/-- **What the loop does.** -/
theorem setArgs_spec {τ : VmMem} :
    ∀ {args : List CString} {σ : VmMem} {argvAddr argsAddr : U64},
      RegionsOk σ.memRegions → HostOk σ.memRegions →
      setArgs σ argvAddr argsAddr args = some τ →
      τ.memRegions = σ.memRegions ∧
        argvAddr.toNat + 8 * args.length < 2 ^ 64 ∧ argsEnd argsAddr.toNat args < 2 ^ 64 ∧
        ∀ y : U64, τ.byteAt y =
          (overlay (argBlocks argvAddr.toNat argsAddr.toNat args) y.toNat).or (σ.byteAt y)
  | [], σ, argvAddr, argsAddr, _, _, hset => by
      obtain rfl := Option.some.inj hset
      exact ⟨rfl, argvAddr.isLt, argsAddr.isLt, fun y => rfl⟩
  | str :: args, σ, argvAddr, argsAddr, h, hhost, hset => by
      rw [setArgs] at hset
      dsimp only at hset
      split_ifs at hset with hptr hstr
      have hregions := memRegions_vmMemWrite (σ := σ) (leBytes 8 argsAddr.toNat) argvAddr
      obtain ⟨hwrap, hbytes⟩ := byteAt_write_block h hhost
        ((not_not.mp hptr).trans (length_leBytes 8 _).symm)
      rw [length_leBytes] at hwrap
      rw [← hregions] at h hhost
      obtain ⟨hwrap', hbytes'⟩ := byteAt_write_block h hhost
        ((not_not.mp hstr).trans str.length_stored.symm)
      rw [str.length_stored] at hwrap'
      have hregions' := memRegions_vmMemWrite
        (σ := (vmMemWrite σ argvAddr (leBytes 8 argsAddr.toNat)).2) str.stored argsAddr
      rw [← hregions'] at h hhost
      -- complete writes do not wrap around, and so the next addresses do not
      have height : (8 : U64).toNat = 8 := rfl
      have hargv : (argvAddr + 8).toNat = argvAddr.toNat + 8 := by
        rw [BitVec.toNat_add, height]
        omega
      have hargs : (argsAddr + BitVec.ofNat 64 (str.bytes.length + 1)).toNat =
          argsAddr.toNat + (str.bytes.length + 1) :=
        toNat_add_ofNat (by omega)
      obtain ⟨hregions₂, harray, hend, hbytes₂⟩ := setArgs_spec h hhost hset
      rw [hargv] at harray
      rw [hargs] at hend
      refine ⟨hregions₂.trans (hregions'.trans hregions), ?_, hend, fun y => ?_⟩
      · rw [List.length_cons]
        omega
      rw [hbytes₂, hbytes', hbytes, hargv, hargs, argBlocks, overlay, overlay,
        Option.or_assoc, Option.or_assoc]

/-- A block that is seen whole is held. -/
theorem holds_of_overlay {σ τ : VmMem} {ws : List (Block Byte)} {gpa : U64} {bs : List Byte}
    (hbytes : ∀ y : U64, τ.byteAt y = (overlay ws y.toNat).or (σ.byteAt y))
    (hseen : ∀ y : Nat, Block.Covers ⟨gpa.toNat, bs⟩ y →
      overlay ws y = Block.cell ⟨gpa.toNat, bs⟩ y) :
    Holds τ gpa bs := by
  intro y hlo hhi
  have hlt : y.toNat - gpa.toNat < bs.length := by
    omega
  rw [hbytes, hseen y.toNat ⟨hlo, hhi⟩, Block.cell, if_pos hlo, List.getD_eq_getElem?_getD]
  dsimp only
  rw [List.getElem?_eq_getElem hlt]
  rfl

/-- What the blocks do not reach is kept. -/
theorem Holds.of_overlay_none {σ τ : VmMem} {ws : List (Block Byte)} {x : U64}
    {bs : List Byte} (h : Holds σ x bs)
    (hbytes : ∀ y : U64, τ.byteAt y = (overlay ws y.toNat).or (σ.byteAt y))
    (hnone : ∀ w ∈ ws, x.toNat + bs.length ≤ w.start) :
    Holds τ x bs := by
  apply h.congr
  intro y hlo hhi
  have hover : overlay ws y.toNat = none := by
    rw [overlay_eq_none_iff]
    intro w hw hcon
    have := hnone w hw
    have := hcon.1
    omega
  rw [hbytes, hover, Option.none_or]

end Hvexec
