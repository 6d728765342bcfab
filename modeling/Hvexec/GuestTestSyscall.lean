import Hvexec.GuestLibc
import Hvexec.GuestStdlib

/-!
# test_syscall

The guest program writes the character '0' as often as its first argument says, by one system
call each.
-/

namespace Hvexec

open ByteMemory

/-- The program, compiled, with its parameters and where its buffer is. -/
structure TestSyscallFrame where
  code : Compiled
  argc : BitVec 32
  argv : U64
  buf : U64

/-- Where the program is, with the locals that have no address. -/
inductive TestSyscallAt
  | init (n : BitVec 32)
  | loop (n : BitVec 32) (i : Nat)
deriving DecidableEq

/-- `n` of test_syscall, from the memory that it is given. -/
def TestSyscallFrame.count (f : TestSyscallFrame) (mem : U64 → Option Byte) :
    Option (BitVec 32) :=
  if 1 < f.argc.toInt then
    (pointerAt mem (f.argv + 8)).bind fun p => (stringFrom mem (2 ^ 64) p).map atoi
  else some 1

/-- `main` of test_syscall, with `n`. -/
def testSyscall (f : TestSyscallFrame) :
    Client TestSyscallAt (U64 → Option Byte) AppAction Reply where
  next := fun c _ =>
    match c with
    | .init _ => some (.store f.buf 48)
    | .loop n i => if (i : Int) < n.toInt then some (f.code.writeCall 1 f.buf 1) else none
  resume := fun c _ =>
    match c with
    | .init n => .loop n 0
    | .loop n i => .loop n (i + 1)

/-- `n` of test_syscall, from the arguments. -/
def countOf (args : List CString) : BitVec 32 :=
  if h : 1 < args.length then atoi (args.get ⟨1, h⟩).bytes else 1

/-- The calls of the program. -/
def testSyscallCalls (args : List CString) : List SysCall :=
  List.replicate (countOf args).toInt.toNat (.write 1 [48])

section Native

variable {W : Type} (k : Kernel W) (pathMax : Nat) {f : TestSyscallFrame}
  {args : List CString} {top : U64} {mem : U64 → Option Byte}

theorem TestSyscallFrame.count_eq (h : Given f.code [syscallWrite] f.argv args top mem)
    (hargc : f.argc.toInt = args.length) : f.count mem = some (countOf args) := by
  by_cases hi : 1 < args.length
  · obtain ⟨p, hptr, _, _, hstring⟩ := h.arg_spec hi
    obtain ⟨_, _, _, hhi, _⟩ := h.arg 1 hi
    rw [CString.length_stored] at hhi
    have hfits : (args.get ⟨1, hi⟩).bytes.length ≤ 2 ^ 64 := by
      omega
    have hptr' : pointerAt mem (f.argv + 8) = some p := hptr
    rw [count, if_pos (by omega), hptr', Option.bind_some, hstring, Option.map_some,
      List.take_of_length_le hfits, countOf, dif_pos hi]
  · rw [count, if_neg (by omega), countOf, dif_neg hi]

/-- The loop writes what is left. -/
theorem testSyscall_loop {n : BitVec 32}
    (hpc : IsSyscallAt mem (f.code.syscallAt syscallWrite)) (hbuf : mem f.buf = some 48) :
    ∀ (j i : Nat) (w : W), i + j = n.toInt.toNat →
      Service.Reaches (native k pathMax) (testSyscall f) j (.loop n i) ⟨mem, w⟩
        (.loop n (i + j)) ⟨mem, k.after w (List.replicate j (.write 1 [48]))⟩ := by
  intro j
  induction j with
  | zero =>
      intro i w _
      exact .refl _ _
  | succ j ih =>
      intro i w hi
      obtain ⟨r, hr⟩ := native_writeByte k pathMax (s := ⟨mem, w⟩) hpc hbuf
      have hnext : (testSyscall f).next (.loop n i) mem = some (f.code.writeCall 1 f.buf 1) :=
        if_pos (by omega)
      have hrest := ih (i + 1) (k.call w (.write 1 [48])).1 (by omega)
      rw [Nat.add_right_comm] at hrest
      exact .step hnext hr hrest

/-- **test_syscall** comes to its end after its calls. -/
theorem testSyscall_reaches {s : Process W}
    (h : Given f.code [syscallWrite] f.argv args top s.mem)
    (hbuf : (s.mem f.buf).isSome ∧ f.buf.toNat < top.toNat) :
    let n := countOf args
    ∃ mem, Service.Reaches (native k pathMax) (testSyscall f) (n.toInt.toNat + 1) (.init n) s
      (.loop n n.toInt.toNat) ⟨mem, k.after s.world (testSyscallCalls args)⟩ := by
  intro n
  have hgiven := h.same (SameAbove.update s.mem hbuf.2 48)
  have hloop := testSyscall_loop k pathMax (n := n) (hgiven.isSyscallAt List.mem_cons_self)
    (Function.update_self _ _ _) n.toInt.toNat 0 s.world (Nat.zero_add _)
  rw [Nat.zero_add] at hloop
  exact ⟨_, .step (c := TestSyscallAt.init n) (r := none) rfl (native_store hbuf.1) hloop⟩

end Native

end Hvexec
