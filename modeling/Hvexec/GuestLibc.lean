import Hvexec.Application

/-!
# The C library of the guest

The programs for the guest come with a library of their own.  `read`, `write`, `open` and
`close` load registers and execute `syscall`; `strlen` walks over a string.

A program is a client of its process.  It looks at memory as often as it likes, and makes one
store or one system call at a time.
-/

namespace Hvexec

open ByteMemory

def oCreat : BitVec 32 := 0x0200

/-- How a program was compiled: where each wrapper has its instruction `syscall`, what is in
the upper half of a register that an `int` is loaded into, and what is in the registers that
are not loaded. -/
structure Compiled where
  syscallAt : U64 → U64
  upper : BitVec 32
  regs : Reg → U64

/-- What a program gets for an action. -/
abbrev Reply := Option (Reg → U64)

/-- RAX in a reply. -/
def Reply.rax (r : Reply) : U64 :=
  (r.map fun regs => regs .rax).getD 0

namespace Compiled

variable (f : Compiled)

/-- An `int` in a register. -/
def int (x : BitVec 32) : U64 :=
  f.upper ++ x

/-- The registers at the instruction. -/
def callRegs (code rdi rsi rdx : U64) : Reg → U64 :=
  Function.update (Function.update (Function.update (Function.update f.regs .rdx rdx)
    .rsi rsi) .rdi rdi) .rax code

def call (code rdi rsi rdx : U64) : AppAction :=
  .syscall (f.syscallAt code) (f.callRegs code rdi rsi rdx)

def readCall (fildes : BitVec 32) (buf nbyte : U64) : AppAction :=
  f.call syscallRead (f.int fildes) buf nbyte

def writeCall (fildes : BitVec 32) (buf nbyte : U64) : AppAction :=
  f.call syscallWrite (f.int fildes) buf nbyte

/-- The mode counts for a new file only. -/
def openCall (path : U64) (oflag mode : BitVec 32) : AppAction :=
  f.call syscallOpen path (f.int oflag)
    (f.int (if oflag &&& oCreat ≠ 0 then mode else 0))

def closeCall (fildes : BitVec 32) : AppAction :=
  f.call syscallClose (f.int fildes) (f.regs .rsi) (f.regs .rdx)

end Compiled

/-- What `open` returns: 2 is taken for an error. -/
def openResult (ret : U64) : BitVec 32 :=
  if ret = 2 then -1 else ret.setWidth 32

/-- `strlen`, if the string is there and ends before `n` bytes. -/
def strlen (mem : U64 → Option Byte) : Nat → U64 → Option U64
  | 0, _ => none
  | n + 1, str =>
      (mem str).bind fun b => if b = 0 then some 0 else (strlen mem n (str + 1)).map (· + 1)

/-- A pointer in memory. -/
def pointerAt (mem : U64 → Option Byte) (a : U64) : Option U64 :=
  (bytesFrom mem a 8).map fun bs => BitVec.ofNat 64 (leNat bs)

/-- The length of a string that is there. -/
theorem strlen_of_bytesFrom {mem : U64 → Option Byte} :
    ∀ {str : List Byte} {a : U64} {n : Nat}, 0 ∉ str →
      bytesFrom mem a (str.length + 1) = some (str ++ [0]) → str.length < n →
      strlen mem n a = some (BitVec.ofNat 64 str.length)
  | _, _, 0, _, _, hn => absurd hn (Nat.not_lt_zero _)
  | [], a, n + 1, _, h, _ => by
      obtain ⟨b, hb, hrest⟩ := Option.bind_eq_some_iff.mp h
      obtain ⟨bs, _, hbs⟩ := Option.map_eq_some_iff.mp hrest
      obtain rfl : b = 0 := (List.cons.inj hbs).1
      rw [strlen, hb, Option.bind_some, if_pos rfl]
      rfl
  | c :: str, a, n + 1, hzero, h, hn => by
      obtain ⟨b, hb, hrest⟩ := Option.bind_eq_some_iff.mp h
      obtain ⟨bs, hbs, heq⟩ := Option.map_eq_some_iff.mp hrest
      obtain ⟨rfl, rfl⟩ := List.cons.inj heq
      obtain ⟨hne, hzero⟩ := not_or.mp (mt List.mem_cons.mpr hzero)
      rw [List.length_cons] at hn
      rw [strlen, hb, Option.bind_some, if_neg (Ne.symm hne),
        strlen_of_bytesFrom hzero hbs (Nat.lt_of_succ_lt_succ hn), Option.map_some,
        List.length_cons, BitVec.ofNat_add]
      rfl

/-- A pointer that was stored. -/
theorem pointerAt_of_bytesFrom {mem : U64 → Option Byte} {a p : U64}
    (h : bytesFrom mem a 8 = some (leBytes 8 p.toNat)) : pointerAt mem a = some p := by
  have hlt : p.toNat < 256 ^ 8 := p.isLt
  rw [pointerAt, h, Option.map_some, leNat_leBytes, Nat.mod_eq_of_lt hlt, BitVec.ofNat_toNat,
    BitVec.setWidth_eq]

/-! ## On a kernel -/

section Native

variable {W : Type} {k : Kernel W} {pathMax : Nat} {s : Process W} {f : Compiled}

theorem setWidth_int (f : Compiled) (x : BitVec 32) : (f.int x).setWidth 32 = x :=
  BitVec.setWidth_append_eq_right

/-- Only `read` has bytes for the caller. -/
theorem SysAnswer.data_of_room {c : SysCall} (a : SysAnswer c) (hroom : c.room = 0) :
    a.data = [] :=
  List.eq_nil_of_length_eq_zero (Nat.le_zero.mp (hroom ▸ a.fits))

/-- One call of a wrapper. -/
theorem native_call {code rdi rsi rdx : U64} {c : SysCall}
    (hpc : IsSyscallAt s.mem (f.syscallAt code))
    (hc : processCall pathMax s.mem (f.callRegs code rdi rsi rdx) = some c) :
    ∃ r : Reply, (native k pathMax).step s (f.call code rdi rsi rdx) =
        some (r, ⟨storeFrom s.mem rsi (k.call s.world c).2.data, (k.call s.world c).1⟩) ∧
      r.rax = (k.call s.world c).2.rax := by
  have hrsi : f.callRegs code rdi rsi rdx .rsi = rsi := rfl
  refine ⟨some (afterSyscall (f.callRegs code rdi rsi rdx) (f.syscallAt code)
    (k.call s.world c).2.rax), ?_, rfl⟩
  show (if IsSyscallAt s.mem (f.syscallAt code) then _ else none) = _
  rw [if_pos hpc, hc, Option.map_some, hrsi]

theorem native_read {fildes : BitVec 32} {buf nbyte : U64} {bs : List Byte}
    (hpc : IsSyscallAt s.mem (f.syscallAt syscallRead))
    (hbs : bytesFrom s.mem buf nbyte.toNat = some bs) :
    let q := k.call s.world (.read fildes nbyte.toNat)
    ∃ r : Reply, (native k pathMax).step s (f.readCall fildes buf nbyte) =
        some (r, ⟨storeFrom s.mem buf q.2.data, q.1⟩) ∧ r.rax = q.2.rax := by
  refine native_call hpc ?_
  have hrdx : f.callRegs syscallRead (f.int fildes) buf nbyte .rdx = nbyte := rfl
  have hrsi : f.callRegs syscallRead (f.int fildes) buf nbyte .rsi = buf := rfl
  have hrdi : f.callRegs syscallRead (f.int fildes) buf nbyte .rdi = f.int fildes := rfl
  have hrax : f.callRegs syscallRead (f.int fildes) buf nbyte .rax = syscallRead := rfl
  unfold processCall
  dsimp only
  rw [if_pos hrax, hrdx, hrsi, hbs, Option.map_some, hrdi, setWidth_int]

theorem native_write {fildes : BitVec 32} {buf nbyte : U64} {bs : List Byte}
    (hpc : IsSyscallAt s.mem (f.syscallAt syscallWrite))
    (hbs : bytesFrom s.mem buf nbyte.toNat = some bs) :
    ∃ r : Reply, (native k pathMax).step s (f.writeCall fildes buf nbyte) =
        some (r, ⟨s.mem, (k.call s.world (.write fildes bs)).1⟩) := by
  have hcall : processCall pathMax s.mem
      (f.callRegs syscallWrite (f.int fildes) buf nbyte) = some (.write fildes bs) := by
    have hrdx : f.callRegs syscallWrite (f.int fildes) buf nbyte .rdx = nbyte := rfl
    have hrsi : f.callRegs syscallWrite (f.int fildes) buf nbyte .rsi = buf := rfl
    have hrdi : f.callRegs syscallWrite (f.int fildes) buf nbyte .rdi = f.int fildes := rfl
    have hrax : f.callRegs syscallWrite (f.int fildes) buf nbyte .rax = syscallWrite := rfl
    unfold processCall
    dsimp only
    rw [hrax, if_neg (by decide), if_pos rfl, hrdx, hrsi, hbs, Option.map_some, hrdi,
      setWidth_int]
  obtain ⟨r, hr, _⟩ := native_call (k := k) hpc hcall
  rw [SysAnswer.data_of_room _ rfl, storeFrom_nil] at hr
  exact ⟨r, hr⟩

variable (k pathMax) in
/-- One byte is written. -/
theorem native_writeByte {a : U64} {b : Byte} (hpc : IsSyscallAt s.mem (f.syscallAt syscallWrite))
    (hb : s.mem a = some b) :
    ∃ r : Reply, (native k pathMax).step s (f.writeCall 1 a 1) =
      some (r, ⟨s.mem, (k.call s.world (.write 1 [b])).1⟩) := by
  refine native_write hpc ?_
  show bytesFrom s.mem a 1 = _
  rw [bytesFrom, hb]
  rfl

theorem native_open {path : U64} {oflag mode : BitVec 32} {name : List Byte}
    (hpc : IsSyscallAt s.mem (f.syscallAt syscallOpen))
    (hname : stringFrom s.mem pathMax path = some name) (hcreat : oflag &&& oCreat = 0) :
    let q := k.call s.world (.openPath name oflag 0)
    ∃ r : Reply, (native k pathMax).step s (f.openCall path oflag mode) =
        some (r, ⟨s.mem, q.1⟩) ∧ r.rax = q.2.rax := by
  intro q
  have hcall : processCall pathMax s.mem
      (f.callRegs syscallOpen path (f.int oflag) (f.int 0)) =
        some (.openPath name oflag 0) := by
    have hrdx : f.callRegs syscallOpen path (f.int oflag) (f.int 0) .rdx = f.int 0 := rfl
    have hrsi : f.callRegs syscallOpen path (f.int oflag) (f.int 0) .rsi = f.int oflag := rfl
    have hrdi : f.callRegs syscallOpen path (f.int oflag) (f.int 0) .rdi = path := rfl
    have hrax : f.callRegs syscallOpen path (f.int oflag) (f.int 0) .rax = syscallOpen := rfl
    unfold processCall
    dsimp only
    rw [hrax, if_neg (by decide), if_neg (by decide), if_pos rfl, hrdi, hname, Option.map_some,
      hrdx, hrsi, setWidth_int, setWidth_int]
  obtain ⟨r, hr, hrax⟩ := native_call (k := k) hpc hcall
  rw [SysAnswer.data_of_room _ rfl, storeFrom_nil] at hr
  refine ⟨r, ?_, hrax⟩
  rw [Compiled.openCall, if_neg (not_not.mpr hcreat)]
  exact hr

theorem native_close {fildes : BitVec 32}
    (hpc : IsSyscallAt s.mem (f.syscallAt syscallClose)) :
    ∃ r : Reply, (native k pathMax).step s (f.closeCall fildes) =
        some (r, ⟨s.mem, (k.call s.world (.close fildes)).1⟩) := by
  have hcall : processCall pathMax s.mem
      (f.callRegs syscallClose (f.int fildes) (f.regs .rsi) (f.regs .rdx)) =
        some (.close fildes) := by
    have hrdi : f.callRegs syscallClose (f.int fildes) (f.regs .rsi) (f.regs .rdx) .rdi =
      f.int fildes := rfl
    have hrax : f.callRegs syscallClose (f.int fildes) (f.regs .rsi) (f.regs .rdx) .rax =
      syscallClose := rfl
    unfold processCall
    dsimp only
    rw [hrax, if_neg (by decide), if_neg (by decide), if_neg (by decide), if_pos rfl, hrdi,
      setWidth_int]
  obtain ⟨r, hr, _⟩ := native_call (k := k) hpc hcall
  rw [SysAnswer.data_of_room _ rfl, storeFrom_nil] at hr
  exact ⟨r, hr⟩

theorem native_store {a : U64} {b : Byte} (ha : (s.mem a).isSome) :
    (native k pathMax).step s (.store a b) =
      some (none, { s with mem := Function.update s.mem a (some b) }) :=
  if_pos ha

end Native

/-! ## What a program is given

A program finds its code and its arguments above the stack that it starts with, and has its
locals below. -/

section Given

/-- Both memories are the same from an address on. -/
def SameAbove (top : U64) (mem mem' : U64 → Option Byte) : Prop :=
  ∀ a, top.toNat ≤ a.toNat → mem' a = mem a

/-- The bytes lie above the stack. -/
def BytesAbove (top : U64) (mem : U64 → Option Byte) (a : U64) (bs : List Byte) : Prop :=
  top.toNat ≤ a.toNat ∧ a.toNat + bs.length ≤ 2 ^ 64 ∧ bytesFrom mem a bs.length = some bs

/-- The code of some wrappers and the arguments, above the stack. -/
structure Given (f : Compiled) (codes : List U64) (argv : U64) (args : List CString)
    (top : U64) (mem : U64 → Option Byte) : Prop where
  code : ∀ c ∈ codes, BytesAbove top mem (f.syscallAt c) [0x0F, 0x05]
  arg : ∀ i (hi : i < args.length), ∃ p : U64,
    BytesAbove top mem (argv + BitVec.ofNat 64 (8 * i)) (leBytes 8 p.toNat) ∧
      BytesAbove top mem p (args.get ⟨i, hi⟩).stored

variable {top a : U64} {mem mem' : U64 → Option Byte} {bs : List Byte} {f : Compiled}
  {codes : List U64} {argv : U64} {args : List CString}

theorem SameAbove.update (mem : U64 → Option Byte) (ha : a.toNat < top.toNat) (b : Byte) :
    SameAbove top mem (Function.update mem a (some b)) := by
  intro x hx
  refine Function.update_of_ne ?_ _ _
  rintro rfl
  omega

theorem SameAbove.storeFrom (mem : U64 → Option Byte) (bs : List Byte)
    (ha : a.toNat + bs.length ≤ top.toNat) :
    SameAbove top mem (ByteMemory.storeFrom mem a bs) := by
  intro x hx
  refine if_neg ?_
  bv_omega

theorem BytesAbove.same (h : BytesAbove top mem a bs) (hsame : SameAbove top mem mem') :
    BytesAbove top mem' a bs := by
  obtain ⟨hlo, hhi, hbs⟩ := h
  refine ⟨hlo, hhi, (bytesFrom_congr fun i hi => hsame _ ?_).trans hbs⟩
  rw [toNat_add_ofNat (by omega)]
  omega

theorem Given.same (h : Given f codes argv args top mem) (hsame : SameAbove top mem mem') :
    Given f codes argv args top mem' := by
  refine ⟨fun c hc => (h.code c hc).same hsame, fun i hi => ?_⟩
  obtain ⟨p, hptr, hstr⟩ := h.arg i hi
  exact ⟨p, hptr.same hsame, hstr.same hsame⟩

theorem Given.isSyscallAt (h : Given f codes argv args top mem) {c : U64} (hc : c ∈ codes) :
    IsSyscallAt mem (f.syscallAt c) := by
  obtain ⟨_, _, hbytes⟩ := h.code c hc
  obtain ⟨b, hb, hrest⟩ := Option.bind_eq_some_iff.mp hbytes
  obtain ⟨bs, hbs, heq⟩ := Option.map_eq_some_iff.mp hrest
  obtain ⟨rfl, rfl⟩ := List.cons.inj heq
  obtain ⟨b, hb', hrest'⟩ := Option.bind_eq_some_iff.mp hbs
  obtain ⟨bs, _, heq'⟩ := Option.map_eq_some_iff.mp hrest'
  obtain ⟨rfl, _⟩ := List.cons.inj heq'
  exact ⟨hb, hb'⟩

/-- An argument: its pointer, its length and its bytes. -/
theorem Given.arg_spec (h : Given f codes argv args top mem) {i : Nat} (hi : i < args.length) :
    ∃ p : U64, pointerAt mem (argv + BitVec.ofNat 64 (8 * i)) = some p ∧
      strlen mem (2 ^ 64) p = some (BitVec.ofNat 64 (args.get ⟨i, hi⟩).bytes.length) ∧
      bytesFrom mem p (BitVec.ofNat 64 (args.get ⟨i, hi⟩).bytes.length).toNat =
        some (args.get ⟨i, hi⟩).bytes ∧
      ∀ n, stringFrom mem n p = some ((args.get ⟨i, hi⟩).bytes.take n) := by
  obtain ⟨p, ⟨_, _, hptr⟩, ⟨_, hhi, hstr⟩⟩ := h.arg i hi
  have hzero := (args.get ⟨i, hi⟩).nonzero
  rw [CString.length_stored] at hhi hstr
  rw [length_leBytes] at hptr
  refine ⟨p, pointerAt_of_bytesFrom hptr, strlen_of_bytesFrom hzero hstr (by omega), ?_,
    fun n => stringFrom_of_bytesFrom n hzero hstr⟩
  rw [BitVec.toNat_ofNat, Nat.mod_eq_of_lt (by omega), bytesFrom_take hstr (Nat.le_succ _),
    CString.stored, List.take_left]

end Given

/-- What a call puts on standard output. -/
def SysCall.output : SysCall → List Byte
  | .write fildes bytes => if fildes = 1 then bytes else []
  | _ => []

/-- The world after some calls. -/
def Kernel.after {W : Type} (k : Kernel W) (w : W) (calls : List SysCall) : W :=
  calls.foldl (fun w c => (k.call w c).1) w

end Hvexec
