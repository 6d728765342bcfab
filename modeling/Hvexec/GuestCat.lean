import Hvexec.GuestLibc

/-!
# test_cat

The guest program copies its standard input, or the file that its first argument names, to
standard output.  What a `read` returns is written before the next one, until a `read` returns
nothing or fails.
-/

namespace Hvexec

open ByteMemory

def oRdonly : BitVec 32 := 0x0000

/-- `err_msg`: ":No such file or directory" and a newline. -/
def errMsg : CString where
  bytes := [0x3A, 0x4E, 0x6F, 0x20, 0x73, 0x75, 0x63, 0x68, 0x20, 0x66, 0x69, 0x6C, 0x65, 0x20,
    0x6F, 0x72, 0x20, 0x64, 0x69, 0x72, 0x65, 0x63, 0x74, 0x6F, 0x72, 0x79, 0x0A]
  nonzero := by decide

/-- The program, compiled, with its parameters and where its locals and its text are. -/
structure CatFrame where
  code : Compiled
  argc : BitVec 32
  argv : U64
  c : U64
  buf : U64
  errMsg : U64

/-- Where the program is, with the locals that have no address. -/
inductive CatAt
  | readChar
  | writeChar
  | openFile
  | noFile
  | noFileMsg
  | clear (fd : BitVec 32) (i : Nat)
  | read (fd : BitVec 32)
  | write (fd : BitVec 32) (nbytes : U64)
  | close (fd : BitVec 32)
  | done
deriving DecidableEq

/-- Where `main` of test_cat starts. -/
def CatFrame.start (f : CatFrame) : CatAt :=
  if f.argc.toInt < 2 then .readChar else .openFile

/-- `main` of test_cat.  A load where nothing is mapped stops it where it is. -/
def cat (f : CatFrame) : Client CatAt (U64 → Option Byte) AppAction Reply where
  next := fun c mem =>
    match c with
    | .readChar => some (f.code.readCall 0 f.c 1)
    | .writeChar => some (f.code.writeCall 1 f.c 1)
    | .openFile => (pointerAt mem (f.argv + 8)).map fun path => f.code.openCall path oRdonly 0
    | .noFile =>
        (pointerAt mem (f.argv + 8)).bind fun path =>
          (strlen mem (2 ^ 64) path).map fun len => f.code.writeCall 1 path len
    | .noFileMsg => (strlen mem (2 ^ 64) f.errMsg).map fun len => f.code.writeCall 1 f.errMsg len
    | .clear _ i => some (.store (f.buf + BitVec.ofNat 64 i) 0)
    | .read fd => some (f.code.readCall fd f.buf 128)
    | .write _ nbytes => some (f.code.writeCall 1 f.buf nbytes)
    | .close fd => some (f.code.closeCall fd)
    | .done => none
  resume := fun c r =>
    match c with
    | .readChar => if r.rax = 1 then .writeChar else .done
    | .writeChar => .readChar
    | .openFile =>
        let fd := openResult r.rax
        if fd.toInt < 0 then .noFile else .clear fd 0
    | .noFile => .noFileMsg
    | .noFileMsg => .done
    | .clear fd i => if i + 1 < 128 then .clear fd (i + 1) else .read fd
    | .read fd => if r.rax.toInt ≤ 0 then .close fd else .write fd r.rax
    | .write fd _ => .read fd
    | .close _ => .done
    | .done => .done

/-! ## What it does to the world -/

section World

variable {W : Type}

/-- The pieces that `read` returns, each written to standard output before the next one. -/
inductive Copied (k : Kernel W) (fd : BitVec 32) (nbyte : Nat) : W → List (List Byte) → W → Prop
  | done {w : W} (hend : (k.call w (.read fd nbyte)).2.rax.toInt ≤ 0) :
      Copied k fd nbyte w [] (k.call w (.read fd nbyte)).1
  | piece {w w' : W} {bs : List Byte} {pieces : List (List Byte)}
      (hdata : (k.call w (.read fd nbyte)).2.data = bs) (hne : bs ≠ [])
      (hrax : (k.call w (.read fd nbyte)).2.rax = BitVec.ofNat 64 bs.length)
      (hrest : Copied k fd nbyte (k.call (k.call w (.read fd nbyte)).1 (.write 1 bs)).1 pieces
        w') :
      Copied k fd nbyte w (bs :: pieces) w'

/-- What the program puts out and leaves. -/
inductive CatDoes (k : Kernel W) (pathMax : Nat) (args : List CString) (w : W) :
    List Byte → W → Prop
  | input {pieces : List (List Byte)} {w' : W} (hargs : args.length < 2)
      (hcopied : Copied k 0 1 w pieces w') : CatDoes k pathMax args w pieces.flatten w'
  | file {path : CString} {fd : BitVec 32} {pieces : List (List Byte)} {w' : W}
      (hpath : args[1]? = some path)
      (hopen : openResult (k.call w (.openPath (path.bytes.take pathMax) oRdonly 0)).2.rax = fd)
      (hfd : 0 ≤ fd.toInt)
      (hcopied : Copied k fd 128
        (k.call w (.openPath (path.bytes.take pathMax) oRdonly 0)).1 pieces w') :
      CatDoes k pathMax args w pieces.flatten (k.call w' (.close fd)).1
  | noFile {path : CString} (hpath : args[1]? = some path)
      (hopen : (openResult
        (k.call w (.openPath (path.bytes.take pathMax) oRdonly 0)).2.rax).toInt < 0) :
      CatDoes k pathMax args w (path.bytes ++ errMsg.bytes)
        (k.after w [.openPath (path.bytes.take pathMax) oRdonly 0, .write 1 path.bytes,
          .write 1 errMsg.bytes])

theorem Kernel.after_append (k : Kernel W) (w : W) (calls calls' : List SysCall) :
    k.after w (calls ++ calls') = k.after (k.after w calls) calls' :=
  List.foldl_append

/-- The pieces are what is put out. -/
theorem Copied.calls {k : Kernel W} {fd : BitVec 32} {nbyte : Nat} {w w' : W}
    {pieces : List (List Byte)} (h : Copied k fd nbyte w pieces w') :
    ∃ calls, w' = k.after w calls ∧ calls.flatMap SysCall.output = pieces.flatten := by
  induction h with
  | done =>
      exact ⟨[.read fd nbyte], rfl, rfl⟩
  | @piece w w' bs pieces _ _ _ _ ih =>
      obtain ⟨calls, rfl, houtput⟩ := ih
      refine ⟨.read fd nbyte :: .write 1 bs :: calls, rfl, ?_⟩
      rw [List.flatMap_cons, List.flatMap_cons, houtput]
      rfl

/-- **What is put out** is put out by the calls that lead there. -/
theorem CatDoes.calls {k : Kernel W} {pathMax : Nat} {args : List CString} {w w' : W}
    {text : List Byte} (h : CatDoes k pathMax args w text w') :
    ∃ calls, w' = k.after w calls ∧ calls.flatMap SysCall.output = text := by
  cases h with
  | input _ hcopied =>
      exact hcopied.calls
  | @file path fd pieces w' _ _ _ hcopied =>
      obtain ⟨calls, rfl, houtput⟩ := hcopied.calls
      refine ⟨.openPath (path.bytes.take pathMax) oRdonly 0 :: (calls ++ [.close fd]), ?_, ?_⟩
      · show _ = k.after _ (calls ++ [.close fd])
        rw [k.after_append]
        rfl
      · rw [List.flatMap_cons, List.flatMap_append, houtput]
        exact List.append_nil _
  | @noFile path _ _ =>
      refine ⟨_, rfl, ?_⟩
      simp [SysCall.output]

end World

/-! ## On a kernel -/

section Native

variable {W : Type} (k : Kernel W) (pathMax : Nat) {f : CatFrame} {args : List CString}
  {top a : U64} {mem : U64 → Option Byte}

/-- What the program relies on. -/
structure CatMem (f : CatFrame) (args : List CString) (top : U64)
    (mem : U64 → Option Byte) : Prop where
  given : Given f.code [syscallRead, syscallWrite, syscallOpen, syscallClose] f.argv args top mem
  message : BytesAbove top mem f.errMsg Hvexec.errMsg.stored
  room : ∀ a : U64, a.toNat < top.toNat → (mem a).isSome
  argc : f.argc.toInt = args.length
  char : f.c.toNat + 1 ≤ top.toNat
  buf : f.buf.toNat + 128 ≤ top.toNat

/-- A store below keeps it. -/
theorem CatMem.update (h : CatMem f args top mem) (ha : a.toNat < top.toNat) (b : Byte) :
    CatMem f args top (Function.update mem a (some b)) := by
  have hsame := SameAbove.update mem ha b
  refine ⟨h.given.same hsame, h.message.same hsame, fun x hx => ?_, h.argc, h.char, h.buf⟩
  by_cases hxa : x = a
  · rw [hxa, Function.update_self]
    rfl
  · rw [Function.update_of_ne hxa]
    exact h.room x hx

/-- A buffer below that is filled keeps it. -/
theorem CatMem.storeFrom (h : CatMem f args top mem) {bs : List Byte}
    (ha : a.toNat + bs.length ≤ top.toNat) :
    CatMem f args top (ByteMemory.storeFrom mem a bs) := by
  have hsame := SameAbove.storeFrom mem bs ha
  refine ⟨h.given.same hsame, h.message.same hsame, fun x hx => ?_, h.argc, h.char, h.buf⟩
  rw [ByteMemory.storeFrom]
  split
  · rfl
  · exact h.room x hx

/-- A `read` into a buffer below. -/
theorem CatMem.native_read (h : CatMem f args top mem) (w : W) (fildes : BitVec 32)
    {nbyte : U64} (ha : a.toNat + nbyte.toNat ≤ top.toNat) :
    let q := k.call w (.read fildes nbyte.toNat)
    ∃ r : Reply, (native k pathMax).step ⟨mem, w⟩ (f.code.readCall fildes a nbyte) =
        some (r, ⟨ByteMemory.storeFrom mem a q.2.data, q.1⟩) ∧
      r.rax = q.2.rax ∧ CatMem f args top (ByteMemory.storeFrom mem a q.2.data) := by
  intro q
  have hfits : q.2.data.length ≤ nbyte.toNat := q.2.fits
  obtain ⟨bs, hbs⟩ : ∃ bs, bytesFrom mem a nbyte.toNat = some bs := by
    refine exists_bytesFrom fun i hi => h.room _ ?_
    rw [toNat_add_ofNat (by omega)]
    omega
  obtain ⟨r, hr, hrax⟩ : ∃ r : Reply,
      (native k pathMax).step ⟨mem, w⟩ (f.code.readCall fildes a nbyte) =
        some (r, ⟨ByteMemory.storeFrom mem a q.2.data, q.1⟩) ∧ r.rax = q.2.rax :=
    Hvexec.native_read (h.given.isSyscallAt (by simp)) hbs
  exact ⟨r, hr, hrax, h.storeFrom (by omega)⟩

/-- A `write` to standard output of what is there. -/
theorem CatMem.native_write (h : CatMem f args top mem) (w : W) {bs : List Byte}
    (hlen : bs.length < 2 ^ 64) (hbs : bytesFrom mem a bs.length = some bs) :
    ∃ r : Reply, (native k pathMax).step ⟨mem, w⟩
        (f.code.writeCall 1 a (BitVec.ofNat 64 bs.length)) =
      some (r, ⟨mem, (k.call w (.write 1 bs)).1⟩) := by
  have hpc : IsSyscallAt mem (f.code.syscallAt syscallWrite) := h.given.isSyscallAt (by simp)
  refine Hvexec.native_write (s := ⟨mem, w⟩) hpc ?_
  rwa [BitVec.toNat_ofNat, Nat.mod_eq_of_lt hlen]

/-- One of the two loops of the program: a `read` and a `write`, until nothing is read. -/
structure CopyLoop (f : CatFrame) (fd : BitVec 32) (a nbyte : U64) (head exit : CatAt)
    (body : U64 → CatAt) : Prop where
  small : nbyte.toNat < 2 ^ 63
  read : ∀ mem, (cat f).next head mem = some (f.code.readCall fd a nbyte)
  more : ∀ r : Reply, 0 < r.rax.toInt → r.rax.toNat ≤ nbyte.toNat →
    (cat f).resume head r = body r.rax
  stop : ∀ r : Reply, r.rax.toInt ≤ 0 → (cat f).resume head r = exit
  write : ∀ n mem, 0 < n.toInt → n.toNat ≤ nbyte.toNat →
    (cat f).next (body n) mem = some (f.code.writeCall 1 a n)
  back : ∀ n r, (cat f).resume (body n) r = head

/-- One byte is read, if any. -/
theorem eq_one_of_toInt_pos {x : U64} (hpos : 0 < x.toInt) (hle : x.toNat ≤ 1) : x = 1 := by
  have hne : x.toNat ≠ 0 := by
    intro hcon
    rw [BitVec.eq_of_toNat_eq (y := 0) hcon] at hpos
    exact absurd hpos (by decide)
  exact BitVec.eq_of_toNat_eq (Nat.le_antisymm hle (Nat.pos_of_ne_zero hne))

theorem copyLoop_char (f : CatFrame) :
    CopyLoop f 0 f.c 1 .readChar .done fun _ => .writeChar where
  small := by decide
  read := fun _ => rfl
  more := fun _ hpos hle => if_pos (eq_one_of_toInt_pos hpos hle)
  stop := by
    intro r hr
    refine if_neg ?_
    intro hcon
    rw [hcon] at hr
    exact absurd hr (by decide)
  write := by
    intro n _ hpos hle
    rw [eq_one_of_toInt_pos hpos hle]
    rfl
  back := fun _ _ => rfl

theorem copyLoop_file (f : CatFrame) (fd : BitVec 32) :
    CopyLoop f fd f.buf 128 (.read fd) (.close fd) (.write fd) where
  small := by decide
  read := fun _ => rfl
  more := fun _ hpos _ => if_neg (not_le.mpr hpos)
  stop := fun _ hr => if_pos hr
  write := fun _ _ _ _ => rfl
  back := fun _ _ => rfl

/-- **A loop copies the pieces.** -/
theorem CopyLoop.reaches {fd : BitVec 32} {nbyte : U64} {head exit : CatAt} {body : U64 → CatAt}
    (hl : CopyLoop f fd a nbyte head exit body) (ha : a.toNat + nbyte.toNat ≤ top.toNat)
    {w w' : W} {pieces : List (List Byte)} (hcopied : Copied k fd nbyte.toNat w pieces w') :
    ∀ {mem : U64 → Option Byte}, CatMem f args top mem →
      ∃ n mem', Service.Reaches (native k pathMax) (cat f) n head ⟨mem, w⟩ exit ⟨mem', w'⟩ ∧
        CatMem f args top mem' := by
  induction hcopied with
  | @done w hend =>
      intro mem h
      obtain ⟨r, hr, hrax, hafter⟩ := h.native_read k pathMax w fd ha
      have hone := Service.Reaches.one (hl.read mem) hr
      rw [hl.stop r (hrax ▸ hend)] at hone
      exact ⟨1, _, hone, hafter⟩
  | @piece w w' bs pieces hdata hne hrax hrest ih =>
      intro mem h
      obtain ⟨r, hr, hr_rax, hafter⟩ := h.native_read k pathMax w fd ha
      have hfits : bs.length ≤ nbyte.toNat := hdata ▸ (k.call w (.read fd nbyte.toNat)).2.fits
      have hpos : 0 < bs.length := List.length_pos_iff.mpr hne
      have hsmall := hl.small
      rw [hdata] at hr hafter
      rw [hrax] at hr_rax
      have hn : r.rax.toNat = bs.length := by
        rw [hr_rax, BitVec.toNat_ofNat]
        omega
      have hn_pos : 0 < r.rax.toInt := by
        rw [BitVec.toInt_eq_toNat_of_lt (by omega), hn]
        exact_mod_cast hpos
      have hread := Service.Reaches.one (hl.read mem) hr
      rw [hl.more r hn_pos (by omega)] at hread
      obtain ⟨r', hr'⟩ := hafter.native_write k pathMax (k.call w (.read fd nbyte.toNat)).1
        (by omega) (bytesFrom_storeFrom mem a (by omega))
      rw [← hr_rax] at hr'
      have hwrite := Service.Reaches.one (hl.write r.rax _ hn_pos (by omega)) hr'
      rw [hl.back] at hwrite
      obtain ⟨n, mem', hreaches, hmem'⟩ := ih hafter
      exact ⟨_, mem', (hread.trans hwrite).trans hreaches, hmem'⟩

/-- One byte of `buf` is cleared. -/
theorem cat_clearByte (fd : BitVec 32) (w : W) {i : Nat} (hi : i < 128)
    (h : CatMem f args top mem) :
    let mem' := Function.update mem (f.buf + BitVec.ofNat 64 i) (some 0)
    Service.Reaches (native k pathMax) (cat f) 1 (.clear fd i) ⟨mem, w⟩
        (if i + 1 < 128 then .clear fd (i + 1) else .read fd) ⟨mem', w⟩ ∧
      CatMem f args top mem' := by
  have hbuf := h.buf
  have hlow : (f.buf + BitVec.ofNat 64 i).toNat < top.toNat := by
    rw [toNat_add_ofNat (by omega)]
    omega
  exact ⟨Service.Reaches.one (c := CatAt.clear fd i) (r := none) rfl
    (native_store (h.room _ hlow)), h.update hlow 0⟩

/-- `buf` is cleared. -/
theorem cat_clear (fd : BitVec 32) (w : W) :
    ∀ (j i : Nat), i + j = 127 → ∀ {mem : U64 → Option Byte}, CatMem f args top mem →
      ∃ n mem', Service.Reaches (native k pathMax) (cat f) n (.clear fd i) ⟨mem, w⟩ (.read fd)
        ⟨mem', w⟩ ∧ CatMem f args top mem' := by
  intro j
  induction j with
  | zero =>
      intro i hi mem h
      obtain ⟨hstep, h'⟩ := cat_clearByte k pathMax fd w (show i < 128 by omega) h
      rw [if_neg (by omega)] at hstep
      exact ⟨1, _, hstep, h'⟩
  | succ j ih =>
      intro i hi mem h
      obtain ⟨hstep, h'⟩ := cat_clearByte k pathMax fd w (show i < 128 by omega) h
      rw [if_pos (by omega)] at hstep
      obtain ⟨n, mem', hreaches, hmem'⟩ := ih (i + 1) (by omega) h'
      exact ⟨_, mem', hstep.trans hreaches, hmem'⟩

/-- An argument with a pointer to it. -/
theorem CatMem.path (h : CatMem f args top mem) {path : CString} (hpath : args[1]? = some path) :
    ∃ p : U64, pointerAt mem (f.argv + 8) = some p ∧
      strlen mem (2 ^ 64) p = some (BitVec.ofNat 64 path.bytes.length) ∧
      path.bytes.length < 2 ^ 64 ∧ bytesFrom mem p path.bytes.length = some path.bytes ∧
      ∀ n, stringFrom mem n p = some (path.bytes.take n) := by
  obtain ⟨hi, rfl⟩ := List.getElem?_eq_some_iff.mp hpath
  obtain ⟨p, hptr, hlen, hbytes, hstring⟩ := h.given.arg_spec hi
  obtain ⟨_, _, _, hhi, _⟩ := h.given.arg 1 hi
  rw [CString.length_stored] at hhi
  have hsmall : (args.get ⟨1, hi⟩).bytes.length < 2 ^ 64 := by
    omega
  rw [BitVec.toNat_ofNat, Nat.mod_eq_of_lt hsmall] at hbytes
  exact ⟨p, hptr, hlen, hsmall, hbytes, hstring⟩

/-- A file is opened, or not. -/
theorem cat_open (w : W) (h : CatMem f args top mem) {path : CString}
    (hpath : args[1]? = some path) :
    let q := k.call w (.openPath (path.bytes.take pathMax) oRdonly 0)
    Service.Reaches (native k pathMax) (cat f) 1 .openFile ⟨mem, w⟩
      (if (openResult q.2.rax).toInt < 0 then .noFile else .clear (openResult q.2.rax) 0)
      ⟨mem, q.1⟩ := by
  intro q
  obtain ⟨p, hptr, _, _, _, hstring⟩ := h.path hpath
  have hpc : IsSyscallAt mem (f.code.syscallAt syscallOpen) := h.given.isSyscallAt (by simp)
  obtain ⟨r, hr, hrax⟩ : ∃ r : Reply,
      (native k pathMax).step ⟨mem, w⟩ (f.code.openCall p oRdonly 0) = some (r, ⟨mem, q.1⟩) ∧
        r.rax = q.2.rax :=
    native_open hpc (hstring pathMax) (by decide)
  have hnext : (cat f).next .openFile mem = some (f.code.openCall p oRdonly 0) := by
    show Option.map _ (pointerAt mem (f.argv + 8)) = _
    rw [hptr]
    rfl
  have hone := Service.Reaches.one (m := native k pathMax) (s := ⟨mem, w⟩) hnext hr
  have hresume : (cat f).resume .openFile r =
      if (openResult q.2.rax).toInt < 0 then .noFile else .clear (openResult q.2.rax) 0 := by
    rw [← hrax]
    rfl
  rwa [hresume] at hone

/-- The message. -/
theorem cat_noFile (w : W) (h : CatMem f args top mem) {path : CString}
    (hpath : args[1]? = some path) :
    Service.Reaches (native k pathMax) (cat f) 2 .noFile ⟨mem, w⟩ .done
      ⟨mem, k.after w [.write 1 path.bytes, .write 1 errMsg.bytes]⟩ := by
  obtain ⟨p, hptr, hlen, hsmall, hbytes, _⟩ := h.path hpath
  obtain ⟨r, hr⟩ := h.native_write k pathMax w hsmall hbytes
  have hnext : (cat f).next .noFile mem =
      some (f.code.writeCall 1 p (BitVec.ofNat 64 path.bytes.length)) := by
    show Option.bind (pointerAt mem (f.argv + 8)) _ = _
    rw [hptr, Option.bind_some, hlen, Option.map_some]
  have hpath' := Service.Reaches.one (m := native k pathMax) (s := ⟨mem, w⟩) hnext hr
  obtain ⟨_, _, hstored⟩ := h.message
  have hmsg : bytesFrom mem f.errMsg errMsg.bytes.length = some errMsg.bytes :=
    (bytesFrom_take hstored (Nat.le_succ _)).trans rfl
  obtain ⟨r', hr'⟩ := h.native_write k pathMax (k.call w (.write 1 path.bytes)).1 (by decide)
    hmsg
  have hnext' : (cat f).next .noFileMsg mem =
      some (f.code.writeCall 1 f.errMsg (BitVec.ofNat 64 errMsg.bytes.length)) := by
    show Option.map _ (strlen mem (2 ^ 64) f.errMsg) = _
    rw [strlen_of_bytesFrom errMsg.nonzero hstored (by decide), Option.map_some]
  have hmsg' := Service.Reaches.one (m := native k pathMax)
    (s := ⟨mem, (k.call w (.write 1 path.bytes)).1⟩) hnext' hr'
  exact hpath'.trans hmsg'

/-- The file is closed. -/
theorem cat_close (w : W) (h : CatMem f args top mem) (fd : BitVec 32) :
    Service.Reaches (native k pathMax) (cat f) 1 (.close fd) ⟨mem, w⟩ .done
      ⟨mem, (k.call w (.close fd)).1⟩ := by
  obtain ⟨r, hr⟩ : ∃ r : Reply, (native k pathMax).step ⟨mem, w⟩ (f.code.closeCall fd) =
      some (r, ⟨mem, (k.call w (.close fd)).1⟩) :=
    native_close (h.given.isSyscallAt (by simp))
  exact Service.Reaches.one (c := CatAt.close fd) (r := r) rfl hr

/-- **test_cat** comes to its end after what it does. -/
theorem cat_reaches {w w' : W} {text : List Byte} (h : CatMem f args top mem)
    (hdoes : CatDoes k pathMax args w text w') :
    ∃ n mem', Service.Reaches (native k pathMax) (cat f) n f.start ⟨mem, w⟩ .done ⟨mem', w'⟩ := by
  have hargc := h.argc
  cases hdoes with
  | input hargs hcopied =>
      have hstart : f.start = .readChar := if_pos (by omega)
      rw [hstart]
      obtain ⟨n, mem', hreaches, _⟩ := (copyLoop_char f).reaches k pathMax h.char hcopied h
      exact ⟨n, mem', hreaches⟩
  | @file path fd pieces w' hpath hopen hfd hcopied =>
      obtain ⟨hi, _⟩ := List.getElem?_eq_some_iff.mp hpath
      have hstart : f.start = .openFile := if_neg (by omega)
      have hopened := cat_open k pathMax w h hpath
      simp only [hopen, if_neg (not_lt.mpr hfd)] at hopened
      obtain ⟨n, mem', hclear, h'⟩ := cat_clear k pathMax fd
        (k.call w (.openPath (path.bytes.take pathMax) oRdonly 0)).1 127 0 rfl h
      obtain ⟨n', mem'', hcopy, h''⟩ := (copyLoop_file f fd).reaches k pathMax h.buf hcopied h'
      rw [hstart]
      exact ⟨_, mem'', ((hopened.trans hclear).trans hcopy).trans (cat_close k pathMax _ h'' fd)⟩
  | @noFile path hpath hopen =>
      obtain ⟨hi, _⟩ := List.getElem?_eq_some_iff.mp hpath
      have hstart : f.start = .openFile := if_neg (by omega)
      have hopened := cat_open k pathMax w h hpath
      simp only [if_pos hopen] at hopened
      rw [hstart]
      exact ⟨_, mem, hopened.trans (cat_noFile k pathMax _ h hpath)⟩

end Native

end Hvexec
