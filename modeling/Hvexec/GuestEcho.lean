import Hvexec.GuestLibc

/-!
# test_echo

The guest program writes its arguments to standard output, with a space between two of them
and a newline at the end.  It does not look at what `write` returns.
-/

namespace Hvexec

open ByteMemory

/-- The program, compiled, with its parameters and where its locals are. -/
structure EchoFrame where
  code : Compiled
  argc : BitVec 32
  argv : U64
  cr : U64
  space : U64

/-- Where the program is. -/
inductive EchoAt
  | start
  | loop (i : Nat)
  | space (i : Nat)
  | separate (i : Nat)
  | done
deriving DecidableEq

/-- `main` of test_echo.  A load where nothing is mapped stops it where it is. -/
def echo (f : EchoFrame) : Client EchoAt (U64 → Option Byte) AppAction Reply where
  next := fun c mem =>
    match c with
    | .start => some (.store f.cr 10)
    | .loop i =>
        if (i : Int) < f.argc.toInt then
          (pointerAt mem (f.argv + BitVec.ofNat 64 (8 * i))).bind fun str =>
            (strlen mem (2 ^ 64) str).map fun len => f.code.writeCall 1 str len
        else some (f.code.writeCall 1 f.cr 1)
    | .space _ => some (.store f.space 32)
    | .separate _ => some (f.code.writeCall 1 f.space 1)
    | .done => none
  resume := fun c _ =>
    match c with
    | .start => .loop 1
    | .loop i => if (i : Int) < f.argc.toInt then .space i else .done
    | .space i => if (i : Int) < f.argc.toInt - 1 then .separate i else .loop (i + 1)
    | .separate i => .loop (i + 1)
    | .done => .done

/-- The calls for the arguments that are left. -/
def echoRest : List CString → List SysCall
  | [] => [.write 1 [10]]
  | [str] => [.write 1 str.bytes, .write 1 [10]]
  | str :: str' :: rest => .write 1 str.bytes :: .write 1 [32] :: echoRest (str' :: rest)

/-- The calls of the program; the first argument is its own name. -/
def echoCalls (args : List CString) : List SysCall :=
  echoRest args.tail

/-- The text: the arguments with a space between them, and a newline. -/
theorem output_echoCalls (args : List CString) :
    (echoCalls args).flatMap SysCall.output =
      [32].intercalate (args.tail.map CString.bytes) ++ [10] := by
  rw [echoCalls]
  generalize args.tail = rest
  induction rest using echoRest.induct with
  | case1 =>
      rfl
  | case2 str =>
      simp [echoRest, SysCall.output, List.intercalate]
  | case3 str str' rest ih =>
      rw [echoRest, List.flatMap_cons, List.flatMap_cons, ih]
      simp [SysCall.output, List.intercalate]

section Native

variable {W : Type} (k : Kernel W) (pathMax : Nat) {f : EchoFrame} {args : List CString}
  {top : U64}

/-- What the loop relies on. -/
structure EchoMem (f : EchoFrame) (args : List CString) (top : U64)
    (mem : U64 → Option Byte) : Prop where
  given : Given f.code [syscallWrite] f.argv args top mem
  argc : f.argc.toInt = args.length
  newline : mem f.cr = some 10
  room : (mem f.space).isSome
  below : f.space.toNat < top.toNat
  apart : f.cr ≠ f.space

theorem EchoMem.isSyscallAt {mem : U64 → Option Byte} (h : EchoMem f args top mem) :
    IsSyscallAt mem (f.code.syscallAt syscallWrite) :=
  h.given.isSyscallAt List.mem_cons_self

/-- A space is stored. -/
theorem EchoMem.update {mem : U64 → Option Byte} (h : EchoMem f args top mem) :
    EchoMem f args top (Function.update mem f.space (some 32)) where
  given := h.given.same (SameAbove.update mem h.below 32)
  argc := h.argc
  newline := (Function.update_of_ne h.apart _ _).trans h.newline
  room := by
    rw [Function.update_self]
    rfl
  below := h.below
  apart := h.apart

/-- The newline, when no argument is left. -/
theorem echo_newline {s : Process W} (h : EchoMem f args top s.mem) {i : Nat}
    (hi : args.length ≤ i) :
    Service.Reaches (native k pathMax) (echo f) 1 (.loop i) s .done
      ⟨s.mem, k.after s.world (echoRest [])⟩ := by
  obtain ⟨r, hr⟩ := native_writeByte k pathMax h.isSyscallAt h.newline
  have hend : ¬ (i : Int) < f.argc.toInt := by
    rw [h.argc]
    omega
  have hnext : (echo f).next (.loop i) s.mem = some (f.code.writeCall 1 f.cr 1) := if_neg hend
  have hresume : (echo f).resume (.loop i) r = .done := if_neg hend
  have hone := Service.Reaches.one hnext hr
  rwa [hresume] at hone

/-- One argument: it is written, and a space is stored. -/
theorem echo_argument {s : Process W} (h : EchoMem f args top s.mem) {i : Nat}
    (hi : i < args.length) :
    Service.Reaches (native k pathMax) (echo f) 2 (.loop i) s
      (if i + 1 < args.length then .separate i else .loop (i + 1))
      ⟨Function.update s.mem f.space (some 32),
        (k.call s.world (.write 1 (args.get ⟨i, hi⟩).bytes)).1⟩ := by
  obtain ⟨p, hptr, hlen, hbytes, _⟩ := h.given.arg_spec hi
  obtain ⟨r, hr⟩ : ∃ r : Reply, (native k pathMax).step s (f.code.writeCall 1 p
        (BitVec.ofNat 64 (args.get ⟨i, hi⟩).bytes.length)) =
      some (r, ⟨s.mem, (k.call s.world (.write 1 (args.get ⟨i, hi⟩).bytes)).1⟩) :=
    native_write h.isSyscallAt hbytes
  have hlt : (i : Int) < f.argc.toInt := by
    rw [h.argc]
    omega
  have hnext : (echo f).next (.loop i) s.mem = some (f.code.writeCall 1 p
      (BitVec.ofNat 64 (args.get ⟨i, hi⟩).bytes.length)) := by
    show (if _ then _ else _) = _
    rw [if_pos hlt, hptr, Option.bind_some, hlen, Option.map_some]
  have hresume : (echo f).resume (.loop i) r = .space i := if_pos hlt
  have hwrite := Service.Reaches.one hnext hr
  rw [hresume] at hwrite
  have hspace := Service.Reaches.one (m := native k pathMax) (p := echo f) (c := .space i)
    (s := ⟨s.mem, (k.call s.world (.write 1 (args.get ⟨i, hi⟩).bytes)).1⟩) rfl
    (native_store h.room)
  have hcond : (i : Int) < f.argc.toInt - 1 ↔ i + 1 < args.length := by
    rw [h.argc]
    omega
  have hresume' : (echo f).resume (.space i) none =
      if i + 1 < args.length then .separate i else .loop (i + 1) :=
    if_congr hcond rfl rfl
  rw [hresume'] at hspace
  exact hwrite.trans hspace

/-- The first of what is left. -/
theorem drop_eq_cons {α : Type} {l : List α} {i : Nat} {x : α} {rest : List α}
    (h : l.drop i = x :: rest) :
    ∃ hi : i < l.length, l.get ⟨i, hi⟩ = x ∧ l.drop (i + 1) = rest := by
  have hi : i < l.length := by
    by_contra hcon
    rw [List.drop_eq_nil_of_le (not_lt.mp hcon)] at h
    exact absurd h (by simp)
  rw [List.drop_eq_getElem_cons hi] at h
  obtain ⟨hx, hrest⟩ := List.cons.inj h
  exact ⟨hi, hx, hrest⟩

/-- The space between two arguments. -/
theorem echo_separate {s : Process W} (h : EchoMem f args top s.mem)
    (hspace : s.mem f.space = some 32) (i : Nat) :
    Service.Reaches (native k pathMax) (echo f) 1 (.separate i) s (.loop (i + 1))
      ⟨s.mem, (k.call s.world (.write 1 [32])).1⟩ := by
  obtain ⟨r, hr⟩ := native_writeByte k pathMax h.isSyscallAt hspace
  exact Service.Reaches.one (c := EchoAt.separate i) (r := r) rfl hr

/-- **The loop writes what is left.** -/
theorem echo_loop {rest : List CString} {s : Process W} (h : EchoMem f args top s.mem) {i : Nat}
    (hrest : args.drop i = rest) :
    ∃ n mem, Service.Reaches (native k pathMax) (echo f) n (.loop i) s .done
      ⟨mem, k.after s.world (echoRest rest)⟩ := by
  induction rest using echoRest.induct generalizing s i with
  | case1 =>
      exact ⟨1, _, echo_newline k pathMax h (List.drop_eq_nil_iff.mp hrest)⟩
  | case2 str =>
      obtain ⟨hi, rfl, hnil⟩ := drop_eq_cons hrest
      have hlast : args.length ≤ i + 1 := List.drop_eq_nil_iff.mp hnil
      have hargument := echo_argument k pathMax h hi
      rw [if_neg (not_lt.mpr hlast)] at hargument
      exact ⟨_, _, hargument.trans (echo_newline k pathMax h.update hlast)⟩
  | case3 str str' rest ih =>
      obtain ⟨hi, rfl, htail⟩ := drop_eq_cons hrest
      obtain ⟨hnext, _, _⟩ := drop_eq_cons htail
      have hargument := echo_argument k pathMax h hi
      rw [if_pos hnext] at hargument
      have hseparate := echo_separate k pathMax
        (s := ⟨_, (k.call s.world (.write 1 (args.get ⟨i, hi⟩).bytes)).1⟩) h.update
        (Function.update_self _ _ _) i
      obtain ⟨n, mem, hreaches⟩ := ih (s := ⟨_, _⟩) h.update htail
      exact ⟨_, mem, (hargument.trans hseparate).trans hreaches⟩

/-- **test_echo** comes to its end after the calls for its arguments. -/
theorem echo_reaches {s : Process W} (hgiven : Given f.code [syscallWrite] f.argv args top s.mem)
    (hargc : f.argc.toInt = args.length)
    (hcr : (s.mem f.cr).isSome ∧ f.cr.toNat < top.toNat)
    (hspace : (s.mem f.space).isSome ∧ f.space.toNat < top.toNat) (hapart : f.cr ≠ f.space) :
    ∃ n mem, Service.Reaches (native k pathMax) (echo f) n .start s .done
      ⟨mem, k.after s.world (echoCalls args)⟩ := by
  have hmem : EchoMem f args top (Function.update s.mem f.cr (some 10)) := by
    refine ⟨hgiven.same (SameAbove.update s.mem hcr.2 10), hargc, Function.update_self _ _ _, ?_,
      hspace.2, hapart⟩
    rw [Function.update_of_ne hapart.symm]
    exact hspace.1
  obtain ⟨n, mem, hreaches⟩ := echo_loop k pathMax
    (s := ⟨Function.update s.mem f.cr (some 10), s.world⟩) hmem (i := 1) List.drop_one
  exact ⟨n + 1, mem, .step (c := EchoAt.start) (r := none) rfl (native_store hcr.1) hreaches⟩

end Native

end Hvexec
