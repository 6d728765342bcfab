import Hvexec.MachoParser

/-!
# Files that follow the format

A thin Mach-O file is a header, as many load commands as the header says, each as long
as it says itself, and anything behind them.  `ThinFile` is such a file in one of the
two byte orders, given by its parts, so that a file that breaks the format cannot be
built.

The parser finds the first LC_MAIN command of a thin file and no other: it never takes
the inside of another command for one.  In the other byte order it finds the same
command but forgets to swap its fields.
-/

namespace Hvexec

open ByteMemory

def mhMagic : BitVec 32 := 0xFEEDFACE

/-- The magic number of a thin file, as it is read in the byte order of the machine. -/
def thinMagic (is64 isSwap : Bool) : BitVec 32 :=
  if is64 then
    if isSwap then mhCigam64 else mhMagic64
  else
    if isSwap then mhCigam else mhMagic

/-- A load command: as many bytes as its `cmdsize`, and enough of them for its
structure. -/
structure CommandBytes (isSwap : Bool) where
  bytes : List Byte
  cmdsize : field isSwap bytes 4 4 = bytes.length
  generic : 8 ≤ bytes.length
  main : BitVec.ofNat 32 (field isSwap bytes 0 4) = lcMain → 24 ≤ bytes.length

/-- The `cmd` of a load command. -/
def CommandBytes.cmd {isSwap : Bool} (c : CommandBytes isSwap) : BitVec 32 :=
  BitVec.ofNat 32 (field isSwap c.bytes 0 4)

/-- The load commands of a file, one after the other. -/
def commandBytes {isSwap : Bool} (commands : List (CommandBytes isSwap)) : List Byte :=
  commands.flatMap CommandBytes.bytes

/-- A thin Mach-O file. -/
structure ThinFile (isSwap : Bool) where
  is64 : Bool
  header : List Byte
  commands : List (CommandBytes isSwap)
  rest : List Byte
  size : header.length = (headerSize is64).toNat
  magic : BitVec.ofNat 32 (field false header 0 4) = thinMagic is64 isSwap
  ncmds : field isSwap header 16 4 = commands.length

namespace ThinFile

variable {isSwap : Bool} (m : ThinFile isSwap)

def bytes : List Byte :=
  m.header ++ (commandBytes m.commands ++ m.rest)

/-- The first LC_MAIN command. -/
def main : Option (CommandBytes isSwap) :=
  m.commands.find? fun c => c.cmd = lcMain

end ThinFile

/-! ## Fields of a part of a file -/

/-- The bytes of a part of a file. -/
theorem bytesAt_append (pre bs rest : List Byte) {n : Nat} (h : n ≤ bs.length) :
    bytesAt (pre ++ (bs ++ rest)) pre.length n = bs.take n := by
  apply List.ext_getElem
  · rw [length_bytesAt, List.length_take]
    omega
  · intro i hi _
    rw [length_bytesAt] at hi
    have hbs : i < bs.length := by
      omega
    simp [bytesAt, List.getElem?_append_right, List.getElem?_append_left hbs,
      List.getElem?_eq_getElem hbs]

theorem field_take (isSwap : Bool) (bs : List Byte) {off n m : Nat} (h : off + n ≤ m) :
    field isSwap (bs.take m) off n = field isSwap bs off n := by
  have htake : ((bs.take m).drop off).take n = (bs.drop off).take n := by
    rw [List.drop_take, List.take_take, Nat.min_eq_left (by omega)]
  rw [field, field, htake]

/-- The structure is in the first 24 bytes of the command. -/
theorem ofBytes_take (bs : List Byte) :
    EntryPointCommand.ofBytes (bs.take 24) = .ofBytes bs := by
  unfold EntryPointCommand.ofBytes
  rw [field_take false bs (by decide), field_take false bs (by decide),
    field_take false bs (by decide), field_take false bs (by decide)]

/-! ## The walk over the commands -/

section Walk

variable {isSwap : Bool}

/-- An offset below `2 ^ 31` is not negative. -/
theorem not_toInt_lt_zero {off : BitVec 32} (h : off.toNat < 2 ^ 31) : ¬ off.toInt < 0 := by
  rw [BitVec.toInt_eq_toNat_of_lt (by omega)]
  omega

/-- **The loop over the commands of a thin file** stops at the first LC_MAIN command. -/
theorem readSegmentCommands_commands (commands : List (CommandBytes isSwap))
    (pre rest : List Byte) {f : ObjFile} {off : BitVec 32} (entryPoint : EntryPointCommand)
    (hf : f.bytes = pre ++ (commandBytes commands ++ rest))
    (hlen : f.bytes.length < 2 ^ 31) (hoff : off.toNat = pre.length) :
    readSegmentCommands isSwap commands.length f off entryPoint =
      (commands.find? fun c => c.cmd = lcMain).elim (1, entryPoint)
        (fun c => (0, .ofBytes c.bytes)) := by
  induction commands generalizing pre f off with
  | nil =>
      rfl
  | cons c commands ih =>
      have hbytes : f.bytes = pre ++ (c.bytes ++ (commandBytes commands ++ rest)) := by
        rw [hf, commandBytes, List.flatMap_cons, List.append_assoc]
        rfl
      have hsize : pre.length + c.bytes.length ≤ f.bytes.length := by
        rw [hbytes]
        simp only [List.length_append]
        omega
      have hneg : ¬ off.toInt < 0 := not_toInt_lt_zero (by omega)
      have hhere : ∀ n, n ≤ c.bytes.length →
          bytesAt f.bytes off.toNat n = c.bytes.take n := by
        intro n hn
        rw [hbytes, hoff]
        exact bytesAt_append pre c.bytes _ hn
      have hcmd : BitVec.ofNat 32 (field isSwap (bytesAt f.bytes off.toNat 8) 0 4) = c.cmd := by
        rw [hhere 8 c.generic, field_take isSwap c.bytes (by decide)]
        rfl
      have hcmdsize : field isSwap (bytesAt f.bytes off.toNat 8) 4 4 = c.bytes.length := by
        rw [hhere 8 c.generic, field_take isSwap c.bytes (by decide), c.cmdsize]
      -- the next command lies behind this one
      have hrest : ∀ g : ObjFile, g.bytes = f.bytes →
          readSegmentCommands isSwap commands.length g
              (off + BitVec.ofNat 32 c.bytes.length) entryPoint =
            (commands.find? fun c => c.cmd = lcMain).elim (1, entryPoint)
              (fun c => (0, .ofBytes c.bytes)) := by
        intro g hg
        refine ih (pre ++ c.bytes) ?_ (by rwa [hg]) ?_
        · rw [hg, hbytes, List.append_assoc]
        · rw [BitVec.toNat_add, BitVec.toNat_ofNat, List.length_append]
          omega
      rw [List.length_cons, readSegmentCommands, loadBytes_of_nonneg f 8 hneg, hcmd, hcmdsize]
      by_cases hmain : c.cmd = lcMain
      · rw [List.find?_cons_of_pos (by simp [hmain]), hmain, if_neg (by decide),
          if_neg (by decide), if_pos rfl, loadBytes_of_nonneg _ 24 hneg, bytes_loadBytes,
          hhere 24 (c.main hmain), ofBytes_take]
        rfl
      · rw [List.find?_cons_of_neg (by simp [hmain]), if_neg hmain]
        split_ifs
        · exact hrest _ (by simp)
        · exact hrest _ (by simp)
        · exact hrest _ (by simp)

end Walk

namespace ThinFile

variable {isSwap : Bool} (m : ThinFile isSwap)

theorem length_header_le : m.header.length ≤ m.bytes.length := by
  rw [bytes, List.length_append]
  omega

theorem bytesAt_header {n : Nat} (h : n ≤ m.header.length) :
    bytesAt m.bytes 0 n = m.header.take n :=
  bytesAt_append [] m.header _ h

theorem le_headerSize (is64 : Bool) : 20 ≤ (headerSize is64).toNat := by
  cases is64 with
  | false =>
      decide
  | true =>
      decide

theorem fileMagic_eq : fileMagic m.bytes = thinMagic m.is64 isSwap := by
  have hlen : 4 ≤ m.header.length := by
    have := le_headerSize m.is64
    have := m.size
    omega
  rw [fileMagic, m.bytesAt_header hlen, field_take false _ (by decide), m.magic]

/-- The parser recognises the four magic numbers of a thin file. -/
theorem thinMagic_cases (is64 isSwap : Bool) :
    isFat (thinMagic is64 isSwap) = false ∧
      isMagic64 (thinMagic is64 isSwap) = is64 ∧
      shouldSwapBytes (thinMagic is64 isSwap) = isSwap := by
  cases is64 with
  | false =>
      cases isSwap <;> decide
  | true =>
      cases isSwap <;> decide

/-- **The parser finds the first LC_MAIN command of a thin file**, or none. -/
theorem readEntryPointCmd_eq (hlen : m.bytes.length < 2 ^ 31)
    (magic₀ : BitVec 32) (entryPoint : EntryPointCommand) :
    readEntryPointCmd ⟨m.bytes, 0⟩ magic₀ entryPoint =
      m.main.elim (1, entryPoint) (fun c => (0, .ofBytes c.bytes)) := by
  have hsize := m.size
  have htwenty := le_headerSize m.is64
  have hheader := m.length_header_le
  obtain ⟨hbytes, hmagic⟩ := readMagic_eq magic₀ (show 4 ≤ m.bytes.length by omega)
  obtain ⟨hfat, his64, hswap⟩ := thinMagic_cases m.is64 isSwap
  rw [readEntryPointCmd, hmagic, m.fileMagic_eq, hfat, his64, hswap, if_neg (by simp),
    readMachHeader, loadBytes_of_nonneg _ _ (by decide), hbytes]
  have hncmds : field isSwap (bytesAt m.bytes (0 : BitVec 32).toNat (headerSize m.is64).toNat)
      16 4 = m.commands.length := by
    rw [← hsize]
    have hall := m.bytesAt_header le_rfl
    rw [List.take_length] at hall
    rw [← m.ncmds]
    exact congrArg (fun bs => field isSwap bs 16 4) hall
  rw [hncmds]
  refine readSegmentCommands_commands m.commands m.header m.rest entryPoint ?_ ?_ ?_
  · rw [bytes_loadBytes, hbytes]
    rfl
  · rwa [bytes_loadBytes, hbytes]
  · have hstart : 0 + headerSize m.is64 = headerSize m.is64 := BitVec.zero_add _
    rw [hstart, hsize]

end ThinFile

/-- The bytes of a buffer taken for the structure, in the byte order of the file. -/
def EntryPointCommand.inOrder (isSwap : Bool) (buf : List Byte) : EntryPointCommand where
  cmd := BitVec.ofNat 32 (field isSwap buf 0 4)
  cmdsize := BitVec.ofNat 32 (field isSwap buf 4 4)
  entryoff := BitVec.ofNat 64 (field isSwap buf 8 8)
  stacksize := BitVec.ofNat 64 (field isSwap buf 16 8)

/-- The fields of an LC_MAIN command. -/
def CommandBytes.entry {isSwap : Bool} (c : CommandBytes isSwap) : EntryPointCommand :=
  .inOrder isSwap c.bytes

/-- **Round trip.**  From a thin file in the byte order of the machine the parser gets the
fields of the first LC_MAIN command, and where there is none it fails and assigns
nothing. -/
theorem readEntryPointCmd_thinFile
    (m : ThinFile false) (hlen : m.bytes.length < 2 ^ 31)
    (magic₀ : BitVec 32) (entryPoint : EntryPointCommand) :
    (∀ c, m.main = some c →
      readEntryPointCmd ⟨m.bytes, 0⟩ magic₀ entryPoint = (0, c.entry)) ∧
    (m.main = none →
      readEntryPointCmd ⟨m.bytes, 0⟩ magic₀ entryPoint = (1, entryPoint)) := by
  rw [m.readEntryPointCmd_eq hlen]
  constructor
  · intro c hc
    rw [hc]
    rfl
  · intro hnone
    rw [hnone]
    rfl

/-- A command that looks like LC_MAIN inside. -/
def decoyCommand : CommandBytes false where
  bytes := leBytes 4 0x32 ++ leBytes 4 32 ++ leBytes 4 0x80000028 ++ leBytes 4 24 ++
    List.replicate 16 7
  cmdsize := by decide
  generic := by decide
  main := by decide

/-- LC_MAIN with the entry point at `0x1F30`. -/
def mainCommand : CommandBytes false where
  bytes := leBytes 4 0x80000028 ++ leBytes 4 24 ++ leBytes 8 0x1F30 ++ leBytes 8 0
  cmdsize := by decide
  generic := by decide
  main := by decide

/-- A 64-bit file with both commands. -/
def smallFile : ThinFile false where
  is64 := true
  header := leBytes 4 0xFEEDFACF ++ List.replicate 12 0 ++ leBytes 4 2 ++ List.replicate 12 0
  commands := [decoyCommand, mainCommand]
  rest := [1, 2, 3]
  size := by decide
  magic := by decide
  ncmds := by decide

theorem readEntryPointCmd_thinFile_smallFile :
    (readEntryPointCmd ⟨smallFile.bytes, 0⟩ 0 ⟨0, 0, 0, 0⟩).2.entryoff = 0x1F30 := by
  have hmain : smallFile.main = some mainCommand := by
    rfl
  rw [(readEntryPointCmd_thinFile smallFile (by decide) 0 ⟨0, 0, 0, 0⟩).1 _ hmain]
  decide

/-! ## The other byte order -/

/-- The bytes of a structure with the bytes of each field reversed, by the sizes of its
fields; what follows them stays. -/
def swapFields : List Nat → List Byte → List Byte
  | [], bs => bs
  | w :: ws, bs => (bs.take w).reverse ++ swapFields ws (bs.drop w)

theorem length_swapFields (ws : List Nat) (bs : List Byte) :
    (swapFields ws bs).length = bs.length := by
  induction ws generalizing bs with
  | nil =>
      rfl
  | cons w ws ih =>
      rw [swapFields, List.length_append, List.length_reverse, ih, ← List.length_append,
        List.take_append_drop]

/-- A field behind the fields `ws` is found where it was, reversed. -/
theorem swapFields_at (ws ws' : List Nat) (w : Nat) (bs : List Byte)
    (h : ws.sum + w ≤ bs.length) :
    ((swapFields (ws ++ w :: ws') bs).drop ws.sum).take w =
      ((bs.drop ws.sum).take w).reverse := by
  induction ws generalizing bs with
  | nil =>
      have hw : w ≤ bs.length := by
        simpa using h
      have hlen : (bs.take w).reverse.length = w := by
        rw [List.length_reverse, List.length_take, Nat.min_eq_left hw]
      rw [List.nil_append, swapFields, List.sum_nil, List.drop_zero, List.drop_zero,
        List.take_left' hlen]
  | cons v ws ih =>
      rw [List.sum_cons] at h
      have hlen : (bs.take v).reverse.length = v := by
        rw [List.length_reverse, List.length_take, Nat.min_eq_left (by omega)]
      have hdrop := ih (bs.drop v) (by
        rw [List.length_drop]
        omega)
      rw [List.cons_append, swapFields, List.sum_cons, ← List.drop_drop,
        List.drop_left' hlen, hdrop, List.drop_drop]

/-- Reading a reversed field in the other byte order gives the same number. -/
theorem field_swapFields (ws ws' : List Nat) (w : Nat) (bs : List Byte) (isSwap : Bool)
    (h : ws.sum + w ≤ bs.length) :
    field isSwap (swapFields (ws ++ w :: ws') bs) ws.sum w = field (!isSwap) bs ws.sum w := by
  simp only [field, swapFields_at ws ws' w bs h]
  cases isSwap with
  | false =>
      rfl
  | true =>
      simp

/-- The sizes of the fields of each command.  Every command starts with `cmd` and
`cmdsize`, and LC_MAIN goes on with `entryoff` and `stacksize`. -/
structure CommandLayout where
  widths : CommandBytes false → List Nat
  generic : ∀ c, ∃ ws, widths c = 4 :: 4 :: ws
  main : ∀ c, c.cmd = lcMain → ∃ ws, widths c = 4 :: 4 :: 8 :: 8 :: ws

namespace CommandLayout

variable (l : CommandLayout) (c : CommandBytes false)

theorem field_cmd (isSwap : Bool) :
    field isSwap (swapFields (l.widths c) c.bytes) 0 4 = field (!isSwap) c.bytes 0 4 := by
  obtain ⟨ws, hws⟩ := l.generic c
  rw [hws]
  exact field_swapFields [] (4 :: ws) 4 c.bytes isSwap (Nat.le_trans (by decide) c.generic)

theorem field_cmdsize (isSwap : Bool) :
    field isSwap (swapFields (l.widths c) c.bytes) 4 4 = field (!isSwap) c.bytes 4 4 := by
  obtain ⟨ws, hws⟩ := l.generic c
  rw [hws]
  exact field_swapFields [4] ws 4 c.bytes isSwap c.generic

/-- The command in the other byte order. -/
def swap : CommandBytes true where
  bytes := swapFields (l.widths c) c.bytes
  cmdsize := by
    rw [length_swapFields, l.field_cmdsize]
    exact c.cmdsize
  generic := by
    rw [length_swapFields]
    exact c.generic
  main := by
    rw [length_swapFields, l.field_cmd]
    exact c.main

theorem cmd_swap : (l.swap c).cmd = c.cmd :=
  congrArg (BitVec.ofNat 32) (l.field_cmd c true)

/-- The fields of LC_MAIN. -/
theorem field_entry (h : c.cmd = lcMain) (isSwap : Bool) :
    field isSwap (l.swap c).bytes 8 8 = field (!isSwap) c.bytes 8 8 ∧
      field isSwap (l.swap c).bytes 16 8 = field (!isSwap) c.bytes 16 8 := by
  obtain ⟨ws, hws⟩ := l.main c h
  have hlen : 24 ≤ c.bytes.length := c.main h
  have hswap : (l.swap c).bytes = swapFields (4 :: 4 :: 8 :: 8 :: ws) c.bytes := by
    rw [← hws]
    rfl
  rw [hswap]
  exact ⟨field_swapFields [4, 4] (8 :: ws) 8 c.bytes isSwap (Nat.le_trans (by decide) hlen),
    field_swapFields [4, 4, 8] ws 8 c.bytes isSwap hlen⟩

end CommandLayout

/-- The sizes of the fields of a header. -/
def headerWidths (is64 : Bool) : List Nat :=
  List.replicate (if is64 then 8 else 7) 4

theorem headerWidths_split (is64 : Bool) :
    ∃ ws ws', headerWidths is64 = 4 :: ws ∧
      headerWidths is64 = [4, 4, 4, 4] ++ 4 :: ws' := by
  cases is64 with
  | false =>
      exact ⟨[4, 4, 4, 4, 4, 4], [4, 4], rfl, rfl⟩
  | true =>
      exact ⟨[4, 4, 4, 4, 4, 4, 4], [4, 4, 4], rfl, rfl⟩

/-- Four bytes are those of the number that they denote. -/
theorem take_eq_of_field {bs : List Byte} {x : BitVec 32} (hlen : 4 ≤ bs.length)
    (h : BitVec.ofNat 32 (field false bs 0 4) = x) :
    bs.take 4 = leBytes 4 x.toNat := by
  have htake : (bs.take 4).length = 4 := by
    rw [List.length_take, Nat.min_eq_left hlen]
  have hlt := leNat_lt (bs.take 4)
  have hround := leBytes_leNat (bs.take 4)
  rw [htake] at hlt hround
  rw [← h, BitVec.toNat_ofNat, Nat.mod_eq_of_lt]
  · exact hround.symm
  · exact hlt

/-- Reversed, the magic number is that of the other byte order. -/
theorem field_true_magic {bs : List Byte} {is64 : Bool} (hlen : 4 ≤ bs.length)
    (h : BitVec.ofNat 32 (field false bs 0 4) = thinMagic is64 false) :
    BitVec.ofNat 32 (field true bs 0 4) = thinMagic is64 true := by
  have htake := take_eq_of_field hlen h
  have hfield : field true bs 0 4 = leNat (bs.take 4).reverse := by
    simp [field]
  rw [hfield, htake]
  cases is64 with
  | false =>
      decide
  | true =>
      decide

namespace ThinFile

variable (m : ThinFile false) (l : CommandLayout)

/-- The file with every field of its header and its commands in the other byte order. -/
def swap : ThinFile true where
  is64 := m.is64
  header := swapFields (headerWidths m.is64) m.header
  commands := m.commands.map l.swap
  rest := m.rest
  size := by
    rw [length_swapFields, m.size]
  magic := by
    have hlen : 0 + 4 ≤ m.header.length := by
      have := le_headerSize m.is64
      have := m.size
      omega
    obtain ⟨ws, _, hws, _⟩ := headerWidths_split m.is64
    rw [hws, show field false (swapFields (4 :: ws) m.header) 0 4 = field true m.header 0 4 from
      field_swapFields [] ws 4 m.header false hlen]
    exact field_true_magic hlen m.magic
  ncmds := by
    have hlen : 16 + 4 ≤ m.header.length := by
      have := le_headerSize m.is64
      have := m.size
      omega
    obtain ⟨_, ws, _, hws⟩ := headerWidths_split m.is64
    rw [hws, List.length_map, ← m.ncmds]
    exact field_swapFields [4, 4, 4, 4] ws 4 m.header true hlen

theorem length_bytes_swap : (m.swap l).bytes.length = m.bytes.length := by
  have hcommands : ∀ cs : List (CommandBytes false),
      (commandBytes (cs.map l.swap)).length = (commandBytes cs).length := by
    intro cs
    induction cs with
    | nil =>
        rfl
    | cons c cs ih =>
        simp only [commandBytes, List.map_cons, List.flatMap_cons, List.length_append] at ih ⊢
        rw [ih]
        exact congrArg (· + _) (length_swapFields _ _)
  simp only [bytes, swap, List.length_append, length_swapFields, hcommands]

theorem main_swap : (m.swap l).main = m.main.map l.swap := by
  simp only [main, swap, List.find?_map, Function.comp_def, l.cmd_swap]

end ThinFile

/-- The bytes of both fields of LC_MAIN read the same from either end. -/
structure SameEitherWay {isSwap : Bool} (c : CommandBytes isSwap) : Prop where
  entryoff : ((c.bytes.drop 8).take 8).reverse = (c.bytes.drop 8).take 8
  stacksize : ((c.bytes.drop 16).take 8).reverse = (c.bytes.drop 16).take 8

/-- A field of eight bytes is the same number in both byte orders exactly when its bytes
read the same from either end. -/
theorem field_eq_iff_reverse {bs : List Byte} {off : Nat} (hlen : off + 8 ≤ bs.length) :
    BitVec.ofNat 64 (field false bs off 8) = BitVec.ofNat 64 (field true bs off 8) ↔
      ((bs.drop off).take 8).reverse = (bs.drop off).take 8 := by
  have htake : ((bs.drop off).take 8).length = 8 := by
    rw [List.length_take, List.length_drop]
    omega
  have hback : ∀ xs : List Byte, xs.length = 8 →
      leBytes 8 (BitVec.ofNat 64 (leNat xs)).toNat = xs := by
    intro xs hxs
    have hlt := leNat_lt xs
    have hround := leBytes_leNat xs
    rw [hxs] at hlt hround
    rw [BitVec.toNat_ofNat, Nat.mod_eq_of_lt (show leNat xs < 2 ^ 64 from hlt), hround]
  constructor
  · intro h
    have hleft := hback _ htake
    have hright := hback ((bs.drop off).take 8).reverse (by rw [List.length_reverse, htake])
    have hsame : BitVec.ofNat 64 (leNat ((bs.drop off).take 8)) =
        BitVec.ofNat 64 (leNat ((bs.drop off).take 8).reverse) := h
    rw [← hright, ← hsame, hleft]
  · intro h
    have hfield : field true bs off 8 = leNat ((bs.drop off).take 8).reverse := by
      simp [field]
    rw [hfield, h]
    rfl

/-- **The other byte order.**  The parser returns the same code for a thin file and for
the same file in the other byte order, and the same entry point and stack size exactly
when the first LC_MAIN command has fields that read the same from either end. -/
theorem readEntryPointCmd_swap_iff
    (m : ThinFile false) (l : CommandLayout) (hlen : m.bytes.length < 2 ^ 31)
    (magic₀ magic₀' : BitVec 32) (entryPoint entryPoint' : EntryPointCommand) :
    let r := readEntryPointCmd ⟨m.bytes, 0⟩ magic₀ entryPoint
    let r' := readEntryPointCmd ⟨(m.swap l).bytes, 0⟩ magic₀' entryPoint'
    (r.1 = r'.1 ∧
        (r.1 = 0 → r.2.entryoff = r'.2.entryoff ∧ r.2.stacksize = r'.2.stacksize)) ↔
      ∀ c, m.main = some c → SameEitherWay c := by
  intro r r'
  have hr : r = m.main.elim (1, entryPoint) (fun c => (0, .ofBytes c.bytes)) :=
    m.readEntryPointCmd_eq hlen magic₀ entryPoint
  have hr' : r' = (m.main.map l.swap).elim (1, entryPoint') (fun c => (0, .ofBytes c.bytes)) := by
    rw [← m.main_swap l]
    exact (m.swap l).readEntryPointCmd_eq (by rwa [m.length_bytes_swap l]) magic₀' entryPoint'
  rw [hr, hr']
  cases hmain : m.main with
  | none =>
      simp
  | some c =>
      have hcmd : c.cmd = lcMain := by
        simpa using List.find?_some hmain
      have hbytes : 24 ≤ c.bytes.length := c.main hcmd
      obtain ⟨hentryoff, hstacksize⟩ := l.field_entry c hcmd false
      have hfields :
          ((EntryPointCommand.ofBytes c.bytes).entryoff =
              (EntryPointCommand.ofBytes (l.swap c).bytes).entryoff ∧
            (EntryPointCommand.ofBytes c.bytes).stacksize =
              (EntryPointCommand.ofBytes (l.swap c).bytes).stacksize) ↔ SameEitherWay c := by
        simp only [EntryPointCommand.ofBytes, hentryoff, hstacksize, Bool.not_false]
        rw [field_eq_iff_reverse (by omega), field_eq_iff_reverse hbytes]
        exact ⟨fun h => ⟨h.1, h.2⟩, fun h => ⟨h.1, h.2⟩⟩
      simpa using hfields

/-- All fields but those of LC_MAIN are numbers of four bytes. -/
def wordLayout : CommandLayout where
  widths c := if c.cmd = lcMain then [4, 4, 8, 8] else List.replicate 8 4
  generic c := by
    split_ifs
    · exact ⟨[8, 8], rfl⟩
    · exact ⟨List.replicate 6 4, rfl⟩
  main c h := ⟨[], if_pos h⟩

/-- A file without LC_MAIN is refused in both byte orders. -/
theorem readEntryPointCmd_swap_iff_decoy :
    let m : ThinFile false :=
      { smallFile with
        header := leBytes 4 0xFEEDFACF ++ List.replicate 12 0 ++ leBytes 4 1 ++
          List.replicate 12 0
        commands := [decoyCommand]
        size := by decide
        magic := by decide
        ncmds := by decide }
    (readEntryPointCmd ⟨m.bytes, 0⟩ 0 ⟨0, 0, 0, 0⟩).1 =
      (readEntryPointCmd ⟨(m.swap wordLayout).bytes, 0⟩ 0 ⟨0, 0, 0, 0⟩).1 := by
  intro m
  have hnone : m.main = none := by
    rfl
  refine ((readEntryPointCmd_swap_iff m wordLayout (by decide) 0 0 ⟨0, 0, 0, 0⟩
    ⟨0, 0, 0, 0⟩).mpr ?_).1
  intro c hc
  rw [hnone] at hc
  exact absurd hc (by simp)

/-- The entry point of the small file comes out with its bytes reversed. -/
theorem readEntryPointCmd_swap_smallFile :
    let r := readEntryPointCmd ⟨smallFile.bytes, 0⟩ 0 ⟨0, 0, 0, 0⟩
    let r' := readEntryPointCmd ⟨(smallFile.swap wordLayout).bytes, 0⟩ 0 ⟨0, 0, 0, 0⟩
    r.2.entryoff = 0x1F30 ∧ r'.2.entryoff = 0x301F000000000000 ∧
      ¬ (r.1 = r'.1 ∧
        (r.1 = 0 → r.2.entryoff = r'.2.entryoff ∧ r.2.stacksize = r'.2.stacksize)) := by
  decide +kernel

end Hvexec
