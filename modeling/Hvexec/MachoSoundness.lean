import Hvexec.MachoFile

/-!
# Files that do not follow the format

The parser checks nothing of what it reads.  `commandsRead` is what its loop gets to see
of any file at all: offsets add up modulo `2 ^ 32`, a seek to a negative one fails, and
then the bytes come from wherever the last read ended.

What the parser reports is sound when it is the LC_MAIN command of a thin file, whole
and in its place (`SoundEntry`).  For which files that can be relied on is a matter of
the first LC_MAIN command that the loop sees: it has to pass the checks that are left
out (`ChecksPass`).
-/

namespace Hvexec

open ByteMemory

/-! ## What the loop sees -/

/-- What is read of a load command: the offset asked for, its `cmd`, and the bytes that
are copied if it is LC_MAIN. -/
structure CommandRead where
  offset : BitVec 32
  cmd : BitVec 32
  entry : List Byte

/-- The load commands that the loop reads when it never stops early. -/
def commandsRead (isSwap : Bool) : Nat → ObjFile → BitVec 32 → List CommandRead
  | 0, _, _ => []
  | n + 1, f, off =>
      let r := loadBytes f off 8
      let cmd := BitVec.ofNat 32 (field isSwap r.2 0 4)
      let next := off + BitVec.ofNat 32 (field isSwap r.2 4 4)
      let g :=
        if cmd = lcSegment64 then (loadBytes r.1 off 72).1
        else if cmd = lcSegment then (loadBytes r.1 off 56).1
        else r.1
      ⟨off, cmd, (loadBytes r.1 off 24).2⟩ :: commandsRead isSwap n g next

/-- The load commands read of a file. -/
def fileCommands (bytes : List Byte) : List CommandRead :=
  let magic := fileMagic bytes
  if isFat magic then []
  else
    commandsRead (shouldSwapBytes magic)
      (field (shouldSwapBytes magic) (bytesAt bytes 16 4) 0 4) ⟨bytes, 0⟩
      (headerSize (isMagic64 magic))

/-- The command is LC_MAIN. -/
def CommandRead.isMain (c : CommandRead) : Bool :=
  decide (c.cmd = lcMain)

/-- The number of the first LC_MAIN command that is read of a file. -/
def firstMainRead (bytes : List Byte) : Option Nat :=
  (fileCommands bytes).findIdx? CommandRead.isMain

theorem length_commandsRead (isSwap : Bool) (n : Nat) (f : ObjFile) (off : BitVec 32) :
    (commandsRead isSwap n f off).length = n := by
  induction n generalizing f off with
  | zero =>
      rfl
  | succ n ih =>
      rw [commandsRead, List.length_cons, ih]

/-- The loop stops at the first LC_MAIN command that it reads. -/
theorem readSegmentCommands_eq_find (isSwap : Bool) (n : Nat) (f : ObjFile) (off : BitVec 32)
    (entryPoint : EntryPointCommand) :
    readSegmentCommands isSwap n f off entryPoint =
      ((commandsRead isSwap n f off).find? CommandRead.isMain).elim (1, entryPoint)
        (fun c => (0, .ofBytes c.entry)) := by
  induction n generalizing f off with
  | zero =>
      rfl
  | succ n ih =>
      rw [readSegmentCommands, commandsRead]
      by_cases hmain : BitVec.ofNat 32 (field isSwap (loadBytes f off 8).2 0 4) = lcMain
      · rw [List.find?_cons_of_pos (by simp [CommandRead.isMain, hmain]), hmain,
          if_neg (by decide), if_neg (by decide), if_pos rfl]
        rfl
      · rw [List.find?_cons_of_neg (by simp [CommandRead.isMain, hmain]), if_neg hmain, ih, ih,
          ih]
        split_ifs <;> rfl

/-- A seek that succeeds forgets where the file was. -/
theorem commandsRead_congr (isSwap : Bool) (n : Nat) {f g : ObjFile} {off : BitVec 32}
    (hbytes : f.bytes = g.bytes) (hoff : ¬ off.toInt < 0) :
    commandsRead isSwap n f off = commandsRead isSwap n g off := by
  cases n with
  | zero =>
      rfl
  | succ n =>
      have hseek : f.fseek off = g.fseek off := by
        simp only [ObjFile.fseek, if_neg hoff, hbytes]
      have hload : loadBytes f off 8 = loadBytes g off 8 := by
        rw [loadBytes, loadBytes, hseek]
      simp only [commandsRead, hload]

/-- The number of commands in a header that the file does not reach is zero. -/
theorem field_ncmds_of_short {bytes : List Byte} (isSwap : Bool) (h : bytes.length ≤ 16) :
    field isSwap (bytesAt bytes 16 4) 0 4 = 0 := by
  rw [bytesAt_of_length_le 4 h]
  cases isSwap <;> rfl

theorem not_toInt_headerSize (is64 : Bool) : ¬ (headerSize is64).toInt < 0 := by
  cases is64 with
  | false =>
      decide
  | true =>
      decide

/-- What is left of the parser behind the magic number. -/
theorem readMachHeader_eq_find {f : ObjFile} (is64 isSwap : Bool)
    (entryPoint : EntryPointCommand) :
    readMachHeader f 0 is64 isSwap entryPoint =
      ((commandsRead isSwap (field isSwap (bytesAt f.bytes 16 4) 0 4) ⟨f.bytes, 0⟩
        (headerSize is64)).find? CommandRead.isMain).elim (1, entryPoint)
          (fun c => (0, .ofBytes c.entry)) := by
  have hsize : 16 + 4 ≤ (headerSize is64).toNat := ThinFile.le_headerSize is64
  have hstart : 0 + headerSize is64 = headerSize is64 := BitVec.zero_add _
  have hbytes := bytes_loadBytes f 0 (headerSize is64).toNat
  rw [readMachHeader, loadBytes_of_nonneg _ _ (by decide), field_bytesAt _ _ _ hsize, hstart,
    readSegmentCommands_eq_find,
    commandsRead_congr (g := ⟨f.bytes, 0⟩) _ _ hbytes (not_toInt_headerSize is64)]
  rfl

/-- **The parser takes the first LC_MAIN command that it reads**, whatever is in the
file. -/
theorem readEntryPointCmd_eq_find (bytes : List Byte) (magic₀ : BitVec 32)
    (entryPoint : EntryPointCommand) :
    readEntryPointCmd ⟨bytes, 0⟩ magic₀ entryPoint =
      ((fileCommands bytes).find? CommandRead.isMain).elim (1, entryPoint)
        (fun c => (0, .ofBytes c.entry)) := by
  have hfile : ∀ magic, (readMagic ⟨bytes, 0⟩ 0 magic).1.bytes = bytes := fun _ => rfl
  rcases Nat.lt_or_ge bytes.length 17 with hshort | hlong
  · -- no commands, whatever the magic number was taken for
    have hzero : ∀ isSwap, field isSwap (bytesAt bytes 16 4) 0 4 = 0 :=
      fun isSwap => field_ncmds_of_short isSwap (by omega)
    rw [readEntryPointCmd]
    simp only [readMachHeader_eq_find, hfile, fileCommands, hzero, commandsRead]
    split_ifs <;> rfl
  · obtain ⟨_, hmagic⟩ := readMagic_eq magic₀ (show 4 ≤ bytes.length by omega)
    rw [readEntryPointCmd]
    simp only [hmagic, readMachHeader_eq_find, hfile, fileCommands]
    split_ifs <;> rfl

/-! ## Stepping without overflow -/

/-- The `cmd` of the load command at an offset. -/
def cmdAt (bytes : List Byte) (isSwap : Bool) (off : Nat) : BitVec 32 :=
  BitVec.ofNat 32 (field isSwap (bytesAt bytes off 8) 0 4)

/-- The `cmdsize` of the load command at an offset. -/
def cmdsizeAt (bytes : List Byte) (isSwap : Bool) (off : Nat) : Nat :=
  field isSwap (bytesAt bytes off 8) 4 4

/-- `Steps bytes isSwap k off off'`: from `off`, `k` steps over a command by its `cmdsize`
lead to `off'`, and no offset overflows an `int`. -/
inductive Steps (bytes : List Byte) (isSwap : Bool) : Nat → Nat → Nat → Prop
  | here {off : Nat} (h : off < 2 ^ 31) : Steps bytes isSwap 0 off off
  | next {k off off' : Nat} (h : off < 2 ^ 31)
      (rest : Steps bytes isSwap k (off + cmdsizeAt bytes isSwap off) off') :
      Steps bytes isSwap (k + 1) off off'

namespace Steps

variable {bytes : List Byte} {isSwap : Bool} {k k' off off' : Nat}

theorem le (h : Steps bytes isSwap k off off') : off ≤ off' := by
  induction h with
  | here h =>
      exact le_rfl
  | next h rest ih =>
      omega

/-- An earlier command on the way. -/
theorem earlier (h : Steps bytes isSwap k' off off') (hk : k ≤ k') :
    ∃ o, Steps bytes isSwap k off o ∧ o ≤ off' := by
  induction h generalizing k with
  | @here off h =>
      obtain rfl : k = 0 := by
        omega
      exact ⟨off, .here h, le_rfl⟩
  | @next k' off off' h rest ih =>
      cases k with
      | zero =>
          refine ⟨off, .here h, ?_⟩
          have := rest.le
          omega
      | succ k =>
          obtain ⟨o, ho, hle⟩ := ih (show k ≤ k' by omega)
          exact ⟨o, .next h ho, hle⟩

/-- As long as nothing overflows the loop reads the commands where they are. -/
theorem commandsRead_getElem (h : Steps bytes isSwap k off off') {n : Nat} {f : ObjFile}
    (hf : f.bytes = bytes) (hn : k < n) :
    (commandsRead isSwap n f (BitVec.ofNat 32 off))[k]? =
      some ⟨BitVec.ofNat 32 off', cmdAt bytes isSwap off', bytesAt bytes off' 24⟩ := by
  induction h generalizing n f with
  | @here off h =>
      have htoNat : (BitVec.ofNat 32 off).toNat = off := by
        rw [BitVec.toNat_ofNat]
        omega
      have hneg : ¬ (BitVec.ofNat 32 off).toInt < 0 := not_toInt_lt_zero (by omega)
      cases n with
      | zero =>
          omega
      | succ n =>
          rw [commandsRead, List.getElem?_cons_zero, loadBytes_of_nonneg _ 8 hneg,
            loadBytes_of_nonneg _ 24 hneg, bytes_loadBytes, hf, htoNat]
          rfl
  | @next k off off' h rest ih =>
      have htoNat : (BitVec.ofNat 32 off).toNat = off := by
        rw [BitVec.toNat_ofNat]
        omega
      have hneg : ¬ (BitVec.ofNat 32 off).toInt < 0 := not_toInt_lt_zero (by omega)
      cases n with
      | zero =>
          omega
      | succ n =>
          have hnext : BitVec.ofNat 32 off +
              BitVec.ofNat 32 (field isSwap (loadBytes f (BitVec.ofNat 32 off) 8).2 4 4) =
                BitVec.ofNat 32 (off + cmdsizeAt bytes isSwap off) := by
            rw [loadBytes_of_nonneg _ 8 hneg, hf, htoNat, BitVec.ofNat_add]
            rfl
          rw [commandsRead, List.getElem?_cons_succ, hnext]
          refine ih ?_ (by omega)
          split_ifs
          · rw [bytes_loadBytes, bytes_loadBytes, hf]
          · rw [bytes_loadBytes, bytes_loadBytes, hf]
          · rw [bytes_loadBytes, hf]

end Steps

/-! ## Sound entries -/

/-- The load-command area of a file ends here: the header says how long it is. -/
def commandsEnd (bytes : List Byte) (is64 isSwap : Bool) : Nat :=
  (headerSize is64).toNat + field isSwap (bytesAt bytes 20 4) 0 4

/-- `entry` is the `k`-th load command of a thin file, an LC_MAIN that starts at `off`,
inside the file and the load-command area. -/
structure SoundEntry (bytes : List Byte) (entry : EntryPointCommand) (is64 isSwap : Bool)
    (k off : Nat) : Prop where
  magic : bytes.take 4 = leBytes 4 (thinMagic is64 isSwap).toNat
  count : k < field isSwap (bytesAt bytes 16 4) 0 4
  steps : Steps bytes isSwap k (headerSize is64).toNat off
  main : cmdAt bytes isSwap off = lcMain
  inFile : off + 24 ≤ bytes.length
  inArea : off + 24 ≤ commandsEnd bytes is64 isSwap
  entry : entry = .inOrder isSwap (bytesAt bytes off 24)

/-- What the parser does not check of the `k`-th load command: the magic number is that of
a thin file in the byte order of the machine, no offset on the way overflows, and an
LC_MAIN command fits into the file and the load-command area. -/
def ChecksPass (bytes : List Byte) (k : Nat) : Prop :=
  ∃ is64 off,
    bytes.take 4 = leBytes 4 (thinMagic is64 false).toNat ∧
    Steps bytes false k (headerSize is64).toNat off ∧
    off + 24 ≤ bytes.length ∧
    off + 24 ≤ commandsEnd bytes is64 false

section Sound

variable {bytes : List Byte} {is64 isSwap : Bool}

/-- The magic number of a file that begins with one. -/
theorem fileMagic_of_take (h : bytes.take 4 = leBytes 4 (thinMagic is64 isSwap).toNat) :
    fileMagic bytes = thinMagic is64 isSwap := by
  have hlen : 4 ≤ bytes.length := by
    have := congrArg List.length h
    rw [List.length_take, length_leBytes] at this
    omega
  have hbytes : bytesAt bytes 0 4 = bytes.take 4 := by
    have := bytesAt_append [] bytes [] hlen
    rwa [List.nil_append, List.append_nil] at this
  rw [fileMagic, hbytes, h]
  cases is64 with
  | false =>
      cases isSwap <;> decide
  | true =>
      cases isSwap <;> decide

theorem fileCommands_of_take (h : bytes.take 4 = leBytes 4 (thinMagic is64 isSwap).toNat) :
    fileCommands bytes =
      commandsRead isSwap (field isSwap (bytesAt bytes 16 4) 0 4) ⟨bytes, 0⟩
        (headerSize is64) := by
  obtain ⟨hfat, his64, hswap⟩ := ThinFile.thinMagic_cases is64 isSwap
  simp only [fileCommands, fileMagic_of_take h, hfat, his64, hswap]
  rfl

/-- The `k`-th command that is read of a thin file, when no offset overflows. -/
theorem fileCommands_getElem {k off : Nat}
    (hmagic : bytes.take 4 = leBytes 4 (thinMagic is64 isSwap).toNat)
    (hcount : k < field isSwap (bytesAt bytes 16 4) 0 4)
    (hsteps : Steps bytes isSwap k (headerSize is64).toNat off) :
    (fileCommands bytes)[k]? =
      some ⟨BitVec.ofNat 32 off, cmdAt bytes isSwap off, bytesAt bytes off 24⟩ := by
  have hstart : BitVec.ofNat 32 (headerSize is64).toNat = headerSize is64 := by
    simp
  rw [fileCommands_of_take hmagic, ← hstart]
  exact hsteps.commandsRead_getElem rfl hcount

/-- The first command found by its number. -/
theorem firstMainRead_eq_some {k : Nat} (h : firstMainRead bytes = some k) :
    ∃ c, (fileCommands bytes)[k]? = some c ∧ c.cmd = lcMain ∧
      (fileCommands bytes).find? CommandRead.isMain = some c ∧
      ∀ j c', j < k → (fileCommands bytes)[j]? = some c' → c'.cmd ≠ lcMain := by
  obtain ⟨hlt, hmain, hbefore⟩ := List.findIdx?_eq_some_iff_getElem.mp h
  refine ⟨(fileCommands bytes)[k], List.getElem?_eq_getElem hlt, ?_, ?_, ?_⟩
  · simpa [CommandRead.isMain] using hmain
  · have hidx : (fileCommands bytes).findIdx? CommandRead.isMain = some k := h
    rw [List.find?_eq_bind_findIdx?_getElem?, hidx]
    exact List.getElem?_eq_getElem hlt
  · intro j c' hj hc' hcon
    have hjlt : j < (fileCommands bytes).length := by
      omega
    have hno := hbefore j hj
    rw [List.getElem?_eq_getElem hjlt] at hc'
    rw [Option.some.inj hc'] at hno
    simp [CommandRead.isMain, hcon] at hno

/-- The number of LC_MAIN does not read the same in both byte orders. -/
theorem not_main_both_orders {buf : List Byte} (hlen : 4 ≤ buf.length)
    (hnative : BitVec.ofNat 32 (field false buf 0 4) = lcMain)
    (hswap : BitVec.ofNat 32 (field true buf 0 4) = lcMain) : False := by
  have hfield : field true buf 0 4 = leNat (buf.take 4).reverse := by
    simp [field]
  rw [hfield, take_eq_of_field hlen hnative] at hswap
  exact absurd hswap (by decide)

/-- A sound entry that the parser reports is the first LC_MAIN that it reads, in the byte
order of the machine. -/
theorem SoundEntry.checksPass {k k' off : Nat} {c : CommandRead}
    (h : SoundEntry bytes (.ofBytes c.entry) is64 isSwap k' off)
    (hc : (fileCommands bytes)[k]? = some c) (hmain : c.cmd = lcMain)
    (hbefore : ∀ j c', j < k → (fileCommands bytes)[j]? = some c' → c'.cmd ≠ lcMain) :
    ChecksPass bytes k := by
  have hle : k ≤ k' := by
    by_contra hcon
    exact hbefore k' _ (by omega) (fileCommands_getElem h.magic h.count h.steps) h.main
  obtain ⟨o, ho, hoff⟩ := h.steps.earlier hle
  have hcount := h.count
  have hread := fileCommands_getElem h.magic (by omega) ho
  obtain rfl : c = _ := Option.some.inj (hc.symm.trans hread)
  -- the copied bytes say LC_MAIN in the byte order of the machine
  have hnative : BitVec.ofNat 32 (field false (bytesAt bytes o 8) 0 4) = lcMain := by
    have hcmd := congrArg EntryPointCommand.cmd h.entry
    have hleft : (EntryPointCommand.ofBytes (bytesAt bytes o 24)).cmd =
        BitVec.ofNat 32 (field false (bytesAt bytes o 8) 0 4) := by
      rw [EntryPointCommand.ofBytes, field_bytesAt false bytes o (k := 0) (m := 24) (by decide),
        field_bytesAt false bytes o (k := 0) (m := 8) (by decide)]
    have hright : (EntryPointCommand.inOrder isSwap (bytesAt bytes off 24)).cmd =
        cmdAt bytes isSwap off := by
      rw [EntryPointCommand.inOrder, cmdAt,
        field_bytesAt isSwap bytes off (k := 0) (m := 24) (by decide),
        field_bytesAt isSwap bytes off (k := 0) (m := 8) (by decide)]
    rw [← hleft, hcmd, hright, h.main]
  have hinFile := h.inFile
  have hinArea := h.inArea
  cases isSwap with
  | false =>
      exact ⟨is64, o, h.magic, ho, by omega, by omega⟩
  | true =>
      have hlen : 4 ≤ (bytesAt bytes o 8).length := by
        rw [length_bytesAt]
        decide
      exact (not_main_both_orders hlen hnative hmain).elim

/-- A command that passes the checks is a sound entry. -/
theorem ChecksPass.soundEntry {k : Nat} {c : CommandRead} (h : ChecksPass bytes k)
    (hc : (fileCommands bytes)[k]? = some c) (hmain : c.cmd = lcMain) :
    ∃ is64 isSwap k off, SoundEntry bytes (.ofBytes c.entry) is64 isSwap k off := by
  obtain ⟨is64, off, hmagic, hsteps, hinFile, hinArea⟩ := h
  have hcount : k < field false (bytesAt bytes 16 4) 0 4 := by
    have hlt := (List.getElem?_eq_some_iff.mp hc).1
    rwa [fileCommands_of_take hmagic, length_commandsRead] at hlt
  have hread := fileCommands_getElem hmagic hcount hsteps
  obtain rfl : c = _ := Option.some.inj (hc.symm.trans hread)
  exact ⟨is64, false, k, off, hmagic, hcount, hsteps, hmain, hinFile, hinArea, rfl⟩

end Sound

/-- **Soundness of the parser.**  For every file: what is reported with success is an
LC_MAIN command in its place exactly when no LC_MAIN command is read or the first one
passes the checks that the parser leaves out. -/
theorem readEntryPointCmd_sound_iff
    (bytes : List Byte) (magic₀ : BitVec 32) (entryPoint : EntryPointCommand) :
    let r := readEntryPointCmd ⟨bytes, 0⟩ magic₀ entryPoint
    (r.1 = 0 → ∃ is64 isSwap k off, SoundEntry bytes r.2 is64 isSwap k off) ↔
      ∀ k, firstMainRead bytes = some k → ChecksPass bytes k := by
  intro r
  have hr : r = ((fileCommands bytes).find? CommandRead.isMain).elim (1, entryPoint)
      (fun c => (0, .ofBytes c.entry)) := readEntryPointCmd_eq_find bytes magic₀ entryPoint
  cases hfirst : firstMainRead bytes with
  | none =>
      have hnone : (fileCommands bytes).find? CommandRead.isMain = none := by
        have hidx : (fileCommands bytes).findIdx? CommandRead.isMain = none := hfirst
        rw [List.find?_eq_bind_findIdx?_getElem?, hidx]
        rfl
      simp [hr, hnone]
  | some k =>
      obtain ⟨c, hc, hmain, hfind, hbefore⟩ := firstMainRead_eq_some hfirst
      have hfound : r = (0, .ofBytes c.entry) := by
        rw [hr, hfind]
        rfl
      rw [hfound]
      constructor
      · intro h k' hk'
        obtain rfl := Option.some.inj hk'
        obtain ⟨is64, isSwap, k', off, hsound⟩ := h rfl
        exact hsound.checksPass hc hmain hbefore
      · intro h _
        exact (h k rfl).soundEntry hc hmain

/-- A file whose magic number is zero, with an LC_MAIN command. -/
def unknownFile : List Byte :=
  List.replicate 16 0 ++ leBytes 4 1 ++ leBytes 4 24 ++ List.replicate 4 0 ++
    mainCommand.bytes

/-- It is taken for a thin file of 32 bits. -/
theorem unknownFile_not_sound :
    let r := readEntryPointCmd ⟨unknownFile, 0⟩ 0 ⟨0, 0, 0, 0⟩
    r.1 = 0 ∧ r.2.entryoff = 0x1F30 ∧
      ¬ (r.1 = 0 → ∃ is64 isSwap k off, SoundEntry unknownFile r.2 is64 isSwap k off) := by
  refine ⟨by decide +kernel, by decide +kernel, fun h => ?_⟩
  obtain ⟨is64, isSwap, k, off, hsound⟩ := h (by decide +kernel)
  have hmagic := hsound.magic
  revert hmagic
  cases is64 with
  | false =>
      cases isSwap <;> decide
  | true =>
      cases isSwap <;> decide

end Hvexec
