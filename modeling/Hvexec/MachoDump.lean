import Hvexec.MachoFile

/-!
# The dump of an executable

`dump_segments` logs the header, the segments and the entry point of a thin file, and those
of every slice of a fat one.  `read_entry_point_cmd` logs the same lines, but stops at the
first entry point.
-/

namespace Hvexec

open ByteMemory

/-! ## The log -/

/-- The values of a line of the log.  A name is printed up to the first zero; there is no
line to tell of when the buffer holds none. -/
inductive LogLine
  | header (cpuName : String) (ncmds : BitVec 32)
  | segname (name : Option (List Byte))
  | entryPoint (entryoff : U64)
deriving DecidableEq

def cpuTypeNames : List (BitVec 32 × String) :=
  [(7, "i386"), (0x01000007, "x86_64"), (12, "arm"), (0x0100000C, "arm64")]

def cpuTypeName (cpuType : BitVec 32) : String :=
  ((cpuTypeNames.find? fun t => cpuType = t.1).map Prod.snd).getD "unknown"

/-- The sizes of the fields of `struct segment_command_64` and `struct segment_command`;
the name is swapped byte for byte. -/
def segmentWidths (is64 : Bool) : List Nat :=
  [4, 4] ++ List.replicate 16 1 ++ List.replicate 4 (if is64 then 8 else 4) ++
    List.replicate 4 4

/-- What `%s` prints from a buffer. -/
def printed (buf : List Byte) : Option (List Byte) :=
  if 0 ∈ buf then some (buf.takeWhile fun b => b ≠ 0) else none

/-- The line of a segment command. -/
def segmentLine (isSwap is64 : Bool) (buf : List Byte) : LogLine :=
  .segname (printed ((if isSwap then swapFields (segmentWidths is64) buf else buf).drop 8))

/-! ## dump_segments -/

def dumpSegmentCommands (isSwap : Bool) : Nat → ObjFile → BitVec 32 → ObjFile × List LogLine
  | 0, f, _ => (f, [])
  | ncmds + 1, f, actualOffset =>
      let r := loadBytes f actualOffset 8
      let cmd := BitVec.ofNat 32 (field isSwap r.2 0 4)
      let next := actualOffset + BitVec.ofNat 32 (field isSwap r.2 4 4)
      if cmd = lcSegment64 then
        let s := loadBytes r.1 actualOffset 72
        let t := dumpSegmentCommands isSwap ncmds s.1 next
        (t.1, segmentLine isSwap true s.2 :: t.2)
      else if cmd = lcSegment then
        let s := loadBytes r.1 actualOffset 56
        let t := dumpSegmentCommands isSwap ncmds s.1 next
        (t.1, segmentLine isSwap false s.2 :: t.2)
      else if cmd = lcMain then
        let s := loadBytes r.1 actualOffset 24
        let t := dumpSegmentCommands isSwap ncmds s.1 next
        (t.1, .entryPoint (EntryPointCommand.ofBytes s.2).entryoff :: t.2)
      else dumpSegmentCommands isSwap ncmds r.1 next

/-- The line of a header. -/
def headerLine (isSwap : Bool) (buf : List Byte) : LogLine :=
  .header (cpuTypeName (BitVec.ofNat 32 (field isSwap buf 4 4)))
    (BitVec.ofNat 32 (field isSwap buf 16 4))

def dumpMachHeader (f : ObjFile) (offset : BitVec 32) (is64 isSwap : Bool) :
    ObjFile × List LogLine :=
  let r := loadBytes f offset (headerSize is64).toNat
  let t := dumpSegmentCommands isSwap (field isSwap r.2 16 4) r.1 (offset + headerSize is64)
  (t.1, headerLine isSwap r.2 :: t.2)

/-- The loop of `dump_fat_header`; `magic₀ i` is what the local of `read_magic` holds before
the read for the `i`-th slice. -/
def dumpFatArchs (isSwap : Bool) :
    Nat → ObjFile → BitVec 32 → (Nat → BitVec 32) → List LogLine
  | 0, _, _, _ => []
  | n + 1, f, archOffset, magic₀ =>
      let r := loadBytes f archOffset 20
      let machHeaderOffset := BitVec.ofNat 32 (field isSwap r.2 8 4)
      let m := readMagic r.1 machHeaderOffset (magic₀ 0)
      let t := dumpMachHeader m.1 machHeaderOffset (isMagic64 m.2) (shouldSwapBytes m.2)
      t.2 ++ dumpFatArchs isSwap n t.1 (archOffset + 20) fun i => magic₀ (i + 1)

def dumpFatHeader (f : ObjFile) (isSwap : Bool) (magic₀ : Nat → BitVec 32) : List LogLine :=
  let r := loadBytes f 0 8
  dumpFatArchs isSwap (field isSwap r.2 4 4) r.1 8 magic₀

def dumpSegments (f : ObjFile) (magic₀ : Nat → BitVec 32) : List LogLine :=
  let r := readMagic f 0 (magic₀ 0)
  if isFat r.2 then dumpFatHeader r.1 (shouldSwapBytes r.2) fun i => magic₀ (i + 1)
  else (dumpMachHeader r.1 0 (isMagic64 r.2) (shouldSwapBytes r.2)).2

/-! ## What read_entry_point_cmd logs -/

/-- `readSegmentCommands` with its log. -/
def readSegmentCommandsLog (isSwap : Bool) :
    Nat → ObjFile → BitVec 32 → EntryPointCommand → List LogLine × Int × EntryPointCommand
  | 0, _, _, entryPoint => ([], 1, entryPoint)
  | ncmds + 1, f, actualOffset, entryPoint =>
      let r := loadBytes f actualOffset 8
      let cmd := BitVec.ofNat 32 (field isSwap r.2 0 4)
      let next := actualOffset + BitVec.ofNat 32 (field isSwap r.2 4 4)
      if cmd = lcSegment64 then
        let s := loadBytes r.1 actualOffset 72
        let t := readSegmentCommandsLog isSwap ncmds s.1 next entryPoint
        (segmentLine isSwap true s.2 :: t.1, t.2)
      else if cmd = lcSegment then
        let s := loadBytes r.1 actualOffset 56
        let t := readSegmentCommandsLog isSwap ncmds s.1 next entryPoint
        (segmentLine isSwap false s.2 :: t.1, t.2)
      else if cmd = lcMain then
        let s := loadBytes r.1 actualOffset 24
        ([.entryPoint (EntryPointCommand.ofBytes s.2).entryoff], 0, .ofBytes s.2)
      else readSegmentCommandsLog isSwap ncmds r.1 next entryPoint

/-- `readMachHeader` with its log. -/
def readMachHeaderLog (f : ObjFile) (offset : BitVec 32) (is64 isSwap : Bool)
    (entryPoint : EntryPointCommand) : List LogLine × Int × EntryPointCommand :=
  let r := loadBytes f offset (headerSize is64).toNat
  let t := readSegmentCommandsLog isSwap (field isSwap r.2 16 4) r.1
    (offset + headerSize is64) entryPoint
  (headerLine isSwap r.2 :: t.1, t.2)

/-- `readEntryPointCmd` with its log. -/
def readEntryPointCmdLog (f : ObjFile) (magic₀ : BitVec 32) (entryPoint : EntryPointCommand) :
    List LogLine × Int × EntryPointCommand :=
  let r := readMagic f 0 magic₀
  if isFat r.2 then ([], 1, entryPoint)
  else readMachHeaderLog r.1 0 (isMagic64 r.2) (shouldSwapBytes r.2) entryPoint

theorem readSegmentCommandsLog_snd (isSwap : Bool) (n : Nat) (f : ObjFile) (off : BitVec 32)
    (entryPoint : EntryPointCommand) :
    (readSegmentCommandsLog isSwap n f off entryPoint).2 =
      readSegmentCommands isSwap n f off entryPoint := by
  induction n generalizing f off with
  | zero =>
      rfl
  | succ n ih =>
      rw [readSegmentCommandsLog, readSegmentCommands]
      split_ifs
      · exact ih _ _
      · exact ih _ _
      · rfl
      · exact ih _ _

/-- The log changes nothing. -/
theorem readEntryPointCmdLog_snd (f : ObjFile) (magic₀ : BitVec 32)
    (entryPoint : EntryPointCommand) :
    (readEntryPointCmdLog f magic₀ entryPoint).2 = readEntryPointCmd f magic₀ entryPoint := by
  rw [readEntryPointCmdLog, readEntryPointCmd]
  split_ifs
  · rfl
  · exact readSegmentCommandsLog_snd _ _ _ _ _

/-! ## One log is the start of the other -/

/-- The entry point that a line shows. -/
def LogLine.entryoff? : LogLine → Option U64
  | .entryPoint entryoff => some entryoff
  | _ => none

/-- The lines up to the first entry point. -/
def upToEntry : List LogLine → List LogLine
  | [] => []
  | line :: lines => if line.entryoff?.isSome then [line] else line :: upToEntry lines

/-- The log and the result of `read_entry_point_cmd` beside the lines of the dump. -/
structure LogsAgree (r : List LogLine × Int × EntryPointCommand) (lines : List LogLine)
    (entryPoint : EntryPointCommand) : Prop where
  log : r.1 = upToEntry lines
  found : ∀ off, lines.findSome? LogLine.entryoff? = some off → r.2.1 = 0 ∧ r.2.2.entryoff = off
  missing : lines.findSome? LogLine.entryoff? = none → r.2 = (1, entryPoint)

namespace LogsAgree

variable {r : List LogLine × Int × EntryPointCommand} {lines : List LogLine}
  {entryPoint : EntryPointCommand}

/-- Both logs go on after a line without an entry point. -/
theorem cons (h : LogsAgree r lines entryPoint) {line : LogLine}
    (hline : line.entryoff? = none) : LogsAgree (line :: r.1, r.2) (line :: lines) entryPoint := by
  constructor
  · rw [upToEntry, hline, h.log]
    rfl
  · rw [List.findSome?_cons, hline]
    exact h.found
  · rw [List.findSome?_cons, hline]
    exact h.missing

/-- One log ends with an entry point. -/
theorem entry (buf : List Byte) (lines : List LogLine) (entryPoint : EntryPointCommand) :
    LogsAgree
      ([.entryPoint (EntryPointCommand.ofBytes buf).entryoff], 0, .ofBytes buf)
      (.entryPoint (EntryPointCommand.ofBytes buf).entryoff :: lines) entryPoint := by
  constructor
  · rfl
  · intro off hoff
    exact ⟨rfl, Option.some.inj hoff⟩
  · intro hnone
    exact absurd hnone (by simp [LogLine.entryoff?])

end LogsAgree

/-- **The two loops agree** up to the first LC_MAIN command, whatever the commands are. -/
theorem readSegmentCommandsLog_agrees (isSwap : Bool) (n : Nat) (f : ObjFile)
    (off : BitVec 32) (entryPoint : EntryPointCommand) :
    LogsAgree (readSegmentCommandsLog isSwap n f off entryPoint)
      (dumpSegmentCommands isSwap n f off).2 entryPoint := by
  induction n generalizing f off with
  | zero =>
      exact ⟨rfl, fun _ h => absurd h (by simp [dumpSegmentCommands]), fun _ => rfl⟩
  | succ n ih =>
      rw [readSegmentCommandsLog, dumpSegmentCommands]
      split_ifs
      · exact (ih _ _).cons rfl
      · exact (ih _ _).cons rfl
      · exact LogsAgree.entry _ _ _
      · exact ih _ _

/-- **The log of `read_entry_point_cmd` is the dump up to the first entry point**, which is
the one it returns; of a fat file it logs nothing and returns none. -/
theorem readEntryPointCmd_dump
    (f : ObjFile) (magic₀ : Nat → BitVec 32) (entryPoint : EntryPointCommand) :
    let r := readEntryPointCmdLog f (magic₀ 0) entryPoint
    r.2 = readEntryPointCmd f (magic₀ 0) entryPoint ∧
      if isFat (readMagic f 0 (magic₀ 0)).2 then r = ([], 1, entryPoint)
      else LogsAgree r (dumpSegments f magic₀) entryPoint := by
  intro r
  refine ⟨readEntryPointCmdLog_snd f (magic₀ 0) entryPoint, ?_⟩
  have hr : r = readEntryPointCmdLog f (magic₀ 0) entryPoint := rfl
  rw [hr, readEntryPointCmdLog, dumpSegments]
  split_ifs with hfat
  · rfl
  · exact (readSegmentCommandsLog_agrees _ _ _ _ entryPoint).cons rfl

/-! ## What is in a file -/

section Bytes

@[simp] theorem bytes_readMagic (f : ObjFile) (offset magic₀ : BitVec 32) :
    (readMagic f offset magic₀).1.bytes = f.bytes := by
  simp only [readMagic, ObjFile.fread, ObjFile.fseek]
  split_ifs <;> rfl

@[simp] theorem bytes_dumpSegmentCommands (isSwap : Bool) (n : Nat) (f : ObjFile)
    (off : BitVec 32) : (dumpSegmentCommands isSwap n f off).1.bytes = f.bytes := by
  induction n generalizing f off with
  | zero =>
      rfl
  | succ n ih =>
      rw [dumpSegmentCommands]
      split_ifs <;> simp [ih]

@[simp] theorem bytes_dumpMachHeader (f : ObjFile) (off : BitVec 32) (is64 isSwap : Bool) :
    (dumpMachHeader f off is64 isSwap).1.bytes = f.bytes := by
  simp [dumpMachHeader]

/-- The magic number at an offset of a file. -/
theorem readMagic_at (f : ObjFile) {offset : BitVec 32} (magic₀ : BitVec 32)
    (hneg : ¬ offset.toInt < 0) (hlen : offset.toNat + 4 ≤ f.bytes.length) :
    (readMagic f offset magic₀).2 =
      BitVec.ofNat 32 (field false (bytesAt f.bytes offset.toNat 4) 0 4) := by
  have hgot : ((f.bytes.drop offset.toNat).take 4).length = 4 := by
    rw [List.length_take, List.length_drop]
    omega
  have hbytes : (f.bytes.drop offset.toNat).take 4 = bytesAt f.bytes offset.toNat 4 := by
    apply List.ext_getElem
    · rw [hgot, length_bytesAt]
    · intro i hi _
      rw [hgot] at hi
      simp [bytesAt, List.getElem?_eq_getElem (show offset.toNat + i < f.bytes.length by omega)]
  simp only [readMagic, ObjFile.fseek, if_neg hneg, ObjFile.fread, length_leBytes]
  rw [hgot, List.drop_of_length_le (length_leBytes _ _).le, List.append_nil, hbytes,
    field, List.drop_zero, List.take_of_length_le (length_bytesAt _ _ _).le]
  rfl

end Bytes

/-! ## Names in either byte order -/

section Names

theorem swapFields_append (ws ws' : List Nat) {bs : List Byte} (h : ws.sum ≤ bs.length) :
    swapFields (ws ++ ws') bs =
      swapFields ws (bs.take ws.sum) ++ swapFields ws' (bs.drop ws.sum) := by
  induction ws generalizing bs with
  | nil =>
      rfl
  | cons w ws ih =>
      rw [List.sum_cons] at h ⊢
      have hrest : ws.sum ≤ (bs.drop w).length := by
        rw [List.length_drop]
        omega
      rw [List.cons_append, swapFields, swapFields, ih hrest, List.take_take,
        Nat.min_eq_left (Nat.le_add_right _ _), List.drop_take, Nat.add_sub_cancel_left,
        List.drop_drop, List.append_assoc]

/-- Fields of one byte are the same in both orders. -/
theorem swapFields_ones (n : Nat) (bs : List Byte) :
    swapFields (List.replicate n 1) bs = bs := by
  induction n generalizing bs with
  | zero =>
      rfl
  | succ n ih =>
      rw [List.replicate_succ, swapFields, ih]
      cases bs with
      | nil =>
          rfl
      | cons b bs =>
          rfl

/-- The swap of a segment command leaves its name alone. -/
theorem segname_swapFields (is64 : Bool) {buf : List Byte} (h : 24 ≤ buf.length) :
    ((swapFields (segmentWidths is64) buf).drop 8).take 16 = (buf.drop 8).take 16 := by
  have hfirst : (swapFields [4, 4] (buf.take 8)).length = 8 := by
    rw [length_swapFields, List.length_take]
    omega
  have hname : (swapFields (List.replicate 16 1) ((buf.drop 8).take 16)).length = 16 := by
    rw [length_swapFields, List.length_take, List.length_drop]
    omega
  have hwords : [4, 4].sum = 8 := rfl
  have hones : (List.replicate 16 1).sum = 16 := rfl
  rw [segmentWidths, List.append_assoc, List.append_assoc,
    swapFields_append [4, 4] _ (by omega), hwords, List.drop_left' hfirst,
    swapFields_append (List.replicate 16 1) _ (by rw [List.length_drop]; omega), hones,
    List.take_left' hname, swapFields_ones]

/-- A string that ends within the first `n` bytes. -/
theorem printed_of_mem_take {buf : List Byte} {n : Nat} (h : 0 ∈ buf.take n) :
    printed buf = some ((buf.take n).takeWhile fun b => b ≠ 0) := by
  have hstop : ¬ (((buf.take n).takeWhile fun b => decide (b ≠ 0)).length = (buf.take n).length) := by
    intro hall
    have hprefix := List.takeWhile_prefix (l := buf.take n) fun b : Byte => decide (b ≠ 0)
    have heq := hprefix.eq_of_length hall
    rw [← heq] at h
    simpa using List.mem_takeWhile_imp h
  rw [printed, if_pos (List.mem_of_mem_take h)]
  conv_lhs => rw [← List.take_append_drop n buf, List.takeWhile_append, if_neg hstop]

/-- The line of a segment command with a name that ends in its sixteen bytes. -/
theorem segmentLine_eq (isSwap is64 : Bool) {buf : List Byte} (hlen : 24 ≤ buf.length)
    (hname : 0 ∈ (buf.drop 8).take 16) :
    segmentLine isSwap is64 buf =
      .segname (some (((buf.drop 8).take 16).takeWhile fun b => b ≠ 0)) := by
  cases isSwap with
  | false =>
      exact congrArg LogLine.segname (printed_of_mem_take hname)
  | true =>
      have hsame := segname_swapFields is64 hlen
      rw [← hsame] at hname ⊢
      exact congrArg LogLine.segname (printed_of_mem_take hname)

end Names

/-! ## Thin files -/

namespace CommandBytes

variable {isSwap : Bool} (c : CommandBytes isSwap)

def IsSegment : Prop :=
  c.cmd = lcSegment64 ∨ c.cmd = lcSegment

/-- The name of a segment, up to the first zero of its sixteen bytes. -/
def segname : List Byte :=
  ((c.bytes.drop 8).take 16).takeWhile fun b => b ≠ 0

/-- A segment command is as long as its structure, and its name ends within its bytes. -/
structure Dumpable : Prop where
  segment64 : c.cmd = lcSegment64 → 72 ≤ c.bytes.length
  segment : c.cmd = lcSegment → 56 ≤ c.bytes.length
  named : c.IsSegment → 0 ∈ (c.bytes.drop 8).take 16

/-- What there is to tell of a command. -/
def line : Option LogLine :=
  if c.cmd = lcSegment64 then some (.segname (some c.segname))
  else if c.cmd = lcSegment then some (.segname (some c.segname))
  else if c.cmd = lcMain then
    some (.entryPoint (EntryPointCommand.ofBytes c.bytes).entryoff)
  else none

/-- The line of a segment command, from the structure that is read. -/
theorem segmentLine_take {c : CommandBytes isSwap} (is64 : Bool) {n : Nat} (hn : 24 ≤ n)
    (hlen : n ≤ c.bytes.length) (hname : 0 ∈ (c.bytes.drop 8).take 16) :
    segmentLine isSwap is64 (c.bytes.take n) = .segname (some c.segname) := by
  have htake : ((c.bytes.take n).drop 8).take 16 = (c.bytes.drop 8).take 16 := by
    rw [List.drop_take, List.take_take, Nat.min_eq_left (by omega)]
  rw [segmentLine_eq, htake, segname]
  · rw [List.length_take]
    omega
  · rwa [htake]

end CommandBytes

section Thin

variable {isSwap : Bool}

/-- **The loop over the commands of a thin file** tells of each of them, wherever in a file
they lie. -/
theorem dumpSegmentCommands_commands (commands : List (CommandBytes isSwap))
    (pre rest : List Byte) {f : ObjFile} {off : BitVec 32}
    (hf : f.bytes = pre ++ (commandBytes commands ++ rest))
    (hlen : f.bytes.length < 2 ^ 31) (hoff : off.toNat = pre.length)
    (hdump : ∀ c ∈ commands, c.Dumpable) :
    (dumpSegmentCommands isSwap commands.length f off).2 =
      commands.filterMap CommandBytes.line := by
  induction commands generalizing pre f off with
  | nil =>
      rfl
  | cons c commands ih =>
      have hc := hdump c List.mem_cons_self
      have hbytes : f.bytes = pre ++ (c.bytes ++ (commandBytes commands ++ rest)) := by
        rw [hf, commandBytes, List.flatMap_cons, List.append_assoc]
        rfl
      have hsize : pre.length + c.bytes.length ≤ f.bytes.length := by
        rw [hbytes]
        simp only [List.length_append]
        omega
      have hneg : ¬ off.toInt < 0 := not_toInt_lt_zero (by omega)
      -- a structure within the command is what is read at its offset
      have hread : ∀ g : ObjFile, g.bytes = f.bytes → ∀ n, n ≤ c.bytes.length →
          (loadBytes g off n).2 = c.bytes.take n := by
        intro g hg n hn
        rw [loadBytes_of_nonneg g n hneg, hg, hbytes, hoff]
        exact bytesAt_append pre c.bytes _ hn
      have hcmd : BitVec.ofNat 32 (field isSwap (c.bytes.take 8) 0 4) = c.cmd := by
        rw [field_take isSwap c.bytes (by decide)]
        rfl
      have hcmdsize : field isSwap (c.bytes.take 8) 4 4 = c.bytes.length := by
        rw [field_take isSwap c.bytes (by decide), c.cmdsize]
      have hrest : ∀ g : ObjFile, g.bytes = f.bytes →
          (dumpSegmentCommands isSwap commands.length g
            (off + BitVec.ofNat 32 c.bytes.length)).2 =
              commands.filterMap CommandBytes.line := by
        intro g hg
        refine ih (pre ++ c.bytes) ?_ (by rwa [hg]) ?_
          fun d hd => hdump d (List.mem_cons_of_mem c hd)
        · rw [hg, hbytes, List.append_assoc]
        · rw [BitVec.toNat_add, BitVec.toNat_ofNat, List.length_append]
          omega
      have hafter : ∀ n, (loadBytes (loadBytes f off 8).1 off n).1.bytes = f.bytes := by
        simp
      rw [List.length_cons, dumpSegmentCommands, hread f rfl 8 c.generic, hcmd, hcmdsize,
        List.filterMap_cons, CommandBytes.line]
      split_ifs with hsegment64 hsegment hmain
      · dsimp only
        rw [hread _ (bytes_loadBytes f off 8) 72 (hc.segment64 hsegment64),
          CommandBytes.segmentLine_take true (by decide) (hc.segment64 hsegment64)
            (hc.named (Or.inl hsegment64)), hrest _ (hafter 72)]
      · dsimp only
        rw [hread _ (bytes_loadBytes f off 8) 56 (hc.segment hsegment),
          CommandBytes.segmentLine_take false (by decide) (hc.segment hsegment)
            (hc.named (Or.inr hsegment)), hrest _ (hafter 56)]
      · dsimp only
        rw [hread _ (bytes_loadBytes f off 8) 24 (c.main hmain), ofBytes_take,
          hrest _ (hafter 24)]
      · exact hrest _ (bytes_loadBytes f off 8)

namespace ThinFile

variable (m : ThinFile isSwap)

/-- What there is to tell of a thin file. -/
def lines : List LogLine :=
  headerLine isSwap m.header :: m.commands.filterMap CommandBytes.line

/-- **The dump of a thin file within a file.** -/
theorem dumpMachHeader_eq (pre behind : List Byte) {f : ObjFile} {off : BitVec 32}
    (hf : f.bytes = pre ++ (m.bytes ++ behind)) (hlen : f.bytes.length < 2 ^ 31)
    (hoff : off.toNat = pre.length) (hdump : ∀ c ∈ m.commands, c.Dumpable) :
    (dumpMachHeader f off m.is64 isSwap).2 = m.lines := by
  have hbytes : f.bytes =
      pre ++ (m.header ++ (commandBytes m.commands ++ (m.rest ++ behind))) := by
    rw [hf, bytes]
    simp only [List.append_assoc]
  have hsize : pre.length + m.header.length ≤ f.bytes.length := by
    rw [hbytes]
    simp only [List.length_append]
    omega
  have hheader : (loadBytes f off (headerSize m.is64).toNat).2 = m.header := by
    rw [loadBytes_of_nonneg f _ (not_toInt_lt_zero (by omega)), ← m.size, hbytes, hoff,
      bytesAt_append pre m.header _ le_rfl, List.take_length]
  have hnext : (off + headerSize m.is64).toNat = (pre ++ m.header).length := by
    rw [BitVec.toNat_add, ← m.size, List.length_append, hoff, Nat.mod_eq_of_lt (by omega)]
  have hcommands : (dumpSegmentCommands isSwap m.commands.length
      (loadBytes f off (headerSize m.is64).toNat).1 (off + headerSize m.is64)).2 =
        m.commands.filterMap CommandBytes.line := by
    refine dumpSegmentCommands_commands m.commands (pre ++ m.header) (m.rest ++ behind) ?_ ?_
      hnext hdump
    · rw [bytes_loadBytes, hbytes, List.append_assoc]
    · rwa [bytes_loadBytes]
  rw [dumpMachHeader, hheader, m.ncmds]
  exact congrArg (headerLine isSwap m.header :: ·) hcommands

/-- The magic number of a thin file within a file. -/
theorem readMagic_within (pre behind : List Byte) {f : ObjFile} {off : BitVec 32}
    (magic₀ : BitVec 32) (hf : f.bytes = pre ++ (m.bytes ++ behind))
    (hlen : f.bytes.length < 2 ^ 31) (hoff : off.toNat = pre.length) :
    (readMagic f off magic₀).2 = thinMagic m.is64 isSwap := by
  have hfour : 4 ≤ m.header.length := by
    have := le_headerSize m.is64
    have := m.size
    omega
  have hbytes : f.bytes =
      pre ++ (m.header ++ (commandBytes m.commands ++ m.rest ++ behind)) := by
    rw [hf, bytes]
    simp only [List.append_assoc]
  have hsize : pre.length + m.header.length ≤ f.bytes.length := by
    rw [hbytes]
    simp only [List.length_append]
    omega
  rw [readMagic_at f magic₀ (not_toInt_lt_zero (by omega)) (by omega), hoff, hbytes,
    bytesAt_append pre m.header _ hfour, field_take false _ (by decide), m.magic]

/-- What is dumped at an offset where a thin file lies. -/
theorem dump_within (pre behind : List Byte) {f : ObjFile} {off : BitVec 32}
    (magic₀ : BitVec 32) (hf : f.bytes = pre ++ (m.bytes ++ behind))
    (hlen : f.bytes.length < 2 ^ 31) (hoff : off.toNat = pre.length)
    (hdump : ∀ c ∈ m.commands, c.Dumpable) :
    let r := readMagic f off magic₀
    isFat r.2 = false ∧
      (dumpMachHeader r.1 off (isMagic64 r.2) (shouldSwapBytes r.2)).2 = m.lines := by
  intro r
  have hmagic : r.2 = thinMagic m.is64 isSwap :=
    m.readMagic_within pre behind magic₀ hf hlen hoff
  have hbytes : r.1.bytes = f.bytes := bytes_readMagic f off magic₀
  obtain ⟨hfat, his64, hswap⟩ := thinMagic_cases m.is64 isSwap
  rw [hmagic, his64, hswap]
  exact ⟨hfat, m.dumpMachHeader_eq pre behind (hbytes.trans hf) (by rwa [hbytes]) hoff hdump⟩

/-- The dump of a thin file. -/
theorem dumpSegments_eq (hlen : m.bytes.length < 2 ^ 31)
    (hdump : ∀ c ∈ m.commands, c.Dumpable) (magic₀ : Nat → BitVec 32) :
    dumpSegments ⟨m.bytes, 0⟩ magic₀ = m.lines := by
  have hstart : (0 : BitVec 32).toNat = ([] : List Byte).length := rfl
  obtain ⟨hfat, hlines⟩ := m.dump_within [] [] (f := ⟨m.bytes, 0⟩) (magic₀ 0)
    (List.append_nil _).symm hlen hstart hdump
  rw [dumpSegments, hfat, if_neg (by simp)]
  exact hlines

end ThinFile

end Thin

/-! ## Fat files -/

/-- The magic number of a fat file, as it is read in the byte order of the machine. -/
def fatMagicOf (isSwap : Bool) : BitVec 32 :=
  if isSwap then fatCigam else fatMagic

/-- A slice of a fat file: its `struct fat_arch`, and the thin file that this points to, in
a byte order of its own. -/
structure FatSlice where
  arch : List Byte
  size : arch.length = 20
  order : Bool
  file : ThinFile order

/-- A fat file: as many slices as its header says, each where its `offset` says. -/
structure FatFile (isSwap : Bool) where
  header : List Byte
  slices : List FatSlice
  rest : List Byte
  size : header.length = 8
  magic : BitVec.ofNat 32 (field false header 0 4) = fatMagicOf isSwap
  nfatArch : field isSwap header 4 4 = slices.length
  placed : ∀ s ∈ slices, ∃ pre behind,
    header ++ (slices.flatMap FatSlice.arch ++ rest) = pre ++ (s.file.bytes ++ behind) ∧
      pre.length = field isSwap s.arch 8 4

def FatFile.bytes {isSwap : Bool} (m : FatFile isSwap) : List Byte :=
  m.header ++ (m.slices.flatMap FatSlice.arch ++ m.rest)

section Fat

variable {isSwap : Bool}

/-- **The loop over the slices** tells of each of them. -/
theorem dumpFatArchs_slices (slices : List FatSlice) (pre rest : List Byte) {f : ObjFile}
    {archOffset : BitVec 32} (magic₀ : Nat → BitVec 32)
    (hf : f.bytes = pre ++ (slices.flatMap FatSlice.arch ++ rest))
    (hlen : f.bytes.length < 2 ^ 31) (hoff : archOffset.toNat = pre.length)
    (hplaced : ∀ s ∈ slices, ∃ before behind,
      f.bytes = before ++ (s.file.bytes ++ behind) ∧ before.length = field isSwap s.arch 8 4)
    (hdump : ∀ s ∈ slices, ∀ c ∈ s.file.commands, c.Dumpable) :
    dumpFatArchs isSwap slices.length f archOffset magic₀ =
      slices.flatMap fun s => s.file.lines := by
  induction slices generalizing pre f archOffset magic₀ with
  | nil =>
      rfl
  | cons s slices ih =>
      have hbytes : f.bytes = pre ++ (s.arch ++ (slices.flatMap FatSlice.arch ++ rest)) := by
        rw [hf, List.flatMap_cons, List.append_assoc]
      have hsize : pre.length + s.arch.length ≤ f.bytes.length := by
        rw [hbytes]
        simp only [List.length_append]
        omega
      have harch : (loadBytes f archOffset 20).2 = s.arch := by
        rw [loadBytes_of_nonneg f 20 (not_toInt_lt_zero (by omega)), hbytes, hoff, ← s.size,
          bytesAt_append pre s.arch _ le_rfl, List.take_length]
      have hafter : (loadBytes f archOffset 20).1.bytes = f.bytes :=
        bytes_loadBytes f archOffset 20
      -- the thin file lies where its structure says
      obtain ⟨before, behind, hfile, hbefore⟩ := hplaced s List.mem_cons_self
      have hbelow : before.length ≤ f.bytes.length := by
        rw [hfile, List.length_append]
        omega
      have hoffset : (BitVec.ofNat 32 (field isSwap s.arch 8 4)).toNat = before.length := by
        rw [BitVec.toNat_ofNat, ← hbefore, Nat.mod_eq_of_lt (by omega)]
      obtain ⟨_, hlines⟩ := s.file.dump_within before behind (magic₀ 0)
        (hafter.trans hfile) (by rwa [hafter]) hoffset (hdump s List.mem_cons_self)
      rw [List.length_cons, dumpFatArchs, List.flatMap_cons, harch, hlines]
      refine congrArg (s.file.lines ++ ·) (ih (pre ++ s.arch) _ ?_ ?_ ?_ ?_ ?_)
      · rw [bytes_dumpMachHeader, bytes_readMagic, hafter, hbytes, List.append_assoc]
      · rwa [bytes_dumpMachHeader, bytes_readMagic, hafter]
      · have hstep : (20 : BitVec 32).toNat = 20 := rfl
        have := s.size
        rw [BitVec.toNat_add, hstep, hoff, List.length_append, Nat.mod_eq_of_lt (by omega)]
        omega
      · rw [bytes_dumpMachHeader, bytes_readMagic, hafter]
        exact fun t ht => hplaced t (List.mem_cons_of_mem s ht)
      · exact fun t ht => hdump t (List.mem_cons_of_mem s ht)

theorem fatMagicOf_cases (isSwap : Bool) :
    isFat (fatMagicOf isSwap) = true ∧ shouldSwapBytes (fatMagicOf isSwap) = isSwap := by
  cases isSwap <;> decide

/-- The lines of a fat file are those of its slices. -/
theorem FatFile.dumpSegments_eq (m : FatFile isSwap) (hlen : m.bytes.length < 2 ^ 31)
    (hdump : ∀ s ∈ m.slices, ∀ c ∈ s.file.commands, c.Dumpable) (magic₀ : Nat → BitVec 32) :
    dumpSegments ⟨m.bytes, 0⟩ magic₀ = m.slices.flatMap fun s => s.file.lines := by
  have hsize := m.size
  have height : m.header.length ≤ m.bytes.length := by
    rw [FatFile.bytes, List.length_append]
    omega
  have hneg : ¬ (0 : BitVec 32).toInt < 0 := by
    decide
  have hread : ∀ n, n ≤ m.header.length →
      bytesAt m.bytes (0 : BitVec 32).toNat n = m.header.take n :=
    fun n hn => bytesAt_append [] m.header _ hn
  have hmagic : (readMagic ⟨m.bytes, 0⟩ 0 (magic₀ 0)).2 = fatMagicOf isSwap := by
    rw [readMagic_at ⟨m.bytes, 0⟩ (magic₀ 0) hneg (show 0 + 4 ≤ m.bytes.length by omega),
      hread 4 (by omega), field_take false _ (by decide), m.magic]
  obtain ⟨hfat, hswap⟩ := fatMagicOf_cases isSwap
  have hheader : (loadBytes (readMagic ⟨m.bytes, 0⟩ 0 (magic₀ 0)).1 0 8).2 = m.header := by
    rw [loadBytes_of_nonneg _ 8 hneg, bytes_readMagic, hread 8 (by omega), ← hsize,
      List.take_length]
  have hbytes : (loadBytes (readMagic ⟨m.bytes, 0⟩ 0 (magic₀ 0)).1 0 8).1.bytes = m.bytes := by
    rw [bytes_loadBytes, bytes_readMagic]
  rw [dumpSegments, hmagic, hfat, if_pos rfl, hswap, dumpFatHeader, hheader, m.nfatArch]
  refine dumpFatArchs_slices m.slices m.header m.rest _ hbytes (by rwa [hbytes]) ?_ ?_ hdump
  · rw [hsize]
    rfl
  · rw [hbytes]
    exact m.placed

end Fat

/-- **A fat file is dumped slice by slice.**  Wherever its slices lie, the dump is that of
each slice as a file of its own, one after the other, and tells the CPU type of each slice,
the number of its commands, the names of its segments and its entry points. -/
theorem dumpSegments_fatFile
    {isSwap : Bool} (m : FatFile isSwap) (hlen : m.bytes.length < 2 ^ 31)
    (hdump : ∀ s ∈ m.slices, ∀ c ∈ s.file.commands, c.Dumpable)
    (magic₀ magic₀' : Nat → BitVec 32) :
    dumpSegments ⟨m.bytes, 0⟩ magic₀ =
        m.slices.flatMap (fun s => dumpSegments ⟨s.file.bytes, 0⟩ magic₀') ∧
      ∀ s ∈ m.slices, dumpSegments ⟨s.file.bytes, 0⟩ magic₀' = s.file.lines := by
  have hslice : ∀ s ∈ m.slices, dumpSegments ⟨s.file.bytes, 0⟩ magic₀' = s.file.lines := by
    intro s hs
    obtain ⟨pre, behind, hfile, _⟩ := m.placed s hs
    have hwithin : s.file.bytes.length ≤ m.bytes.length := by
      rw [FatFile.bytes, hfile]
      simp only [List.length_append]
      omega
    exact s.file.dumpSegments_eq (by omega) (hdump s hs) magic₀'
  refine ⟨?_, hslice⟩
  rw [m.dumpSegments_eq hlen hdump magic₀]
  exact (List.flatMap_congr hslice).symm

/-- The text segment of a small program. -/
def textCommand : CommandBytes false where
  bytes := leBytes 4 0x19 ++ leBytes 4 72 ++ [95, 95, 84, 69, 88, 84] ++ List.replicate 58 0
  cmdsize := by decide
  generic := by decide
  main := by decide

/-- A 64-bit x86 file with a segment and an entry point. -/
def textFile : ThinFile false where
  is64 := true
  header := leBytes 4 0xFEEDFACF ++ leBytes 4 0x01000007 ++ List.replicate 8 0 ++ leBytes 4 2 ++
    List.replicate 12 0
  commands := [textCommand, mainCommand]
  rest := []
  size := by decide
  magic := by decide
  ncmds := by decide

/-- A slice at an offset, in a fat file with the other byte order. -/
def textSlice (offset : Nat) : FatSlice where
  arch := List.replicate 8 0 ++ (leBytes 4 offset).reverse ++ List.replicate 8 0
  size := by simp [length_leBytes]
  order := false
  file := textFile

/-- The header of a fat file with two slices, the second one first, and what it points to. -/
def twoArchs : List Byte :=
  [0xCA, 0xFE, 0xBA, 0xBE, 0, 0, 0, 2] ++ ((textSlice 180).arch ++ (textSlice 48).arch)

def twoSlices : FatFile true where
  header := [0xCA, 0xFE, 0xBA, 0xBE, 0, 0, 0, 2]
  slices := [textSlice 180, textSlice 48]
  rest := textFile.bytes ++ (List.replicate 4 0 ++ textFile.bytes)
  size := by decide
  magic := by decide
  nfatArch := by decide
  placed := by
    intro s hs
    simp only [List.mem_cons, List.not_mem_nil, or_false] at hs
    rcases hs with rfl | rfl
    · exact ⟨twoArchs ++ (textFile.bytes ++ List.replicate 4 0), [], by decide +kernel,
        by decide +kernel⟩
    · exact ⟨twoArchs, List.replicate 4 0 ++ textFile.bytes, by decide +kernel,
        by decide +kernel⟩

theorem dumpSegments_fatFile_twoSlices :
    dumpSegments ⟨twoSlices.bytes, 0⟩ (fun _ => 0) =
      twoSlices.slices.flatMap (fun s => dumpSegments ⟨s.file.bytes, 0⟩ fun _ => 0) := by
  refine (dumpSegments_fatFile twoSlices (by decide +kernel) ?_ (fun _ => 0) fun _ => 0).1
  have hdump : ∀ c ∈ textFile.commands, c.Dumpable := by
    intro c hc
    simp only [textFile, List.mem_cons, List.not_mem_nil, or_false] at hc
    rcases hc with rfl | rfl
    · exact ⟨by decide, by decide, fun _ => by decide⟩
    · exact ⟨by decide, by decide, fun h => absurd h (by unfold CommandBytes.IsSegment; decide)⟩
  intro s hs
  simp only [twoSlices, List.mem_cons, List.not_mem_nil, or_false] at hs
  rcases hs with rfl | rfl
  · exact hdump
  · exact hdump

/-- The lines of one slice. -/
example : textFile.lines =
    [.header "x86_64" 2, .segname (some [95, 95, 84, 69, 88, 84]), .entryPoint 0x1F30] := by
  decide +kernel

end Hvexec
