import Hvexec.Loader

/-!
# The entry point of an executable

`load_mach_obj` takes the entry point from the first LC_MAIN command that
`read_entry_point_cmd` finds in the file.  The numbers of Mach-O are those of the system
headers.

A file is a list of bytes with the position of the next read, since a seek to a negative
offset fails and leaves the position alone.  What a short read does not fill keeps what
it held: zeros in a buffer of `load_bytes`, anything in the local of `read_magic`.
-/

namespace Hvexec

open ByteMemory

/-! ## The parser -/

/-- `FILE`. -/
structure ObjFile where
  bytes : List Byte
  pos : Nat

/-- `fseek` from the start of the file. -/
def ObjFile.fseek (f : ObjFile) (offset : BitVec 32) : ObjFile :=
  if offset.toInt < 0 then f else { f with pos := offset.toNat }

/-- `fread` of one element, into a buffer that holds `buf`. -/
def ObjFile.fread (f : ObjFile) (buf : List Byte) : ObjFile × List Byte :=
  let got := (f.bytes.drop f.pos).take buf.length
  ({ f with pos := f.pos + got.length }, got ++ buf.drop got.length)

/-- The number in the `n` bytes from `off` on, of a file with the other byte order when
`isSwap` is set. -/
def field (isSwap : Bool) (buf : List Byte) (off n : Nat) : Nat :=
  let bs := (buf.drop off).take n
  leNat (if isSwap then bs.reverse else bs)

def mhCigam : BitVec 32 := 0xCEFAEDFE
def mhMagic64 : BitVec 32 := 0xFEEDFACF
def mhCigam64 : BitVec 32 := 0xCFFAEDFE
def fatMagic : BitVec 32 := 0xCAFEBABE
def fatCigam : BitVec 32 := 0xBEBAFECA
def lcSegment : BitVec 32 := 0x1
def lcSegment64 : BitVec 32 := 0x19
def lcMain : BitVec 32 := 0x80000028

/-- `magic₀` is what the local holds before the read. -/
def readMagic (f : ObjFile) (offset magic₀ : BitVec 32) : ObjFile × BitVec 32 :=
  let r := (f.fseek offset).fread (leBytes 4 magic₀.toNat)
  (r.1, BitVec.ofNat 32 (leNat r.2))

def isMagic64 (magic : BitVec 32) : Bool :=
  magic = mhMagic64 || magic = mhCigam64

def shouldSwapBytes (magic : BitVec 32) : Bool :=
  magic = mhCigam || magic = mhCigam64 || magic = fatCigam

def isFat (magic : BitVec 32) : Bool :=
  magic = fatMagic || magic = fatCigam

def loadBytes (f : ObjFile) (offset : BitVec 32) (size : Nat) : ObjFile × List Byte :=
  (f.fseek offset).fread (List.replicate size 0)

/-- `struct entry_point_command`. -/
structure EntryPointCommand where
  cmd : BitVec 32
  cmdsize : BitVec 32
  entryoff : U64
  stacksize : U64
deriving DecidableEq

/-- The bytes of a buffer taken for the structure, in the byte order of the machine. -/
def EntryPointCommand.ofBytes (buf : List Byte) : EntryPointCommand where
  cmd := BitVec.ofNat 32 (field false buf 0 4)
  cmdsize := BitVec.ofNat 32 (field false buf 4 4)
  entryoff := BitVec.ofNat 64 (field false buf 8 8)
  stacksize := BitVec.ofNat 64 (field false buf 16 8)

/-- The loop over `ncmds` load commands; segment commands are read as a whole to be
logged.  An LC_MAIN command is not swapped. -/
def readSegmentCommands (isSwap : Bool) :
    Nat → ObjFile → BitVec 32 → EntryPointCommand → Int × EntryPointCommand
  | 0, _, _, entryPoint => (1, entryPoint)
  | ncmds + 1, f, actualOffset, entryPoint =>
      let r := loadBytes f actualOffset 8
      let cmd := BitVec.ofNat 32 (field isSwap r.2 0 4)
      let next := actualOffset + BitVec.ofNat 32 (field isSwap r.2 4 4)
      if cmd = lcSegment64 then
        readSegmentCommands isSwap ncmds (loadBytes r.1 actualOffset 72).1 next entryPoint
      else if cmd = lcSegment then
        readSegmentCommands isSwap ncmds (loadBytes r.1 actualOffset 56).1 next entryPoint
      else if cmd = lcMain then
        (0, .ofBytes (loadBytes r.1 actualOffset 24).2)
      else readSegmentCommands isSwap ncmds r.1 next entryPoint

/-- The size of the header of a Mach-O file. -/
def headerSize (is64 : Bool) : BitVec 32 :=
  if is64 then 32 else 28

def readMachHeader (f : ObjFile) (offset : BitVec 32) (is64 isSwap : Bool)
    (entryPoint : EntryPointCommand) : Int × EntryPointCommand :=
  let r := loadBytes f offset (headerSize is64).toNat
  readSegmentCommands isSwap (field isSwap r.2 16 4) r.1 (offset + headerSize is64) entryPoint

def readEntryPointCmd (f : ObjFile) (magic₀ : BitVec 32) (entryPoint : EntryPointCommand) :
    Int × EntryPointCommand :=
  let r := readMagic f 0 magic₀
  if isFat r.2 then (1, entryPoint)
  else readMachHeader r.1 0 (isMagic64 r.2) (shouldSwapBytes r.2) entryPoint

/-! ## The load commands of a file -/

/-- The `n` bytes of a file from `off` on; behind its end there are zeros. -/
def bytesAt (bytes : List Byte) (off n : Nat) : List Byte :=
  (List.range n).map fun i => bytes.getD (off + i) 0

/-- A load command, by where it lies. -/
structure LoadCommand where
  offset : Nat
  cmd : BitVec 32
deriving DecidableEq

/-- The load commands from an offset on, each as far behind the last as that one says,
while the offset is one of a file. -/
def loadCommandsFrom (bytes : List Byte) (isSwap : Bool) : Nat → BitVec 32 → List LoadCommand
  | 0, _ => []
  | n + 1, off =>
      if off.toInt < 0 then []
      else
        ⟨off.toNat, BitVec.ofNat 32 (field isSwap (bytesAt bytes off.toNat 8) 0 4)⟩ ::
          loadCommandsFrom bytes isSwap n
            (off + BitVec.ofNat 32 (field isSwap (bytesAt bytes off.toNat 8) 4 4))

/-- The magic number of a file. -/
def fileMagic (bytes : List Byte) : BitVec 32 :=
  BitVec.ofNat 32 (field false (bytesAt bytes 0 4) 0 4)

/-- The load commands of a file; a fat file has none of its own. -/
def loadCommands (bytes : List Byte) : List LoadCommand :=
  let magic := fileMagic bytes
  if isFat magic then []
  else
    loadCommandsFrom bytes (shouldSwapBytes magic)
      (field (shouldSwapBytes magic) (bytesAt bytes 16 4) 0 4) (headerSize (isMagic64 magic))

/-- `off` is the `entryoff` of an LC_MAIN command of the file, in its byte order. -/
def IsEntryoff (bytes : List Byte) (off : U64) : Prop :=
  ∃ c ∈ loadCommands bytes, c.cmd = lcMain ∧
    off = BitVec.ofNat 64
      (field (shouldSwapBytes (fileMagic bytes)) (bytesAt bytes c.offset 24) 8 8)

/-! ## What the parser finds -/

theorem length_bytesAt (bytes : List Byte) (off n : Nat) : (bytesAt bytes off n).length = n := by
  simp [bytesAt]

/-- Bytes within bytes. -/
theorem bytesAt_bytesAt (bytes : List Byte) (off : Nat) {k n m : Nat} (h : k + n ≤ m) :
    ((bytesAt bytes off m).drop k).take n = bytesAt bytes (off + k) n := by
  apply List.ext_getElem
  · simp only [List.length_take, List.length_drop, length_bytesAt]
    omega
  · intro i _ _
    simp [bytesAt, Nat.add_assoc]

theorem field_bytesAt (isSwap : Bool) (bytes : List Byte) (off : Nat) {k n m : Nat}
    (h : k + n ≤ m) :
    field isSwap (bytesAt bytes off m) k n = field isSwap (bytesAt bytes (off + k) n) 0 n := by
  rw [field, field, bytesAt_bytesAt bytes off h, List.drop_zero,
    List.take_of_length_le (length_bytesAt _ _ _).le]

@[simp] theorem bytes_loadBytes (f : ObjFile) (offset : BitVec 32) (size : Nat) :
    (loadBytes f offset size).1.bytes = f.bytes := by
  simp only [loadBytes, ObjFile.fread, ObjFile.fseek]
  split_ifs <;> rfl

/-- What `load_bytes` returns for an offset of a file. -/
theorem loadBytes_of_nonneg (f : ObjFile) {offset : BitVec 32} (size : Nat)
    (h : ¬ offset.toInt < 0) :
    (loadBytes f offset size).2 = bytesAt f.bytes offset.toNat size := by
  simp only [loadBytes, ObjFile.fseek, if_neg h, ObjFile.fread, List.length_replicate]
  apply List.ext_getElem
  · simp only [List.length_append, List.length_take, List.length_drop, List.length_replicate,
      length_bytesAt]
    omega
  · intro i hi _
    rw [List.getElem_append]
    split_ifs with hlt
    · simp only [List.length_take, List.length_drop] at hlt
      simp [bytesAt, List.getElem?_eq_getElem (show offset.toNat + i < f.bytes.length by omega)]
    · simp only [List.length_take, List.length_drop] at hlt
      simp only [List.length_append, List.length_take, List.length_drop,
        List.length_replicate] at hi
      simp [bytesAt, List.getElem?_eq_none
        (show f.bytes.length ≤ offset.toNat + i by omega)]

/-- **The loop finds the first LC_MAIN command.** -/
theorem readSegmentCommands_of_find {isSwap : Bool} {n : Nat} {f : ObjFile}
    {off : BitVec 32} {c : LoadCommand} (entryPoint : EntryPointCommand)
    (h : (loadCommandsFrom f.bytes isSwap n off).find? (fun c => c.cmd = lcMain) = some c) :
    readSegmentCommands isSwap n f off entryPoint =
      (0, .ofBytes (bytesAt f.bytes c.offset 24)) := by
  induction n generalizing f off with
  | zero =>
      simp [loadCommandsFrom] at h
  | succ n ih =>
      rw [loadCommandsFrom] at h
      split_ifs at h with hneg
      · simp at h
      · rw [readSegmentCommands, loadBytes_of_nonneg f 8 hneg]
        by_cases hmain : BitVec.ofNat 32 (field isSwap (bytesAt f.bytes off.toNat 8) 0 4) =
            lcMain
        · -- it is this command
          rw [List.find?_cons_of_pos (by simp [hmain])] at h
          rw [hmain, if_neg (by decide), if_neg (by decide), if_pos rfl,
            loadBytes_of_nonneg _ 24 hneg, bytes_loadBytes, ← Option.some.inj h]
        · rw [List.find?_cons_of_neg (by simp [hmain])] at h
          rw [if_neg hmain]
          generalize off + BitVec.ofNat 32 _ = next at h ⊢
          have hstep : ∀ g : ObjFile, g.bytes = f.bytes →
              readSegmentCommands isSwap n g next entryPoint =
                (0, .ofBytes (bytesAt f.bytes c.offset 24)) := by
            intro g hg
            rw [← hg] at h ⊢
            exact ih h
          split_ifs
          · exact hstep _ (by simp)
          · exact hstep _ (by simp)
          · exact hstep _ (by simp)

/-- The first LC_MAIN command of a file. -/
def firstMain (bytes : List Byte) : Option LoadCommand :=
  (loadCommands bytes).find? (fun c => c.cmd = lcMain)

/-- Behind the end of a file there are zeros. -/
theorem bytesAt_of_length_le {bytes : List Byte} {off : Nat} (n : Nat)
    (h : bytes.length ≤ off) :
    bytesAt bytes off n = List.replicate n 0 := by
  apply List.ext_getElem
  · rw [length_bytesAt, List.length_replicate]
  · intro i _ _
    simp [bytesAt, List.getElem?_eq_none (show bytes.length ≤ off + i by omega)]

/-- A file that ends before the number of its commands has none. -/
theorem length_of_firstMain {bytes : List Byte} {c : LoadCommand}
    (h : firstMain bytes = some c) :
    16 < bytes.length := by
  by_contra hcon
  push Not at hcon
  have hzero : ∀ isSwap, field isSwap (bytesAt bytes 16 4) 0 4 = 0 := by
    intro isSwap
    rw [bytesAt_of_length_le 4 hcon]
    cases isSwap <;> rfl
  simp [firstMain, loadCommands, hzero, loadCommandsFrom] at h

/-- The magic number that the parser reads. -/
theorem readMagic_eq {bytes : List Byte} (magic₀ : BitVec 32) (h : 4 ≤ bytes.length) :
    (readMagic ⟨bytes, 0⟩ 0 magic₀).1.bytes = bytes ∧
      (readMagic ⟨bytes, 0⟩ 0 magic₀).2 = fileMagic bytes := by
  refine ⟨rfl, ?_⟩
  have hbuf : (bytes.take 4 ++ (leBytes 4 magic₀.toNat).drop (bytes.take 4).length) =
      bytesAt bytes 0 4 := by
    have hlen : (bytes.take 4).length = 4 := by
      rw [List.length_take]
      omega
    rw [hlen, List.drop_of_length_le (length_leBytes _ _).le, List.append_nil]
    apply List.ext_getElem
    · rw [hlen, length_bytesAt]
    · intro i hi _
      rw [hlen] at hi
      simp [bytesAt, List.getElem?_eq_getElem (show i < bytes.length by omega)]
  have hread : (readMagic ⟨bytes, 0⟩ 0 magic₀).2 = BitVec.ofNat 32 (leNat
      (bytes.take 4 ++ (leBytes 4 magic₀.toNat).drop (bytes.take 4).length)) := by
    simp [readMagic, ObjFile.fseek, ObjFile.fread]
  rw [hread, hbuf, fileMagic, field, List.drop_zero,
    List.take_of_length_le (length_bytesAt _ _ _).le]
  rfl

/-- **The parser finds the first LC_MAIN command of a file**, and takes its bytes as they
are. -/
theorem readEntryPointCmd_of_firstMain {bytes : List Byte} {c : LoadCommand}
    (magic₀ : BitVec 32) (entryPoint : EntryPointCommand) (h : firstMain bytes = some c) :
    readEntryPointCmd ⟨bytes, 0⟩ magic₀ entryPoint =
      (0, .ofBytes (bytesAt bytes c.offset 24)) := by
  have hlen := length_of_firstMain h
  obtain ⟨hbytes, hmagic⟩ := readMagic_eq magic₀ (show 4 ≤ bytes.length by omega)
  rw [firstMain, loadCommands] at h
  split_ifs at h with hfat
  · simp at h
  · have hsize : 16 + 4 ≤ (headerSize (isMagic64 (fileMagic bytes))).toNat := by
      cases isMagic64 (fileMagic bytes) with
      | false =>
          decide
      | true =>
          decide
    have hzero : ¬ (0 : BitVec 32).toInt < 0 := by
      decide
    have hstart : 0 + headerSize (isMagic64 (fileMagic bytes)) =
        headerSize (isMagic64 (fileMagic bytes)) := BitVec.zero_add _
    have hfile : (loadBytes (readMagic ⟨bytes, 0⟩ 0 magic₀).1 0
        (headerSize (isMagic64 (fileMagic bytes))).toNat).1.bytes = bytes := by
      rw [bytes_loadBytes, hbytes]
    rw [readEntryPointCmd, hmagic, if_neg hfat, readMachHeader,
      loadBytes_of_nonneg _ _ hzero, hbytes, field_bytesAt _ _ _ hsize, hstart]
    rw [← hfile] at h
    have hfound := readSegmentCommands_of_find entryPoint h
    rw [hfile] at hfound
    exact hfound

/-! ## load_mach_obj -/

/-- `MAP_FAILED`. -/
def mapFailed : U64 := 0xFFFFFFFFFFFFFFFF

/-- The file of the executable, and what the locals of the parser hold before they are
set. -/
structure AppFile where
  bytes : List Byte
  magic₀ : BitVec 32
  entryPoint₀ : EntryPointCommand

/-- What `read_entry_point_cmd` finds in the file. -/
def AppFile.entryPoint (file : AppFile) : Option U64 :=
  let r := readEntryPointCmd ⟨file.bytes, 0⟩ file.magic₀ file.entryPoint₀
  if r.1 = 0 then some r.2.entryoff else none

/-- The answers of the host when the executable is this file. -/
def LoadMachObjEnv.withFile (e : LoadMachObjEnv) (file : AppFile) : LoadMachObjEnv :=
  { e with entryPoint := file.entryPoint }

/-- `load_mach_obj` does not get the file mapped. -/
def MappingFails (σ : VmMem) (path : Option String) (e : LoadMachObjEnv) : Prop :=
  path = none ∨ e.fopen = false ∨ e.mmap = 0 ∨
    (mapGpa σ imageAddr (numPages e.stSize) e.mmap e.mapGpa).1 ≠ 0 ∨
    (mapGva (mapGpa σ imageAddr (numPages e.stSize) e.mmap e.mapGpa).2 imageAddr
      (numPages e.stSize) imageAddr e.mapGva).1 ≠ 0

/-- What success of `load_mach_obj` stands for: `*entryoff` is that of an LC_MAIN command
of the file, whatever it was before, and the file is mapped where it is registered. -/
structure EntryAssigned (σ : VmMem) (path : Option String) (entryoff₀ : U64)
    (e : LoadMachObjEnv) (bytes : List Byte) : Prop where
  assigned : ∀ x, (loadMachObj σ path x e).entryoff = (loadMachObj σ path entryoff₀ e).entryoff
  entry : ∃ off, IsEntryoff bytes off ∧
    (loadMachObj σ path entryoff₀ e).entryoff = imageAddr + off
  region : e.region ∈ (loadMachObj σ path entryoff₀ e).vm.memRegions
  mmap : e.mmap ≠ mapFailed

/-- The first LC_MAIN command of the file reads the same in the byte order of the machine
as an LC_MAIN command does in that of the file. -/
def NativeEntry (bytes : List Byte) : Prop :=
  ∃ c, firstMain bytes = some c ∧
    (shouldSwapBytes (fileMagic bytes) = false ∨
      IsEntryoff bytes (EntryPointCommand.ofBytes (bytesAt bytes c.offset 24)).entryoff)

section LoadMachObj

variable {σ : VmMem} {path : Option String} {e : LoadMachObjEnv} {entryoff₀ : U64}

/-- `load_mach_obj` succeeds exactly when it gets the file mapped. -/
theorem loadMachObj_code_eq_zero_iff (entryoff₀ : U64) :
    (loadMachObj σ path entryoff₀ e).code = 0 ↔ ¬ MappingFails σ path e := by
  simp only [loadMachObj, MappingFails]
  split_ifs with hpath hopen hmmap hgpa hgva
  · simp [hpath]
  · simp [hopen]
  · simp [hmmap]
  · simp [hgpa]
  · simp [hgva]
  · refine iff_of_true rfl ?_
    simp only [not_or, ne_eq]
    exact ⟨hpath, hopen, hmmap, hgpa, hgva⟩

/-- The entry point is set before the file is mapped. -/
theorem entryoff_of_not_mappingFails (h : ¬ MappingFails σ path e) (entryoff₀ : U64) :
    (loadMachObj σ path entryoff₀ e).entryoff =
      (e.entryPoint.map (fun off => off + imageAddr)).getD entryoff₀ := by
  simp only [MappingFails, not_or] at h
  obtain ⟨hpath, hopen, hmmap, hgpa, hgva⟩ := h
  simp only [loadMachObj, if_neg hpath, if_neg hopen, if_neg hmmap, if_neg hgpa, if_neg hgva]

/-- What is registered when it succeeds. -/
theorem region_mem_loadMachObj (hcode : (loadMachObj σ path entryoff₀ e).code = 0) :
    e.region ∈ (loadMachObj σ path entryoff₀ e).vm.memRegions := by
  obtain ⟨hrun, hmem⟩ := loadMachObj_eq_run hcode
  rw [newRegion_image] at hmem
  rw [hrun]
  exact (sublist_mapGva _ _ _ _ _).subset hmem

end LoadMachObj

section Entry

variable {bytes : List Byte}

/-- A file with an entry point has a first LC_MAIN command. -/
theorem IsEntryoff.firstMain {off : U64} (h : IsEntryoff bytes off) :
    ∃ c, firstMain bytes = some c := by
  obtain ⟨c, hc, hmain, _⟩ := h
  rw [← Option.isSome_iff_exists, Hvexec.firstMain, List.find?_isSome]
  exact ⟨c, hc, by simp [hmain]⟩

theorem not_isEntryoff_of_fat (h : isFat (fileMagic bytes) = true) (off : U64) :
    ¬ IsEntryoff bytes off := by
  rintro ⟨c, hc, _⟩
  simp [loadCommands, h] at hc

/-- What the parser takes is an entry point of the file, when the byte orders agree. -/
theorem NativeEntry.isEntryoff {c : LoadCommand} (h : NativeEntry bytes)
    (hc : Hvexec.firstMain bytes = some c) :
    IsEntryoff bytes (EntryPointCommand.ofBytes (bytesAt bytes c.offset 24)).entryoff := by
  obtain ⟨c', hc', hswap | hentry⟩ := h
  · obtain rfl : c = c' := Option.some.inj (hc.symm.trans hc')
    refine ⟨c, List.mem_of_find?_eq_some hc, ?_, ?_⟩
    · simpa using List.find?_some hc
    · rw [hswap]
      rfl
  · obtain rfl : c = c' := Option.some.inj (hc.symm.trans hc')
    exact hentry

end Entry

/-- A file of five zeros: no magic number, no command. -/
def emptyFile : AppFile where
  bytes := List.replicate 5 0
  magic₀ := 0
  entryPoint₀ := ⟨0, 0, 0, 0⟩

end Hvexec
