import Mathlib.Tactic

/-!
# Segment descriptors

The descriptor of a segment has eight bytes, over which its base address and its limit are
scattered.  `Descriptor` has the four fields in one piece each, and `ofBytes` reads them
back from the eight bytes.
-/

namespace Hvexec

/-- The four fields.  `access` holds the type, the descriptor type, the privilege level and
the present bit; `flags` holds the available bit, L, D and G. -/
@[ext] structure Descriptor where
  base : BitVec 32
  limit : BitVec 20
  access : BitVec 8
  flags : BitVec 4
deriving DecidableEq

namespace Descriptor

/-- The eight bytes, the lowest first. -/
def bytes (d : Descriptor) : List (BitVec 8) :=
  [d.limit.extractLsb' 0 8, d.limit.extractLsb' 8 8,
    d.base.extractLsb' 0 8, d.base.extractLsb' 8 8, d.base.extractLsb' 16 8,
    d.access, d.flags ++ d.limit.extractLsb' 16 4, d.base.extractLsb' 24 8]

/-- The fields of eight bytes; bytes that are missing read as zero. -/
def ofBytes (bs : List (BitVec 8)) : Descriptor where
  base := bs.getD 7 0 ++ bs.getD 4 0 ++ bs.getD 3 0 ++ bs.getD 2 0
  limit := (bs.getD 6 0).extractLsb' 0 4 ++ bs.getD 1 0 ++ bs.getD 0 0
  access := bs.getD 5 0
  flags := (bs.getD 6 0).extractLsb' 4 4

/-- The access rights in the format of the VMCS. -/
def accessRights (d : Descriptor) : BitVec 16 :=
  d.flags ++ (0 : BitVec 4) ++ d.access

/-- The last offset of the segment: with G set the limit counts pages. -/
def lastOffset (d : Descriptor) : BitVec 32 :=
  if d.flags[3] then d.limit ++ (0xFFF : BitVec 12) else d.limit.setWidth 32

/-- P. -/
def present (d : Descriptor) : Bool :=
  d.access[7]

/-- S: a code or data segment. -/
def codeOrData (d : Descriptor) : Bool :=
  d.access[4]

/-- A code segment, among the code and data segments. -/
def code (d : Descriptor) : Bool :=
  d.access[3]

/-- A writable data segment, or a readable code segment. -/
def permits (d : Descriptor) : Bool :=
  d.access[1]

/-- The bit by which the processor marks a code or data segment that was loaded. -/
def accessed (d : Descriptor) : Bool :=
  d.access[0]

/-- The privilege level. -/
def dpl (d : Descriptor) : BitVec 2 :=
  d.access.extractLsb' 5 2

/-- The type of a system segment. -/
def type (d : Descriptor) : BitVec 4 :=
  d.access.extractLsb' 0 4

/-- **The fields are read back.** -/
theorem ofBytes_bytes (d : Descriptor) : ofBytes d.bytes = d := by
  have hbase : (ofBytes d.bytes).base = d.base := by
    show d.base.extractLsb' 24 8 ++ d.base.extractLsb' 16 8 ++ d.base.extractLsb' 8 8 ++
      d.base.extractLsb' 0 8 = d.base
    rw [BitVec.extractLsb'_append_extractLsb'_eq_extractLsb' (show 24 = 16 + 8 from rfl),
      BitVec.extractLsb'_append_extractLsb'_eq_extractLsb' (show 16 = 8 + 8 from rfl),
      BitVec.extractLsb'_append_extractLsb'_eq_extractLsb' (show 8 = 0 + 8 from rfl)]
    exact BitVec.extractLsb'_eq_self
  have hlimit : (ofBytes d.bytes).limit = d.limit := by
    show (d.flags ++ d.limit.extractLsb' 16 4).extractLsb' 0 4 ++ d.limit.extractLsb' 8 8 ++
      d.limit.extractLsb' 0 8 = d.limit
    rw [BitVec.extractLsb'_append_eq_right,
      BitVec.extractLsb'_append_extractLsb'_eq_extractLsb' (show 16 = 8 + 8 from rfl),
      BitVec.extractLsb'_append_extractLsb'_eq_extractLsb' (show 8 = 0 + 8 from rfl)]
    exact BitVec.extractLsb'_eq_self
  have hflags : (ofBytes d.bytes).flags = d.flags :=
    BitVec.extractLsb'_append_eq_left
  exact Descriptor.ext hbase hlimit rfl hflags

end Descriptor
end Hvexec
