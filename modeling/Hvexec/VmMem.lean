import Hvexec.Lib.ByteMemory
import Hvexec.Lib.BitField

/-!
# Guest memory: the model of vm_mem.c

The memory of the virtual machine is a list of regions, sorted by guest-physical
address, each backed by a block of host memory, together with page tables that
the program builds inside that memory.

What the host is asked for is answered by the host: `HostAnswer` holds one
answer of `valloc`, `hv_vm_map` and `malloc`, and `MapGvaEnv` the answers to the
allocations inside one call of `mapGva`.  A pointer is a 64-bit number and NULL
is zero.  A local that the C code leaves unassigned is a parameter (`entry₀`,
`LoopLocals`), so that nothing is assumed about what it holds.

A function that returns `int` returns its code together with the state after it.
`ELOG` and `DLOG` have no effect on the state and are left out, as is
`vm_mem_dump`.
-/

namespace Hvexec

open ByteMemory

/-- `uint64_t`, `size_t` and pointers. -/
abbrev U64 := BitVec 64

/-- `uint8_t`. -/
abbrev Byte := BitVec 8

/-- `CONF_PAGE_SIZE`. -/
def confPageSize : U64 := 0x1000

/-- The mask that rounds an address down to its page. -/
def pageMask : U64 := 0xFFFFFFFFFFFFF000

/-- The mask that `gva_to_gpa` applies to an entry. -/
def entryMask : U64 := 0xFFFFFFFFFF000

/-- `struct virtual_address`. -/
structure VirtualAddress where
  pml4Idx : BitVec 16
  pdptIdx : BitVec 16
  pdIdx : BitVec 16
  ptIdx : BitVec 16
  offset : BitVec 16
deriving DecidableEq

/-- `struct mem_region`; the `next` pointers are the order of a list. -/
structure MemRegion where
  gpa : U64
  npages : U64
  hva : U64
deriving DecidableEq

/-- A range that the hypervisor maps. -/
structure HvMapping where
  gpa : U64
  size : U64
  uva : U64
deriving DecidableEq

/-- What the host answers when memory is asked for: the pointer that `valloc`
returns, and whether `hv_vm_map` and `malloc` succeed. -/
structure HostAnswer where
  valloc : U64
  hvVmMap : Bool
  malloc : Bool

/-- The state of vm_mem.c, with the mappings that the hypervisor holds, the
blocks of `valloc` not freed yet, and the bytes of host memory. -/
structure VmMem where
  memRegions : List MemRegion
  pml4 : U64
  pml4Gpa : U64
  hvMaps : List HvMapping
  heap : List U64
  mem : U64 → Byte

/-- The globals as the program starts. -/
def VmMem.init (mem : U64 → Byte) : VmMem where
  memRegions := []
  pml4 := 0
  pml4Gpa := 0
  hvMaps := []
  heap := []
  mem := mem

/-- The guest-physical address just after a region. -/
def MemRegion.stop (p : MemRegion) : U64 :=
  p.gpa + p.npages * confPageSize

/-! ## Regions -/

/-- The walk of `find_free_mem_region`, from the running start address. -/
def findFreeLoop (npages : U64) : U64 → List MemRegion → U64
  | start, [] => start
  | start, p :: ps =>
      if npages * confPageSize ≤ p.gpa - start then start
      else findFreeLoop npages p.stop ps

def findFreeMemRegion (memRegions : List MemRegion) (npages : U64) : Option U64 :=
  if npages < 1 then none
  else some (findFreeLoop npages 0 memRegions)

def decodeGva (gva : U64) : VirtualAddress where
  offset := (gva &&& 0xFFF).setWidth 16
  ptIdx := (((gva >>> 12) &&& 0x1FF) * 8).setWidth 16
  pdIdx := (((gva >>> 21) &&& 0x1FF) * 8).setWidth 16
  pdptIdx := (((gva >>> 30) &&& 0x1FF) * 8).setWidth 16
  pml4Idx := (((gva >>> 39) &&& 0x1FF) * 8).setWidth 16

/-- A successful `hv_vm_map`. -/
def hvVmMap (σ : VmMem) (uva gpa size : U64) : VmMem :=
  { σ with hvMaps := ⟨gpa, size, uva⟩ :: σ.hvMaps }

/-- `hv_vm_unmap` undoes the latest `hv_vm_map` of the range. -/
def hvVmUnmap (σ : VmMem) (gpa size : U64) : VmMem :=
  { σ with hvMaps := σ.hvMaps.eraseP (fun m => m.gpa = gpa ∧ m.size = size) }

def mapGpa (σ : VmMem) (gpa npages hva : U64) (a : HostAnswer) : Int × VmMem :=
  if npages < 1 then (-1, σ)
  else
    let gpa := gpa &&& pageMask
    -- the regions that the walk of `p` passes, and those from `*p` on
    let passed := σ.memRegions.takeWhile (fun p => decide (p.stop ≤ gpa))
    let next := σ.memRegions.dropWhile (fun p => decide (p.stop ≤ gpa))
    if next.head?.all (fun p => decide (gpa + npages * confPageSize ≤ p.gpa)) then
      if a.hvVmMap then
        let mapped := hvVmMap σ hva gpa (npages * confPageSize)
        if a.malloc then
          (0, { mapped with memRegions := passed ++ ⟨gpa, npages, hva⟩ :: next })
        else (-1, hvVmUnmap mapped gpa (npages * confPageSize))
      else (-1, σ)
    else (-1, σ)

/-- What `vm_mem_alloc` returns, and `*gpa` and the state after it. -/
structure VmMemAlloc where
  hva : U64
  gpa : U64
  vm : VmMem

/-- `gpa₀` is what `*gpa` holds before the call. -/
def vmMemAlloc (σ : VmMem) (npages gpa₀ : U64) (a : HostAnswer) : VmMemAlloc :=
  match findFreeMemRegion σ.memRegions npages with
  | none => ⟨0, gpa₀, σ⟩
  | some freeGpa =>
      if a.valloc = 0 then ⟨0, gpa₀, σ⟩
      else
        let r := mapGpa { σ with heap := a.valloc :: σ.heap } freeGpa npages a.valloc a
        if r.1 ≠ 0 then
          ⟨0, gpa₀, { r.2 with heap := r.2.heap.erase a.valloc }⟩
        else ⟨a.valloc, freeGpa, r.2⟩

/-- The host address of a guest-physical one, NULL when no region covers it. -/
def gpaToHva : List MemRegion → U64 → U64
  | [], _ => 0
  | p :: ps, gpa =>
      if p.gpa ≤ gpa then
        if gpa < p.stop then p.hva + (gpa - p.gpa) else gpaToHva ps gpa
      else 0

/-! ## Reading and writing guest-physical memory -/

/-- `buf` is the buffer before the call; the count and the buffer after it are
returned. -/
def vmMemRead (σ : VmMem) : U64 → List Byte → Nat × List Byte
  | _, [] => (0, [])
  | gpa, b :: buf =>
      let hva := gpaToHva σ.memRegions gpa
      if hva = 0 then (0, b :: buf)
      else
        let r := vmMemRead σ (gpa + 1) buf
        (r.1 + 1, σ.mem hva :: r.2)

def vmMemWrite (σ : VmMem) : U64 → List Byte → Nat × VmMem
  | _, [] => (0, σ)
  | gpa, b :: buf =>
      let hva := gpaToHva σ.memRegions gpa
      if hva = 0 then (0, σ)
      else
        let r := vmMemWrite { σ with mem := Function.update σ.mem hva b } (gpa + 1) buf
        (r.1 + 1, r.2)

/-- `vm_mem_read` into a `uint64_t` that holds `old`. -/
def readU64 (σ : VmMem) (gpa old : U64) : U64 :=
  BitVec.ofNat 64 (leNat (vmMemRead σ gpa (leBytes 8 old.toNat)).2)

/-- `vm_mem_write` of a `uint64_t`. -/
def writeU64 (σ : VmMem) (gpa v : U64) : VmMem :=
  (vmMemWrite σ gpa (leBytes 8 v.toNat)).2

/-! ## Page tables -/

/-- `PRESENT`, bit 0 of an entry. -/
def present : U64 := 0x1

/-- `WRITE`, bit 1 of an entry. -/
def writable : U64 := 0x2

/-- What the locals of one iteration of `map_gva` hold before they are set. -/
structure LoopLocals where
  pml4e : U64
  pdptGpa : U64
  pdpte : U64
  pdGpa : U64
  pde : U64
  ptGpa : U64

/-- The answers to the allocations inside a call of `map_gva`, in order, and the
unassigned locals of its iterations. -/
structure MapGvaEnv where
  answers : Nat → HostAnswer
  locals : Nat → LoopLocals

/-- After one level of `map_gva`: the address of the next table, the state, and
the number of allocations made so far. -/
structure MapGvaLevel where
  next : U64
  vm : VmMem
  used : Nat

/-- The block that `map_gva` repeats for the PML4, the PDPT and the PD: read the
entry in `slot`, allocate the next table when it is zero, write it back. -/
def mapGvaLevel
    (answers : Nat → HostAnswer)
    (σ : VmMem) (used : Nat)
    (slot entry₀ next₀ : U64) :
    MapGvaLevel :=
  let entry := readU64 σ slot entry₀
  let r : MapGvaLevel :=
    if entry = 0 then
      let alloc := vmMemAlloc σ 1 next₀ (answers used)
      ⟨alloc.gpa, alloc.vm, used + 1⟩
    else ⟨entry &&& pageMask, σ, used⟩
  { r with vm := writeU64 r.vm slot (present ||| writable ||| r.next) }

/-- One iteration of the loop of `map_gva`. -/
def mapGvaPage
    (answers : Nat → HostAnswer) (locals : LoopLocals)
    (σ : VmMem) (used : Nat) (gva gpa : U64) :
    VmMem × Nat :=
  let vaddr := decodeGva gva
  let pdpt := mapGvaLevel answers σ used
    (σ.pml4Gpa + vaddr.pml4Idx.setWidth 64) locals.pml4e locals.pdptGpa
  let pd := mapGvaLevel answers pdpt.vm pdpt.used
    (pdpt.next + vaddr.pdptIdx.setWidth 64) locals.pdpte locals.pdGpa
  let pt := mapGvaLevel answers pd.vm pd.used
    (pd.next + vaddr.pdIdx.setWidth 64) locals.pde locals.ptGpa
  let pte := present ||| writable ||| (gpa &&& pageMask)
  (writeU64 pt.vm (pt.next + vaddr.ptIdx.setWidth 64) pte, pt.used)

/-- The loop of `map_gva`; `k` numbers its iterations. -/
def mapGvaLoop (env : MapGvaEnv) :
    Nat → Nat → VmMem → Nat → U64 → U64 → VmMem
  | 0, _, σ, _, _, _ => σ
  | npages + 1, k, σ, used, gva, gpa =>
      let r := mapGvaPage env.answers (env.locals k) σ used gva gpa
      mapGvaLoop env npages (k + 1) r.1 r.2 (gva + confPageSize) (gpa + confPageSize)

def mapGva (σ : VmMem) (gva npages gpa : U64) (env : MapGvaEnv) : Int × VmMem :=
  let gva := gva &&& pageMask
  let gpa := gpa &&& pageMask
  if σ.pml4 = 0 then
    let alloc := vmMemAlloc σ 1 σ.pml4Gpa (env.answers 0)
    let σ' := { alloc.vm with pml4 := alloc.hva, pml4Gpa := alloc.gpa }
    if alloc.hva = 0 then (-1, σ')
    else (0, mapGvaLoop env npages.toNat 0 σ' 1 gva gpa)
  else (0, mapGvaLoop env npages.toNat 0 σ 0 gva gpa)

/-- `entry₀` is what the local `entry` holds before the first read. -/
def gvaToGpa (σ : VmMem) (entry₀ gva : U64) : U64 :=
  let vaddr := decodeGva gva
  let pml4e := readU64 σ (σ.pml4Gpa + vaddr.pml4Idx.setWidth 64) entry₀
  let pdpte := readU64 σ ((pml4e &&& entryMask) + vaddr.pdptIdx.setWidth 64) pml4e
  let pde := readU64 σ ((pdpte &&& entryMask) + vaddr.pdIdx.setWidth 64) pdpte
  let pte := readU64 σ ((pde &&& entryMask) + vaddr.ptIdx.setWidth 64) pde
  (pte &&& entryMask) ||| vaddr.offset.setWidth 64

/-- The loop of `vm_mem_verify`; `entry₀ n` is the unassigned local of the call
of `gva_to_gpa` made with `n` bytes left. -/
def vmMemVerifyLoop (σ : VmMem) (entry₀ : Nat → U64) : Nat → U64 → Int
  | 0, _ => 0
  | n + 1, gva =>
      if gpaToHva σ.memRegions (gvaToGpa σ (entry₀ (n + 1)) gva) = 0 then -1
      else vmMemVerifyLoop σ entry₀ n (gva + 1)

def vmMemVerify (σ : VmMem) (entry₀ : Nat → U64) (gva nbytes : U64) : Int :=
  vmMemVerifyLoop σ entry₀ nbytes.toNat gva

/-- `gpa₀` is what the local `gpa` holds before it is set, `a` the answer to the
allocation of the initial region. -/
def vmMemInit
    (σ : VmMem) (numPages : BitVec 32) (gpa₀ : U64)
    (a : HostAnswer) (env : MapGvaEnv) :
    Int × VmMem :=
  let alloc := vmMemAlloc σ (numPages.setWidth 64) gpa₀ a
  if alloc.hva = 0 then (-1, alloc.vm)
  else if alloc.gpa ≠ 0 then (-1, alloc.vm)
  else
    let r := mapGva alloc.vm 0 (numPages.setWidth 64) alloc.gpa env
    if r.1 ≠ 0 then (-1, r.2) else (0, r.2)

end Hvexec
