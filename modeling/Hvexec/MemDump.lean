import Hvexec.FirstFit

/-!
# The dump of guest memory

`vm_mem_dump` logs one line for each region and one for each gap before a region.  The lines
tell the list: the regions can be read off them, and so can the address that
`find_free_mem_region` answers.
-/

namespace Hvexec

open IntervalList

/-- The values of a line of the dump; `last` is the last address of the range. -/
structure DumpLine where
  first : U64
  last : U64
  pages : U64
  used : Bool
deriving DecidableEq

/-- A line of the log, for the range from `start` to `stop`. -/
def dumpLine (start stop : U64) (used : Bool) : DumpLine :=
  ⟨start, stop - 1, (stop - start) / confPageSize, used⟩

/-- The loop of `vm_mem_dump`, from the running start address. -/
def vmMemDumpLoop : U64 → List MemRegion → List DumpLine
  | _, [] => []
  | start, p :: ps =>
      (if start < p.gpa then [dumpLine start p.gpa false] else []) ++
        dumpLine p.gpa p.stop true :: vmMemDumpLoop p.stop ps

def vmMemDump (memRegions : List MemRegion) : List DumpLine :=
  vmMemDumpLoop 0 memRegions

namespace DumpLine

/-- The address is in the range of the line. -/
def Has (line : DumpLine) (x : U64) : Prop :=
  line.first ≤ x ∧ x ≤ line.last

/-- The range of a line. -/
def piece (line : DumpLine) : Piece :=
  ⟨line.first.toNat, line.last.toNat + 1, line.used⟩

/-- The range is one of whole pages. -/
def Exact (line : DumpLine) : Prop :=
  line.last.toNat + 1 = line.first.toNat + line.pages.toNat * 4096

end DumpLine

section Lines

variable {l : List MemRegion}

/-- A line for a range of whole pages. -/
theorem dumpLine_spec {start stop : U64} (hlt : start.toNat < stop.toNat)
    (hstart : start.toNat % 4096 = 0) (hstop : stop.toNat % 4096 = 0) (used : Bool) :
    (dumpLine start stop used).piece = ⟨start.toNat, stop.toNat, used⟩ ∧
      (dumpLine start stop used).Exact := by
  have hlast : (stop - 1).toNat = stop.toNat - 1 := by
    bv_omega
  have hsize : (stop - start).toNat = stop.toNat - start.toNat := by
    bv_omega
  have hpage : confPageSize.toNat = 4096 := rfl
  constructor
  · rw [DumpLine.piece, dumpLine, hlast]
    congr 1
    omega
  · rw [DumpLine.Exact, dumpLine, hlast, BitVec.toNat_udiv, hsize, hpage]
    dsimp only
    omega

/-- **The lines are the pieces of the list.** -/
theorem RegionsOk.dump_spec (hok : RegionsOk l) {start : U64}
    (hstart : ∀ p ∈ l, start.toNat ≤ p.lo) (haligned : start.toNat % 4096 = 0) :
    (vmMemDumpLoop start l).map DumpLine.piece =
        pieces MemRegion.lo MemRegion.hi start.toNat l ∧
      ∀ line ∈ vmMemDumpLoop start l, line.Exact := by
  induction l generalizing start with
  | nil =>
      exact ⟨rfl, by simp [vmMemDumpLoop]⟩
  | cons p ps ih =>
      have hlo_aligned : p.gpa.toNat % 4096 = 0 := hok.aligned p List.mem_cons_self
      have hstop : p.stop.toNat = p.hi :=
        MemRegion.toNat_stop (hok.below p List.mem_cons_self)
      have hproper : p.gpa.toNat < p.hi := hok.laid.proper p List.mem_cons_self
      have hhi_aligned : p.hi % 4096 = 0 := by
        unfold MemRegion.hi
        omega
      have hnext : ∀ s ∈ ps, p.hi ≤ s.lo := (List.pairwise_cons.mp hok.laid.sorted).1
      have hstop_aligned : p.stop.toNat % 4096 = 0 := by
        rw [hstop]
        exact hhi_aligned
      have hlater : ∀ s ∈ ps, p.stop.toNat ≤ s.lo := by
        rw [hstop]
        exact hnext
      have hlt_stop : p.gpa.toNat < p.stop.toNat := by
        rw [hstop]
        exact hproper
      obtain ⟨hrest, hexact⟩ :=
        ih (hok.sublist (List.sublist_cons_self p ps)) hlater hstop_aligned
      obtain ⟨hused, hused_exact⟩ := dumpLine_spec hlt_stop hlo_aligned hstop_aligned true
      rw [hstop] at hrest hused
      have hlt : start < p.gpa ↔ start.toNat < p.lo := BitVec.lt_def
      rw [vmMemDumpLoop, pieces]
      by_cases hgap : start < p.gpa
      · obtain ⟨hfree, hfree_exact⟩ := dumpLine_spec (hlt.mp hgap) haligned hlo_aligned false
        rw [if_pos hgap, if_pos (hlt.mp hgap)]
        refine ⟨?_, ?_⟩
        · rw [List.map_append, List.map_singleton, List.map_cons, hfree, hused, hrest]
          rfl
        · intro line hline
          rw [List.singleton_append, List.mem_cons, List.mem_cons] at hline
          rcases hline with rfl | rfl | hline
          · exact hfree_exact
          · exact hused_exact
          · exact hexact line hline
      · rw [if_neg hgap, if_neg fun hcon => hgap (hlt.mpr hcon)]
        refine ⟨?_, ?_⟩
        · rw [List.nil_append, List.nil_append, List.map_cons, hused, hrest]
          rfl
        · intro line hline
          rw [List.nil_append, List.mem_cons] at hline
          rcases hline with rfl | hline
          · exact hused_exact
          · exact hexact line hline

/-- The address that the lines show for `npages` pages: the first free line that has as many,
and what follows the last line if there is none. -/
def dumpSearch (lines : List DumpLine) (npages : U64) : U64 :=
  ((lines.find? fun line => !line.used && decide (npages ≤ line.pages)).map DumpLine.first).getD
    ((lines.getLast?.map fun line => line.last + 1).getD 0)

/-- What the dump tells of the list. -/
structure DumpTells (l : List MemRegion) (lines : List DumpLine) : Prop where
  pages : ∀ line ∈ lines, line.Exact
  regions : (lines.filter DumpLine.used).map (fun line => (line.first, line.pages)) =
    l.map fun p => (p.gpa, p.npages)
  used : ∀ x, InRegion l x ↔ ∃ line ∈ lines, line.used = true ∧ line.Has x
  tiles : ∀ x : U64, (∃! line, line ∈ lines ∧ line.Has x) ↔ ∃ p ∈ l, x.toNat < p.hi
  maximal : lines.IsChain fun line line' => line.used = true ∨ line'.used = true
  search : ∀ npages : U64, 1 ≤ npages.toNat → npages.toNat * 4096 < 2 ^ 64 →
    findFreeMemRegion l npages = some (dumpSearch lines npages)

theorem DumpLine.has_iff (line : DumpLine) (x : U64) :
    line.Has x ↔ line.piece.first ≤ x.toNat ∧ x.toNat < line.piece.stop := by
  rw [DumpLine.Has, BitVec.le_def, BitVec.le_def, DumpLine.piece, Nat.lt_succ_iff]

/-- The values of an exact line, out of its range. -/
theorem DumpLine.Exact.values_eq {line : DumpLine} (h : line.Exact) :
    line = ⟨BitVec.ofNat 64 line.piece.first, BitVec.ofNat 64 (line.piece.stop - 1),
      BitVec.ofNat 64 ((line.piece.stop - line.piece.first) / 4096), line.piece.used⟩ := by
  have hpages : (line.piece.stop - line.piece.first) / 4096 = line.pages.toNat := by
    rw [DumpLine.Exact] at h
    rw [DumpLine.piece, h]
    dsimp only
    omega
  rw [hpages, DumpLine.piece, Nat.add_sub_cancel, BitVec.ofNat_toNat, BitVec.ofNat_toNat,
    BitVec.ofNat_toNat, BitVec.setWidth_eq, BitVec.setWidth_eq, BitVec.setWidth_eq]

/-- The end of the last region. -/
theorem RegionsOk.lt_finish_iff (hok : RegionsOk l) (x : Nat) :
    x < finish MemRegion.hi 0 l ↔ ∃ p ∈ l, x < p.hi := by
  constructor
  · intro hx
    rcases finish_eq MemRegion.hi 0 l with heq | ⟨p, hp, heq⟩
    · omega
    · exact ⟨p, hp, heq ▸ hx⟩
  · rintro ⟨p, hp, hx⟩
    -- the last address of the region lies in a piece
    have hproper := hok.laid.proper p hp
    have hmem : (⟨p.lo, p.hi, true⟩ : Piece) ∈ pieces MemRegion.lo MemRegion.hi 0 l := by
      apply List.mem_of_mem_filter
      rw [filter_used_pieces]
      exact List.mem_map_of_mem hp
    have hend := ((tiles_pieces hok.laid fun _ _ => Nat.zero_le _).exists_iff (p.hi - 1)).mp
      ⟨_, hmem, by dsimp only; omega⟩
    omega

section Tells

variable {lines : List DumpLine}
  (hpieces : lines.map DumpLine.piece = pieces MemRegion.lo MemRegion.hi 0 l)
  (hexact : ∀ line ∈ lines, line.Exact)

include hpieces

theorem map_piece_filter_used :
    (lines.filter DumpLine.used).map DumpLine.piece = l.map fun p => ⟨p.lo, p.hi, true⟩ := by
  have hfilter := List.filter_map (f := DumpLine.piece) (p := Piece.used) (l := lines)
  rw [hpieces, filter_used_pieces] at hfilter
  exact hfilter.symm

/-- The regions contain what the lines call used. -/
theorem inRegion_iff_used (x : U64) :
    InRegion l x ↔ ∃ line ∈ lines, line.used = true ∧ line.Has x := by
  have hpiece : InRegion l x ↔ ∃ q ∈ (lines.filter DumpLine.used).map DumpLine.piece,
      q.first ≤ x.toNat ∧ x.toNat < q.stop := by
    simp only [map_piece_filter_used hpieces, List.mem_map, exists_exists_and_eq_and]
    rfl
  rw [hpiece]
  constructor
  · rintro ⟨q, hq, hx⟩
    obtain ⟨line, hline, rfl⟩ := List.mem_map.mp hq
    obtain ⟨hmem, hused⟩ := List.mem_filter.mp hline
    exact ⟨line, hmem, hused, (line.has_iff x).mpr hx⟩
  · rintro ⟨line, hmem, hused, hx⟩
    exact ⟨line.piece, List.mem_map_of_mem (List.mem_filter.mpr ⟨hmem, hused⟩),
      (line.has_iff x).mp hx⟩

include hexact

/-- The regions, read off the lines. -/
theorem regions_eq_of_dump :
    (lines.filter DumpLine.used).map (fun line => (line.first, line.pages)) =
      l.map fun p => (p.gpa, p.npages) := by
  have hvalues : ∀ line ∈ lines.filter DumpLine.used,
      (line.first, line.pages) = (BitVec.ofNat 64 line.piece.first,
        BitVec.ofNat 64 ((line.piece.stop - line.piece.first) / 4096)) := by
    intro line hline
    exact congrArg (fun line : DumpLine => (line.first, line.pages))
      (hexact line (List.mem_of_mem_filter hline)).values_eq
  rw [List.map_congr_left hvalues]
  have hmap := congrArg (List.map fun q : Piece => ((BitVec.ofNat 64 q.first : U64),
    (BitVec.ofNat 64 ((q.stop - q.first) / 4096) : U64))) (map_piece_filter_used hpieces)
  rw [List.map_map, List.map_map] at hmap
  refine hmap.trans (List.map_congr_left fun p _ => ?_)
  have hpages : (p.hi - p.lo) / 4096 = p.npages.toNat := by
    unfold MemRegion.hi MemRegion.lo
    omega
  dsimp only [Function.comp_apply]
  rw [hpages, MemRegion.lo, BitVec.ofNat_toNat, BitVec.ofNat_toNat, BitVec.setWidth_eq,
    BitVec.setWidth_eq]

/-- An address below the end of the last region is in one line, and no other address is. -/
theorem existsUnique_line_iff (hok : RegionsOk l) (x : U64) :
    (∃! line, line ∈ lines ∧ line.Has x) ↔ ∃ p ∈ l, x.toNat < p.hi := by
  have htiles := tiles_pieces hok.laid fun _ _ => Nat.zero_le _
  rw [← hpieces] at htiles
  have hexists : (∃ line ∈ lines, line.Has x) ↔ ∃ p ∈ l, x.toNat < p.hi := by
    have hcover := htiles.exists_iff x.toNat
    simp only [List.mem_map, exists_exists_and_eq_and, ← DumpLine.has_iff] at hcover
    rw [hcover, ← hok.lt_finish_iff]
    exact and_iff_right (Nat.zero_le _)
  rw [← hexists]
  constructor
  · rintro ⟨line, ⟨hmem, hhas⟩, _⟩
    exact ⟨line, hmem, hhas⟩
  · rintro ⟨line, hmem, hhas⟩
    refine ⟨line, ⟨hmem, hhas⟩, fun line' hline' => ?_⟩
    have hpiece := htiles.unique (List.mem_map_of_mem hline'.1) (List.mem_map_of_mem hmem)
      ((line'.has_iff x).mp hline'.2) ((line.has_iff x).mp hhas)
    rw [(hexact line' hline'.1).values_eq, (hexact line hmem).values_eq, hpiece]

/-- The search of `find_free_mem_region`, done on the lines. -/
theorem toNat_dumpSearch (hok : RegionsOk l) {npages : U64} (hn : 1 ≤ npages.toNat) :
    (dumpSearch lines npages).toNat =
      firstFit MemRegion.lo MemRegion.hi (npages.toNat * 4096) 0 l := by
  have htiles := tiles_pieces hok.laid fun _ _ => Nat.zero_le _
  have hlong : ∀ line ∈ lines, (!line.used && decide (npages ≤ line.pages)) =
      ((fun q : Piece => !q.used && decide (npages.toNat * 4096 ≤ q.stop - q.first)) ∘
        DumpLine.piece) line := by
    intro line hline
    have hline_exact := hexact line hline
    rw [DumpLine.Exact] at hline_exact
    have hiff : npages ≤ line.pages ↔
        npages.toNat * 4096 ≤ line.last.toNat + 1 - line.first.toNat := by
      rw [BitVec.le_def]
      omega
    show (!line.used && decide (npages ≤ line.pages)) = (!line.used && _)
    rw [decide_eq_decide.mpr hiff]
    rfl
  rw [firstFit_eq_find (by omega), ← hpieces, dumpSearch, List.find?_congr hlong, List.find?_map]
  cases lines.find? _ with
  | some line =>
      rfl
  | none =>
      show ((lines.getLast?.map fun line : DumpLine => line.last + 1).getD 0).toNat =
        finish MemRegion.hi 0 l
      rw [← hpieces] at htiles
      have hstop := htiles.stop_eq
      rw [List.getLast?_map, Option.map_map] at hstop
      cases hlast : lines.getLast? with
      | none =>
          rw [hlast] at hstop
          exact hstop.symm
      | some line =>
          rw [hlast] at hstop
          have hend : finish MemRegion.hi 0 l = line.last.toNat + 1 := hstop
          have hbelow : finish MemRegion.hi 0 l < 2 ^ 64 := by
            rcases finish_eq MemRegion.hi 0 l with heq | ⟨p, hp, heq⟩
            · omega
            · exact heq ▸ hok.below p hp
          have hone : (1 : U64).toNat = 1 := rfl
          show (line.last + 1).toNat = _
          rw [BitVec.toNat_add, hone, hend]
          omega

end Tells

/-- **The dump tells the list.** -/
theorem RegionsOk.dumpTells (hok : RegionsOk l) : DumpTells l (vmMemDump l) := by
  obtain ⟨hpieces, hexact⟩ : (vmMemDump l).map DumpLine.piece =
      pieces MemRegion.lo MemRegion.hi 0 l ∧ ∀ line ∈ vmMemDump l, line.Exact :=
    hok.dump_spec (fun _ _ => Nat.zero_le _) rfl
  refine ⟨hexact, regions_eq_of_dump hpieces hexact, inRegion_iff_used hpieces,
    existsUnique_line_iff hpieces hexact hok, ?_, fun npages hn hsize => ?_⟩
  · have hchain := isChain_pieces MemRegion.lo MemRegion.hi 0 l
    rw [← hpieces, List.isChain_map] at hchain
    exact hchain
  · have hpos : ¬ npages < 1 := by
      rw [lt_one_iff]
      omega
    rw [findFreeMemRegion, if_neg hpos]
    refine congrArg some (BitVec.eq_of_toNat_eq ?_)
    rw [findFreeLoop_eq hok (fun _ _ => Nat.zero_le _) hsize]
    exact (toNat_dumpSearch hpieces hexact hok hn).symm

end Lines

/-- **The dump of a state that was reached tells its list**: where the regions are and how
long, which addresses are free, and what the next search finds. -/
theorem vmMemDump_tells
    (mem : U64 → Byte) (ops : List MemOp)
    (hbelow : RegionsBelow (MemOp.run (VmMem.init mem) ops).memRegions) :
    DumpTells (MemOp.run (VmMem.init mem) ops).memRegions
      (vmMemDump (MemOp.run (VmMem.init mem) ops).memRegions) :=
  (regionInv_run (regionInv_init mem) hbelow).ok.dumpTells

theorem vmMemDump_tells_mixedRun :
    DumpTells (MemOp.run (VmMem.init fun _ => 0) mixedRun).memRegions
      (vmMemDump (MemOp.run (VmMem.init fun _ => 0) mixedRun).memRegions) :=
  vmMemDump_tells (fun _ => 0) mixedRun (by unfold RegionsBelow; decide +kernel)

end Hvexec
