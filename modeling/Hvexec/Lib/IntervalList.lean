import Mathlib.Tactic
import Mathlib.Data.List.Perm.Basic
import Mathlib.Data.List.TakeWhile

/-!
# Sorted lists of disjoint intervals

A list of items, each of which occupies the half-open interval from `lo` to
`hi` of a linear order, is *laid out* when every interval is nonempty and the
intervals follow one another in the list without overlapping.

Three walks over such a list are studied, each of them as a program would
write it:

* `find` stops at the first item that starts beyond the point looked for;
* `place` walks past the items that end before the new one starts and inserts
  there, after a test (`Fits`) against one single neighbour;
* `firstFit` looks for a gap, item after item, and falls back to the end.

The layout is exactly what makes the early exit, the single test and the
running start address correct.
-/

namespace Hvexec
namespace IntervalList

universe u v

section Layout

variable {ρ : Type u} {κ : Type v} [LinearOrder κ]
variable (lo hi : ρ → κ)

/-- Nonempty intervals, in order, none overlapping the next ones. -/
structure Laid (l : List ρ) : Prop where
  proper : ∀ r ∈ l, lo r < hi r
  sorted : l.Pairwise (fun r s => hi r ≤ lo s)

/-- Two items that do not overlap. -/
def Apart (r s : ρ) : Prop :=
  hi r ≤ lo s ∨ hi s ≤ lo r

/-- The item that covers `x`, searched with an early exit. -/
def find (x : κ) : List ρ → Option ρ
  | [] => none
  | p :: ps =>
      if lo p ≤ x then
        if x < hi p then some p else find x ps
      else none

/-- The items that end before `r` starts. -/
def before (r : ρ) (l : List ρ) : List ρ :=
  l.takeWhile (fun p => decide (hi p ≤ lo r))

/-- The items from the first one on that ends after `r` starts. -/
def after (r : ρ) (l : List ρ) : List ρ :=
  l.dropWhile (fun p => decide (hi p ≤ lo r))

/-- The single overlap test made when `r` is inserted. -/
def Fits (r : ρ) (l : List ρ) : Prop :=
  ∀ p, (after lo hi r l).head? = some p → hi r ≤ lo p

/-- The list with `r` inserted. -/
def place (r : ρ) (l : List ρ) : List ρ :=
  before lo hi r l ++ r :: after lo hi r l

variable {lo hi}

theorem Apart.symm {r s : ρ} (h : Apart lo hi r s) :
    Apart lo hi s r :=
  Or.symm h

instance : Std.Symm (Apart lo hi) :=
  ⟨fun _ _ h => h.symm⟩

theorem Laid.tail {p : ρ} {ps : List ρ}
    (h : Laid lo hi (p :: ps)) :
    Laid lo hi ps :=
  ⟨fun r hr => h.proper r (List.mem_cons_of_mem p hr),
    (List.pairwise_cons.mp h.sorted).2⟩

theorem Laid.sublist {l l' : List ρ}
    (h : Laid lo hi l') (hsub : l.Sublist l') :
    Laid lo hi l :=
  ⟨fun r hr => h.proper r (hsub.subset hr), h.sorted.sublist hsub⟩

/-- In a laid-out list an item that covers `x` is the one found. -/
theorem find_eq_some_iff {l : List ρ}
    (h : Laid lo hi l) (x : κ) (r : ρ) :
    find lo hi x l = some r ↔ r ∈ l ∧ lo r ≤ x ∧ x < hi r := by
  induction l with
  | nil =>
      simp [find]
  | cons p ps ih =>
      have hnext : ∀ s ∈ ps, hi p ≤ lo s :=
        (List.pairwise_cons.mp h.sorted).1
      have hp : lo p < hi p := h.proper p (by simp)
      have ih' := ih h.tail
      by_cases hlo : lo p ≤ x
      · by_cases hhi : x < hi p
        · simp only [find, hlo, hhi, if_true, Option.some.injEq]
          constructor
          · rintro rfl
            exact ⟨by simp, hlo, hhi⟩
          · rintro ⟨hr, hr1, _⟩
            rcases List.mem_cons.mp hr with rfl | hr
            · rfl
            · exact absurd (lt_of_lt_of_le hhi (hnext r hr)) (not_lt.mpr hr1)
        · simp only [find, hlo, hhi, if_true, if_false, ih']
          constructor
          · rintro ⟨hr, hx⟩
            exact ⟨List.mem_cons_of_mem p hr, hx⟩
          · rintro ⟨hr, hx⟩
            rcases List.mem_cons.mp hr with rfl | hr
            · exact absurd hx.2 hhi
            · exact ⟨hr, hx⟩
      · simp only [find, hlo, if_false, reduceCtorEq, false_iff]
        rintro ⟨hr, hx, _⟩
        rcases List.mem_cons.mp hr with rfl | hr
        · exact hlo hx
        · exact hlo (le_trans hp.le (le_trans (hnext r hr) hx))

theorem find_eq_none_iff {l : List ρ}
    (h : Laid lo hi l) (x : κ) :
    find lo hi x l = none ↔ ∀ r ∈ l, ¬ (lo r ≤ x ∧ x < hi r) := by
  constructor
  · intro hnone r hr hx
    have hsome := (find_eq_some_iff h x r).mpr ⟨hr, hx⟩
    rw [hnone] at hsome
    simp at hsome
  · intro hall
    cases hfind : find lo hi x l with
    | none =>
        rfl
    | some r =>
        obtain ⟨hr, hx⟩ := (find_eq_some_iff h x r).mp hfind
        exact absurd hx (hall r hr)

/-! ## Insertion -/

/-- Two tests that agree on a list split it at the same place. -/
theorem takeWhile_dropWhile_congr {f g : ρ → Bool} {l : List ρ}
    (h : ∀ p ∈ l, f p = g p) :
    l.takeWhile f = l.takeWhile g ∧ l.dropWhile f = l.dropWhile g := by
  induction l with
  | nil =>
      exact ⟨rfl, rfl⟩
  | cons p ps ih =>
      obtain ⟨ih1, ih2⟩ := ih (fun q hq => h q (List.mem_cons_of_mem p hq))
      have hp : f p = g p := h p (by simp)
      simp [List.takeWhile_cons, List.dropWhile_cons, hp, ih1, ih2]

variable (lo hi) in
theorem before_append_after (r : ρ) (l : List ρ) :
    before lo hi r l ++ after lo hi r l = l :=
  List.takeWhile_append_dropWhile

theorem place_perm (r : ρ) (l : List ρ) :
    (place lo hi r l).Perm (r :: l) := by
  have h :
      (place lo hi r l).Perm (r :: (before lo hi r l ++ after lo hi r l)) :=
    List.perm_middle
  rwa [before_append_after] at h

theorem mem_place {r s : ρ} {l : List ρ} :
    s ∈ place lo hi r l ↔ s = r ∨ s ∈ l := by
  rw [(place_perm r l).mem_iff, List.mem_cons]

theorem hi_le_of_mem_before {r p : ρ} {l : List ρ}
    (hp : p ∈ before lo hi r l) :
    hi p ≤ lo r := by
  have h := List.mem_takeWhile_imp hp
  simpa using h

theorem mem_of_mem_after {r p : ρ} {l : List ρ}
    (hp : p ∈ after lo hi r l) :
    p ∈ l :=
  (List.dropWhile_sublist _).subset hp

/-- The first item not passed by the walk ends after `r` starts. -/
theorem lt_hi_of_head_after {r p : ρ} {l : List ρ}
    (hp : (after lo hi r l).head? = some p) :
    lo r < hi p := by
  have h := List.head?_dropWhile_not (fun p => decide (hi p ≤ lo r)) l
  unfold after at hp
  rw [hp] at h
  simpa using h

/-- One neighbour is enough: the test holds exactly when nothing overlaps. -/
theorem fits_iff {r : ρ} {l : List ρ}
    (h : Laid lo hi l) :
    Fits lo hi r l ↔ ∀ p ∈ l, Apart lo hi r p := by
  have hsorted : (after lo hi r l).Pairwise (fun r s => hi r ≤ lo s) :=
    h.sorted.sublist (List.dropWhile_sublist _)
  constructor
  · intro hfits p hp
    rw [← before_append_after lo hi r l] at hp
    rcases List.mem_append.mp hp with hp | hp
    · exact Or.inr (hi_le_of_mem_before hp)
    · left
      unfold Fits at hfits
      cases hafter : after lo hi r l with
      | nil =>
          simp [hafter] at hp
      | cons q qs =>
          rw [hafter] at hfits hp hsorted
          have hq : hi r ≤ lo q := hfits q rfl
          rcases List.mem_cons.mp hp with rfl | hp
          · exact hq
          · have hq' : lo q < hi q :=
              h.proper q (mem_of_mem_after (by rw [hafter]; simp))
            exact le_trans hq (le_trans hq'.le
              ((List.pairwise_cons.mp hsorted).1 p hp))
  · intro hall p hp
    have hmem : p ∈ l :=
      mem_of_mem_after (List.mem_of_mem_head? hp)
    rcases hall p hmem with hle | hle
    · exact hle
    · exact absurd (lt_hi_of_head_after hp) (not_lt.mpr hle)

theorem laid_place {r : ρ} {l : List ρ}
    (h : Laid lo hi l) (hr : lo r < hi r) (hfits : Fits lo hi r l) :
    Laid lo hi (place lo hi r l) := by
  have hall := (fits_iff h).mp hfits
  refine ⟨?_, ?_⟩
  · intro s hs
    rcases mem_place.mp hs with rfl | hs
    · exact hr
    · exact h.proper s hs
  · have hl := h.sorted
    rw [← before_append_after lo hi r l,
      List.pairwise_append] at hl
    obtain ⟨hbefore, hafter, hcross⟩ := hl
    refine List.pairwise_append.mpr ⟨hbefore, ?_, ?_⟩
    · refine List.pairwise_cons.mpr ⟨?_, hafter⟩
      intro p hp
      rcases hall p (mem_of_mem_after hp) with hle | hle
      · exact hle
      · -- the walk stopped before `p`, so `p` cannot end before `r` starts
        cases haf : after lo hi r l with
        | nil =>
            simp [haf] at hp
        | cons q qs =>
            have hq : lo r < hi q :=
              by
              apply lt_hi_of_head_after
              rw [haf]
              rfl
            rw [haf] at hp hafter
            rcases List.mem_cons.mp hp with rfl | hp
            · exact absurd hq (not_lt.mpr hle)
            · have hqp := (List.pairwise_cons.mp hafter).1 p hp
              have hpp : lo p < hi p :=
                h.proper p (mem_of_mem_after (by rw [haf]; simp [hp]))
              exact absurd (lt_of_lt_of_le hq (le_trans hqp hpp.le))
                (not_lt.mpr hle)
    · intro p hp q hq
      rcases List.mem_cons.mp hq with rfl | hq
      · exact hi_le_of_mem_before hp
      · exact hcross p hp q hq

/-- The list answers for the new interval and as before elsewhere. -/
theorem find_place {r : ρ} {l : List ρ}
    (h : Laid lo hi l) (hr : lo r < hi r) (hfits : Fits lo hi r l) (x : κ) :
    find lo hi x (place lo hi r l) =
      if lo r ≤ x ∧ x < hi r then some r else find lo hi x l := by
  have hplace := laid_place h hr hfits
  split_ifs with hx
  · exact (find_eq_some_iff hplace x r).mpr ⟨mem_place.mpr (Or.inl rfl), hx⟩
  · cases hfind : find lo hi x l with
    | none =>
        rw [find_eq_none_iff hplace]
        intro s hs
        rcases mem_place.mp hs with rfl | hs
        · exact hx
        · exact (find_eq_none_iff h x).mp hfind s hs
    | some s =>
        obtain ⟨hs, hxs⟩ := (find_eq_some_iff h x s).mp hfind
        exact (find_eq_some_iff hplace x s).mpr
          ⟨mem_place.mpr (Or.inr hs), hxs⟩

/-- Two items of a laid-out list that share a point are the same item. -/
theorem Laid.eq_of_mem_of_mem {l : List ρ}
    (h : Laid lo hi l) {r s : ρ} (hr : r ∈ l) (hs : s ∈ l) {x : κ}
    (hxr : lo r ≤ x ∧ x < hi r) (hxs : lo s ≤ x ∧ x < hi s) :
    r = s := by
  have h1 := (find_eq_some_iff h x r).mpr ⟨hr, hxr⟩
  have h2 := (find_eq_some_iff h x s).mpr ⟨hs, hxs⟩
  rw [h1] at h2
  exact Option.some.inj h2

end Layout

/-! ## The first gap -/

section FirstFit

variable {ρ : Type u} (lo hi : ρ → Nat)

/-- The first address at or after `start` with `n` free places. -/
def firstFit (n : Nat) : Nat → List ρ → Nat
  | start, [] => start
  | start, p :: ps =>
      if n ≤ lo p - start then start else firstFit n (hi p) ps

variable {lo hi} in
/-- The range chosen overlaps no item. -/
theorem firstFit_apart (n start : Nat) {l : List ρ}
    (h : Laid lo hi l) (hstart : ∀ p ∈ l, start ≤ lo p) :
    start ≤ firstFit lo hi n start l ∧
      ∀ p ∈ l,
        firstFit lo hi n start l + n ≤ lo p ∨
          hi p ≤ firstFit lo hi n start l := by
  induction l generalizing start with
  | nil =>
      simp [firstFit]
  | cons p ps ih =>
      have hnext : ∀ s ∈ ps, hi p ≤ lo s :=
        (List.pairwise_cons.mp h.sorted).1
      have hp : lo p < hi p := h.proper p (by simp)
      have hsp : start ≤ lo p := hstart p (by simp)
      by_cases hgap : n ≤ lo p - start
      · simp only [firstFit, hgap, if_true]
        refine ⟨le_rfl, ?_⟩
        intro s hs
        left
        rcases List.mem_cons.mp hs with rfl | hs
        · omega
        · have := hnext s hs
          omega
      · simp only [firstFit, hgap, if_false]
        obtain ⟨ih1, ih2⟩ := ih (hi p) h.tail hnext
        refine ⟨by omega, ?_⟩
        intro s hs
        rcases List.mem_cons.mp hs with rfl | hs
        · exact Or.inr ih1
        · exact ih2 s hs

variable {lo hi} in
/-- No free range lies before the one chosen. -/
theorem firstFit_le (n start : Nat) {l : List ρ} {g : Nat} (hstart : start ≤ g)
    (hfree : ∀ p ∈ l, g + n ≤ lo p ∨ hi p ≤ g) :
    firstFit lo hi n start l ≤ g := by
  induction l generalizing start with
  | nil =>
      exact hstart
  | cons p ps ih =>
      have hrest : ∀ q ∈ ps, g + n ≤ lo q ∨ hi q ≤ g :=
        fun q hq => hfree q (List.mem_cons_of_mem p hq)
      by_cases hgap : n ≤ lo p - start
      · simp only [firstFit, hgap, if_true]
        exact hstart
      · simp only [firstFit, hgap, if_false]
        -- a gap that is too short holds no range
        rcases hfree p List.mem_cons_self with hbefore | hafter
        · omega
        · exact ih (hi p) hafter hrest

/-- The address chosen is the start or the end of an item. -/
theorem firstFit_eq (n : Nat) (l : List ρ) (start : Nat) :
    firstFit lo hi n start l = start ∨
      ∃ p ∈ l, firstFit lo hi n start l = hi p := by
  induction l generalizing start with
  | nil =>
      exact Or.inl rfl
  | cons p ps ih =>
      by_cases hgap : n ≤ lo p - start
      · left
        simp [firstFit, hgap]
      · right
        simp only [firstFit, hgap, if_false]
        rcases ih (hi p) with heq | ⟨q, hq, heq⟩
        · exact ⟨p, by simp, heq⟩
        · exact ⟨q, List.mem_cons_of_mem p hq, heq⟩

end FirstFit

/-! ## The pieces of a layout -/

/-- A gap or an item, from `first` up to `stop`. -/
structure Piece where
  first : Nat
  stop : Nat
  used : Bool
deriving DecidableEq

/-- Each piece begins where the one before it stops. -/
def Tiles : Nat → List Piece → Nat → Prop
  | a, [], b => a = b
  | a, q :: qs, b => q.first = a ∧ q.first < q.stop ∧ Tiles q.stop qs b

theorem Tiles.le {a b : Nat} {qs : List Piece} (h : Tiles a qs b) : a ≤ b := by
  induction qs generalizing a with
  | nil =>
      exact le_of_eq h
  | cons q qs ih =>
      obtain ⟨rfl, hproper, hrest⟩ := h
      exact hproper.le.trans (ih hrest)

/-- Every place between the ends lies in a piece, and no other does. -/
theorem Tiles.exists_iff {a b : Nat} {qs : List Piece} (h : Tiles a qs b) (x : Nat) :
    (∃ q ∈ qs, q.first ≤ x ∧ x < q.stop) ↔ a ≤ x ∧ x < b := by
  induction qs generalizing a with
  | nil =>
      obtain rfl : a = b := h
      simp only [List.not_mem_nil, false_and, exists_false, false_iff]
      omega
  | cons q qs ih =>
      obtain ⟨rfl, hproper, hrest⟩ := h
      have hle := hrest.le
      rw [List.exists_mem_cons_iff, ih hrest]
      omega

/-- It lies in one piece only. -/
theorem Tiles.unique {a b x : Nat} {qs : List Piece} (h : Tiles a qs b) {q r : Piece}
    (hq : q ∈ qs) (hr : r ∈ qs) (hx : q.first ≤ x ∧ x < q.stop)
    (hx' : r.first ≤ x ∧ x < r.stop) :
    q = r := by
  induction qs generalizing a with
  | nil =>
      simp at hq
  | cons s qs ih =>
      obtain ⟨rfl, _, hrest⟩ := h
      have hlater : ∀ t ∈ qs, t.first ≤ x → x < t.stop → s.stop ≤ x :=
        fun t ht hlo hhi => ((hrest.exists_iff x).mp ⟨t, ht, hlo, hhi⟩).1
      rcases List.mem_cons.mp hq with rfl | hq'
      · rcases List.mem_cons.mp hr with rfl | hr'
        · rfl
        · exact absurd (hlater r hr' hx'.1 hx'.2) (not_le.mpr hx.2)
      · rcases List.mem_cons.mp hr with rfl | hr'
        · exact absurd (hlater q hq' hx.1 hx.2) (not_le.mpr hx'.2)
        · exact ih hrest hq' hr'

/-- The tiling stops where its last piece does. -/
theorem Tiles.stop_eq {a b : Nat} {qs : List Piece} (h : Tiles a qs b) :
    b = (qs.getLast?.map Piece.stop).getD a := by
  induction qs generalizing a with
  | nil =>
      exact Eq.symm h
  | cons q qs ih =>
      obtain ⟨_, _, hrest⟩ := h
      rw [ih hrest, List.getLast?_cons]
      cases qs.getLast? with
      | none =>
          rfl
      | some r =>
          rfl

section Pieces

variable {ρ : Type u} (lo hi : ρ → Nat)

/-- The items of a layout, and the gaps before them. -/
def pieces : Nat → List ρ → List Piece
  | _, [] => []
  | start, p :: ps =>
      (if start < lo p then [⟨start, lo p, false⟩] else []) ++
        ⟨lo p, hi p, true⟩ :: pieces (hi p) ps

/-- Where the last item ends. -/
def finish : Nat → List ρ → Nat
  | start, [] => start
  | _, p :: ps => finish (hi p) ps

variable {lo hi}

/-- **The pieces tile the line** up to the end of the last item. -/
theorem tiles_pieces {start : Nat} {l : List ρ} (h : Laid lo hi l)
    (hstart : ∀ p ∈ l, start ≤ lo p) :
    Tiles start (pieces lo hi start l) (finish hi start l) := by
  induction l generalizing start with
  | nil =>
      rfl
  | cons p ps ih =>
      have hnext : ∀ s ∈ ps, hi p ≤ lo s := (List.pairwise_cons.mp h.sorted).1
      have hle := hstart p List.mem_cons_self
      have hrest : Tiles (lo p) (⟨lo p, hi p, true⟩ :: pieces lo hi (hi p) ps)
          (finish hi (hi p) ps) :=
        ⟨rfl, h.proper p List.mem_cons_self, ih h.tail hnext⟩
      rw [pieces, finish]
      split_ifs with hgap
      · exact ⟨rfl, hgap, hrest⟩
      · obtain rfl : start = lo p := by
          omega
        exact hrest

variable (hi) in
theorem finish_eq (start : Nat) (l : List ρ) :
    finish hi start l = start ∨ ∃ p ∈ l, finish hi start l = hi p := by
  induction l generalizing start with
  | nil =>
      exact Or.inl rfl
  | cons p ps ih =>
      rcases ih (hi p) with heq | ⟨q, hq, heq⟩
      · exact Or.inr ⟨p, List.mem_cons_self, heq⟩
      · exact Or.inr ⟨q, List.mem_cons_of_mem p hq, heq⟩

/-- The used pieces are the items. -/
theorem filter_used_pieces (start : Nat) (l : List ρ) :
    (pieces lo hi start l).filter Piece.used = l.map fun p => ⟨lo p, hi p, true⟩ := by
  induction l generalizing start with
  | nil =>
      rfl
  | cons p ps ih =>
      rw [pieces, List.filter_append, List.filter_cons_of_pos rfl, ih, List.map_cons]
      split_ifs
      · rfl
      · rfl

variable (lo hi) in
/-- No gap follows a gap. -/
theorem isChain_pieces (start : Nat) (l : List ρ) :
    (pieces lo hi start l).IsChain fun q r => q.used = true ∨ r.used = true := by
  induction l generalizing start with
  | nil =>
      exact List.isChain_nil
  | cons p ps ih =>
      have hrest : (⟨lo p, hi p, true⟩ :: pieces lo hi (hi p) ps).IsChain
          fun q r => q.used = true ∨ r.used = true :=
        (ih (hi p)).cons fun _ _ => Or.inl rfl
      rw [pieces]
      split_ifs
      · refine hrest.cons fun r hr => Or.inr ?_
        rw [List.head?_cons, Option.mem_some_iff] at hr
        rw [← hr]
      · exact hrest

/-- **First fit is the first gap that is long enough**, and the end of the last item if there
is none. -/
theorem firstFit_eq_find {n : Nat} (hn : 1 ≤ n) (start : Nat) (l : List ρ) :
    firstFit lo hi n start l =
      (((pieces lo hi start l).find? fun q => !q.used && decide (n ≤ q.stop - q.first)).map
        Piece.first).getD (finish hi start l) := by
  induction l generalizing start with
  | nil =>
      rfl
  | cons p ps ih =>
      rw [firstFit, pieces, finish]
      by_cases hfit : n ≤ lo p - start
      · rw [if_pos hfit, if_pos (by omega), List.singleton_append,
          List.find?_cons_of_pos (by simpa using hfit)]
        rfl
      · rw [if_neg hfit, ih]
        split_ifs with hgap
        · rw [List.singleton_append, List.find?_cons_of_neg (by simpa using hfit),
            List.find?_cons_of_neg (by simp)]
        · rw [List.nil_append, List.find?_cons_of_neg (by simp)]

end Pieces

end IntervalList
end Hvexec
