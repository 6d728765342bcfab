import Mathlib.Tactic

/-!
# Blocks laid over one another

A run of writes lays blocks over a sequence of cells, each one over what the
earlier ones left.  At an address one sees what the last block that covers the
address has there (`overlay`).

Two questions are answered here: which addresses a run does not reach at all, and
where a block is seen.  It is seen where no later block lies.
-/

namespace Hvexec
namespace BlockWrites

/-- Cells in a row, from an address on. -/
structure Block (β : Type*) where
  start : Nat
  cells : List β

variable {β : Type*}

/-- The address just after a block. -/
def Block.stop (w : Block β) : Nat :=
  w.start + w.cells.length

def Block.Covers (w : Block β) (y : Nat) : Prop :=
  w.start ≤ y ∧ y < w.stop

/-- What a block has at an address. -/
def Block.cell (w : Block β) (y : Nat) : Option β :=
  if w.start ≤ y then w.cells[y - w.start]? else none

/-- What is seen at an address after the blocks were laid, the first one first. -/
def overlay : List (Block β) → Nat → Option β
  | [], _ => none
  | w :: ws, y => (overlay ws y).or (w.cell y)

section Cell

variable {w : Block β} {y : Nat}

theorem Block.cell_eq_none_iff :
    w.cell y = none ↔ ¬ w.Covers y := by
  unfold Block.cell Block.Covers Block.stop
  split_ifs with hle
  · rw [List.getElem?_eq_none_iff]
    omega
  · exact iff_of_true rfl fun hcon => hle hcon.1

theorem Block.cell_of_covers (h : w.Covers y) :
    ∃ b, w.cell y = some b := by
  rw [← Option.isSome_iff_exists, ← Option.ne_none_iff_isSome, Ne, Block.cell_eq_none_iff]
  exact not_not.mpr h

end Cell

section Overlay

variable {w : Block β} {ws ws' : List (Block β)} {y : Nat}

theorem overlay_append (ws ws' : List (Block β)) (y : Nat) :
    overlay (ws ++ ws') y = (overlay ws' y).or (overlay ws y) := by
  induction ws with
  | nil =>
      simp [overlay]
  | cons w ws ih =>
      simp [overlay, ih, Option.or_assoc]

/-- The addresses that a run does not reach. -/
theorem overlay_eq_none_iff :
    overlay ws y = none ↔ ∀ w ∈ ws, ¬ w.Covers y := by
  induction ws with
  | nil =>
      simp [overlay]
  | cons w ws ih =>
      simp [overlay, ih, Block.cell_eq_none_iff, and_comm]

/-- A block is seen where no later one lies. -/
theorem overlay_of_last (hw : w.Covers y) (hlater : ∀ v ∈ ws', ¬ v.Covers y) :
    overlay (ws ++ w :: ws') y = w.cell y := by
  obtain ⟨b, hb⟩ := Block.cell_of_covers hw
  rw [overlay_append, overlay, overlay_eq_none_iff.mpr hlater, Option.none_or, hb]
  rfl

end Overlay

end BlockWrites
end Hvexec
