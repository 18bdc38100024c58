import Mathlib.Order.Bounds.Defs
import Mathlib.Order.Defs.PartialOrder

/-!
# Storing values at a lower precision

A value is written as one of a coarser type, which may fail, and read back later.

## Main definitions

- `RoundsDown grid write read` - what is read back is the last point of `grid` that is not
  after the value written

## Main results

- `RoundsDown.read_mono` - storing two values keeps their order
-/

variable {α β : Type*}

/-- Writing and reading back rounds down to the points of `grid`. A value that was read back is
written as what it was read from. -/
structure RoundsDown [Preorder α] (grid : Set α) (write : α → Option β) (read : β → α) : Prop where
  write_read : ∀ b, write (read b) = some b
  isGreatest : ∀ {a : α} {b : β}, write a = some b → IsGreatest {x ∈ grid | x ≤ a} (read b)

namespace RoundsDown

variable [Preorder α] {grid : Set α} {write : α → Option β} {read : β → α}

theorem read_mem (h : RoundsDown grid write read) (b : β) : read b ∈ grid :=
  (h.isGreatest (h.write_read b)).1.1

theorem read_le (h : RoundsDown grid write read) {a : α} {b : β} (hb : write a = some b) :
    read b ≤ a :=
  (h.isGreatest hb).1.2

/-- The earlier of two values is read back as a point of the grid below the later one. -/
theorem read_mono (h : RoundsDown grid write read) {a a' : α} {b b' : β}
    (hb : write a = some b) (hb' : write a' = some b') (hle : a ≤ a') : read b ≤ read b' := by
  have hbelow : read b ∈ {x ∈ grid | x ≤ a'} := ⟨h.read_mem b, le_trans (h.read_le hb) hle⟩
  exact (h.isGreatest hb').2 hbelow

end RoundsDown
