import Mathlib.Data.List.Basic

/-! Intervals tiled by consecutive blocks, and where the blocks of a circular
buffer lie once positions are reduced to indices. -/

namespace SpscRing.Foundation

universe u v

variable {Block : Type u}

/-- The blocks follow each other from `start` to `stop`, each satisfying
`holds` at the position where it begins. -/
def Tiled (size : Block → Nat) (holds : Nat → Block → Prop) : Nat → List Block → Nat → Prop
  | start, [], stop => start = stop
  | start, block :: rest, stop => holds start block ∧ Tiled size holds (start + size block) rest stop

variable {size : Block → Nat} {holds other : Nat → Block → Prop} {start middle stop : Nat}
variable {blocks : List Block} {block : Block}

theorem Tiled.le (tiled : Tiled size holds start blocks stop) : start ≤ stop := by
  induction blocks generalizing start with
  | nil => exact Nat.le_of_eq tiled
  | cons block rest ih =>
    have later := ih tiled.2
    omega

/-- A tiled interval grows by one block at its end. -/
theorem Tiled.snoc (tiled : Tiled size holds start blocks middle) (last : holds middle block) :
    Tiled size holds start (blocks ++ [block]) (middle + size block) := by
  induction blocks generalizing start with
  | nil =>
    cases tiled
    exact ⟨last, rfl⟩
  | cons first rest ih => exact ⟨tiled.1, ih tiled.2⟩

/-- Replace the property of the blocks by one that each of them has where it lies. -/
theorem Tiled.imp (tiled : Tiled size holds start blocks stop)
    (keep : ∀ position block, start ≤ position → position + size block ≤ stop →
      holds position block → other position block) : Tiled size other start blocks stop := by
  induction blocks generalizing start with
  | nil => exact tiled
  | cons block rest ih =>
    have later := tiled.2.le
    refine ⟨keep start block (Nat.le_refl _) later tiled.1, ih tiled.2 ?_⟩
    intro position block after before
    exact keep position block (by omega) before

/-- Tiling by blocks is tiling by what the blocks are mapped to. -/
theorem Tiled.map {Image : Type v} (image : Block → Image) {sizeOf : Image → Nat}
    {holdsOf : Nat → Image → Prop}
    (tiled : Tiled (fun block => sizeOf (image block))
      (fun position block => holdsOf position (image block)) start blocks stop) :
    Tiled sizeOf holdsOf start (blocks.map image) stop := by
  induction blocks generalizing start with
  | nil => exact tiled
  | cons block rest ih => exact ⟨tiled.1, ih tiled.2⟩

theorem Tiled.eq_nil (tiled : Tiled size holds start blocks stop) (empty : stop ≤ start)
    (positive : ∀ position block, holds position block → 0 < size block) : blocks = [] := by
  cases blocks with
  | nil => rfl
  | cons block rest =>
    have later := tiled.2.le
    have grows := positive start block tiled.1
    omega

/-- A non-empty tiled interval has a first block, and the others tile the rest. -/
theorem Tiled.uncons (tiled : Tiled size holds start blocks stop) (nonempty : start < stop) :
    ∃ first rest, blocks = first :: rest ∧ holds start first ∧
      Tiled size holds (start + size first) rest stop := by
  cases blocks with
  | nil => exact absurd tiled (Nat.ne_of_lt nonempty)
  | cons first rest => exact ⟨first, rest, rfl, tiled.1, tiled.2⟩

/-- Reduced to indices, two ranges of a circular buffer stay apart as long as
the later one stops within a lap of the start of the earlier one. -/
theorem ranges_apart (capacity : Nat) {first second length count : Nat}
    (ordered : first + length ≤ second) (lap : second + count ≤ first + capacity) :
    first % capacity + length ≤ second % capacity ∨ second % capacity + count ≤ first % capacity := by
  rcases Nat.eq_zero_or_pos capacity with zero | positive
  · omega
  have firstParts := Nat.div_add_mod first capacity
  have secondParts := Nat.div_add_mod second capacity
  have lower : first / capacity ≤ second / capacity := Nat.div_le_div_right (by omega)
  have upper : second / capacity ≤ first / capacity + 1 := by
    rw [← Nat.add_div_right first positive]
    exact Nat.div_le_div_right (by omega)
  rcases (show second / capacity = first / capacity ∨
      second / capacity = first / capacity + 1 by omega) with same | next
  · rw [same] at secondParts
    omega
  · rw [next, Nat.mul_add, Nat.mul_one] at secondParts
    omega

end SpscRing.Foundation
