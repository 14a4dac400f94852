import SpscRing.Foundation.Memory
import SpscRing.Foundation.Tiling

/-! A circular buffer of equal slots: consecutive slots by logical position,
and which writes leave them alone. -/

namespace SpscRing.Foundation

/-- Positions in whole slots that differ are a slot apart. -/
theorem add_size_le {size first second : Nat} (whole : size ∣ first) (other : size ∣ second)
    (before : first < second) : first + size ≤ second := by
  obtain ⟨index, rfl⟩ := whole
  obtain ⟨next, rfl⟩ := other
  have step : index + 1 ≤ next := Nat.lt_of_mul_lt_mul_left before
  calc size * index + size = size * (index + 1) := by rw [Nat.mul_add, Nat.mul_one]
    _ ≤ size * next := Nat.mul_le_mul_left _ step

namespace Memory

variable (memory : Memory) (capacity size : Nat)

/-- The bytes of the slot at a logical position. -/
def slot (position : Nat) : List UInt8 := memory.read (position % capacity) size

/-- The bytes of `count` consecutive slots from a logical position. -/
def slots (start count : Nat) : List (List UInt8) :=
  (List.range count).map fun index => memory.slot capacity size (start + size * index)

variable {memory capacity size} {start count : Nat}

@[simp]
theorem length_slots : (memory.slots capacity size start count).length = count := by
  simp [slots]

theorem slots_succ : memory.slots capacity size start (count + 1) =
    memory.slots capacity size start count ++ [memory.slot capacity size (start + size * count)] := by
  simp [slots, List.range_succ]

theorem slots_drop {skipped : Nat} : (memory.slots capacity size start count).drop skipped =
    memory.slots capacity size (start + size * skipped) (count - skipped) := by
  apply List.ext_getElem (by simp)
  intro index _ _
  simp only [slots, List.getElem_drop, List.getElem_map, List.getElem_range, Nat.mul_add,
    Nat.add_assoc]

theorem slots_take {kept : Nat} (fits : kept ≤ count) :
    (memory.slots capacity size start count).take kept = memory.slots capacity size start kept := by
  rw [slots, ← List.map_take, List.take_range, Nat.min_eq_left fits, slots]

/-- A write behind the slots and within one lap of their start leaves them alone. -/
theorem slots_confined {other : Memory} {head length : Nat}
    (confined : other.Confined memory (head % capacity) length)
    (behind : start + size * count ≤ head) (lap : head + length ≤ start + capacity) :
    other.slots capacity size start count = memory.slots capacity size start count := by
  apply List.map_congr_left
  intro index member
  have inside := List.mem_range.mp member
  have room : size * index + size ≤ size * count := by
    rw [← Nat.mul_succ]
    exact Nat.mul_le_mul_left _ inside
  apply read_congr
  exact confined.agree (ranges_apart capacity (by omega) (by omega))

end Memory

end SpscRing.Foundation
