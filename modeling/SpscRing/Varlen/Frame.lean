import SpscRing.Foundation.Positions
import SpscRing.Varlen.Invariant

/-! The arithmetic of positions without wrap, and the frame of the published
slots: no write of the producer reaches them. -/

namespace SpscRing.Varlen

open SpscRing.Foundation

section Arithmetic

variable {block : ControlBlock}

variable (shape : Shape block)
include shape

theorem index_lt (position : Nat) :
    position % block.dataCapacity.toNat < block.dataCapacity.toNat :=
  Nat.mod_lt _ shape.positive

theorem toNat_wrapPadding (head : UInt64) : (wrapPadding block head).toNat =
    block.dataCapacity.toNat - head.toNat % block.dataCapacity.toNat := by
  have below := index_lt shape head.toNat
  rw [wrapPadding, toNat_sub (by rw [UInt64.toNat_mod]; omega), UInt64.toNat_mod]

theorem index_add_wrapPadding (head : UInt64) :
    head.toNat % block.dataCapacity.toNat + (wrapPadding block head).toNat =
      block.dataCapacity.toNat := by
  have below := index_lt shape head.toNat
  rw [toNat_wrapPadding shape]
  omega

theorem wrapPadding_pos (head : UInt64) : 0 < (wrapPadding block head).toNat := by
  have below := index_lt shape head.toNat
  rw [toNat_wrapPadding shape]
  omega

/-- Padding ends at the ring end, so the front behind it is at index 0. -/
theorem index_padEnd {head : UInt64} (small : head.toNat + (wrapPadding block head).toNat < 2 ^ 64) :
    indexOf block (head + wrapPadding block head) = 0 := by
  have edge := index_add_wrapPadding shape head
  have parts := Nat.div_add_mod head.toNat block.dataCapacity.toNat
  rw [indexOf_eq, toNat_add small]
  apply Nat.mod_eq_zero_of_dvd
  exact ⟨head.toNat / block.dataCapacity.toNat + 1, by rw [Nat.mul_add]; omega⟩

/-- What fits the ring but not before its end does not start at index 0. -/
theorem index_ne_zero_of_short {head : UInt64} {needed : Nat}
    (fits : needed ≤ block.dataCapacity.toNat) (short : (wrapPadding block head).toNat < needed) :
    indexOf block head ≠ 0 := by
  have edge := index_add_wrapPadding shape head
  rw [indexOf_eq]
  omega

/-- Padding reaches the ring end, so it keeps positions whole granules. -/
theorem granule_dvd_wrapPadding {head : UInt64} (aligned : granule block ∣ head.toNat) :
    granule block ∣ (wrapPadding block head).toNat := by
  rw [toNat_wrapPadding shape]
  exact Nat.dvd_sub granule_dvd_capacity (granule_dvd_index aligned)

theorem Fits.needed_ge {call : ReserveCall} (fits : Fits block call) :
    32 + call.payloadSize.toNat ≤ (neededFor block call.payloadSize).toNat := by
  rw [toNat_neededFor_exact shape _ fits.unwrapped]
  exact exactSlotSize_ge shape _

/-- A slot for which the tail has room lies inside the region, header and payload area. -/
theorem Fits.area_inside {call : ReserveCall} {head : UInt64} (fits : Fits block call)
    (room : (neededFor block call.payloadSize).toNat ≤ (wrapPadding block head).toNat) :
    indexOf block head + 32 + call.payloadSize.toNat ≤ block.dataCapacity.toNat := by
  have large := fits.needed_ge shape
  have edge := index_add_wrapPadding shape head
  rw [indexOf_eq]
  omega

omit shape in
/-- The free-space check of `try_reserve`, read without wrap. -/
theorem room_iff {head read capacity : UInt64} {needed : UInt32} (ordered : read.toNat ≤ head.toNat)
    (unwrapped : head.toNat - read.toNat + needed.toNat < 2 ^ 64) :
    ¬ (head - read + needed.toUInt64 > capacity) ↔
      head.toNat + needed.toNat ≤ read.toNat + capacity.toNat := by
  have used := toNat_sub ordered
  have size := needed.toNat_toUInt64
  have sum : (head - read + needed.toUInt64).toNat = head.toNat - read.toNat + needed.toNat := by
    rw [toNat_add (by omega), used, size]
  rw [GT.gt, UInt64.lt_iff_toNat_lt, sum]
  omega

/-- The contiguity check of `try_reserve`. -/
theorem wrapPadding_lt_iff {head : UInt64} {needed : UInt32} :
    wrapPadding block head < needed.toUInt64 ↔
      block.dataCapacity.toNat - head.toNat % block.dataCapacity.toNat < needed.toNat := by
  rw [UInt64.lt_iff_toNat_lt, toNat_wrapPadding shape, UInt32.toNat_toUInt64]

end Arithmetic

section Frames

variable {block : ControlBlock} {data other : Memory} {position : Nat} {slot : Slot}

/-- A slot depends on its header and its own bytes only. -/
theorem SlotAt.frame (placed : SlotAt block data position slot)
    (agree : other.Agree data (position % block.dataCapacity.toNat) (max 32 slot.size)) :
    SlotAt block other position slot := by
  refine { placed with header := ?_, payload := ?_ }
  · have head := agree.narrow 0 32 (by omega)
    rw [Nat.add_zero] at head
    rw [loadHeader_congr head]
    exact placed.header
  · rw [← placed.payload]
    rcases placed.shape with roomy | ⟨empty, -⟩
    · exact Memory.read_congr (agree.narrow 32 _ (by omega))
    · simp [empty, Memory.read]

theorem Live.frame {log : Log} (live : Live block data log position slot)
    (agree : other.Agree data (position % block.dataCapacity.toNat) (max 32 slot.size)) :
    Live block other log position slot :=
  ⟨live.1.frame agree, live.2⟩

theorem length_payload (placed : SlotAt block data position slot) :
    slot.payload.length = slot.header.payloadSize.toNat := by
  rw [← placed.payload]
  simp

theorem payload_eq_nil (placed : SlotAt block data position slot) :
    slot.payload = [] ↔ slot.header.payloadSize = 0 := by
  rw [← List.length_eq_zero_iff, length_payload placed, ← UInt32.toNat_inj]
  rfl

/-- A range behind the published slots and within one lap of the reader can be
written without touching them, even when a header spills over the ring end. -/
theorem tiled_write (shape : Shape block) {log : Log} {slots : List Slot}
    {front stop head count length : Nat}
    (tiled : Tiled Slot.size (Live block data log) front slots stop)
    (confined : other.Confined data (head % block.dataCapacity.toNat) length)
    (behind : stop ≤ head) (lap : head + count ≤ front + block.dataCapacity.toNat)
    (spill : length ≤ count ∨ head % block.dataCapacity.toNat + count = block.dataCapacity.toNat) :
    Tiled Slot.size (Live block other log) front slots stop := by
  refine tiled.imp fun position slot after before live => live.frame ?_
  have ordered : position + slot.size ≤ head := by omega
  have within : head + count ≤ position + block.dataCapacity.toNat := by omega
  have apart := ranges_apart block.dataCapacity.toNat ordered within
  have inside := index_lt shape position
  have headInside := index_lt shape head
  have shape := live.1.shape
  exact confined.agree (by omega)

end Frames

end SpscRing.Varlen
