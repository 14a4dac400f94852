import SpscRing.ControlBlock
import SpscRing.Foundation.Positions

/-! The occupancy that `ring_view` reports. It loads `write_pos` first and `read_pos`
after it, so the two fronts it compares may belong to different moments of a run. -/

namespace SpscRing

open SpscRing.Foundation

section Definitions

variable (block : ControlBlock)

/-- `used_bytes()`, given what its two loads found. -/
def usedBytes (write read : UInt64) : UInt64 :=
  let used := if write ≥ read then write - read else 0
  if used > block.dataCapacity then block.dataCapacity else used

def availableBytes (write read : UInt64) : UInt64 := block.dataCapacity - usedBytes block write read

/-- The bytes reserved and not yet consumed. -/
def Meta.occupied (fronts : Meta) : Nat := fronts.writePos.toNat - fronts.readPos.toNat

/-- That many bytes from a front on leave everything unread alone. -/
def Roomy (fronts : Meta) (front : UInt64) (bytes : Nat) : Prop :=
  front.toNat + bytes ≤ fronts.readPos.toNat + block.dataCapacity.toNat

/-- What a report tells about the ring between its two loads: it never counts more bytes
than there are at any moment of them, and it is exact at the first when the consumer did
not move, at the last when the producer did not. -/
structure Reported (atWrite between atRead : Meta) : Prop where
  atMost : (usedBytes block atWrite.writePos atRead.readPos).toNat ≤ between.occupied
  complete : (usedBytes block atWrite.writePos atRead.readPos).toNat +
    (availableBytes block atWrite.writePos atRead.readPos).toNat = block.dataCapacity.toNat
  unconsumed : atRead.readPos = atWrite.readPos →
    (usedBytes block atWrite.writePos atRead.readPos).toNat = atWrite.occupied
  unreserved : atRead.writePos = atWrite.writePos →
    (usedBytes block atWrite.writePos atRead.readPos).toNat = atRead.occupied

end Definitions

variable {block : ControlBlock}

theorem usedBytes_le (write read : UInt64) : usedBytes block write read ≤ block.dataCapacity := by
  unfold usedBytes
  generalize (if write ≥ read then write - read else 0) = used
  dsimp only
  split
  · exact UInt64.le_refl _
  · rename_i small
    exact UInt64.not_lt.mp small

/-- With at most one lap between them, the clamp at the capacity does nothing. -/
theorem toNat_usedBytes {write read : UInt64}
    (lap : write.toNat ≤ read.toNat + block.dataCapacity.toNat) :
    (usedBytes block write read).toNat = write.toNat - read.toNat := by
  have used : (if write ≥ read then write - read else 0).toNat = write.toNat - read.toNat := by
    split
    · rename_i ordered
      exact toNat_sub (UInt64.le_iff_toNat_le.mp ordered)
    · rename_i behind
      rw [ge_iff_le, UInt64.le_iff_toNat_le] at behind
      rw [UInt64.toNat_zero]
      omega
  unfold usedBytes
  dsimp only
  rw [if_neg, used]
  rw [gt_iff_lt, UInt64.lt_iff_toNat_lt, used]
  omega

theorem toNat_availableBytes {write read : UInt64}
    (lap : write.toNat ≤ read.toNat + block.dataCapacity.toNat) :
    (availableBytes block write read).toNat =
      block.dataCapacity.toNat - (write.toNat - read.toNat) := by
  rw [availableBytes, toNat_sub (UInt64.le_iff_toNat_le.mp (usedBytes_le _ _)), toNat_usedBytes lap]

section Room

variable {before after : Meta} {front : UInt64} {bytes : Nat}

/-- The consumer only adds to the room. -/
theorem Roomy.mono (roomy : Roomy block before front bytes)
    (forward : before.readPos ≤ after.readPos) : Roomy block after front bytes := by
  have grown := UInt64.le_iff_toNat_le.mp forward
  unfold Roomy at roomy ⊢
  omega

/-- The room that `available_bytes()` reported while the producer stood still is there. -/
theorem roomy_of_available
    (bounded : before.writePos.toNat ≤ before.readPos.toNat + block.dataCapacity.toNat)
    (ordered : after.readPos.toNat ≤ after.writePos.toNat) (still : after.writePos = before.writePos)
    (forward : before.readPos ≤ after.readPos)
    (room : bytes ≤ (availableBytes block before.writePos after.readPos).toNat) :
    Roomy block after before.writePos bytes := by
  have moved := UInt64.le_iff_toNat_le.mp forward
  rw [still] at ordered
  rw [toNat_availableBytes (by omega)] at room
  unfold Roomy
  omega

end Room

/-- Fronts that only move forward, within one lap, make a report true to its moments. -/
theorem reported_of_advanced {atWrite between atRead : Meta} (first : atWrite.Advanced between)
    (second : between.Advanced atRead)
    (bounded : atWrite.writePos.toNat ≤ atWrite.readPos.toNat + block.dataCapacity.toNat) :
    Reported block atWrite between atRead := by
  have write := UInt64.le_iff_toNat_le.mp first.writePos
  have before := UInt64.le_iff_toNat_le.mp first.readPos
  have after := UInt64.le_iff_toNat_le.mp second.readPos
  have lap : atWrite.writePos.toNat ≤ atRead.readPos.toNat + block.dataCapacity.toNat := by omega
  have used := toNat_usedBytes lap
  have available := toNat_availableBytes lap
  constructor
  · rw [used, Meta.occupied]
    omega
  · omega
  · intro still
    rw [used, still, Meta.occupied]
  · intro still
    rw [used, ← still, Meta.occupied]

end SpscRing
