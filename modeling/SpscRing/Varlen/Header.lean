import SpscRing.ControlBlock
import SpscRing.Foundation.Memory

/-! Slot headers of the variable-length ring: their size arithmetic and their
32-byte image in the data region. -/

namespace SpscRing.Varlen

open SpscRing.Foundation

structure MessageMeta where
  userData : UInt64 := 0
  timestampNs : UInt64 := 0
  schemaId : UInt32 := 0
  flags : UInt32 := 0
  deriving DecidableEq

structure VarlenSlotHeader where
  slotSize : UInt32 := 0
  payloadSize : UInt32 := 0
  messageMeta : MessageMeta := {}
  deriving DecidableEq

/-- `sizeof(varlen_slot_header)`. -/
def varlenSlotHeaderSize : UInt32 := 32

/-- Round up to the next multiple of a power of two, in 32-bit arithmetic. -/
def alignUpU32 (value alignment : UInt32) : UInt32 :=
  (value + alignment - 1) &&& ~~~(alignment - 1)

/-- The slot size `try_reserve` computes for a payload. -/
def neededFor (block : ControlBlock) (payloadSize : UInt32) : UInt32 :=
  alignUpU32 (varlenSlotHeaderSize + payloadSize) block.dataAlignment

/-- The mathematical slot size: header and payload rounded up, without a bound. -/
def exactSlotSize (block : ControlBlock) (payloadSize : UInt32) : Nat :=
  (32 + payloadSize.toNat + block.dataAlignment.toNat - 1) / block.dataAlignment.toNat *
    block.dataAlignment.toNat

theorem toNat_and_not_mask {mask : UInt32} {exponent : Nat} (value : UInt32)
    (shape : mask.toNat = 2 ^ exponent - 1) :
    (value &&& ~~~mask).toNat = value.toNat / 2 ^ exponent * 2 ^ exponent := by
  have below : value.toNat < 2 ^ 32 := value.toNat_lt
  apply Nat.eq_of_testBit_eq
  intro index
  rw [UInt32.toNat_and, Nat.testBit_and, Nat.testBit_mul_two_pow, Nat.testBit_div_two_pow]
  have flipped : (~~~mask).toNat.testBit index = (decide (index < 32) && !decide (index < exponent)) := by
    rw [← UInt32.toNat_toBitVec, UInt32.toBitVec_not, BitVec.testBit_toNat, BitVec.getLsbD_not,
      ← BitVec.testBit_toNat, UInt32.toNat_toBitVec, shape, Nat.testBit_two_pow_sub_one]
  rw [flipped]
  by_cases high : index < exponent
  · simp [high]
  · have shifted : index - exponent + exponent = index := by omega
    by_cases wide : index < 32
    · simp [high, wide, shifted, Nat.not_lt.mp high]
    · have clear : value.toNat.testBit index = false :=
        Nat.testBit_lt_two_pow (Nat.lt_of_lt_of_le below (Nat.pow_le_pow_right (by decide) (by omega)))
      simp [clear, shifted]

section Sizes

variable {block : ControlBlock} (shape : Shape block) (payloadSize : UInt32)
include shape

/-- What the 32-bit computation yields, wrap included. -/
theorem toNat_neededFor : (neededFor block payloadSize).toNat =
    (32 + payloadSize.toNat + block.dataAlignment.toNat - 1) % 2 ^ 32 /
      block.dataAlignment.toNat * block.dataAlignment.toNat := by
  obtain ⟨exponent, small, power⟩ := shape.alignment
  have positive := shape.alignment_pos
  have bounded := shape.alignment_le
  have mask : (block.dataAlignment - 1).toNat = 2 ^ exponent - 1 := by
    rw [UInt32.toNat_sub, power]
    have one : (1 : UInt32).toNat = 1 := rfl
    rw [one]
    omega
  have sum : (varlenSlotHeaderSize + payloadSize + block.dataAlignment - 1).toNat =
      (32 + payloadSize.toNat + block.dataAlignment.toNat - 1) % 2 ^ 32 := by
    have header : varlenSlotHeaderSize.toNat = 32 := rfl
    have one : (1 : UInt32).toNat = 1 := rfl
    rw [UInt32.toNat_sub, UInt32.toNat_add, UInt32.toNat_add, header, one]
    omega
  rw [neededFor, alignUpU32, toNat_and_not_mask _ mask, sum, power]

theorem exactSlotSize_ge : 32 + payloadSize.toNat ≤ exactSlotSize block payloadSize := by
  have positive := shape.alignment_pos
  have rounded := Nat.div_add_mod (32 + payloadSize.toNat + block.dataAlignment.toNat - 1)
    block.dataAlignment.toNat
  have rest := Nat.mod_lt (32 + payloadSize.toNat + block.dataAlignment.toNat - 1) positive
  rw [Nat.mul_comm] at rounded
  unfold exactSlotSize
  omega

omit shape in
theorem exactSlotSize_dvd : block.dataAlignment.toNat ∣ exactSlotSize block payloadSize :=
  Nat.dvd_mul_left _ _

/-- Without a 32-bit wrap the computed slot size is the mathematical one. -/
theorem toNat_neededFor_exact
    (unwrapped : 32 + payloadSize.toNat + block.dataAlignment.toNat - 1 < 2 ^ 32) :
    (neededFor block payloadSize).toNat = exactSlotSize block payloadSize := by
  rw [toNat_neededFor shape, Nat.mod_eq_of_lt unwrapped, exactSlotSize]

end Sizes

namespace VarlenSlotHeader

/-- The 32 bytes a header assignment stores. -/
def encode (header : VarlenSlotHeader) : List UInt8 :=
  bytesU32 header.slotSize ++ bytesU32 header.payloadSize ++ bytesU64 header.messageMeta.userData ++
    bytesU64 header.messageMeta.timestampNs ++ bytesU32 header.messageMeta.schemaId ++
    bytesU32 header.messageMeta.flags

end VarlenSlotHeader

def loadMeta (data : Memory) (index : Nat) : MessageMeta where
  userData := loadU64 data (index + 8)
  timestampNs := loadU64 data (index + 16)
  schemaId := loadU32 data (index + 24)
  flags := loadU32 data (index + 28)

/-- The header the bytes at an index spell out. -/
def loadHeader (data : Memory) (index : Nat) : VarlenSlotHeader where
  slotSize := loadU32 data index
  payloadSize := loadU32 data (index + 4)
  messageMeta := loadMeta data index

def storeHeader (data : Memory) (index : Nat) (header : VarlenSlotHeader) : Memory :=
  data.write index header.encode

@[simp]
theorem length_encode (header : VarlenSlotHeader) : header.encode.length = 32 := by
  simp [VarlenSlotHeader.encode]

theorem loadHeader_storeHeader (data : Memory) (index : Nat) (header : VarlenSlotHeader) :
    loadHeader (storeHeader data index header) index = header := by
  have field (offset width : Nat) (fits : offset + width ≤ 32) :
      (storeHeader data index header).read (index + offset) width =
        (header.encode.drop offset).take width :=
    Memory.read_write_part (by simpa using fits)
  have slot := field 0 4 (by decide)
  have payload := field 4 4 (by decide)
  have user := field 8 8 (by decide)
  have stamp := field 16 8 (by decide)
  have schema := field 24 4 (by decide)
  have flags := field 28 4 (by decide)
  simp only [Nat.add_zero] at slot
  simp only [loadHeader, loadMeta, loadU32, loadU64, slot, payload, user, stamp, schema, flags]
  simp [VarlenSlotHeader.encode, List.drop_append, List.drop_of_length_le,
    List.take_of_length_le, ofNat_leValue_bytesU32, ofNat_leValue_bytesU64]

theorem confined_storeHeader (data : Memory) (index : Nat) (header : VarlenSlotHeader) :
    (storeHeader data index header).Confined data index 32 :=
  Memory.confined_write (Nat.le_refl _) (by simp)

theorem loadHeader_congr {first second : Memory} {index : Nat}
    (agree : first.Agree second index 32) : loadHeader first index = loadHeader second index := by
  have slot : first.Agree second index 4 := agree.narrow 0 4 (by decide)
  simp only [loadHeader, loadMeta, loadU32_congr slot,
    loadU32_congr (agree.narrow 4 4 (by decide)),
    loadU64_congr (agree.narrow 8 8 (by decide)),
    loadU64_congr (agree.narrow 16 8 (by decide)),
    loadU32_congr (agree.narrow 24 4 (by decide)),
    loadU32_congr (agree.narrow 28 4 (by decide))]

end SpscRing.Varlen
