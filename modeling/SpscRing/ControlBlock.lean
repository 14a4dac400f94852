import Mathlib.Data.Nat.Bitwise

/-! The control block of a segment: its geometry, the three fronts and the two
notify words, with the checks of `control_block.hpp` and `fixed_writer.hpp`. -/

namespace SpscRing

inductive LayoutType where
  | fixed
  | varlen
  deriving DecidableEq

def LayoutType.toUInt32 : LayoutType → UInt32
  | .fixed => 0
  | .varlen => 1

/-- The fronts and wait words of `struct meta`. -/
structure Meta where
  writePos : UInt64 := 0
  readPos : UInt64 := 0
  readWakeSeq : UInt32 := 0
  commitPos : UInt64 := 0
  commitSeq : UInt32 := 0
  deriving DecidableEq

/-- No front is behind where it was. -/
structure Meta.Advanced (before after : Meta) : Prop where
  readPos : before.readPos ≤ after.readPos
  commitPos : before.commitPos ≤ after.commitPos
  writePos : before.writePos ≤ after.writePos

/-- The fronts are where they were. -/
structure Meta.SameFronts (before after : Meta) : Prop where
  readPos : after.readPos = before.readPos
  commitPos : after.commitPos = before.commitPos
  writePos : after.writePos = before.writePos

theorem Meta.SameFronts.of_eq {before after : Meta} (same : after = before) :
    before.SameFronts after := by
  subst same
  exact ⟨rfl, rfl, rfl⟩

namespace Meta.Advanced

variable {before between after : Meta}

theorem of_eq (readPos : after.readPos = before.readPos)
    (commitPos : after.commitPos = before.commitPos) (writePos : after.writePos = before.writePos) :
    before.Advanced after :=
  ⟨UInt64.le_of_eq readPos.symm, UInt64.le_of_eq commitPos.symm, UInt64.le_of_eq writePos.symm⟩

theorem trans (first : before.Advanced between) (second : between.Advanced after) :
    before.Advanced after :=
  ⟨UInt64.le_trans first.readPos second.readPos, UInt64.le_trans first.commitPos second.commitPos,
    UInt64.le_trans first.writePos second.writePos⟩

end Meta.Advanced

theorem Meta.SameFronts.advanced {before after : Meta} (same : before.SameFronts after) :
    before.Advanced after :=
  .of_eq same.readPos same.commitPos same.writePos

structure ControlBlock where
  magic : UInt32 := 0
  versionMajor : UInt16 := 0
  versionMinor : UInt32 := 0
  headerSize : UInt32 := 0
  layoutType : UInt32 := 0
  reserved0 : UInt32 := 0
  rbMeta : Meta := {}
  dataCapacity : UInt64 := 0
  dataAlignment : UInt32 := 0
  fixedItemSize : UInt32 := 0
  reserved : Vector UInt64 6 := Vector.replicate 6 0
  deriving DecidableEq

def expectedMagic : UInt32 := 0x53505343

def versionMajor : UInt16 := 0

def versionMinor : UInt32 := 2

/-- `sizeof(control_block)`, pinned to five cache lines. -/
def controlBlockSize : UInt32 := 5 * 64

def isValidDataAlignment (alignment : UInt32) : Bool :=
  alignment != 0 && (alignment &&& (alignment - 1)) == 0 && decide (alignment ≤ 64)

/-- Validate the geometry and initialise the block in place; `none` is the
`false` of the source, which leaves the block untouched. -/
def initControlBlock (header : ControlBlock) (dataCapacity : UInt64) (layout : LayoutType)
    (dataAlignment : UInt32) (fixedItemSize : UInt32 := 0) : Option ControlBlock :=
  if !isValidDataAlignment dataAlignment then none
  else if dataCapacity = 0 ∨ dataCapacity % dataAlignment.toUInt64 ≠ 0 then none
  else some { header with
    magic := expectedMagic
    versionMajor := versionMajor
    versionMinor := versionMinor
    headerSize := controlBlockSize
    layoutType := layout.toUInt32
    reserved0 := 0
    rbMeta := { writePos := 0, commitPos := 0, readPos := 0, commitSeq := 0, readWakeSeq := 0 }
    dataCapacity := dataCapacity
    dataAlignment := dataAlignment
    fixedItemSize := fixedItemSize
    reserved := Vector.replicate 6 0 }

def validateControlBlock (header : ControlBlock) : Bool :=
  header.magic == expectedMagic && header.versionMajor == versionMajor &&
    header.headerSize == controlBlockSize &&
    (header.dataAlignment == 0 || isValidDataAlignment header.dataAlignment) &&
    header.dataCapacity != 0

/-- `is_valid_fixed_ring`, the pre-flight check of a fixed ring. -/
def isValidFixedRing (header : ControlBlock) : Bool :=
  validateControlBlock header && header.layoutType == LayoutType.fixed.toUInt32 &&
    header.fixedItemSize != 0 && header.dataCapacity % header.fixedItemSize.toUInt64 == 0

/-- The data region index of a position. -/
def indexOf (block : ControlBlock) (position : UInt64) : Nat := (position % block.dataCapacity).toNat

theorem indexOf_eq {block : ControlBlock} (position : UInt64) :
    indexOf block position = position.toNat % block.dataCapacity.toNat :=
  UInt64.toNat_mod _ _

/-- A usable alignment and room for some data. -/
structure Shape (header : ControlBlock) : Prop where
  alignment : ∃ exponent ≤ 6, header.dataAlignment.toNat = 2 ^ exponent
  positive : 0 < header.dataCapacity.toNat

/-- The geometry `init_control_block` enforces; an attach check does not see
that the capacity is a multiple of the alignment. -/
structure Geometry (header : ControlBlock) : Prop extends Shape header where
  divides : header.dataAlignment.toNat ∣ header.dataCapacity.toNat

/-- What every front is a multiple of: the alignment, as far as the ring end has it too. -/
def granule (header : ControlBlock) : Nat :=
  Nat.gcd header.dataAlignment.toNat header.dataCapacity.toNat

theorem alignment_power {alignment : UInt32} (valid : isValidDataAlignment alignment = true) :
    ∃ exponent ≤ 6, alignment.toNat = 2 ^ exponent := by
  simp only [isValidDataAlignment, Bool.and_eq_true, bne_iff_ne, ne_eq, beq_iff_eq,
    decide_eq_true_eq] at valid
  obtain ⟨⟨nonzero, single⟩, small⟩ := valid
  have bound : alignment.toNat ≤ 64 := UInt32.le_iff_toNat_le.mp small
  have power : ∀ value ≤ 64, UInt32.ofNat value ≠ 0 →
      UInt32.ofNat value &&& (UInt32.ofNat value - 1) = 0 → ∃ exponent ≤ 6, value = 2 ^ exponent := by
    decide
  have same : UInt32.ofNat alignment.toNat = alignment := UInt32.ofNat_toNat
  refine power alignment.toNat bound ?_ ?_
  · rw [same]
    exact nonzero
  · rw [same]
    exact single

section Accepted

variable {header block : ControlBlock} {capacity : UInt64} {layout : LayoutType}
variable {alignment itemSize : UInt32}

/-- Everything an accepted initialisation guarantees about the block. -/
theorem initControlBlock_accepted
    (accepted : initControlBlock header capacity layout alignment itemSize = some block) :
    Geometry block ∧ block.rbMeta = {} ∧ block.dataCapacity = capacity ∧
      block.dataAlignment = alignment ∧ block.fixedItemSize = itemSize := by
  unfold initControlBlock at accepted
  split at accepted
  · cases accepted
  · rename_i aligned
    split at accepted
    · cases accepted
    · rename_i shaped
      cases accepted
      simp only [not_or, ne_eq, not_not] at shaped
      obtain ⟨nonzero, multiple⟩ := shaped
      have whole : capacity.toNat % alignment.toNat = 0 := by
        simpa using congrArg UInt64.toNat multiple
      refine ⟨⟨⟨alignment_power (by simpa using aligned), ?_⟩, Nat.dvd_of_mod_eq_zero whole⟩,
        rfl, rfl, rfl, rfl⟩
      exact Nat.pos_of_ne_zero fun zero => nonzero (UInt64.toNat_inj.mp (by simpa using zero))

/-- What `init_control_block` leaves behind passes the attach check. -/
theorem initControlBlock_validated
    (accepted : initControlBlock header capacity layout alignment itemSize = some block) :
    validateControlBlock block = true ∧ block.layoutType = layout.toUInt32 := by
  unfold initControlBlock at accepted
  split at accepted
  · cases accepted
  · rename_i aligned
    split at accepted
    · cases accepted
    · rename_i shaped
      cases accepted
      have usable : isValidDataAlignment alignment = true := by simpa using aligned
      have roomy : capacity ≠ 0 := fun zero => shaped (.inl zero)
      simp [validateControlBlock, usable, roomy]

end Accepted

namespace Shape

variable {header : ControlBlock} (shape : Shape header)
include shape

theorem alignment_pos : 0 < header.dataAlignment.toNat := by
  obtain ⟨exponent, -, power⟩ := shape.alignment
  exact power ▸ Nat.two_pow_pos exponent

theorem alignment_le : header.dataAlignment.toNat ≤ 64 := by
  obtain ⟨exponent, small, power⟩ := shape.alignment
  calc header.dataAlignment.toNat = 2 ^ exponent := power
    _ ≤ 2 ^ 6 := Nat.pow_le_pow_right (by decide) small

/-- An alignment divides every larger power of two, in particular `2^32` and `2^64`. -/
theorem alignment_dvd {exponent : Nat} (large : 6 ≤ exponent) :
    header.dataAlignment.toNat ∣ 2 ^ exponent := by
  obtain ⟨own, small, power⟩ := shape.alignment
  exact power ▸ Nat.pow_dvd_pow 2 (by omega)

/-- An alignment of at most a slot header's 32 bytes divides them. -/
theorem alignment_dvd_header (small : header.dataAlignment.toNat ≤ 32) :
    header.dataAlignment.toNat ∣ 32 := by
  obtain ⟨exponent, -, power⟩ := shape.alignment
  have bound : exponent ≤ 5 := by
    by_contra large
    have grown : 2 ^ 6 ≤ 2 ^ exponent := Nat.pow_le_pow_right (by decide) (by omega)
    omega
  rw [power]
  exact Nat.pow_dvd_pow 2 bound

end Shape

section Granule

variable {header : ControlBlock}

theorem granule_dvd_alignment : granule header ∣ header.dataAlignment.toNat := Nat.gcd_dvd_left _ _

theorem granule_dvd_capacity : granule header ∣ header.dataCapacity.toNat := Nat.gcd_dvd_right _ _

theorem Geometry.granule_eq (geometry : Geometry header) :
    granule header = header.dataAlignment.toNat :=
  Nat.gcd_eq_left geometry.divides

/-- Being a multiple of the granule survives the reduction of a position to its index. -/
theorem granule_dvd_index {position : Nat} (aligned : granule header ∣ position) :
    granule header ∣ position % header.dataCapacity.toNat :=
  (Nat.dvd_mod_iff granule_dvd_capacity).mpr aligned

end Granule

end SpscRing
