import SpscRing.Fixed.System
import SpscRing.Foundation.Slots

/-! The representation invariant of the fixed-size ring: three fronts in whole
slots within one lap, and at most one outstanding slot. -/

namespace SpscRing.Fixed

open SpscRing.Foundation

/-- The geometry of a valid fixed ring, in bytes. -/
structure FixedGeometry (block : ControlBlock) : Prop where
  positive : 0 < (itemSize block).toNat
  divides : (itemSize block).toNat ∣ block.dataCapacity.toNat
  capacity : 0 < block.dataCapacity.toNat

theorem fixedGeometry_of_valid {block : ControlBlock} (valid : isValidFixedRing block = true) :
    FixedGeometry block := by
  simp only [isValidFixedRing, validateControlBlock, Bool.and_eq_true, bne_iff_ne, ne_eq,
    beq_iff_eq] at valid
  obtain ⟨⟨⟨⟨-, roomy⟩, -⟩, sized⟩, whole⟩ := valid
  refine ⟨?_, ?_, Nat.pos_of_ne_zero fun zero => roomy (UInt64.toNat_inj.mp (by simpa using zero))⟩
  · rw [itemSize, UInt32.toNat_toUInt64]
    exact Nat.pos_of_ne_zero fun zero => sized (UInt32.toNat_inj.mp zero)
  · apply Nat.dvd_of_mod_eq_zero
    simpa [itemSize] using congrArg UInt64.toNat whole

section Predicates

variable (block : ControlBlock)

/-- The caller's promise about what `write` copies. -/
def Sized (source : Option Source) : Prop :=
  ∀ given ∈ source, given.size.toNat ≤ (itemSize block).toNat

/-- Nothing is reserved beyond what is published. -/
structure Settled (state : State) : Prop where
  free : state.pending = false
  equal : state.writePos = state.commitPos

/-- Exactly one slot is reserved, and it holds what the producer wrote so far. -/
structure Outstanding (state : State) : Prop where
  guarded : state.pending = true
  reserved : state.writePos.toNat = state.commitPos.toNat + (itemSize block).toNat
  stop : state.reservedEnd = state.writePos
  draft : state.data.slot block.dataCapacity.toNat (itemSize block).toNat state.commitPos.toNat =
    state.log.draft

def WriterOk (state : State) : Prop :=
  match state.writerPc with
  | .idle => Settled state ∨ Outstanding block state
  | .loadWrite source => Settled state ∧ Sized block source
  | .loadRead source write => Settled state ∧ Sized block source ∧ write = state.writePos
  | .storeWrite source write => Settled state ∧ Sized block source ∧ write = state.writePos ∧
    write.toNat + (itemSize block).toNat ≤ state.readPos.toNat + block.dataCapacity.toNat
  | .copy source write => Outstanding block state ∧ Sized block (some source) ∧
    write = state.commitPos
  | .storeCommit => Outstanding block state
  | .bumpCommit => Settled state

def ReaderOk (state : State) : Prop :=
  match state.readerPc with
  | .idle | .loadRead _ | .bumpRead => True
  | .loadCommit _ read => read = state.readPos
  | .copyOut _ read => read = state.readPos ∧
    state.readPos.toNat + (itemSize block).toNat ≤ state.commitPos.toNat
  | .fetchAdd count =>
    state.readPos.toNat + count.toNat * (itemSize block).toNat ≤ state.commitPos.toNat

/-- The order of the fronts, all of them in whole slots. -/
structure Fronts (state : State) : Prop where
  consumed : state.readPos.toNat ≤ state.commitPos.toNat
  published : state.commitPos.toNat ≤ state.writePos.toNat
  bounded : state.writePos.toNat ≤ state.readPos.toNat + block.dataCapacity.toNat
  readWhole : (itemSize block).toNat ∣ state.readPos.toNat
  commitWhole : (itemSize block).toNat ∣ state.commitPos.toNat
  writeWhole : (itemSize block).toNat ∣ state.writePos.toNat

/-- A slot that `try_read` returned was published. -/
def Viewed (state : State) : Prop :=
  ∀ position ∈ state.log.views,
    position.toNat + (itemSize block).toNat ≤ state.commitPos.toNat

structure Inv (state : State) : Prop where
  fronts : Fronts block state
  writer : WriterOk block state
  reader : ReaderOk block state
  viewed : Viewed block state

/-- The fronts stay clear of the end of the 64-bit range. -/
def NoWrap (state : State) : Prop :=
  state.writePos.toNat + block.dataCapacity.toNat < 2 ^ 63

/-- Writes fit their slot and `read_advance` stays within the published slots. -/
def WithinContract (state : State) : Action → Prop
  | .call (.write _ size) => size.toNat ≤ (itemSize block).toNat
  | .read (.readAdvance count) =>
    state.readPos.toNat + count.toNat * (itemSize block).toNat ≤ state.commitPos.toNat
  | _ => True

/-- One producer session whose callers and fronts keep to the contract. -/
structure SingleSession (before : State) (action : Action) (after : State) : Prop where
  contract : WithinContract block before action
  unwrapped : NoWrap block before
  single : action ≠ .restart

end Predicates

section Decidability

variable (block : ControlBlock)

instance Action.decidableRestart (action : Action) : Decidable (action = .restart) :=
  match action with
  | .restart => .isTrue rfl
  | .call _ | .fill _ _ | .writer | .read _ | .reader => .isFalse nofun

instance (state : State) (action : Action) : Decidable (WithinContract block state action) :=
  match action with
  | .call (.write _ size) => inferInstanceAs (Decidable (size.toNat ≤ (itemSize block).toNat))
  | .read (.readAdvance count) => inferInstanceAs (Decidable
      (state.readPos.toNat + count.toNat * (itemSize block).toNat ≤ state.commitPos.toNat))
  | .call .tryReserve | .call .commit | .fill _ _ | .writer | .restart | .read .tryRead
  | .read (.read _) | .reader => .isTrue trivial

instance (state : State) : Decidable (NoWrap block state) :=
  inferInstanceAs (Decidable (state.writePos.toNat + block.dataCapacity.toNat < 2 ^ 63))

instance (before : State) (action : Action) (after : State) :
    Decidable (SingleSession block before action after) :=
  decidable_of_iff (WithinContract block before action ∧ NoWrap block before ∧ action ≠ .restart)
    ⟨fun ⟨contract, unwrapped, single⟩ => ⟨contract, unwrapped, single⟩,
      fun ⟨contract, unwrapped, single⟩ => ⟨contract, unwrapped, single⟩⟩

end Decidability

/-- A ring of two slots of 16 bytes. -/
def sampleBlock : ControlBlock where
  magic := expectedMagic
  versionMajor := versionMajor
  versionMinor := versionMinor
  headerSize := controlBlockSize
  layoutType := LayoutType.fixed.toUInt32
  dataCapacity := 32
  dataAlignment := 16
  fixedItemSize := 16

theorem sampleBlock_accepted : initControlBlock {} 32 .fixed 16 16 = some sampleBlock := by
  decide

end SpscRing.Fixed
