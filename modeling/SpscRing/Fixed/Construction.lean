import SpscRing.Fixed.WriteCall

/-! What the check of the `fixed_writer` constructor is worth. It lets an item
size of zero pass, which `is_valid_fixed_ring` refuses. -/

namespace SpscRing.Fixed

open SpscRing.Foundation

section Definitions

variable (block : ControlBlock)

/-- A disciplined run in which a new producer session starts only when
everything reserved has been published. -/
structure Orderly (before : State) (action : Action) (after : State) : Prop
    extends Disciplined block before action after where
  clean : action = .restart → before.writePos = before.commitPos

/-- From a position on, exactly `count` slots in a row pass the test of
`try_read` against the published front. -/
structure Readable (position commit : UInt64) (count : Nat) : Prop where
  found : ∀ index < count, position.toNat + index * (itemSize block).toNat < commit.toNat
  empty : commit.toNat ≤ position.toNat + count * (itemSize block).toNat

/-- One more slot is readable than before, counted from where the consumer stood. -/
def OneFurther (before after : State) : Prop :=
  ∃ count, Readable block before.readPos before.commitPos count ∧
    Readable block before.readPos after.commitPos (count + 1)

/-- Every call of `write` that returns true publishes one slot, whatever
happened before and whatever the consumer does meanwhile. -/
def WritesPublish : Prop :=
  ∀ data entry called source size actions state,
    (machine block).Reachable (Orderly block) (initial block data) entry →
    step block entry (.call (.write source size)) = some called →
    (machine block).Run (During block) called actions state →
    state.writerPc = .idle → state.reserved ≠ none → OneFurther block entry state

/-- What the operations of a fixed ring need: a valid block, non-zero divisors in
`try_reserve` and `try_read` and in `item_count`, and writes that count. -/
structure Serviceable : Prop where
  valid : isValidFixedRing block = true
  capacity : block.dataCapacity ≠ 0
  item : itemSize block ≠ 0
  writes : WritesPublish block

end Definitions

variable {block : ControlBlock} {entry state before after : State} {action : Action}

/-- Fronts that are a number of slots apart. -/
theorem readable_of_eq {position commit : UInt64} {count : Nat} (positive : 0 < (itemSize block).toNat)
    (apart : commit.toNat = position.toNat + count * (itemSize block).toNat) :
    Readable block position commit count := by
  refine ⟨fun index less => ?_, Nat.le_of_eq apart⟩
  have step : index * (itemSize block).toNat < count * (itemSize block).toNat :=
    Nat.mul_lt_mul_of_pos_right less positive
  omega

/-- With nothing pending, nothing is reserved beyond what is published. -/
def Settles (state : State) : Prop := state.pending = false → state.writePos = state.commitPos

theorem settles_writerStep (occupancy : Occupancy block before) (settles : Settles before)
    (taken : writerStep block before = some after) : Settles after := by
  have writer := occupancy.writer
  cases here : before.writerPc with
  | idle => simp [writerStep, here] at taken
  | loadWrite _ | bumpCommit =>
    simp only [writerStep, here] at taken
    cases taken
    exact settles
  | loadRead _ _ =>
    simp only [writerStep, here] at taken
    split at taken <;> cases taken <;> exact settles
  | storeWrite source write =>
    simp only [writerStep, here] at taken
    cases taken
    obtain ⟨pc, quiet⟩ := afterReserve_eq (before.storeWrite block write) source write
    rw [quiet]
    intro free
    cases free
  | copy source write =>
    simp only [WriterFronts, here] at writer
    simp only [writerStep, here] at taken
    cases taken
    obtain ⟨pc, quiet⟩ := beginCommit_eq _
    rw [quiet]
    exact fun free => absurd writer.1 (by simp [show before.pending = false from free])
  | storeCommit =>
    simp only [WriterFronts, here] at writer
    simp only [writerStep, here] at taken
    cases taken
    exact fun _ => writer.2.symm

theorem settles_step (occupancy : Occupancy block before) (settles : Settles before)
    (admitted : Orderly block before action after) (taken : step block before action = some after) :
    Settles after := by
  rcases step_cases taken with ⟨_, _, _, _, rfl⟩ | written | ⟨rfl, rfl⟩ | ⟨_, rfl⟩ | read
  · exact settles
  · exact settles_writerStep occupancy settles written
  · exact fun _ => admitted.clean rfl
  · exact settles
  · have frame := readerStep_frame occupancy.reader read
    intro free
    rw [frame.writePos, frame.commitPos]
    exact settles (frame.pending.symm.trans free)

theorem reachable_settles (geometry : FixedGeometry block) {data : Memory}
    (fresh : Meta.SameFronts {} block.rbMeta)
    (reached : (machine block).Reachable (Orderly block) (initial block data) state) :
    Occupancy block state ∧ Settles state := by
  refine reached.invariant (fun state => Occupancy block state ∧ Settles state) ?_ ?_
  · exact ⟨occupancy_initial data fresh, fun _ => fresh.writePos.trans fresh.commitPos.symm⟩
  · rintro before action after ⟨occupancy, settles⟩ admitted taken
    exact ⟨occupancy_step geometry occupancy admitted.toDisciplined taken,
      settles_step occupancy settles admitted taken⟩

/-- A call that claimed a slot on a settled ring and published it. -/
theorem Claimed.oneFurther (geometry : FixedGeometry block) (occupancy : Occupancy block entry)
    (settles : Settles entry) (claimed : Claimed block entry state)
    (published : state.commitPos = state.writePos) : OneFurther block entry state := by
  have fronts := occupancy.fronts
  obtain ⟨count, apart⟩ : (itemSize block).toNat ∣ entry.commitPos.toNat - entry.readPos.toNat :=
    Nat.dvd_sub fronts.commitWhole fronts.readWhole
  have consumed := fronts.consumed
  have before : entry.commitPos.toNat = entry.readPos.toNat + count * (itemSize block).toNat := by
    rw [Nat.mul_comm]
    omega
  refine ⟨count, readable_of_eq geometry.positive before, readable_of_eq geometry.positive ?_⟩
  have equal := congrArg UInt64.toNat (settles claimed.free)
  have moved := claimed.writePos
  rw [published, Nat.succ_mul]
  omega

theorem writesPublish_of_valid (valid : isValidFixedRing block = true)
    (fresh : Meta.SameFronts {} block.rbMeta) : WritesPublish block := by
  intro data entry called source size actions state reached taken run idle succeeded
  have geometry := fixedGeometry_of_valid valid
  obtain ⟨occupancy, settles⟩ := reachable_settles geometry fresh reached
  obtain ⟨call, -⟩ := writeCall_run ⟨source, size⟩ geometry occupancy taken run
  simp only [WriteCall, idle] at call
  rcases call with ⟨refused, -⟩ | ⟨claimed, -, published⟩
  · exact absurd refused succeeded
  · exact claimed.oneFurther geometry occupancy settles published

section Initialised

variable {header : ControlBlock} {capacity : UInt64} {alignment size : UInt32}

/-- Past the constructor, only an item size of zero keeps a block from being valid. -/
theorem valid_of_attached
    (accepted : initControlBlock header capacity .fixed alignment size = some block)
    (attached : attachesFixedWriter block = true) (sized : size ≠ 0) :
    isValidFixedRing block = true := by
  obtain ⟨-, -, -, -, rfl⟩ := initControlBlock_accepted accepted
  obtain ⟨validated, layout⟩ := initControlBlock_validated accepted
  have whole : block.dataCapacity % itemSize block = 0 := by
    simpa [attachesFixedWriter, sized] using attached
  simpa [isValidFixedRing, validated, layout, sized, itemSize] using whole

/-- On an initialised fixed ring the constructor's check guarantees what the
operations need exactly when the item size is not zero. -/
theorem constructor_sufficient_iff
    (accepted : initControlBlock header capacity .fixed alignment size = some block) :
    (attachesFixedWriter block = true → Serviceable block) ↔ size ≠ 0 := by
  obtain ⟨geometry, fresh, -, -, rfl⟩ := initControlBlock_accepted accepted
  constructor
  · intro enforced zero
    have attached : attachesFixedWriter block = true := by simp [attachesFixedWriter, zero]
    exact (enforced attached).item (toUInt64_eq_zero_iff.mpr zero)
  · intro sized attached
    have valid := valid_of_attached accepted attached sized
    refine ⟨valid, ?_, ?_, writesPublish_of_valid valid (.of_eq fresh)⟩
    · intro zero
      exact absurd geometry.positive (by simp [zero])
    · exact mt toUInt64_eq_zero_iff.mp sized

end Initialised

/-- The ring of two slots of 16 bytes gets past the constructor, with reason. -/
theorem constructor_sufficient_iff_sample : Serviceable sampleBlock :=
  (constructor_sufficient_iff sampleBlock_accepted).mpr (by decide) (by decide)

/-- With an item size of zero the constructor does not abort, `item_count`
divides by zero, and a `write` that returns true makes nothing readable. -/
theorem zero_item_unreadable : ∃ block, initControlBlock {} 32 .fixed 16 0 = some block ∧
    attachesFixedWriter block = true ∧ isValidFixedRing block = false ∧ itemSize block = 0 ∧
    ∃ called actions state,
      step block (initial block fun _ => 0) (.call (.write (fun _ => 7) 16)) = some called ∧
      (machine block).Run (During block) called actions state ∧
      state.writerPc = .idle ∧ state.reserved ≠ none ∧
      ¬ OneFurther block (initial block fun _ => 0) state := by
  let block : ControlBlock := { sampleBlock with fixedItemSize := 0 }
  obtain ⟨called, actions, state, taken, run, idle, reserved, -, -, published⟩ :=
    write_alone block (initial block fun _ => 0) ⟨fun _ => 7, 16⟩ rfl rfl (by decide) (by decide)
  refine ⟨block, by decide, by decide, by decide, by decide, called, actions, state, taken, run, idle,
    by simp [reserved], ?_⟩
  rintro ⟨count, -, further⟩
  have found := further.found 0 (Nat.succ_pos count)
  rw [published] at found
  exact absurd found (by decide)

end SpscRing.Fixed
