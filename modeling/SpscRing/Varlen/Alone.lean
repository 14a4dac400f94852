import SpscRing.Varlen.Footprint
import SpscRing.Varlen.ReserveRun

/-! `try_reserve` with no consumer step in between, as a function of the state
it is called in. -/

namespace SpscRing.Varlen

open SpscRing.Foundation

section Definitions

variable (block : ControlBlock) (state : State)

/-- `try_reserve`, with no consumer step in between, returns a result and leaves
the segment as in `after`. -/
def TryReserves (payloadSize : UInt32) (messageMeta : MessageMeta) (result : ReserveResult)
    (after : State) : Prop :=
  ∃ count, (machine block).Run Machine.Always state
      (.call (tryReserve payloadSize messageMeta) :: List.replicate count .writer) after ∧
    after.writerPc = .idle ∧ after.returned = some result

/-- The free-space check of `try_reserve` fails. -/
def Crowded (payloadSize : UInt32) : Prop :=
  state.writePos - state.readPos + (neededFor block payloadSize).toUInt64 > block.dataCapacity

/-- The slot does not fit before the ring end. -/
def Short (payloadSize : UInt32) : Prop :=
  wrapPadding block state.writePos < (neededFor block payloadSize).toUInt64

instance (payloadSize : UInt32) : Decidable (Crowded block state payloadSize) :=
  inferInstanceAs (Decidable (_ > _))

instance (payloadSize : UInt32) : Decidable (Short block state payloadSize) :=
  inferInstanceAs (Decidable (_ < _))

/-- What a plain call that passes its size check leaves behind. -/
def State.reserveAlone (call : ReserveCall) : State :=
  if Crowded block state call.payloadSize then state.finishReserve { status := .full }
  else if Short block state call.payloadSize then
    if Crowded block (state.padded block) call.payloadSize then
      (state.padded block).finishReserve { status := .full }
    else { (state.padded block).reserved block call with writerPc := .idle }
  else { state.reserved block call with writerPc := .idle }

end Definitions

variable {block : ControlBlock} {state after other : State} {slots : List Slot}
variable {payloadSize : UInt32} {messageMeta : MessageMeta} {result again : ReserveResult}

theorem writer_stuck (idle : state.writerPc = .idle) : (machine block).step state .writer = none := by
  simp [machine, step, writerStep, idle]

theorem TryReserves.unique (one : TryReserves block state payloadSize messageMeta result after)
    (two : TryReserves block state payloadSize messageMeta again other) :
    after = other ∧ result = again := by
  obtain ⟨count, run, idle, returned⟩ := one
  obtain ⟨more, rerun, otherIdle, otherReturned⟩ := two
  cases run with
  | next taken _ rest =>
    cases rerun with
    | next takenAgain _ restAgain =>
      rw [taken] at takenAgain
      cases takenAgain
      have same := rest.unique_of_stuck restAgain (writer_stuck idle) (writer_stuck otherIdle)
      subst same
      exact ⟨rfl, Option.some.inj (returned.symm.trans otherReturned)⟩

section Padding

variable (shape : Shape block) (inRange : InRange block state)
include shape inRange

theorem toNat_padded : (state.padded block).writePos.toNat =
    state.writePos.toNat + (wrapPadding block state.writePos).toNat := by
  have edge := index_add_wrapPadding shape state.writePos
  unfold InRange at inRange
  exact toNat_add (by omega)

/-- The padding ends at the ring end, so the front behind it is at index 0. -/
theorem padded_index : (state.padded block).writePos.toNat % block.dataCapacity.toNat = 0 := by
  have edge := index_add_wrapPadding shape state.writePos
  unfold InRange at inRange
  rw [← indexOf_eq]
  exact index_padEnd shape (by omega)

end Padding

/-- With nothing reserved or unread the whole ring is free. -/
theorem not_crowded_of_empty (empty : state.readPos = state.writePos)
    (fits : (neededFor block payloadSize).toNat ≤ block.dataCapacity.toNat) :
    ¬ Crowded block state payloadSize := by
  rw [Crowded, empty, UInt64.sub_self, UInt64.zero_add, gt_iff_lt, UInt64.lt_iff_toNat_lt,
    UInt32.toNat_toUInt64]
  omega

/-- With the front at index 0 the whole ring is ahead. -/
theorem not_short_of_index (shape : Shape block)
    (start : state.writePos.toNat % block.dataCapacity.toNat = 0)
    (fits : (neededFor block payloadSize).toNat ≤ block.dataCapacity.toNat) :
    ¬ Short block state payloadSize := by
  rw [Short, wrapPadding_lt_iff shape, start]
  omega

theorem not_short_padded (shape : Shape block) (inRange : InRange block state)
    (fits : (neededFor block payloadSize).toNat ≤ block.dataCapacity.toNat) :
    ¬ Short block (state.padded block) payloadSize :=
  not_short_of_index shape (padded_index shape inRange) fits

/-- The outcome is `full` on a shortage of free bytes before or after a padding,
and a slot otherwise. -/
theorem reserveAlone_status {call : ReserveCall}
    (returned : (state.reserveAlone block call).returned = some result) :
    (result.status = .ok ∨ result.status = .full) ∧
      (result.status = .full ↔ Crowded block state call.payloadSize ∨
        (Short block state call.payloadSize ∧ Crowded block (state.padded block) call.payloadSize)) := by
  unfold State.reserveAlone at returned
  split at returned
  · rename_i crowded
    cases returned
    simp [crowded]
  · rename_i roomy
    split at returned
    · rename_i short
      split at returned
      · rename_i crowded
        cases returned
        simp [short, crowded]
      · rename_i roomyAgain
        cases returned
        simp [roomy, roomyAgain]
    · rename_i contiguous
      cases returned
      simp [roomy, contiguous]

/-- A call that passes its guards does what `reserveAlone` says. -/
theorem tryReserves_alone (shape : Shape block) (inRange : InRange block state)
    (idle : state.writerPc = .idle) (free : state.pending = false)
    (fits : (neededFor block payloadSize).toNat ≤ block.dataCapacity.toNat)
    (messageMeta : MessageMeta) :
    ∃ result, TryReserves block state payloadSize messageMeta result
      (state.reserveAlone block { payloadSize, messageMeta }) := by
  let call : ReserveCall := { payloadSize, messageMeta }
  let entered : State := { state with writerPc := .loadRead call state.writePos }
  have entry : (machine block).Run Machine.Always state [.call (.reserve call), .writer] entered :=
    run_entry state call idle free fits
  unfold State.reserveAlone
  split
  · rename_i crowded
    exact ⟨_, 2, entry.append (run_full entered call rfl crowded), rfl, rfl⟩
  · rename_i roomy
    split
    · rename_i short
      let padded : State :=
        { entered.padded block with writerPc := .loadRead call (entered.padded block).writePos }
      have padding : (machine block).Run Machine.Always state _ padded :=
        entry.append (run_padded entered call rfl roomy short)
      split
      · rename_i crowded
        exact ⟨_, 7, padding.append (run_full padded call rfl crowded), rfl, rfl⟩
      · rename_i roomyAgain
        have reserving := run_reserved padded call rfl roomyAgain (not_short_padded shape inRange fits)
        rw [afterReserve_plain _ _ rfl rfl] at reserving
        exact ⟨_, 9, padding.append reserving, rfl, rfl⟩
    · rename_i contiguous
      have reserving := run_reserved entered call rfl roomy contiguous
      rw [afterReserve_plain _ _ rfl rfl] at reserving
      exact ⟨_, 4, entry.append reserving, rfl, rfl⟩

/-- The producer alone on a fresh ring: a payload that passes the size check gets the slot
at position 0, and the state is the one with that slot written. -/
theorem fresh_reserves (shape : Shape block) (fresh : Meta.SameFronts {} block.rbMeta) (data : Memory)
    (fits : (neededFor block payloadSize).toNat ≤ block.dataCapacity.toNat)
    (messageMeta : MessageMeta) :
    TryReserves block (initial block data) payloadSize messageMeta
      { status := .ok, payload := some 32, position := 0 }
      { (initial block data).reserved block { payloadSize, messageMeta } with writerPc := .idle } := by
  have read : (initial block data).readPos = 0 := fresh.readPos
  have written : (initial block data).writePos = 0 := fresh.writePos
  have limit := block.dataCapacity.toNat_lt
  have inRange : InRange block (initial block data) := by
    rw [InRange, written, UInt64.toNat_zero, Nat.zero_add]
    exact limit
  have start : (initial block data).writePos.toNat % block.dataCapacity.toNat = 0 := by
    rw [written, UInt64.toNat_zero, Nat.zero_mod]
  have alone : (initial block data).reserveAlone block { payloadSize, messageMeta } =
      { (initial block data).reserved block { payloadSize, messageMeta } with writerPc := .idle } := by
    simp [State.reserveAlone, not_crowded_of_empty (read.trans written.symm) fits,
      not_short_of_index shape start fits]
  obtain ⟨result, reserves⟩ := tryReserves_alone shape inRange rfl rfl fits messageMeta
  rw [alone] at reserves
  have returned := reserves.choose_spec.2.2
  simp only [State.reserved, State.writeSlot, written, indexOf, UInt64.zero_mod] at returned
  cases returned
  exact reserves

/-- A slot larger than the ring is refused before the fronts are looked at. -/
theorem tryReserves_tooLarge (idle : state.writerPc = .idle) (free : state.pending = false)
    (large : block.dataCapacity.toNat < (neededFor block payloadSize).toNat)
    (messageMeta : MessageMeta) :
    TryReserves block state payloadSize messageMeta { status := .messageTooLarge }
      (state.finishReserve { status := .messageTooLarge }) := by
  have exceeds : (neededFor block payloadSize).toUInt64 > block.dataCapacity := by
    rw [gt_iff_lt, UInt64.lt_iff_toNat_lt, UInt32.toNat_toUInt64]
    exact large
  refine ⟨0, ?_, rfl, rfl⟩
  apply Machine.replay_run
  simp [Machine.replay, Machine.Always, machine, step, tryReserve, idle, State.beginReserve, free,
    exceeds]

/-- The producer alone stays within a lap of the consumer's front, so a front
two laps below the end of the range is enough for the invariant. -/
theorem Inv.writer_run (shape : Shape block) {count : Nat} (inv : Inv block state slots)
    (far : state.readPos.toNat + 2 * block.dataCapacity.toNat < 2 ^ 64)
    (run : (machine block).Run Machine.Always state (List.replicate count .writer) after) :
    ∃ more, Inv block after (slots ++ more) ∧ ProducerFrame state after := by
  induction count generalizing state slots with
  | zero =>
    cases run
    exact ⟨[], by simpa using inv, .refl _⟩
  | succ count ih =>
    cases run with
    | next taken _ rest =>
      have bounded := inv.bounded
      have frame := writerStep_frame taken
      obtain ⟨first, kept⟩ := inv_writerStep shape inv (by unfold InRange; omega) taken
      obtain ⟨more, final, further⟩ := ih kept (by rw [frame.readPos]; exact far) rest
      exact ⟨first ++ more, by simpa using final, frame.trans further⟩

theorem TryReserves.inv (shape : Shape block) (inv : Inv block state slots)
    (small : NoWrap block state) (sound : SizeSound block payloadSize) (idle : state.writerPc = .idle)
    (reserved : TryReserves block state payloadSize messageMeta result after) :
    ∃ more, Inv block after (slots ++ more) ∧ ProducerFrame state after := by
  obtain ⟨count, run, -, -⟩ := reserved
  have ordered := Nat.le_trans inv.front_le inv.committed
  unfold NoWrap at small
  cases run with
  | next taken _ rest =>
    simp only [machine, step, tryReserve, idle, Option.some.injEq] at taken
    let call : ReserveCall := { payloadSize, messageMeta }
    have frame : ProducerFrame state _ := beginReserve_frame block state call
    have entered : Inv block (state.beginReserve block call) slots := inv_beginReserve inv idle sound
    rw [taken] at frame entered
    obtain ⟨more, final, further⟩ := entered.writer_run shape (by rw [frame.readPos]; omega) rest
    exact ⟨more, final, frame.trans further⟩

end SpscRing.Varlen
