import SpscRing.Varlen.Frame
import SpscRing.Varlen.Runs

/-! One call of `try_reserve` executed by the producer alone: what it leaves
behind when it pads, when it reserves and when it gives up. -/

namespace SpscRing.Varlen

open SpscRing.Foundation

variable (block : ControlBlock)

/-- The segment after a padding slot up to the ring end was published. -/
def State.padded (state : State) : State :=
  { state with
    data := storeHeader state.data (indexOf block state.writePos)
      { slotSize := (wrapPadding block state.writePos).toUInt32, payloadSize := 0 }
    writePos := state.writePos + wrapPadding block state.writePos
    commitPos := state.writePos + wrapPadding block state.writePos
    commitSeq := (NotifyWord.bumpNotifyWord state.commitSeq).1 }

/-- The segment after a message slot at the reservation front was reserved. -/
def State.reserved (state : State) (call : ReserveCall) : State :=
  State.writeSlot block
    { state with
      writePos := state.writePos + (neededFor block call.payloadSize).toUInt64
      log := state.log.reserve state.writePos }
    call state.writePos

variable {block} {state before after : State} {call : ReserveCall} {actions more : List Action}

/-- What follows a reservation does not depend on where it was made. -/
theorem afterReserve_pc (state : State) (pc : WriterPc) (call : ReserveCall) (head : UInt64) :
    { state with writerPc := pc }.afterReserve call head = state.afterReserve call head := by
  simp only [State.afterReserve, State.afterCopy, State.beginCommit]

/-- A plain `try_reserve` returns as soon as it has its slot. -/
theorem afterReserve_plain (state : State) (head : UInt64) (source : call.source = none)
    (commits : call.commits = false) :
    state.afterReserve call head = { state with writerPc := .idle } := by
  simp [State.afterReserve, State.afterCopy, source, commits]

section Execution

variable (state call)
variable (here : state.writerPc = .loadRead call state.writePos)
include here

theorem run_full (crowded : state.writePos - state.readPos +
      (neededFor block call.payloadSize).toUInt64 > block.dataCapacity) :
    (machine block).Run Machine.Always state [.writer] (state.finishReserve { status := .full }) := by
  apply Machine.replay_run
  simp [Machine.replay, Machine.Always, machine, step, writerStep, here, crowded]

theorem run_reserved (roomy : ¬ state.writePos - state.readPos +
      (neededFor block call.payloadSize).toUInt64 > block.dataCapacity)
    (contiguous : ¬ wrapPadding block state.writePos < (neededFor block call.payloadSize).toUInt64) :
    (machine block).Run Machine.Always state [.writer, .writer, .writer]
      ((state.reserved block call).afterReserve call state.writePos) := by
  apply Machine.replay_run
  simp only [Machine.replay, Machine.Always, machine, step, writerStep, here, if_neg roomy,
    if_neg contiguous, if_true]
  exact congrArg some (afterReserve_pc (state.reserved block call) _ call state.writePos)

theorem run_padded (roomy : ¬ state.writePos - state.readPos +
      (neededFor block call.payloadSize).toUInt64 > block.dataCapacity)
    (short : wrapPadding block state.writePos < (neededFor block call.payloadSize).toUInt64) :
    (machine block).Run Machine.Always state [.writer, .writer, .writer, .writer, .writer]
      { state.padded block with writerPc := .loadRead call (state.padded block).writePos } := by
  apply Machine.replay_run
  simp only [Machine.replay, Machine.Always, machine, step, writerStep, here, if_neg roomy,
    if_pos short, if_true]
  rfl

/-- With enough contiguous room, one look at `read_pos` decides between a slot
and a full ring. -/
theorem returns_of_contiguous (source : call.source = none) (commits : call.commits = false)
    (contiguous : ¬ wrapPadding block state.writePos < (neededFor block call.payloadSize).toUInt64) :
    ∃ count after result, (machine block).Run Machine.Always state (List.replicate count .writer) after ∧
      after.writerPc = .idle ∧ after.returned = some result ∧
      (result.status = .full ↔ state.writePos - state.readPos +
        (neededFor block call.payloadSize).toUInt64 > block.dataCapacity) := by
  by_cases crowded : state.writePos - state.readPos +
      (neededFor block call.payloadSize).toUInt64 > block.dataCapacity
  · exact ⟨1, _, _, run_full state call here crowded, rfl, rfl, by simp [crowded]⟩
  · have run := run_reserved state call here crowded contiguous
    rw [afterReserve_plain _ _ source commits] at run
    exact ⟨3, _, { status := .ok, payload := some _, position := _ }, run, rfl, rfl, by simp [crowded]⟩

end Execution

/-- The entry of a call that passes the pending guard and the size check. -/
theorem run_entry (state : State) (call : ReserveCall) (idle : state.writerPc = .idle) (free : state.pending = false)
    (fits : (neededFor block call.payloadSize).toNat ≤ block.dataCapacity.toNat) :
    (machine block).Run Machine.Always state [.call (.reserve call), .writer]
      { state with writerPc := .loadRead call state.writePos } := by
  have small : ¬ (neededFor block call.payloadSize).toUInt64 > block.dataCapacity := by
    rw [gt_iff_lt, UInt64.lt_iff_toNat_lt, UInt32.toNat_toUInt64]
    omega
  apply Machine.replay_run
  simp [Machine.replay, Machine.Always, machine, step, idle, State.beginReserve, free, small,
    writerStep]

section Termination

/-- Where the reservation front stands after a padding. -/
def padFront (block : ControlBlock) (front : UInt64) : UInt64 := front + wrapPadding block front

/-- A call returns if the front is at most `pads` paddings away from enough
contiguous room, whatever the consumer has left free. -/
theorem returns_within (state : State) (source : call.source = none) (commits : call.commits = false)
    (pads : Nat)
    (here : state.writerPc = .loadRead call state.writePos)
    (close : ∃ count ≤ pads, ¬ wrapPadding block ((padFront block)^[count] state.writePos) <
      (neededFor block call.payloadSize).toUInt64) :
    ∃ count after, (machine block).Run Machine.Always state (List.replicate count .writer) after ∧
      after.writerPc = .idle := by
  induction pads generalizing state with
  | zero =>
    obtain ⟨count, none, contiguous⟩ := close
    obtain rfl : count = 0 := by omega
    obtain ⟨count, after, result, run, idle, -⟩ :=
      returns_of_contiguous state call here source commits contiguous
    exact ⟨count, after, run, idle⟩
  | succ pads ih =>
    by_cases short : wrapPadding block state.writePos < (neededFor block call.payloadSize).toUInt64
    · by_cases crowded : state.writePos - state.readPos +
          (neededFor block call.payloadSize).toUInt64 > block.dataCapacity
      · exact ⟨1, _, run_full state call here crowded, rfl⟩
      · let padded : State :=
          { state.padded block with writerPc := .loadRead call (state.padded block).writePos }
        obtain ⟨count, within, contiguous⟩ := close
        cases count with
        | zero => exact absurd short contiguous
        | succ count =>
          obtain ⟨steps, after, rest, idle⟩ :=
            ih padded rfl ⟨count, by omega, contiguous⟩
          have padding := run_padded state call here crowded short
          exact ⟨steps + 5, after, padding.append rest, idle⟩
    · obtain ⟨count, after, result, run, idle, -⟩ :=
        returns_of_contiguous state call here source commits short
      exact ⟨count, after, run, idle⟩

/-- Two paddings always suffice, also across the end of the 64-bit range. -/
theorem padFront_aligned (shape : Shape block) (front : UInt64) :
    ∃ count ≤ 2, ((padFront block)^[count] front).toNat % block.dataCapacity.toNat = 0 := by
  have edge := index_add_wrapPadding shape front
  have sum : (padFront block front).toNat =
      (front.toNat + (wrapPadding block front).toNat) % 2 ^ 64 := UInt64.toNat_add _ _
  by_cases wraps : front.toNat + (wrapPadding block front).toNat < 2 ^ 64
  · refine ⟨1, by decide, ?_⟩
    rw [Function.iterate_one, ← indexOf_eq]
    exact index_padEnd shape wraps
  · refine ⟨2, Nat.le_refl _, ?_⟩
    have limit := front.toNat_lt
    have capacity := block.dataCapacity.toNat_lt
    have low : (padFront block front).toNat < block.dataCapacity.toNat := by omega
    have again := index_add_wrapPadding shape (padFront block front)
    rw [Nat.mod_eq_of_lt low] at again
    have next : (padFront block (padFront block front)).toNat = block.dataCapacity.toNat := by
      rw [padFront, UInt64.toNat_add, again]
      exact Nat.mod_eq_of_lt capacity
    simp only [Function.iterate_succ, Function.iterate_zero, Function.comp_apply, id_eq, next]
    exact Nat.mod_self _

theorem reserve_returns (shape : Shape block) (state : State) (call : ReserveCall) (source : call.source = none)
    (commits : call.commits = false)
    (fits : (neededFor block call.payloadSize).toNat ≤ block.dataCapacity.toNat)
    (here : state.writerPc = .loadRead call state.writePos) :
    ∃ count after, (machine block).Run Machine.Always state (List.replicate count .writer) after ∧
      after.writerPc = .idle := by
  obtain ⟨count, within, start⟩ := padFront_aligned shape state.writePos
  refine returns_within state source commits 2 here ⟨count, within, ?_⟩
  rw [wrapPadding_lt_iff shape, start]
  omega

end Termination

end SpscRing.Varlen
