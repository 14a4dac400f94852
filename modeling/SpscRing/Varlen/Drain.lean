import SpscRing.Varlen.Full
import SpscRing.Varlen.Scan

/-! Draining the ring and trying again: a message that fits the ring is refused
at most once in a row. -/

namespace SpscRing.Varlen

open SpscRing.Foundation

section Definitions

variable (block : ControlBlock)

/-- `read` with a handler that accepts, nobody else stepping. -/
def ReadsAlone (state : State) (outcome : ReadOutcome) (after : State) : Prop :=
  ∃ count, (machine block).Run Machine.Always state
      (.read .handler :: (List.replicate count true).map .reader) after ∧
    after.readerPc = .idle ∧ after.log.reads = state.log.reads ++ [outcome]

/-- Calling `read` with an accepting handler until it returns `false`. -/
inductive Drains : State → State → Prop where
  | last {state after : State} {outcome : ReadOutcome} (read : ReadsAlone block state outcome after)
      (stops : outcome.acceptedMessage = none) : Drains state after
  | more {state between after : State} {offer : Offer}
      (read : ReadsAlone block state (.accepted offer) between) (rest : Drains between after) :
      Drains state after

/-- Drain the ring, then `try_reserve`. -/
def Attempts (state : State) (payloadSize : UInt32) (messageMeta : MessageMeta)
    (result : ReserveResult) (after : State) : Prop :=
  ∃ drained, Drains block state drained ∧
    TryReserves block drained payloadSize messageMeta result after

/-- The first attempt returns, with a slot or with `full`; after `full` the
second attempt returns, with a slot. -/
structure Recovers (state : State) (payloadSize : UInt32) (messageMeta : MessageMeta) : Prop where
  returns : ∃ result after, Attempts block state payloadSize messageMeta result after
  outcome : ∀ result after, Attempts block state payloadSize messageMeta result after →
    result.status = .ok ∨ result.status = .full
  again : ∀ result after, Attempts block state payloadSize messageMeta result after →
    result.status = .full →
      (∃ final last, Attempts block after payloadSize messageMeta final last) ∧
      ∀ final last, Attempts block after payloadSize messageMeta final last → final.status = .ok

end Definitions

variable {block : ControlBlock} {state after : State} {slots : List Slot} {outcome : ReadOutcome}
variable {payloadSize : UInt32} {messageMeta : MessageMeta} {result : ReserveResult}

theorem ReadsAlone.ends (reads : ReadsAlone block state outcome after)
    (idle : state.readerPc = .idle) :
    ConsumerFrame state after ∧ ReadEnds block state .handler (· = true) after.readPos outcome := by
  obtain ⟨count, run, returned, logged⟩ := reads
  have scanning : Scanning block state .handler (· = true) after :=
    scanning_run block .handler idle (fun _ given => (List.mem_replicate.mp given).2) run
  obtain ⟨other, again, ends⟩ := scanning.returned returned
  rw [logged] at again
  have same : outcome = other := by simpa using again
  exact ⟨scanning.frame, same ▸ ends⟩

/-- A handler that accepts leaves only two ways for a call to end. -/
theorem ReadsAlone.cases (reads : ReadsAlone block state outcome after)
    (idle : state.readerPc = .idle) :
    (outcome = .empty ∧ ¬ Whole block state.data state.commitPos.toNat after.readPos.toNat) ∨
      ((∃ offer, outcome = .accepted offer) ∧ state.readPos.toNat < after.readPos.toNat ∧
        after.readPos.toNat ≤ state.commitPos.toNat) := by
  cases (reads.ends idle).2 with
  | empty _ none => exact .inl ⟨rfl, none⟩
  | declined _ _ verdict =>
    obtain ⟨answer, rfl, refused⟩ := verdict
    cases refused
  | accepted skipped found _ moved =>
    have forward := skipped.le
    have sized := found.whole.sized
    have within := found.whole.within
    exact .inr ⟨⟨_, rfl⟩, by omega, by omega⟩

/-- Every accepting `read` uses up published bytes, so draining comes to an end. -/
theorem drains_exists (block : ControlBlock) (idle : state.readerPc = .idle) :
    ∃ after, Drains block state after := by
  induction left : state.commitPos.toNat - state.readPos.toNat using Nat.strongRecOn
    generalizing state with
  | ind left ih =>
    obtain ⟨count, between, outcome, run, returned, frame, logged, -⟩ :=
      read_ends block .handler idle true
    have reads : ReadsAlone block state outcome between := ⟨count, run, returned, logged⟩
    rcases reads.cases idle with ⟨rfl, -⟩ | ⟨⟨offer, rfl⟩, forward, within⟩
    · exact ⟨between, .last reads rfl⟩
    · have committed := congrArg UInt64.toNat frame.commitPos
      obtain ⟨after, rest⟩ := ih (between.commitPos.toNat - between.readPos.toNat) (by omega) returned rfl
      exact ⟨after, .more reads rest⟩

theorem Drains.spec (drains : Drains block state after) (idle : state.readerPc = .idle) :
    ConsumerFrame state after ∧ after.readerPc = .idle ∧
      ¬ Whole block after.data after.commitPos.toNat after.readPos.toNat := by
  induction drains with
  | last reads stops =>
    have frame := (reads.ends idle).1
    rcases reads.cases idle with ⟨-, none⟩ | ⟨⟨offer, rfl⟩, -⟩
    · exact ⟨frame, reads.choose_spec.2.1, by rw [frame.data, frame.commitPos]; exact none⟩
    · cases stops
  | more reads _ ih =>
    obtain ⟨frame, rest⟩ := ih reads.choose_spec.2.1
    exact ⟨(reads.ends idle).1.trans frame, rest⟩

section Invariant

/-- The steps of the consumer alone keep the invariant. -/
theorem Inv.reader_run {answers : List Bool} (inv : Inv block state slots)
    (run : (machine block).Run Machine.Always state (answers.map .reader) after) :
    ∃ rest, Inv block after rest := by
  induction answers generalizing state slots with
  | nil =>
    cases run
    exact ⟨slots, inv⟩
  | cons answer answers ih =>
    cases run with
    | next taken _ rest =>
      obtain ⟨next, kept, -⟩ := inv_readerStep inv taken
      exact ih kept rest

theorem ReadsAlone.inv (reads : ReadsAlone block state outcome after) (inv : Inv block state slots)
    (idle : state.readerPc = .idle) : ∃ rest, Inv block after rest := by
  obtain ⟨count, run, -⟩ := reads
  cases run with
  | next taken _ rest =>
    simp only [machine, step, idle, Option.some.injEq] at taken
    subst taken
    exact (inv.look (.loadRead .handler) trivial (by simp [idle, ReaderPc.consuming])).reader_run rest

theorem Drains.inv (drains : Drains block state after) (inv : Inv block state slots)
    (idle : state.readerPc = .idle) : ∃ rest, Inv block after rest := by
  induction drains generalizing slots with
  | last reads _ => exact reads.inv inv idle
  | more reads _ ih =>
    obtain ⟨rest, kept⟩ := reads.inv inv idle
    exact ih kept reads.choose_spec.2.1

/-- A published slot is whole, so a reader that finds none is at the published front. -/
theorem Inv.read_eq_of_not_whole (inv : Inv block state slots)
    (none : ¬ Whole block state.data state.commitPos.toNat state.readPos.toNat) :
    state.readPos = state.commitPos := by
  apply UInt64.toNat_inj.mp
  refine Nat.le_antisymm inv.front_le (Nat.not_lt.mp fun unread => none ?_)
  obtain ⟨first, rest, -, live, tiled⟩ := inv.tiled.uncons unread
  have header : headerAt block state.data state.readPos.toNat = first.header := live.1.header
  have sized := live.1.positive
  have within := tiled.le
  exact ⟨by rw [header]; exact sized, by rw [header]; exact within⟩

end Invariant

/-- An idle producer with nothing pending, an idle consumer and nothing unread. -/
structure Drained (block : ControlBlock) (state : State) : Prop where
  inv : ∃ slots, Inv block state slots
  writerIdle : state.writerPc = .idle
  readerIdle : state.readerPc = .idle
  free : state.pending = false
  empty : state.readPos = state.writePos

theorem Drains.drained (drains : Drains block state after) (inv : Inv block state slots)
    (writerIdle : state.writerPc = .idle) (readerIdle : state.readerPc = .idle)
    (free : state.pending = false) : Drained block after ∧ after.writePos = state.writePos := by
  obtain ⟨frame, returned, none⟩ := drains.spec readerIdle
  obtain ⟨rest, kept⟩ := drains.inv inv readerIdle
  have idle := frame.writerPc.trans writerIdle
  have unpending := frame.pending.trans free
  have settled := kept.settled idle unpending
  exact ⟨⟨⟨rest, kept⟩, idle, returned, unpending,
    (kept.read_eq_of_not_whole none).trans settled.equal.symm⟩, frame.writePos⟩

section Attempt

variable (shape : Shape block) (fits : (neededFor block payloadSize).toNat ≤ block.dataCapacity.toNat)
include shape fits

/-- On a drained ring only the tail before the ring end can stand in the way,
and then the refused call has put it behind the front. -/
theorem Drained.reserves (drained : Drained block state) (inRange : InRange block state)
    (reserves : TryReserves block state payloadSize messageMeta result after) :
    result.status = .ok ∨ (result.status = .full ∧ Short block state payloadSize ∧
      after = (state.padded block).finishReserve { status := .full }) := by
  obtain ⟨expected, alone⟩ :=
    tryReserves_alone shape inRange drained.writerIdle drained.free fits messageMeta
  obtain ⟨rfl, rfl⟩ := reserves.unique alone
  have roomy := not_crowded_of_empty drained.empty fits
  obtain ⟨either, full⟩ := reserveAlone_status reserves.choose_spec.2.2
  rcases either with ok | refused
  · exact .inl ok
  · obtain ⟨short, crowded⟩ := (full.mp refused).resolve_left roomy
    exact .inr ⟨refused, short, by simp [State.reserveAlone, roomy, short, crowded]⟩

theorem attempts_exists (inv : Inv block state slots) (inRange : InRange block state)
    (writerIdle : state.writerPc = .idle) (readerIdle : state.readerPc = .idle)
    (free : state.pending = false) (messageMeta : MessageMeta) :
    ∃ result after, Attempts block state payloadSize messageMeta result after := by
  obtain ⟨middle, drains⟩ := drains_exists block readerIdle
  obtain ⟨drained, still⟩ := drains.drained inv writerIdle readerIdle free
  have range : InRange block middle := by
    rw [InRange, still]
    exact inRange
  obtain ⟨result, alone⟩ :=
    tryReserves_alone shape range drained.writerIdle drained.free fits messageMeta
  exact ⟨result, _, middle, drains, alone⟩

/-- Whatever fits the ring gets its slot with the first or the second attempt. -/
theorem recovers (inv : Inv block state slots) (small : NoWrap block state)
    (sound : SizeSound block payloadSize) (writerIdle : state.writerPc = .idle)
    (readerIdle : state.readerPc = .idle) (free : state.pending = false) (messageMeta : MessageMeta) :
    Recovers block state payloadSize messageMeta := by
  have once {result : ReserveResult} {after : State}
      (attempts : Attempts block state payloadSize messageMeta result after) :
      ∃ middle, Drained block middle ∧ NoWrap block middle ∧
        TryReserves block middle payloadSize messageMeta result after := by
    obtain ⟨middle, drains, reserves⟩ := attempts
    obtain ⟨drained, still⟩ := drains.drained inv writerIdle readerIdle free
    exact ⟨middle, drained, by rw [NoWrap, still]; exact small, reserves⟩
  refine ⟨attempts_exists shape fits inv small.inRange writerIdle readerIdle free messageMeta, ?_, ?_⟩
  · intro result after attempts
    obtain ⟨middle, drained, near, reserves⟩ := once attempts
    exact (drained.reserves shape fits near.inRange reserves).imp_right And.left
  · intro result after attempts refused
    obtain ⟨middle, drained, near, reserves⟩ := once attempts
    obtain ⟨slots, kept⟩ := drained.inv
    obtain ⟨more, padded, frame⟩ := reserves.inv shape kept near sound drained.writerIdle
    rcases drained.reserves shape fits near.inRange reserves with ok | ⟨-, -, rfl⟩
    · rw [ok] at refused
      cases refused
    have moved := toNat_padded shape near.inRange
    have edge := index_add_wrapPadding shape middle.writePos
    have start := padded_index shape near.inRange
    have range : InRange block ((middle.padded block).finishReserve { status := .full }) := by
      unfold NoWrap at near
      show (middle.padded block).writePos.toNat + _ < _
      omega
    have reading := frame.readerPc.trans drained.readerIdle
    refine ⟨attempts_exists shape fits padded range rfl reading drained.free messageMeta, ?_⟩
    rintro final last ⟨again, drains, retried⟩
    obtain ⟨emptied, still⟩ := drains.drained padded rfl reading drained.free
    have front : again.writePos.toNat % block.dataCapacity.toNat = 0 := by
      rw [still]
      exact start
    have rangeAgain : InRange block again := by
      rw [InRange, still]
      exact range
    rcases emptied.reserves shape fits rangeAgain retried with ok | ⟨-, short, -⟩
    · exact ok
    · exact absurd short (not_short_of_index shape front fits)

end Attempt

/-- No message that fits the ring is refused forever: drained, a ring takes it
at the first or at the second attempt. -/
theorem drained_ring_recovers {header : ControlBlock} {capacity : UInt64}
    {alignment itemSize : UInt32} {data : Memory}
    (accepted : initControlBlock header capacity .varlen alignment itemSize = some block)
    (reached : (machine block).Reachable (CleanSessions block) (initial block data) state)
    (unwrapped : NoWrap block state) (writerIdle : state.writerPc = .idle)
    (readerIdle : state.readerPc = .idle) (free : state.pending = false)
    (limit : payloadSize.toNat ≤ payloadLimit)
    (fits : exactSlotSize block payloadSize ≤ block.dataCapacity.toNat) :
    Recovers block state payloadSize messageMeta := by
  obtain ⟨⟨shape, -⟩, fresh, -⟩ := initControlBlock_accepted accepted
  obtain ⟨slots, inv⟩ := reachable_inv shape ⟨[], inv_initial data (.of_eq fresh)⟩
    (reached.mono fun _ _ _ => CleanSessions.orderly)
  have sized := unwrapped_of_limit shape limit
  have exact : (neededFor block payloadSize).toNat = exactSlotSize block payloadSize :=
    toNat_neededFor_exact shape _ sized
  exact recovers shape (exact ▸ fits) inv unwrapped (.inl sized) writerIdle readerIdle free messageMeta

/-- The fronts at index 40 of 64: the first attempt at 32 bytes is refused, the
second one gets its slot. -/
theorem drained_ring_recovers_padded : ∃ state,
    (machine sampleBlock).Reachable (CleanSessions sampleBlock) (initial sampleBlock fun _ => 0) state ∧
      state.writePos = 40 ∧ Recovers sampleBlock state 32 {} := by
  obtain ⟨state, run, passed⟩ := (machine sampleBlock).run_of_replay (CleanSessions sampleBlock)
    (initial sampleBlock fun _ => 0)
    (.call (write 8 none) :: List.replicate 7 .writer ++
      .read .handler :: List.replicate 11 (.reader true))
    (fun state => state.writerPc.isIdle && state.readerPc.rank == 0 && !state.pending &&
      state.writePos == 40) (by decide +kernel)
  simp only [Bool.and_eq_true, Bool.not_eq_true', beq_iff_eq, WriterPc.isIdle_iff,
    ReaderPc.rank_eq_zero_iff] at passed
  obtain ⟨⟨⟨writerIdle, readerIdle⟩, free⟩, written⟩ := passed
  refine ⟨state, ⟨_, run⟩, written, ?_⟩
  exact drained_ring_recovers sampleBlock_accepted ⟨_, run⟩
    (by rw [NoWrap, written]; decide) writerIdle readerIdle free (by decide) (by decide)

end SpscRing.Varlen
