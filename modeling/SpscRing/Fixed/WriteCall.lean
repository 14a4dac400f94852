import SpscRing.Fixed.FullTest

/-! One call of `write`, from the state it is made in to any point up to its
return, whatever the consumer does meanwhile. -/

namespace SpscRing.Fixed

open SpscRing.Foundation

section Definitions

variable (block : ControlBlock)

/-- The producer's side of the ring is as it was. -/
structure Untouched (entry state : State) : Prop where
  data : state.data = entry.data
  writePos : state.writePos = entry.writePos
  commitPos : state.commitPos = entry.commitPos
  commitSeq : state.commitSeq = entry.commitSeq
  reservedEnd : state.reservedEnd = entry.reservedEnd
  pending : state.pending = entry.pending

/-- The call found nothing pending and holds the slot at the reservation front. -/
structure Claimed (entry state : State) : Prop where
  free : entry.pending = false
  reserved : state.reserved = some (indexOf block entry.writePos)
  writePos : state.writePos.toNat = entry.writePos.toNat + (itemSize block).toNat
  room : entry.writePos.toNat + (itemSize block).toNat ≤
    state.readPos.toNat + block.dataCapacity.toNat

/-- The data region with the whole source copied to a position. -/
def copied (data : Memory) (position : UInt64) (source : Source) : Memory :=
  data.write (indexOf block position) (source.data.read 0 source.size.toNat)

/-- How far a call of `write` made in the state `entry` has come. -/
def WriteCall (entry : State) (source : Source) (state : State) : Prop :=
  match state.writerPc with
  | .loadWrite given | .loadRead given _ | .storeWrite given _ =>
    given = some source ∧ Untouched entry state
  | .copy given write => given = source ∧ write = entry.writePos ∧ Claimed block entry state ∧
    state.data = entry.data ∧ state.commitPos = entry.commitPos
  | .storeCommit => Claimed block entry state ∧
    state.data = copied block entry.data entry.writePos source ∧ state.commitPos = entry.commitPos
  | .bumpCommit => Claimed block entry state ∧
    state.data = copied block entry.data entry.writePos source ∧ state.commitPos = state.writePos
  | .idle => (state.reserved = none ∧ Untouched entry state) ∨
    (Claimed block entry state ∧ state.data = copied block entry.data entry.writePos source ∧
      state.commitPos = state.writePos)

end Definitions

variable {block : ControlBlock} {entry state before after : State} {source : Source}
variable {actions : List Action}

theorem copied_nothing {data : Memory} {position : UInt64} (empty : source.size = 0) :
    copied block data position source = data := by
  funext address
  exact Memory.write_apart (by simp [empty]; omega)

theorem Untouched.consume (untouched : Untouched entry before) (frame : ConsumerFrame before after) :
    Untouched entry after :=
  ⟨frame.data.trans untouched.data, frame.writePos.trans untouched.writePos,
    frame.commitPos.trans untouched.commitPos, frame.commitSeq.trans untouched.commitSeq,
    frame.reservedEnd.trans untouched.reservedEnd, frame.pending.trans untouched.pending⟩

theorem Claimed.consume (claimed : Claimed block entry before) (frame : ConsumerFrame before after) :
    Claimed block entry after := by
  have forward := UInt64.le_iff_toNat_le.mp frame.readPos
  refine ⟨claimed.free, frame.reserved.trans claimed.reserved, ?_, ?_⟩
  · rw [frame.writePos]
    exact claimed.writePos
  · exact Nat.le_trans claimed.room (Nat.add_le_add_right forward _)

/-- The consumer does not disturb a call. -/
theorem WriteCall.consume (call : WriteCall block entry source before)
    (frame : ConsumerFrame before after) : WriteCall block entry source after := by
  cases here : before.writerPc with
  | loadWrite _ | loadRead _ _ | storeWrite _ _ =>
    simp only [WriteCall, frame.writerPc, here] at call ⊢
    exact ⟨call.1, call.2.consume frame⟩
  | copy _ _ =>
    simp only [WriteCall, frame.writerPc, here, frame.data, frame.commitPos] at call ⊢
    exact ⟨call.1, call.2.1, call.2.2.1.consume frame, call.2.2.2⟩
  | storeCommit | bumpCommit =>
    simp only [WriteCall, frame.writerPc, here, frame.data, frame.commitPos, frame.writePos] at call ⊢
    exact ⟨call.1.consume frame, call.2⟩
  | idle =>
    simp only [WriteCall, frame.writerPc, here, frame.data, frame.commitPos, frame.writePos,
      frame.reserved] at call ⊢
    rcases call with ⟨refused, untouched⟩ | ⟨claimed, published⟩
    · exact .inl ⟨refused, untouched.consume frame⟩
    · exact .inr ⟨claimed.consume frame, published⟩

/-- The store of the reservation front claims the slot found free. -/
theorem writeCall_storeWrite (untouched : Untouched entry state) (free : state.pending = false)
    (inRange : state.writePos.toNat + (itemSize block).toNat < 2 ^ 64)
    (room : state.writePos.toNat + (itemSize block).toNat ≤
      state.readPos.toNat + block.dataCapacity.toNat) :
    WriteCall block entry source
      ((state.storeWrite block state.writePos).afterReserve (some source) state.writePos) := by
  have claimed : Claimed block entry (state.storeWrite block state.writePos) := by
    refine ⟨untouched.pending.symm.trans free, ?_, ?_, ?_⟩
    all_goals rw [← untouched.writePos]
    exacts [rfl, toNat_add inRange, room]
  by_cases sized : 0 < source.size
  · simp only [State.afterReserve, if_pos sized]
    exact ⟨rfl, untouched.writePos, { claimed with }, untouched.data, untouched.commitPos⟩
  · have empty : source.size = 0 := by simpa using sized
    simp only [State.afterReserve, if_neg sized, State.beginCommit]
    refine ⟨{ claimed with }, ?_, untouched.commitPos⟩
    rw [copied_nothing empty]
    exact untouched.data

theorem writeCall_writerStep (occupancy : Occupancy block before)
    (inRange : before.writePos.toNat + (itemSize block).toNat < 2 ^ 64)
    (call : WriteCall block entry source before) (taken : writerStep block before = some after) :
    WriteCall block entry source after := by
  have writer := occupancy.writer
  cases here : before.writerPc with
  | idle => simp [writerStep, here] at taken
  | loadWrite given =>
    simp only [WriteCall, here] at call
    simp only [writerStep, here] at taken
    cases taken
    exact ⟨call.1, { call.2 with }⟩
  | loadRead given write =>
    simp only [WriteCall, here] at call
    simp only [writerStep, here] at taken
    split at taken
    · cases taken
      exact .inl ⟨rfl, { call.2 with }⟩
    · cases taken
      exact ⟨call.1, { call.2 with }⟩
  | storeWrite given write =>
    simp only [WriteCall, here] at call
    simp only [WriterFronts, here] at writer
    obtain ⟨rfl, untouched⟩ := call
    obtain ⟨free, rfl, room⟩ := writer
    simp only [writerStep, here] at taken
    cases taken
    exact writeCall_storeWrite untouched free inRange room
  | copy given write =>
    simp only [WriteCall, here] at call
    simp only [WriterFronts, here] at writer
    obtain ⟨rfl, rfl, claimed, data, commitPos⟩ := call
    simp only [writerStep, here, State.beginCommit, writer.1] at taken
    cases taken
    refine ⟨{ claimed with }, ?_, commitPos⟩
    rw [← data]
    rfl
  | storeCommit =>
    simp only [WriteCall, here] at call
    simp only [WriterFronts, here] at writer
    obtain ⟨claimed, data, -⟩ := call
    simp only [writerStep, here] at taken
    cases taken
    exact ⟨{ claimed with }, data, writer.2⟩
  | bumpCommit =>
    simp only [WriteCall, here] at call
    obtain ⟨claimed, data, commitPos⟩ := call
    simp only [writerStep, here] at taken
    cases taken
    exact .inr ⟨{ claimed with }, data, commitPos⟩

theorem writeCall_step {action : Action} (occupancy : Occupancy block before)
    (call : WriteCall block entry source before) (admitted : During block before action after)
    (taken : step block before action = some after) : WriteCall block entry source after := by
  rcases frame_of_beside occupancy.reader admitted.beside taken with stepped | frame
  · exact writeCall_writerStep occupancy admitted.inRange call stepped
  · exact call.consume frame

theorem writeCall_begin (occupancy : Occupancy block entry)
    (taken : step block entry (.call (.write source.data source.size)) = some after) :
    WriteCall block entry source after ∧ Occupancy block after := by
  have idle : entry.writerPc = .idle := by
    cases here : entry.writerPc with
    | idle => rfl
    | loadWrite _ | loadRead _ _ | storeWrite _ _ | copy _ _ | storeCommit | bumpCommit =>
      simp [step, here] at taken
  simp only [step, idle] at taken
  cases taken
  refine ⟨?_, occupancy_beginReserve occupancy idle⟩
  unfold State.beginReserve
  split
  · exact .inl ⟨rfl, ⟨rfl, rfl, rfl, rfl, rfl, rfl⟩⟩
  · exact ⟨rfl, ⟨rfl, rfl, rfl, rfl, rfl, rfl⟩⟩

/-- A call of `write` is always somewhere on its way, whatever the consumer does. -/
theorem writeCall_run (source : Source) (geometry : FixedGeometry block)
    (occupancy : Occupancy block entry)
    (taken : step block entry (.call (.write source.data source.size)) = some before)
    (run : (machine block).Run (During block) before actions after) :
    WriteCall block entry source after ∧ Occupancy block after := by
  refine run.preserves (fun state => WriteCall block entry source state ∧ Occupancy block state) ?_
    (writeCall_begin occupancy taken)
  rintro before action after ⟨call, occupancy⟩ admitted taken
  exact ⟨writeCall_step occupancy call admitted taken,
    occupancy_step geometry occupancy admitted.toDisciplined taken⟩

theorem During.writer (small : before.writePos.toNat + (itemSize block).toNat < 2 ^ 64) :
    During block before .writer after :=
  ⟨⟨trivial, small⟩, trivial⟩

/-- From its store of the reservation front on, the producer alone finishes the call. -/
theorem publish_alone (block : ControlBlock) (state : State) (source : Source) (write : UInt64)
    (small : (write + itemSize block).toNat + (itemSize block).toNat < 2 ^ 64) :
    ∃ actions after, (machine block).Run (During block)
        ((state.storeWrite block write).afterReserve (some source) write) actions after ∧
      after.writerPc = .idle ∧ after.reserved = some (indexOf block write) ∧
      after.data = copied block state.data write source ∧ after.readPos = state.readPos ∧
      after.commitPos = write + itemSize block := by
  by_cases sized : 0 < source.size
  · simp only [State.afterReserve, if_pos sized]
    exact ⟨[.writer, .writer, .writer], _, .next rfl (.writer small) (.next rfl (.writer small)
      (.next rfl (.writer small) (.done _))), rfl, rfl, rfl, rfl, rfl⟩
  · have empty : source.size = 0 := by simpa using sized
    simp only [State.afterReserve, if_neg sized]
    exact ⟨[.writer, .writer], _, .next rfl (.writer small) (.next rfl (.writer small) (.done _)),
      rfl, rfl, (copied_nothing empty).symm, rfl, rfl⟩

/-- On a ring that is not full, a call of `write` made with nothing pending
returns true, with the whole source copied and one slot published. -/
theorem write_alone (block : ControlBlock) (entry : State) (source : Source)
    (idle : entry.writerPc = .idle) (free : entry.pending = false)
    (notFull : ¬ (entry.writePos % block.dataCapacity = entry.readPos % block.dataCapacity ∧
      entry.writePos > entry.readPos))
    (small : entry.writePos.toNat + (itemSize block).toNat + (itemSize block).toNat < 2 ^ 64) :
    ∃ called actions after,
      step block entry (.call (.write source.data source.size)) = some called ∧
      (machine block).Run (During block) called actions after ∧
      after.writerPc = .idle ∧ after.reserved = some (indexOf block entry.writePos) ∧
      after.data = copied block entry.data entry.writePos source ∧
      after.readPos = entry.readPos ∧ after.commitPos = entry.writePos + itemSize block := by
  have moved : (entry.writePos + itemSize block).toNat =
      entry.writePos.toNat + (itemSize block).toNat := toNat_add (by omega)
  have first : entry.writePos.toNat + (itemSize block).toNat < 2 ^ 64 := by omega
  obtain ⟨actions, after, run, outcome⟩ := publish_alone block
    { entry with writerPc := .storeWrite (some source) entry.writePos } source entry.writePos
    (by rw [moved]; exact small)
  refine ⟨{ entry with writerPc := .loadWrite (some source) }, .writer :: .writer :: .writer :: actions,
    after, ?_, ?_, outcome⟩
  · simp [step, idle, State.beginReserve, free]
  · exact .next rfl (.writer first) (.next (if_neg notFull) (.writer first)
      (.next rfl (.writer first) run))

end SpscRing.Fixed
