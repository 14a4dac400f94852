import SpscRing.Fixed.Occupancy
import SpscRing.Foundation.Fifo

/-! The fixed-size ring refines a bounded first-in first-out queue of whole slots. -/

namespace SpscRing.Fixed

open SpscRing.Foundation

section Definitions

variable (block : ControlBlock)

/-- The bytes of the slot at a position. -/
def State.slotAt (state : State) (position : UInt64) : List UInt8 :=
  state.data.slot block.dataCapacity.toNat (itemSize block).toNat position.toNat

/-- The queue a segment stands for: its published, unread slots. -/
def contents (state : State) : List (List UInt8) :=
  state.data.slots block.dataCapacity.toNat (itemSize block).toNat state.readPos.toNat
    ((state.commitPos.toNat - state.readPos.toNat) / (itemSize block).toNat)

/-- What a step shows of the queue: a commit pushes what the producer wrote, a
non-null `try_read` and the copy of `read` look at the slot they are given, and
`read_advance` removes as many slots as it is told. -/
def observe (state : State) : Action → List (Fifo.Event (List UInt8))
  | .writer =>
    match state.writerPc with
    | .storeCommit => [.push state.log.draft]
    | _ => []
  | .reader =>
    match state.readerPc with
    | .loadCommit _ read => if state.commitPos ≤ read then [] else [.peek (state.slotAt block read)]
    | .copyOut _ read => [.peek (state.slotAt block read)]
    | .fetchAdd count =>
      [.pop (state.data.slots block.dataCapacity.toNat (itemSize block).toNat state.readPos.toNat
        count.toNat)]
    | _ => []
  | _ => []

/-- What a step gives to a caller. `try_read` returns the slot at the head of the queue
with its size, or null when the queue is empty, and `read` copies that slot or returns
false. `try_reserve` returns null while a reservation is pending or the queue is full, and
otherwise the slot whose bytes the next commit pushes. -/
def HandsOut (state : State) : Action → State → Prop
  | .reader, after =>
    match state.readerPc with
    | .loadCommit none _ =>
      (contents block state = [] → after.slot = none) ∧
      ∀ item rest, contents block state = item :: rest → after.outSize = block.fixedItemSize ∧
        ∃ index, after.slot = some index ∧ after.data.read index after.outSize.toNat = item
    | .loadCommit (some size) read =>
      (contents block state = [] → after.slot = none ∧ after.readerPc = .idle) ∧
      (contents block state ≠ [] → after.readerPc = .copyOut size read)
    | .copyOut size _ => ∃ item rest, contents block state = item :: rest ∧
      after.out.length = size.toNat ∧ after.out.take item.length = item.take size.toNat
    | _ => True
  | .writer, after =>
    match state.writerPc with
    | .loadRead source write =>
      ((contents block state).length = itemCount block →
        after.reserved = none ∧ after.writerPc = .idle) ∧
      ((contents block state).length ≠ itemCount block → after.writerPc = .storeWrite source write)
    | .storeWrite _ _ => after.reserved = some (indexOf block state.commitPos) ∧
      after.log.draft = after.slotAt block state.commitPos
    | _ => True
  | .call .tryReserve, after => state.pending = true → after.reserved = none ∧ after.writerPc = .idle
  | _, _ => True

end Definitions

variable {block : ControlBlock} {state before after : State}

section Contents

variable (inv : Inv block state)
include inv

/-- The unread bytes are whole slots. -/
theorem size_mul_count : (itemSize block).toNat *
    ((state.commitPos.toNat - state.readPos.toNat) / (itemSize block).toNat) =
      state.commitPos.toNat - state.readPos.toNat :=
  Nat.mul_div_cancel' (Nat.dvd_sub inv.fronts.commitWhole inv.fronts.readWhole)

omit inv in
/-- What the producer writes stays inside its outstanding slot. -/
theorem confined_fill {offset : Nat} {bytes : List UInt8} (outstanding : Outstanding block state)
    (fits : offset + bytes.length ≤ (itemSize block).toNat) :
    (state.fill block offset bytes).data.Confined state.data
      (state.commitPos.toNat % block.dataCapacity.toNat) (itemSize block).toNat := by
  rw [State.fill, outstanding.position, indexOf_eq]
  exact Memory.confined_write (Nat.le_add_right _ _) (by omega)

/-- A write into the outstanding slot leaves the queue alone. -/
theorem contents_fill {offset : Nat} {bytes : List UInt8} (outstanding : Outstanding block state)
    (fits : offset + bytes.length ≤ (itemSize block).toNat) :
    contents block (state.fill block offset bytes) = contents block state := by
  have whole := size_mul_count inv
  have consumed := inv.fronts.consumed
  have bounded := inv.fronts.bounded
  rw [outstanding.reserved] at bounded
  have confined := confined_fill outstanding fits
  have behind : state.readPos.toNat + (itemSize block).toNat *
      ((state.commitPos.toNat - state.readPos.toNat) / (itemSize block).toNat) ≤
        state.commitPos.toNat := by omega
  exact Memory.slots_confined confined behind bounded

variable (geometry : FixedGeometry block)
include geometry

/-- Publishing the outstanding slot pushes what the producer wrote. -/
theorem contents_commit (outstanding : Outstanding block state)
    (moved : after.commitPos = state.writePos) (front : after.readPos = state.readPos)
    (data : after.data = state.data) :
    contents block after = contents block state ++ [state.log.draft] := by
  have whole := size_mul_count inv
  have consumed := inv.fronts.consumed
  have count : (state.writePos.toNat - state.readPos.toNat) / (itemSize block).toNat =
      (state.commitPos.toNat - state.readPos.toNat) / (itemSize block).toNat + 1 := by
    rw [outstanding.reserved, Nat.sub_add_comm consumed, Nat.add_div_right _ geometry.positive]
  have last : state.readPos.toNat + (itemSize block).toNat *
      ((state.commitPos.toNat - state.readPos.toNat) / (itemSize block).toNat) =
        state.commitPos.toNat := by omega
  rw [contents, moved, front, data, count, Memory.slots_succ, last, outstanding.draft]
  rfl

/-- A reserved slot leaves room for one more in the queue. -/
theorem length_contents_lt (outstanding : Outstanding block state) :
    (contents block state).length < itemCount block := by
  have consumed := inv.fronts.consumed
  have bounded := inv.fronts.bounded
  rw [outstanding.reserved] at bounded
  rw [contents, Memory.length_slots, itemCount, UInt64.toNat_div]
  apply Nat.div_lt_div_of_lt_of_dvd geometry.divides
  have positive := geometry.positive
  omega

omit geometry in
/-- The slot at the consumer's front is the head of the queue. -/
theorem head_contents (published : state.readPos.toNat + (itemSize block).toNat ≤
    state.commitPos.toNat) (positive : 0 < (itemSize block).toNat) :
    (contents block state).head? = some (state.slotAt block state.readPos) := by
  have whole := size_mul_count inv
  obtain ⟨count, more⟩ : ∃ count, (state.commitPos.toNat - state.readPos.toNat) /
      (itemSize block).toNat = count + 1 := by
    apply Nat.exists_eq_add_one_of_ne_zero
    intro none
    rw [none] at whole
    omega
  rw [contents, more]
  simp [Memory.slots, List.range_succ_eq_map, State.slotAt]

omit inv in
/-- The slots that `read_advance` may pass are in front of the queue. -/
theorem advanced_slots {count : UInt64} (published : state.readPos.toNat +
    count.toNat * (itemSize block).toNat ≤ state.commitPos.toNat) :
    state.data.slots block.dataCapacity.toNat (itemSize block).toNat state.readPos.toNat
      count.toNat <+: contents block state := by
  have fits : count.toNat ≤
      (state.commitPos.toNat - state.readPos.toNat) / (itemSize block).toNat :=
    (Nat.le_div_iff_mul_le geometry.positive).mpr (by omega)
  rw [← Memory.slots_take fits]
  exact List.take_prefix _ _

omit inv geometry in
/-- `read_advance` removes whole slots from the front. -/
theorem contents_advance {count : UInt64} (published : state.readPos.toNat +
      count.toNat * (itemSize block).toNat ≤ state.commitPos.toNat)
    (moved : after.readPos = state.readPos + count * itemSize block)
    (commitPos : after.commitPos = state.commitPos) (data : after.data = state.data) :
    contents block after = (contents block state).drop count.toNat := by
  have front := toNat_fetchAdd published
  have fewer : (state.commitPos.toNat - (state.readPos.toNat +
      count.toNat * (itemSize block).toNat)) / (itemSize block).toNat =
        (state.commitPos.toNat - state.readPos.toNat) / (itemSize block).toNat - count.toNat := by
    rw [Nat.sub_add_eq, Nat.mul_comm, Nat.sub_mul_div]
  rw [contents, moved, commitPos, data, front, fewer, contents, Memory.slots_drop,
    Nat.mul_comm count.toNat]

end Contents

/-- Every step of the producer shows the queue exactly what it does to it. -/
theorem simulate_writer (geometry : FixedGeometry block) (inv : Inv block before)
    (taken : writerStep block before = some after) :
    (Fifo.machine (itemCount block)).Run Machine.Always (contents block before)
      (observe block before .writer) (contents block after) := by
  have writer := inv.writer
  cases here : before.writerPc with
  | idle => simp [writerStep, here] at taken
  | loadWrite source | bumpCommit =>
    simp only [writerStep, here] at taken
    cases taken
    simp only [observe, here]
    exact .done _
  | loadRead source write =>
    simp only [writerStep, here] at taken
    simp only [observe, here]
    split at taken <;> cases taken <;> exact .done _
  | storeWrite source write =>
    simp only [writerStep, here] at taken
    cases taken
    obtain ⟨pc, quiet⟩ := afterReserve_eq (before.storeWrite block write) source write
    simp only [observe, here, quiet]
    exact .done _
  | copy source write =>
    simp only [WriterOk, here] at writer
    obtain ⟨outstanding, sized, rfl⟩ := writer
    have copied := copy_eq outstanding source
    rw [← here] at copied
    rw [copied] at taken
    cases taken
    obtain ⟨pc, quiet⟩ := beginCommit_eq
      (before.fill block 0 (source.data.read 0 source.size.toNat))
    have same : contents block (before.fill block 0 (source.data.read 0 source.size.toNat)) =
        contents block before := contents_fill inv outstanding (by simpa using sized source rfl)
    simp only [observe, here, quiet]
    rw [← same]
    exact .done _
  | storeCommit =>
    simp only [WriterOk, here] at writer
    have room := length_contents_lt inv geometry writer
    simp only [writerStep, here, Option.some.injEq] at taken
    have grown : contents block after = contents block before ++ [before.log.draft] :=
      contents_commit inv geometry writer (by rw [← taken]; exact writer.stop) (by rw [← taken])
        (by rw [← taken])
    simp only [observe, here]
    refine .next ?_ trivial (.done _)
    simp only [Fifo.machine, Fifo.step, if_pos room, grown]

/-- Looking at the slot in front is a look at the head of the queue. -/
theorem simulate_peek (geometry : FixedGeometry block) (inv : Inv block before)
    (published : before.readPos.toNat + (itemSize block).toNat ≤ before.commitPos.toNat) :
    (Fifo.machine (itemCount block)).Run Machine.Always (contents block before)
      [.peek (before.slotAt block before.readPos)] (contents block before) := by
  refine .next ?_ trivial (.done _)
  simp only [Fifo.machine, Fifo.step]
  rw [if_pos (head_contents inv published geometry.positive)]

/-- Every step of the consumer shows the queue exactly what it does to it. -/
theorem simulate_reader (geometry : FixedGeometry block) (inv : Inv block before)
    (taken : readerStep block before = some after) :
    (Fifo.machine (itemCount block)).Run Machine.Always (contents block before)
      (observe block before .reader) (contents block after) := by
  have reader := inv.reader
  cases here : before.readerPc with
  | idle => simp [readerStep, here] at taken
  | loadRead size | bumpRead =>
    simp only [readerStep, here] at taken
    cases taken
    simp only [observe, here]
    exact .done _
  | loadCommit size read =>
    simp only [ReaderOk, here] at reader
    subst reader
    simp only [readerStep, here] at taken
    simp only [observe, here]
    split at taken
    · rename_i empty
      cases taken
      rw [if_pos empty]
      exact .done _
    · rename_i unread
      rw [if_neg unread]
      have peek := simulate_peek geometry inv (published_slot inv.fronts unread)
      split at taken <;> cases taken <;> exact peek
  | copyOut size read =>
    simp only [ReaderOk, here] at reader
    obtain ⟨rfl, published⟩ := reader
    simp only [readerStep, here] at taken
    cases taken
    simp only [observe, here]
    exact simulate_peek geometry inv published
  | fetchAdd count =>
    simp only [ReaderOk, here] at reader
    simp only [readerStep, here, Option.some.injEq] at taken
    have front := advanced_slots geometry reader
    have rest : contents block after = (contents block before).drop count.toNat :=
      contents_advance reader (by rw [← taken]) (by rw [← taken]) (by rw [← taken])
    simp only [observe, here]
    refine .next ?_ trivial (.done _)
    simp only [Fifo.machine, Fifo.step, if_pos front, Memory.length_slots, rest]

theorem simulate_step (geometry : FixedGeometry block) {action : Action} (inv : Inv block before)
    (taken : step block before action = some after) :
    (Fifo.machine (itemCount block)).Run Machine.Always (contents block before)
      (observe block before action) (contents block after) := by
  cases action with
  | call call =>
    simp only [step] at taken
    simp only [observe]
    split at taken
    · cases taken
      obtain ⟨pc, reserved, quiet⟩ := beginReserve_eq before none
      rw [quiet]
      exact .done _
    · cases taken
      obtain ⟨pc, reserved, quiet⟩ := beginReserve_eq before (some _)
      rw [quiet]
      exact .done _
    · cases taken
      obtain ⟨pc, quiet⟩ := beginCommit_eq before
      rw [quiet]
      exact .done _
    · cases taken
  | fill offset bytes =>
    simp only [step] at taken
    simp only [observe]
    split at taken
    · rename_i idle
      split at taken
      · rename_i reserved
        cases taken
        rw [contents_fill inv (inv.outstanding idle reserved.1) reserved.2]
        exact .done _
      · cases taken
    · cases taken
  | writer => exact simulate_writer geometry inv taken
  | restart =>
    cases taken
    exact .done _
  | read call =>
    simp only [step] at taken
    simp only [observe]
    split at taken <;> cases taken <;> exact .done _
  | reader => exact simulate_reader geometry inv taken

section Results

theorem contents_eq_nil (drained : before.commitPos ≤ before.readPos) :
    contents block before = [] := by
  rw [contents, Nat.sub_eq_zero_of_le (UInt64.le_iff_toNat_le.mp drained), Nat.zero_div]
  rfl

variable (inv : Inv block before)
include inv

/-- With nothing reserved, the queue is full when the fronts are one lap apart. -/
theorem length_contents_eq_iff (geometry : FixedGeometry block) (settled : Settled before) :
    (contents block before).length = itemCount block ↔
      before.writePos - before.readPos = block.dataCapacity := by
  have whole := size_mul_count inv
  have lap := Nat.mul_div_cancel' geometry.divides
  have ordered : before.readPos.toNat ≤ before.writePos.toNat :=
    Nat.le_trans inv.fronts.consumed inv.fronts.published
  rw [contents, Memory.length_slots, itemCount, UInt64.toNat_div, ← UInt64.toNat_inj,
    toNat_sub ordered, settled.equal]
  constructor
  · intro same
    rw [same] at whole
    omega
  · intro same
    rw [same]

/-- What the reader's caller is given is the head of the queue. -/
theorem handsOut_reader (geometry : FixedGeometry block)
    (taken : readerStep block before = some after) : HandsOut block before .reader after := by
  have reader := inv.reader
  cases here : before.readerPc with
  | idle => simp [readerStep, here] at taken
  | loadRead _ | fetchAdd _ | bumpRead => simp only [HandsOut, here]
  | loadCommit size read =>
    simp only [ReaderOk, here] at reader
    subst reader
    simp only [readerStep, here] at taken
    by_cases drained : before.commitPos ≤ before.readPos
    · have empty : contents block before = [] := contents_eq_nil drained
      rw [if_pos drained] at taken
      cases taken
      cases size with
      | none => simp [HandsOut, here, empty]
      | some size => simp [HandsOut, here, empty]
    · have head := head_contents inv (published_slot inv.fronts drained) geometry.positive
      rw [if_neg drained] at taken
      cases size with
      | none =>
        cases taken
        simp only [HandsOut, here]
        refine ⟨fun empty => ?_, fun item rest front => ⟨?_, _, rfl, ?_⟩⟩
        · rw [empty] at head
          cases head
        · simp [itemSize]
        · rw [front] at head
          cases head
          simp only [State.slotAt, Memory.slot, indexOf_eq, itemSize, UInt32.toUInt32_toUInt64,
            UInt32.toNat_toUInt64]
      | some size =>
        cases taken
        simp only [HandsOut, here]
        refine ⟨fun empty => ?_, fun _ => trivial⟩
        rw [empty] at head
        cases head
  | copyOut size read =>
    simp only [ReaderOk, here] at reader
    obtain ⟨rfl, published⟩ := reader
    have head := head_contents inv published geometry.positive
    obtain ⟨rest, front⟩ := List.head?_eq_some_iff.mp head
    simp only [readerStep, here] at taken
    cases taken
    simp only [HandsOut, here]
    refine ⟨_, rest, front, Memory.length_read _ _ _, ?_⟩
    simp only [State.slotAt, Memory.slot, Memory.length_read, indexOf_eq, Memory.take_read]
    rw [Nat.min_comm]

/-- What the writer's caller is given is the slot that its commit will push. -/
theorem handsOut_writer (geometry : FixedGeometry block)
    (taken : writerStep block before = some after) : HandsOut block before .writer after := by
  have writer := inv.writer
  cases here : before.writerPc with
  | idle => simp [writerStep, here] at taken
  | loadWrite _ | copy _ _ | storeCommit | bumpCommit => simp only [HandsOut, here]
  | loadRead source write =>
    simp only [WriterOk, here] at writer
    obtain ⟨settled, -, rfl⟩ := writer
    simp only [writerStep, here] at taken
    simp only [HandsOut, here, ne_eq, length_contents_eq_iff inv geometry settled,
      ← full_iff geometry inv.fronts]
    split at taken
    · rename_i full
      cases taken
      exact ⟨fun _ => ⟨rfl, rfl⟩, fun notFull => absurd full notFull⟩
    · rename_i notFull
      cases taken
      exact ⟨fun full => absurd full notFull, fun _ => rfl⟩
  | storeWrite source write =>
    simp only [WriterOk, here] at writer
    obtain ⟨settled, -, rfl, -⟩ := writer
    simp only [writerStep, here] at taken
    cases taken
    obtain ⟨pc, quiet⟩ := afterReserve_eq (before.storeWrite block before.writePos) source
      before.writePos
    simp only [HandsOut, here, quiet]
    refine ⟨?_, ?_⟩
    · simp only [State.storeWrite, settled.equal]
    · simp only [State.storeWrite, State.slotAt, Memory.slot, Log.reserve, settled.equal, indexOf_eq]

theorem handsOut_step (geometry : FixedGeometry block) {action : Action}
    (taken : step block before action = some after) : HandsOut block before action after := by
  cases action with
  | call call =>
    cases call with
    | tryReserve =>
      intro guarded
      simp only [step] at taken
      split at taken
      · cases taken
        simp [State.beginReserve, guarded]
      · cases ‹WriterCall.tryReserve = _›
      · cases ‹WriterCall.tryReserve = _›
      · cases taken
    | commit | write _ _ => trivial
  | writer => exact handsOut_writer inv geometry taken
  | reader => exact handsOut_reader inv geometry taken
  | fill _ _ | restart | read _ => trivial

end Results

/-- All that a step can do to the fronts and the data region. -/
inductive Effect (block : ControlBlock) (before after : State) : Prop where
  | quiet (fronts : before.toMeta.SameFronts after.toMeta) (data : after.data = before.data)
  | reserved (readPos : after.readPos = before.readPos) (commitPos : after.commitPos = before.commitPos)
      (writePos : after.writePos.toNat = before.writePos.toNat + (itemSize block).toNat)
      (data : after.data = before.data)
  | filled (offset : Nat) (bytes : List UInt8) (outstanding : Outstanding block before)
      (fits : offset + bytes.length ≤ (itemSize block).toNat)
      (fronts : before.toMeta.SameFronts after.toMeta)
      (data : after.data = (before.fill block offset bytes).data)
  | committed (readPos : after.readPos = before.readPos) (commitPos : after.commitPos = before.writePos)
      (writePos : after.writePos = before.writePos) (data : after.data = before.data)
  | consumed (readPos : before.readPos ≤ after.readPos) (commitPos : after.commitPos = before.commitPos)
      (writePos : after.writePos = before.writePos) (data : after.data = before.data)

theorem writerStep_effect (geometry : FixedGeometry block) (inv : Inv block before)
    (small : NoWrap block before) (taken : writerStep block before = some after) :
    Effect block before after := by
  have writer := inv.writer
  have item := Nat.le_of_dvd geometry.capacity geometry.divides
  unfold NoWrap at small
  cases here : before.writerPc with
  | idle => simp [writerStep, here] at taken
  | loadWrite source | bumpCommit =>
    simp only [writerStep, here] at taken
    cases taken
    exact .quiet ⟨rfl, rfl, rfl⟩ rfl
  | loadRead source write =>
    simp only [writerStep, here] at taken
    split at taken <;> cases taken <;> exact .quiet ⟨rfl, rfl, rfl⟩ rfl
  | storeWrite source write =>
    simp only [WriterOk, here] at writer
    obtain ⟨-, -, rfl, -⟩ := writer
    simp only [writerStep, here] at taken
    cases taken
    obtain ⟨pc, quiet⟩ := afterReserve_eq (before.storeWrite block before.writePos) source
      before.writePos
    rw [quiet]
    exact .reserved rfl rfl (toNat_add (by omega)) rfl
  | copy source write =>
    simp only [WriterOk, here] at writer
    obtain ⟨outstanding, sized, rfl⟩ := writer
    have copied := copy_eq outstanding source
    rw [← here] at copied
    rw [copied] at taken
    cases taken
    obtain ⟨pc, quiet⟩ := beginCommit_eq
      (before.fill block 0 (source.data.read 0 source.size.toNat))
    rw [quiet]
    exact .filled 0 _ outstanding (by simpa using sized source rfl) ⟨rfl, rfl, rfl⟩ rfl
  | storeCommit =>
    simp only [WriterOk, here] at writer
    simp only [writerStep, here] at taken
    cases taken
    exact .committed rfl writer.stop rfl rfl

theorem readerStep_effect (inv : Inv block before) (taken : readerStep block before = some after) :
    Effect block before after := by
  have reader := inv.reader
  cases here : before.readerPc with
  | idle => simp [readerStep, here] at taken
  | loadRead size | copyOut size read | bumpRead =>
    simp only [readerStep, here] at taken
    cases taken
    exact .quiet ⟨rfl, rfl, rfl⟩ rfl
  | loadCommit size read =>
    simp only [readerStep, here] at taken
    split at taken
    · cases taken
      exact .quiet ⟨rfl, rfl, rfl⟩ rfl
    · split at taken <;> cases taken <;> exact .quiet ⟨rfl, rfl, rfl⟩ rfl
  | fetchAdd count =>
    simp only [ReaderOk, here] at reader
    simp only [readerStep, here] at taken
    cases taken
    refine .consumed (UInt64.le_iff_toNat_le.mpr ?_) rfl rfl rfl
    rw [toNat_fetchAdd reader]
    exact Nat.le_add_right _ _

theorem step_effect (geometry : FixedGeometry block) {action : Action} (inv : Inv block before)
    (admitted : SingleSession block before action after)
    (taken : step block before action = some after) : Effect block before after := by
  cases action with
  | call call =>
    simp only [step] at taken
    split at taken
    · cases taken
      obtain ⟨pc, reserved, quiet⟩ := beginReserve_eq before none
      rw [quiet]
      exact .quiet ⟨rfl, rfl, rfl⟩ rfl
    · cases taken
      obtain ⟨pc, reserved, quiet⟩ := beginReserve_eq before (some _)
      rw [quiet]
      exact .quiet ⟨rfl, rfl, rfl⟩ rfl
    · cases taken
      obtain ⟨pc, quiet⟩ := beginCommit_eq before
      rw [quiet]
      exact .quiet ⟨rfl, rfl, rfl⟩ rfl
    · cases taken
  | fill offset bytes =>
    simp only [step] at taken
    split at taken
    · rename_i idle
      split at taken
      · rename_i reserved
        cases taken
        exact .filled offset bytes (inv.outstanding idle reserved.1) reserved.2 ⟨rfl, rfl, rfl⟩ rfl
      · cases taken
    · cases taken
  | writer => exact writerStep_effect geometry inv admitted.unwrapped taken
  | restart => exact absurd rfl admitted.single
  | read call =>
    simp only [step] at taken
    split at taken <;> cases taken <;> exact .quiet ⟨rfl, rfl, rfl⟩ rfl
  | reader => exact readerStep_effect inv taken

/-- No effect moves a front back. -/
theorem Effect.advanced (inv : Inv block before) (effect : Effect block before after) :
    before.toMeta.Advanced after.toMeta := by
  cases effect with
  | quiet fronts _ | filled _ _ _ _ fronts _ => exact fronts.advanced
  | reserved readPos commitPos writePos _ =>
    refine ⟨UInt64.le_of_eq readPos.symm, UInt64.le_of_eq commitPos.symm,
      UInt64.le_iff_toNat_le.mpr ?_⟩
    rw [writePos]
    exact Nat.le_add_right _ _
  | committed readPos commitPos writePos _ =>
    refine ⟨UInt64.le_of_eq readPos.symm, ?_, UInt64.le_of_eq writePos.symm⟩
    rw [commitPos]
    exact UInt64.le_iff_toNat_le.mpr inv.fronts.published
  | consumed readPos commitPos writePos _ =>
    exact ⟨readPos, UInt64.le_of_eq commitPos.symm, UInt64.le_of_eq writePos.symm⟩

/-- No effect touches a slot that is published and not yet consumed. -/
theorem Effect.slotAt {position : UInt64} (inv : Inv block before)
    (effect : Effect block before after) (unread : before.readPos.toNat ≤ position.toNat)
    (published : position.toNat + (itemSize block).toNat ≤ before.commitPos.toNat) :
    after.slotAt block position = before.slotAt block position := by
  cases effect with
  | quiet _ data | reserved _ _ _ data | committed _ _ _ data | consumed _ _ _ data =>
    rw [State.slotAt, data, State.slotAt]
  | filled offset bytes outstanding fits _ data =>
    have bounded := inv.fronts.bounded
    rw [outstanding.reserved] at bounded
    rw [State.slotAt, data, State.slotAt]
    exact Memory.read_congr
      ((confined_fill outstanding fits).agree (ranges_apart _ published (by omega)))

section Runs

variable {actions : List Action}

theorem run_single_advanced (geometry : FixedGeometry block)
    (run : (machine block).Run (SingleSession block) before actions after)
    (initially : Inv block before) : before.toMeta.Advanced after.toMeta := by
  have disciplined := run.mono fun _ _ _ _ => SingleSession.disciplined geometry
  exact (run_advanced geometry disciplined initially.occupancy).2

/-- A published slot keeps its bytes until the consumer advances past it. -/
theorem run_slotAt {position : UInt64} (geometry : FixedGeometry block)
    (run : (machine block).Run (SingleSession block) before actions after)
    (initially : Inv block before)
    (published : position.toNat + (itemSize block).toNat ≤ before.commitPos.toNat)
    (unread : after.readPos.toNat ≤ position.toNat) :
    after.slotAt block position = before.slotAt block position := by
  induction run with
  | done state => rfl
  | next taken admitted rest ih =>
    have effect := step_effect geometry initially admitted taken
    have kept := inv_step geometry initially admitted taken
    have first := effect.advanced initially
    have second := run_single_advanced geometry rest kept
    -- the fronts only grow, so a slot still unread at the end was unread all along
    have before := UInt64.le_iff_toNat_le.mp first.readPos
    have between := UInt64.le_iff_toNat_le.mp second.readPos
    have grown := UInt64.le_iff_toNat_le.mp first.commitPos
    have later := ih kept (by omega) unread
    exact later.trans (effect.slotAt initially (by omega) published)

end Runs

end SpscRing.Fixed
