import SpscRing.Varlen.Footprint
import SpscRing.Varlen.Runs

/-! The representation invariant as the segment itself shows it: the order of
the fronts and the tiling by stored headers, in every state of every run. -/

namespace SpscRing.Varlen

open SpscRing.Foundation

/-- A stored header delimits a slot at a position: it has a size, its index is
aligned, and it does not straddle the ring end. -/
structure Stored (block : ControlBlock) (data : Memory) (position : Nat) (header : VarlenSlotHeader) :
    Prop where
  found : loadHeader data (position % block.dataCapacity.toNat) = header
  positive : 0 < header.slotSize.toNat
  aligned : block.dataAlignment.toNat ∣ position % block.dataCapacity.toNat
  whole : position % block.dataCapacity.toNat + header.slotSize.toNat ≤ block.dataCapacity.toNat

/-- What the bytes between the published and the reservation front are: a
padding slot, a message slot whose header is still to be written, or the
reservation the caller holds, whose stored header spans the interval. -/
inductive OutstandingSlot (block : ControlBlock) (state : State) : Prop where
  | padding (call : ReserveCall) (head : UInt64)
      (step : state.writerPc = .writePad call head ∨ state.writerPc = .publishPad call head)
      (front : head = state.commitPos)
      (size : state.writePos.toNat = state.commitPos.toNat + (wrapPadding block head).toNat)
  | claimed (call : ReserveCall) (head : UInt64) (step : state.writerPc = .writeSlot call head)
      (front : head = state.commitPos)
      (size : state.writePos.toNat =
        state.commitPos.toNat + (neededFor block call.payloadSize).toNat)
      (whole : state.commitPos.toNat % block.dataCapacity.toNat +
        (neededFor block call.payloadSize).toNat ≤ block.dataCapacity.toNat)
  | reserved (header : VarlenSlotHeader) (guarded : state.pending = true)
      (front : state.lastPosition = state.commitPos)
      (stored : Stored block state.data state.commitPos.toNat header)
      (size : state.writePos.toNat = state.commitPos.toNat + header.slotSize.toNat)

structure Represented (block : ControlBlock) (state : State) : Prop where
  consumed : state.readPos.toNat ≤ state.commitPos.toNat
  published : state.commitPos.toNat ≤ state.writePos.toNat
  bounded : state.writePos.toNat ≤ state.readPos.toNat + block.dataCapacity.toNat
  tiled : ∃ headers : List VarlenSlotHeader,
    Tiled (fun header => header.slotSize.toNat) (Stored block state.data) state.readPos.toNat headers
      state.commitPos.toNat
  outstanding : state.commitPos = state.writePos ∨ OutstandingSlot block state
  sized : ∀ call readPos used, state.readerPc = .checkPublished call readPos used →
    (loadHeader state.data (indexOf block readPos)).slotSize ≠ 0
  covered : ∀ call readPos used, state.readerPc = .checkWhole call readPos used →
    ¬ used < (loadHeader state.data (indexOf block readPos)).slotSize.toUInt64

variable {block : ControlBlock} {state before after : State} {slots : List Slot}

theorem SlotAt.stored (geometry : Geometry block) {data : Memory} {position : Nat} {slot : Slot}
    (placed : SlotAt block data position slot) : Stored block data position slot.header := by
  have aligned := granule_dvd_index placed.aligned
  rw [geometry.granule_eq] at aligned
  exact ⟨placed.header, placed.positive, aligned, placed.whole⟩

theorem Inv.outstandingSlot (geometry : Geometry block) (inv : Inv block state slots) :
    state.commitPos = state.writePos ∨ OutstandingSlot block state := by
  have writer := inv.writer
  have held {header : VarlenSlotHeader} (outstanding : Outstanding block state header) :
      OutstandingSlot block state :=
    .reserved header outstanding.guarded outstanding.front (outstanding.slot.stored geometry)
      outstanding.reserved
  cases here : state.writerPc with
  | idle =>
    simp only [WriterOk, here] at writer
    rcases writer with settled | ⟨header, outstanding⟩
    · exact .inl settled.equal.symm
    · exact .inr (held outstanding)
  | loadHead call =>
    simp only [WriterOk, here] at writer
    exact .inl writer.settled.symm
  | loadRead call head | bumpPad call head | casPad call head | casSlot call head =>
    simp only [WriterOk, here] at writer
    exact .inl writer.1.settled.symm
  | writePad call head =>
    simp only [WriterOk, here] at writer
    exact .inr (.padding call head (.inl here) writer.front.symm
      (by rw [writer.front]; exact writer.reserved))
  | publishPad call head =>
    simp only [WriterOk, here] at writer
    exact .inr (.padding call head (.inr here) writer.1.front.symm
      (by rw [writer.1.front]; exact writer.1.reserved))
  | writeSlot call head =>
    simp only [WriterOk, here] at writer
    have edge := index_add_wrapPadding geometry.toShape head
    have contiguous := writer.contiguous
    refine .inr (.claimed call head here writer.front.symm
      (by rw [writer.front]; exact writer.reserved) ?_)
    rw [writer.front]
    omega
  | copyPayload call head source =>
    simp only [WriterOk, here] at writer
    obtain ⟨header, outstanding, -⟩ := writer
    exact .inr (held outstanding)
  | readSlotSize position | publishSlot position slotSize =>
    simp only [WriterOk, here] at writer
    obtain ⟨header, outstanding, -⟩ := writer
    exact .inr (held outstanding)
  | bumpSlot =>
    simp only [WriterOk, here] at writer
    exact .inl writer.equal.symm

theorem Inv.represented (geometry : Geometry block) (inv : Inv block state slots) :
    Represented block state where
  consumed := inv.front_le
  published := inv.committed
  bounded := inv.bounded
  tiled := ⟨slots.map Slot.header,
    Tiled.map Slot.header (inv.tiled.imp fun _ _ _ _ live => live.1.stored geometry)⟩
  outstanding := inv.outstandingSlot geometry
  sized := fun _ _ _ here => inv.published here
  covered := fun _ _ _ here => inv.whole here

/-- The published front of a settled state is the reservation front. -/
theorem Inv.commit_advanced (inv : Inv block before slots) (readPos : after.readPos = before.readPos)
    (writePos : after.writePos = before.writePos) (settled : after.commitPos = after.writePos) :
    before.toMeta.Advanced after.toMeta :=
  ⟨UInt64.le_of_eq readPos.symm,
    by rw [settled, writePos]; exact UInt64.le_iff_toNat_le.mpr inv.committed,
    UInt64.le_of_eq writePos.symm⟩

theorem writerStep_advanced (shape : Shape block) (inv : Inv block before slots)
    (small : InRange block before) (taken : writerStep block before = some after) :
    before.toMeta.Advanced after.toMeta := by
  obtain ⟨more, kept⟩ := inv_writerStep shape inv small taken
  have writer := inv.writer
  have settled := kept.writer
  cases here : before.writerPc with
  | idle => simp [writerStep, here] at taken
  | loadRead call head =>
    simp only [writerStep, here] at taken
    split at taken
    · cases taken
      exact .of_eq rfl rfl rfl
    · split at taken <;> cases taken <;> exact .of_eq rfl rfl rfl
  | casPad call head =>
    simp only [WriterOk, here] at writer
    simp only [writerStep, here, if_pos writer.2.1.symm] at taken
    cases taken
    refine ⟨UInt64.le_refl _, UInt64.le_refl _, UInt64.le_iff_toNat_le.mpr ?_⟩
    rw [settled.reserved, writer.2.1]
    exact Nat.le_add_right _ _
  | casSlot call head =>
    simp only [WriterOk, here] at writer
    simp only [writerStep, here, if_pos writer.2.1.symm] at taken
    cases taken
    refine ⟨UInt64.le_refl _, UInt64.le_refl _, UInt64.le_iff_toNat_le.mpr ?_⟩
    rw [settled.reserved, writer.2.1]
    exact Nat.le_add_right _ _
  | publishPad call head =>
    simp only [writerStep, here] at taken
    cases taken
    exact inv.commit_advanced rfl rfl settled.1.settled.symm
  | publishSlot position slotSize =>
    simp only [writerStep, here] at taken
    cases taken
    exact inv.commit_advanced rfl rfl settled.equal.symm
  | loadHead _ | writePad _ _ | bumpPad _ _ | readSlotSize _ | bumpSlot =>
    simp only [writerStep, here] at taken
    cases taken
    exact .of_eq rfl rfl rfl
  | writeSlot call head =>
    simp only [writerStep, here] at taken
    cases taken
    obtain ⟨pc, quiet, -⟩ := afterReserve_eq (before.writeSlot block call head) call head
    rw [quiet]
    exact .of_eq rfl rfl rfl
  | copyPayload call head source =>
    simp only [writerStep, here] at taken
    cases taken
    obtain ⟨pc, quiet, -⟩ := afterCopy_eq _ call head
    rw [quiet]
    exact .of_eq rfl rfl rfl

theorem Inv.read_advanced {first : Slot} {rest : List Slot} (inv : Inv block before (first :: rest))
    (readPos : after.readPos = before.readPos + first.header.slotSize.toUInt64)
    (commitPos : after.commitPos = before.commitPos) (writePos : after.writePos = before.writePos) :
    before.toMeta.Advanced after.toMeta := by
  refine ⟨UInt64.le_iff_toNat_le.mpr ?_, UInt64.le_of_eq commitPos.symm,
    UInt64.le_of_eq writePos.symm⟩
  rw [readPos, inv.toNat_advance]
  exact Nat.le_add_right _ _

theorem readerStep_advanced {answer : Bool} (inv : Inv block before slots)
    (taken : readerStep block answer before = some after) : before.toMeta.Advanced after.toMeta := by
  have reader := inv.reader
  have frame := readerStep_frame taken
  have still (readPos : after.readPos = before.readPos) : before.toMeta.Advanced after.toMeta :=
    .of_eq readPos frame.commitPos frame.writePos
  cases here : before.readerPc with
  | idle => simp [readerStep, here] at taken
  | loadCommit _ _ =>
    simp only [readerStep, here, State.finishEmpty, State.finishRead] at taken
    split at taken
    · split at taken <;> cases taken <;> exact still rfl
    · cases taken
      exact still rfl
  | checkPublished _ _ _ | checkWhole _ _ _ | checkPadding _ _ | handle _ _ _ _ =>
    simp only [readerStep, here, State.finishEmpty, State.finishRead] at taken
    split at taken <;> cases taken <;> exact still rfl
  | skipStore call readPos slotSize =>
    simp only [ReaderOk, here] at reader
    obtain ⟨rfl, first, rest, rfl, -, rfl⟩ := reader
    simp only [readerStep, here] at taken
    cases taken
    exact inv.read_advanced rfl rfl rfl
  | consumeStore readPos slotSize =>
    simp only [ReaderOk, here] at reader
    obtain ⟨rfl, first, rest, rfl, -, rfl⟩ := reader
    simp only [readerStep, here] at taken
    cases taken
    exact inv.read_advanced rfl rfl rfl
  | loadRead _ | skipSize _ _ | skipBump _ | takeSize _ _ | takeMeta _ _ _ | consumeSize _
  | consumeBump =>
    simp only [readerStep, here] at taken
    cases taken
    exact still rfl

theorem step_advanced (shape : Shape block) {action : Action} (inv : Inv block before slots)
    (admitted : Orderly block before action after)
    (taken : step block before action = some after) : before.toMeta.Advanced after.toMeta := by
  rcases step_cases taken with ⟨_, _, _, _, rfl⟩ | written | ⟨-, rfl⟩ | ⟨_, rfl⟩ | ⟨_, read⟩
  · exact .of_eq rfl rfl rfl
  · exact writerStep_advanced shape inv admitted.inRange written
  · exact .of_eq rfl rfl rfl
  · exact .of_eq rfl rfl rfl
  · exact readerStep_advanced inv read

/-- Along a whole run no front ever moves back. -/
theorem run_advanced (shape : Shape block) {actions : List Action}
    (run : (machine block).Run (Orderly block) before actions after)
    (initially : ∃ slots, Inv block before slots) :
    (∃ slots, Inv block after slots) ∧ before.toMeta.Advanced after.toMeta := by
  refine run.framed (fun first second => first.toMeta.Advanced second.toMeta)
    (fun state => ∃ slots, Inv block state slots) (fun _ => .of_eq rfl rfl rfl) Meta.Advanced.trans
    ?_ initially
  rintro state action next ⟨slots, inv⟩ admitted taken
  obtain ⟨more, kept, -⟩ := inv_step shape inv admitted taken
  exact ⟨⟨more, kept⟩, step_advanced shape inv admitted taken⟩

/-- Along a run that leaves the consumer's front in place, the slots stay. -/
theorem run_slots (shape : Shape block) {actions : List Action}
    (run : (machine block).Run (Orderly block) before actions after)
    (inv : Inv block before slots) (still : after.readPos = before.readPos) :
    ∃ next, Inv block after next ∧ slots <+: next := by
  induction run generalizing slots with
  | done state => exact ⟨slots, inv, List.prefix_rfl⟩
  | next taken admitted rest ih =>
    obtain ⟨middle, kept, grows⟩ := inv_step shape inv admitted taken
    have first := step_advanced shape inv admitted taken
    have second := (run_advanced shape rest ⟨middle, kept⟩).2
    -- the front only grows, so one that ends where it started never moved
    have same := UInt64.le_antisymm (still ▸ second.readPos) first.readPos
    obtain ⟨final, inv, more⟩ := ih kept (still.trans same.symm)
    exact ⟨final, inv, (grows same).trans more⟩

/-- In every reachable state the fronts are in order within one lap, the
published interval is tiled by stored slots, at most one slot is outstanding
behind it and the reader's defensive branches are dead; and from there on no
front ever decreases. -/
theorem representation_invariant {header : ControlBlock} {capacity : UInt64}
    {alignment itemSize : UInt32} {data : Memory}
    (accepted : initControlBlock header capacity .varlen alignment itemSize = some block)
    (reached : (machine block).Reachable (SingleSession block) (initial block data) state) :
    Represented block state ∧ ∀ actions later,
      (machine block).Run (SingleSession block) state actions later → state.toMeta.Advanced later.toMeta := by
  obtain ⟨geometry, slots, inv⟩ := single_inv accepted reached
  have shape := geometry.toShape
  refine ⟨inv.represented geometry, fun actions later run => ?_⟩
  exact (run_advanced shape (run.mono fun _ _ _ _ => SingleSession.orderly shape) ⟨slots, inv⟩).2

/-- A stale `commit` between a reservation and its own commit, on a ring that
then publishes the slot. -/
theorem representation_invariant_stale : ∃ state,
    (machine sampleBlock).Reachable (SingleSession sampleBlock) (initial sampleBlock fun _ => 0) state ∧
      state.commitPos = 40 ∧ Represented sampleBlock state := by
  obtain ⟨state, run, published⟩ := (machine sampleBlock).run_of_replay (SingleSession sampleBlock)
    (initial sampleBlock fun _ => 0)
    (.call (tryReserve 4) :: List.replicate 4 .writer ++ [.call (.commit 99), .call (.commit 0)] ++
      List.replicate 3 .writer)
    (fun state => state.commitPos == 40) (by decide +kernel)
  exact ⟨state, ⟨_, run⟩, by simpa using published,
    (representation_invariant sampleBlock_accepted ⟨_, run⟩).1⟩

end SpscRing.Varlen
