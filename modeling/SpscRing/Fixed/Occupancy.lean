import SpscRing.Fixed.Steps

/-! The occupancy of the ring: its fronts in whole slots, in order and within one lap.
They do not depend on what is copied nor on when a producer session ends, so neither
does anything here. -/

namespace SpscRing.Fixed

open SpscRing.Foundation

section Predicates

variable (block : ControlBlock)

/-- `read_advance` stays within the published slots. -/
def AdvanceWithin (state : State) : Action → Prop
  | .read (.readAdvance count) =>
    state.readPos.toNat + count.toNat * (itemSize block).toNat ≤ state.commitPos.toNat
  | _ => True

/-- The consumer consumes what is published, and the reservation front stays
below `2^64`; sizes, sessions and the interleaving are free. -/
structure Disciplined (before : State) (action : Action) (after : State) : Prop where
  advance : AdvanceWithin block before action
  inRange : before.writePos.toNat + (itemSize block).toNat < 2 ^ 64

instance (state : State) (action : Action) : Decidable (AdvanceWithin block state action) :=
  match action with
  | .read (.readAdvance count) => inferInstanceAs (Decidable
      (state.readPos.toNat + count.toNat * (itemSize block).toNat ≤ state.commitPos.toNat))
  | .call _ | .fill _ _ | .writer | .restart | .read .tryRead | .read (.read _) | .reader =>
    .isTrue trivial

instance (before : State) (action : Action) (after : State) :
    Decidable (Disciplined block before action after) :=
  decidable_of_iff (AdvanceWithin block before action ∧
      before.writePos.toNat + (itemSize block).toNat < 2 ^ 64)
    ⟨fun ⟨advance, inRange⟩ => ⟨advance, inRange⟩, fun ⟨advance, inRange⟩ => ⟨advance, inRange⟩⟩

/-- What the writer's call knows of the reservation front. -/
def WriterFronts (state : State) : Prop :=
  match state.writerPc with
  | .idle => state.pending = true → state.reservedEnd = state.writePos
  | .loadWrite _ | .bumpCommit => state.pending = false
  | .loadRead _ write => state.pending = false ∧ write = state.writePos
  | .storeWrite _ write => state.pending = false ∧ write = state.writePos ∧
    write.toNat + (itemSize block).toNat ≤ state.readPos.toNat + block.dataCapacity.toNat
  | .copy _ _ | .storeCommit => state.pending = true ∧ state.reservedEnd = state.writePos

/-- The fronts are whole, in order and within one lap. -/
structure Occupancy (state : State) : Prop where
  fronts : Fronts block state
  writer : WriterFronts block state
  reader : ReaderOk block state

end Predicates

variable {block : ControlBlock} {state before after later : State} {action : Action}

/-- A step of the producer that leaves the fronts where they are. -/
theorem Occupancy.quiet (occupancy : Occupancy block before)
    (fronts : before.toMeta.SameFronts after.toMeta) (readerPc : after.readerPc = before.readerPc)
    (writer : WriterFronts block after) : Occupancy block after := by
  have same := occupancy.fronts
  refine ⟨⟨?_, ?_, ?_, ?_, ?_, ?_⟩, writer,
    occupancy.reader.mono readerPc fronts.readPos (by rw [fronts.commitPos])⟩
  · rw [fronts.readPos, fronts.commitPos]
    exact same.consumed
  · rw [fronts.commitPos, fronts.writePos]
    exact same.published
  · rw [fronts.writePos, fronts.readPos]
    exact same.bounded
  · rw [fronts.readPos]
    exact same.readWhole
  · rw [fronts.commitPos]
    exact same.commitWhole
  · rw [fronts.writePos]
    exact same.writeWhole

theorem occupancy_beginCommit (occupancy : Occupancy block { state with writerPc := .idle }) :
    Occupancy block state.beginCommit := by
  unfold State.beginCommit
  split
  · exact occupancy
  · rename_i guarded
    have pending : state.pending = true := by simpa using guarded
    exact occupancy.quiet ⟨rfl, rfl, rfl⟩ rfl ⟨pending, occupancy.writer pending⟩

theorem occupancy_beginReserve {source : Option Source} (occupancy : Occupancy block state)
    (idle : state.writerPc = .idle) : Occupancy block (state.beginReserve source) := by
  have writer := occupancy.writer
  simp only [WriterFronts, idle] at writer
  unfold State.beginReserve
  split
  · exact occupancy.quiet ⟨rfl, rfl, rfl⟩ rfl writer
  · rename_i free
    exact occupancy.quiet ⟨rfl, rfl, rfl⟩ rfl (show state.pending = false by simpa using free)

theorem occupancy_storeWrite {source : Option Source} (occupancy : Occupancy block state)
    (inRange : state.writePos.toNat + (itemSize block).toNat < 2 ^ 64)
    (room : state.writePos.toNat + (itemSize block).toNat ≤
      state.readPos.toNat + block.dataCapacity.toNat) :
    Occupancy block ((state.storeWrite block state.writePos).afterReserve source state.writePos) := by
  have fronts := occupancy.fronts.claim inRange room
  have claimed (pc : WriterPc)
      (writer : WriterFronts block { state.storeWrite block state.writePos with writerPc := pc }) :
      Occupancy block { state.storeWrite block state.writePos with writerPc := pc } :=
    ⟨{ fronts with }, writer, occupancy.reader.mono rfl rfl (Nat.le_refl _)⟩
  unfold State.afterReserve
  split
  · exact claimed .idle fun _ => rfl
  · split
    · exact claimed (.copy _ state.writePos) ⟨rfl, rfl⟩
    · exact claimed .storeCommit ⟨rfl, rfl⟩

theorem occupancy_writerStep (geometry : FixedGeometry block) (occupancy : Occupancy block state)
    (inRange : state.writePos.toNat + (itemSize block).toNat < 2 ^ 64)
    (taken : writerStep block state = some after) : Occupancy block after := by
  have writer := occupancy.writer
  have fronts := occupancy.fronts
  cases here : state.writerPc with
  | idle => simp [writerStep, here] at taken
  | loadWrite source =>
    simp only [WriterFronts, here] at writer
    simp only [writerStep, here] at taken
    cases taken
    exact occupancy.quiet ⟨rfl, rfl, rfl⟩ rfl ⟨writer, rfl⟩
  | loadRead source write =>
    simp only [WriterFronts, here] at writer
    obtain ⟨free, rfl⟩ := writer
    simp only [writerStep, here] at taken
    split at taken
    · cases taken
      exact occupancy.quiet ⟨rfl, rfl, rfl⟩ rfl fun pending => absurd pending (by simp [free])
    · rename_i notFull
      cases taken
      exact occupancy.quiet ⟨rfl, rfl, rfl⟩ rfl ⟨free, rfl, free_slot geometry fronts notFull⟩
  | storeWrite source write =>
    simp only [WriterFronts, here] at writer
    obtain ⟨-, rfl, room⟩ := writer
    simp only [writerStep, here] at taken
    cases taken
    exact occupancy_storeWrite occupancy inRange room
  | copy source write =>
    simp only [WriterFronts, here] at writer
    simp only [writerStep, here] at taken
    cases taken
    exact occupancy_beginCommit (occupancy.quiet ⟨rfl, rfl, rfl⟩ rfl fun _ => writer.2)
  | storeCommit =>
    simp only [WriterFronts, here] at writer
    simp only [writerStep, here, writer.2] at taken
    cases taken
    exact ⟨{ fronts.publish with }, rfl, occupancy.reader.mono rfl rfl fronts.published⟩
  | bumpCommit =>
    simp only [WriterFronts, here] at writer
    simp only [writerStep, here] at taken
    cases taken
    exact occupancy.quiet ⟨rfl, rfl, rfl⟩ rfl fun pending => absurd pending (by simp [writer])

/-- The consumer leaves everything of the producer alone and only moves its own
front, forward. -/
structure ConsumerFrame (before after : State) : Prop where
  data : after.data = before.data
  writePos : after.writePos = before.writePos
  commitPos : after.commitPos = before.commitPos
  commitSeq : after.commitSeq = before.commitSeq
  reservedEnd : after.reservedEnd = before.reservedEnd
  pending : after.pending = before.pending
  reserved : after.reserved = before.reserved
  writerPc : after.writerPc = before.writerPc
  readPos : before.readPos ≤ after.readPos

theorem ConsumerFrame.refl (state : State) : ConsumerFrame state state :=
  ⟨rfl, rfl, rfl, rfl, rfl, rfl, rfl, rfl, UInt64.le_refl _⟩

theorem ConsumerFrame.trans {between : State} (first : ConsumerFrame before between)
    (second : ConsumerFrame between after) : ConsumerFrame before after where
  data := second.data.trans first.data
  writePos := second.writePos.trans first.writePos
  commitPos := second.commitPos.trans first.commitPos
  commitSeq := second.commitSeq.trans first.commitSeq
  reservedEnd := second.reservedEnd.trans first.reservedEnd
  pending := second.pending.trans first.pending
  reserved := second.reserved.trans first.reserved
  writerPc := second.writerPc.trans first.writerPc
  readPos := UInt64.le_trans first.readPos second.readPos

theorem readerStep_frame (reader : ReaderOk block before)
    (taken : readerStep block before = some after) : ConsumerFrame before after := by
  cases here : before.readerPc with
  | idle => simp [readerStep, here] at taken
  | loadRead _ | copyOut _ _ | bumpRead =>
    simp only [readerStep, here] at taken
    cases taken
    exact ⟨rfl, rfl, rfl, rfl, rfl, rfl, rfl, rfl, UInt64.le_refl _⟩
  | loadCommit _ _ =>
    simp only [readerStep, here] at taken
    split at taken
    · cases taken
      exact ⟨rfl, rfl, rfl, rfl, rfl, rfl, rfl, rfl, UInt64.le_refl _⟩
    · split at taken <;> cases taken <;>
        exact ⟨rfl, rfl, rfl, rfl, rfl, rfl, rfl, rfl, UInt64.le_refl _⟩
  | fetchAdd count =>
    simp only [ReaderOk, here] at reader
    simp only [readerStep, here] at taken
    cases taken
    refine ⟨rfl, rfl, rfl, rfl, rfl, rfl, rfl, rfl, UInt64.le_iff_toNat_le.mpr ?_⟩
    rw [toNat_fetchAdd reader]
    exact Nat.le_add_right _ _

theorem WriterFronts.consume (writer : WriterFronts block before) (frame : ConsumerFrame before after) :
    WriterFronts block after := by
  have forward := UInt64.le_iff_toNat_le.mp frame.readPos
  cases here : before.writerPc with
  | idle | loadWrite _ | bumpCommit | loadRead _ _ | copy _ _ | storeCommit =>
    simp only [WriterFronts, frame.writerPc, here, frame.pending, frame.reservedEnd,
      frame.writePos] at writer ⊢
    exact writer
  | storeWrite _ _ =>
    simp only [WriterFronts, frame.writerPc, here, frame.pending, frame.writePos] at writer ⊢
    exact ⟨writer.1, writer.2.1, by omega⟩

theorem occupancy_readerStep (occupancy : Occupancy block before)
    (taken : readerStep block before = some after) : Occupancy block after := by
  have fronts := occupancy.fronts
  have reader := occupancy.reader
  have frame := readerStep_frame reader taken
  have writer := occupancy.writer.consume frame
  have still (readPos : after.readPos = before.readPos) (ok : ReaderOk block after) :
      Occupancy block after := by
    refine ⟨⟨?_, ?_, ?_, ?_, ?_, ?_⟩, writer, ok⟩
    all_goals simp only [readPos, frame.commitPos, frame.writePos]
    exacts [fronts.consumed, fronts.published, fronts.bounded, fronts.readWhole, fronts.commitWhole,
      fronts.writeWhole]
  cases here : before.readerPc with
  | idle => simp [readerStep, here] at taken
  | loadRead size =>
    simp only [readerStep, here] at taken
    cases taken
    exact still rfl rfl
  | loadCommit size read =>
    simp only [ReaderOk, here] at reader
    subst reader
    simp only [readerStep, here] at taken
    split at taken
    · cases taken
      exact still rfl trivial
    · rename_i unread
      have published := published_slot fronts unread
      split at taken
      · cases taken
        exact still rfl trivial
      · cases taken
        exact still rfl ⟨rfl, published⟩
  | copyOut size read =>
    simp only [ReaderOk, here] at reader
    simp only [readerStep, here] at taken
    cases taken
    refine still rfl ?_
    show before.readPos.toNat + (1 : UInt64).toNat * (itemSize block).toNat ≤ before.commitPos.toNat
    rw [UInt64.toNat_one, Nat.one_mul]
    exact reader.2
  | fetchAdd count =>
    simp only [ReaderOk, here] at reader
    simp only [readerStep, here] at taken
    cases taken
    exact ⟨{ fronts.consume reader with }, writer, trivial⟩
  | bumpRead =>
    simp only [readerStep, here] at taken
    cases taken
    exact still rfl trivial

theorem occupancy_step (geometry : FixedGeometry block) (occupancy : Occupancy block before)
    (admitted : Disciplined block before action after)
    (taken : step block before action = some after) : Occupancy block after := by
  cases action with
  | call call =>
    simp only [step] at taken
    split at taken
    · rename_i idle
      cases taken
      exact occupancy_beginReserve occupancy idle
    · rename_i idle
      cases taken
      exact occupancy_beginReserve occupancy idle
    · rename_i idle
      cases taken
      refine occupancy_beginCommit ?_
      rw [← idle]
      exact occupancy
    · cases taken
  | fill offset bytes =>
    have writer := occupancy.writer
    simp only [step] at taken
    split at taken
    · rename_i idle
      split at taken
      · cases taken
        refine occupancy.quiet ⟨rfl, rfl, rfl⟩ rfl ?_
        simp only [WriterFronts, State.fill, idle] at writer ⊢
        exact writer
      · cases taken
    · cases taken
  | writer => exact occupancy_writerStep geometry occupancy admitted.inRange taken
  | restart =>
    cases taken
    refine occupancy.quiet ⟨rfl, rfl, rfl⟩ rfl fun pending => ?_
    cases pending
  | read call =>
    have fronts := occupancy.fronts
    have writer := occupancy.writer
    simp only [step] at taken
    split at taken
    · cases taken
      exact ⟨{ fronts with }, writer, trivial⟩
    · cases taken
      exact ⟨{ fronts with }, writer, trivial⟩
    · cases taken
      exact ⟨{ fronts with }, writer, admitted.advance⟩
    · cases taken
  | reader => exact occupancy_readerStep occupancy taken

theorem occupancy_initial (data : Memory) (fresh : Meta.SameFronts {} block.rbMeta) :
    Occupancy block (initial block data) := by
  have settled : (initial block data).writePos = 0 := fresh.writePos
  have empty : Occupancy block { data := data } :=
    ⟨⟨Nat.le_refl _, Nat.le_refl _, Nat.zero_le _, ⟨0, rfl⟩, ⟨0, rfl⟩, ⟨0, rfl⟩⟩, fun _ => rfl, trivial⟩
  exact empty.quiet ⟨fresh.readPos, fresh.commitPos, fresh.writePos⟩ rfl fun _ => settled.symm

/-- The producer does not touch the consumer's front. -/
theorem writerStep_readPos (taken : writerStep block before = some after) :
    after.readPos = before.readPos := by
  cases here : before.writerPc with
  | idle => simp [writerStep, here] at taken
  | loadRead _ _ =>
    simp only [writerStep, here] at taken
    split at taken <;> cases taken <;> rfl
  | storeWrite source write =>
    simp only [writerStep, here] at taken
    cases taken
    obtain ⟨pc, quiet⟩ := afterReserve_eq (before.storeWrite block write) source write
    rw [quiet]
    rfl
  | copy source write =>
    simp only [writerStep, here] at taken
    cases taken
    obtain ⟨pc, quiet⟩ := beginCommit_eq _
    rw [quiet]
  | loadWrite _ | storeCommit | bumpCommit =>
    simp only [writerStep, here] at taken
    cases taken
    rfl

theorem step_readPos (reader : ReaderOk block before) (taken : step block before action = some after) :
    before.readPos ≤ after.readPos := by
  rcases step_cases taken with ⟨_, _, _, _, rfl⟩ | written | ⟨-, rfl⟩ | ⟨_, rfl⟩ | read
  · exact UInt64.le_refl _
  · exact UInt64.le_of_eq (writerStep_readPos written).symm
  · exact UInt64.le_refl _
  · exact UInt64.le_refl _
  · exact (readerStep_frame reader read).readPos

/-- A reservation moves the producer's front by a slot that does not wrap, a commit
publishes up to it. -/
theorem writerStep_advanced (occupancy : Occupancy block before)
    (inRange : before.writePos.toNat + (itemSize block).toNat < 2 ^ 64)
    (taken : writerStep block before = some after) : before.toMeta.Advanced after.toMeta := by
  have writer := occupancy.writer
  have published := UInt64.le_iff_toNat_le.mpr occupancy.fronts.published
  cases here : before.writerPc with
  | idle => simp [writerStep, here] at taken
  | loadWrite _ | bumpCommit =>
    simp only [writerStep, here] at taken
    cases taken
    exact .of_eq rfl rfl rfl
  | loadRead _ _ =>
    simp only [writerStep, here] at taken
    split at taken <;> cases taken <;> exact .of_eq rfl rfl rfl
  | storeWrite source write =>
    simp only [WriterFronts, here] at writer
    obtain ⟨-, rfl, -⟩ := writer
    simp only [writerStep, here] at taken
    cases taken
    obtain ⟨pc, quiet⟩ := afterReserve_eq (before.storeWrite block before.writePos) source
      before.writePos
    rw [quiet]
    refine ⟨UInt64.le_refl _, UInt64.le_refl _, UInt64.le_iff_toNat_le.mpr ?_⟩
    show before.writePos.toNat ≤ (before.writePos + itemSize block).toNat
    rw [toNat_add inRange]
    exact Nat.le_add_right _ _
  | copy source write =>
    simp only [writerStep, here] at taken
    cases taken
    obtain ⟨pc, quiet⟩ := beginCommit_eq _
    rw [quiet]
    exact .of_eq rfl rfl rfl
  | storeCommit =>
    simp only [WriterFronts, here] at writer
    simp only [writerStep, here, writer.2] at taken
    cases taken
    exact ⟨UInt64.le_refl _, published, UInt64.le_refl _⟩

theorem step_advanced (occupancy : Occupancy block before)
    (admitted : Disciplined block before action after)
    (taken : step block before action = some after) : before.toMeta.Advanced after.toMeta := by
  rcases step_cases taken with ⟨_, _, _, _, rfl⟩ | written | ⟨-, rfl⟩ | ⟨_, rfl⟩ | read
  · exact .of_eq rfl rfl rfl
  · exact writerStep_advanced occupancy admitted.inRange written
  · exact .of_eq rfl rfl rfl
  · exact .of_eq rfl rfl rfl
  · have frame := readerStep_frame occupancy.reader read
    exact ⟨frame.readPos, UInt64.le_of_eq frame.commitPos.symm, UInt64.le_of_eq frame.writePos.symm⟩

/-- Along a whole run no front ever moves back. -/
theorem run_advanced (geometry : FixedGeometry block) {actions : List Action}
    (run : (machine block).Run (Disciplined block) before actions after)
    (initially : Occupancy block before) :
    Occupancy block after ∧ before.toMeta.Advanced after.toMeta := by
  refine run.framed (fun first second => first.toMeta.Advanced second.toMeta) (Occupancy block)
    (fun _ => .of_eq rfl rfl rfl) Meta.Advanced.trans ?_ initially
  intro state action next occupancy admitted taken
  exact ⟨occupancy_step geometry occupancy admitted taken, step_advanced occupancy admitted taken⟩

theorem reachable_occupancy (geometry : FixedGeometry block) {data : Memory}
    (fresh : Meta.SameFronts {} block.rbMeta)
    (reached : (machine block).Reachable (Disciplined block) (initial block data) state) :
    Occupancy block state :=
  reached.invariant (Occupancy block) (occupancy_initial data fresh)
    fun _ _ _ occupancy => occupancy_step geometry occupancy

/-- What a single session keeps to is discipline enough. -/
theorem SingleSession.disciplined (geometry : FixedGeometry block)
    (single : SingleSession block before action after) : Disciplined block before action after := by
  have unwrapped := single.unwrapped
  have item := Nat.le_of_dvd geometry.capacity geometry.divides
  unfold NoWrap at unwrapped
  refine ⟨?_, by omega⟩
  have contract := single.contract
  cases action with
  | read call =>
    cases call with
    | readAdvance count => exact contract
    | tryRead | read _ => trivial
  | call _ | fill _ _ | writer | restart | reader => trivial

theorem Inv.occupancy (inv : Inv block state) : Occupancy block state := by
  refine ⟨inv.fronts, ?_, inv.reader⟩
  have writer := inv.writer
  unfold WriterOk at writer
  unfold WriterFronts
  cases here : state.writerPc with
  | idle =>
    simp only [here] at writer ⊢
    rcases writer with settled | outstanding
    · exact fun pending => absurd pending (by simp [settled.free])
    · exact fun _ => outstanding.stop
  | loadWrite _ =>
    simp only [here] at writer ⊢
    exact writer.1.free
  | bumpCommit =>
    simp only [here] at writer ⊢
    exact writer.free
  | loadRead _ _ =>
    simp only [here] at writer ⊢
    exact ⟨writer.1.free, writer.2.2⟩
  | storeWrite _ _ =>
    simp only [here] at writer ⊢
    exact ⟨writer.1.free, writer.2.2⟩
  | copy _ _ =>
    simp only [here] at writer ⊢
    exact ⟨writer.1.guarded, writer.1.stop⟩
  | storeCommit =>
    simp only [here] at writer ⊢
    exact ⟨writer.guarded, writer.stop⟩

/-- A whole slot lies inside the data region. -/
theorem slot_inside (geometry : FixedGeometry block) {position : UInt64}
    (whole : (itemSize block).toNat ∣ position.toNat) :
    indexOf block position + (itemSize block).toNat ≤ block.dataCapacity.toNat := by
  rw [indexOf_eq]
  exact add_size_le ((Nat.dvd_mod_iff geometry.divides).mpr whole) geometry.divides
    (Nat.mod_lt _ geometry.capacity)

/-- Behind a free slot no slot of the same lap shares an index with it. -/
theorem slot_apart {position write read : UInt64}
    (whole : (itemSize block).toNat ∣ position.toNat)
    (writeWhole : (itemSize block).toNat ∣ write.toNat)
    (room : write.toNat + (itemSize block).toNat ≤ read.toNat + block.dataCapacity.toNat)
    (unread : read ≤ position) (behind : position < write) :
    indexOf block position + (itemSize block).toNat ≤ indexOf block write ∨
      indexOf block write + (itemSize block).toNat ≤ indexOf block position := by
  have unread := UInt64.le_iff_toNat_le.mp unread
  have before := add_size_le whole writeWhole (UInt64.lt_iff_toNat_lt.mp behind)
  rw [indexOf_eq, indexOf_eq]
  exact ranges_apart _ before (by omega)

end SpscRing.Fixed
