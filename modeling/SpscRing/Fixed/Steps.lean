import SpscRing.Fixed.Invariant
import SpscRing.Foundation.Positions

/-! Every step of the fixed-size ring keeps its representation invariant. -/

namespace SpscRing.Fixed

open SpscRing.Foundation

variable {block : ControlBlock} {state before after : State} {source : Option Source}
variable {write : UInt64}

section Quiet

variable (state : State) (source : Option Source) (write : UInt64)

/-- The local parts of the producer's calls change its program counter only,
and the pointer it returns. -/
theorem beginCommit_eq : ∃ pc, state.beginCommit = { state with writerPc := pc } := by
  unfold State.beginCommit
  split <;> exact ⟨_, rfl⟩

theorem afterReserve_eq : ∃ pc, state.afterReserve source write = { state with writerPc := pc } := by
  unfold State.afterReserve
  split
  · exact ⟨_, rfl⟩
  · split
    · exact ⟨_, rfl⟩
    · exact beginCommit_eq state

theorem beginReserve_eq : ∃ pc reserved,
    state.beginReserve source = { state with reserved := reserved, writerPc := pc } := by
  unfold State.beginReserve
  split <;> exact ⟨_, _, rfl⟩

end Quiet

/-- Starting a call and filling a slot leave the fronts, the pending flag and the
consumer alone; everything else a step can do is a step of one side or a restart. -/
theorem step_cases {action : Action} (taken : step block before action = some after) :
    (∃ data reserved writerPc log, after = { before with data, reserved, writerPc, log }) ∨
    writerStep block before = some after ∨ (action = .restart ∧ after = before.restart) ∨
    (∃ readerPc, after = { before with readerPc }) ∨ readerStep block before = some after := by
  cases action with
  | call call =>
    simp only [step] at taken
    split at taken
    · cases taken
      obtain ⟨pc, reserved, quiet⟩ := beginReserve_eq before none
      exact .inl ⟨_, reserved, pc, _, quiet⟩
    · cases taken
      obtain ⟨pc, reserved, quiet⟩ := beginReserve_eq before (some _)
      exact .inl ⟨_, reserved, pc, _, quiet⟩
    · cases taken
      obtain ⟨pc, quiet⟩ := beginCommit_eq before
      exact .inl ⟨_, _, pc, _, quiet⟩
    · cases taken
  | fill offset bytes =>
    simp only [step] at taken
    split at taken
    · split at taken
      · cases taken
        exact .inl ⟨_, _, _, _, rfl⟩
      · cases taken
    · cases taken
  | writer => exact .inr (.inl taken)
  | restart =>
    cases taken
    exact .inr (.inr (.inl ⟨rfl, rfl⟩))
  | read call =>
    simp only [step] at taken
    split at taken <;> cases taken <;> exact .inr (.inr (.inr (.inl ⟨_, rfl⟩)))
  | reader => exact .inr (.inr (.inr (.inr taken)))

/-- Equal remainders and a front ahead: with at most one lap between the fronts
this is a difference of one lap. -/
theorem full_iff (geometry : FixedGeometry block) (fronts : Fronts block state) :
    (state.writePos % block.dataCapacity = state.readPos % block.dataCapacity ∧
      state.writePos > state.readPos) ↔ state.writePos - state.readPos = block.dataCapacity := by
  have ordered := Nat.le_trans fronts.consumed fronts.published
  have bounded := fronts.bounded
  have positive := geometry.capacity
  have lap : state.writePos - state.readPos = block.dataCapacity ↔
      state.writePos.toNat = state.readPos.toNat + block.dataCapacity.toNat := by
    rw [← UInt64.toNat_inj, toNat_sub ordered]
    omega
  rw [lap]
  constructor
  · rintro ⟨remainders, ahead⟩
    have apart : state.readPos.toNat < state.writePos.toNat := UInt64.lt_iff_toNat_lt.mp ahead
    have multiple : block.dataCapacity.toNat ∣ state.writePos.toNat - state.readPos.toNat := by
      apply Nat.dvd_of_mod_eq_zero
      apply Nat.sub_mod_eq_zero_of_mod_eq
      simpa using congrArg UInt64.toNat remainders
    have whole := Nat.le_of_dvd (by omega) multiple
    omega
  · intro lapped
    refine ⟨?_, ?_⟩
    · apply UInt64.toNat_inj.mp
      rw [UInt64.toNat_mod, UInt64.toNat_mod, lapped, Nat.add_mod_right]
    · rw [gt_iff_lt, UInt64.lt_iff_toNat_lt]
      omega

/-- The modular full test of `try_reserve`: a ring that is not full has a free slot. -/
theorem free_slot (geometry : FixedGeometry block) (fronts : Fronts block state)
    (notFull : ¬ (state.writePos % block.dataCapacity = state.readPos % block.dataCapacity ∧
      state.writePos > state.readPos)) :
    state.writePos.toNat + (itemSize block).toNat ≤
      state.readPos.toNat + block.dataCapacity.toNat := by
  refine add_size_le fronts.writeWhole (Nat.dvd_add fronts.readWhole geometry.divides) ?_
  refine Nat.lt_of_le_of_ne fronts.bounded fun lapped => notFull ((full_iff geometry fronts).mpr ?_)
  apply UInt64.toNat_inj.mp
  rw [toNat_sub (Nat.le_trans fronts.consumed fronts.published), lapped, Nat.add_sub_cancel_left]

section Fronts

variable (fronts : Fronts block state)
include fronts

/-- The reservation front moves on by a slot that is free. -/
theorem Fronts.claim (inRange : state.writePos.toNat + (itemSize block).toNat < 2 ^ 64)
    (room : state.writePos.toNat + (itemSize block).toNat ≤
      state.readPos.toNat + block.dataCapacity.toNat) :
    Fronts block (state.storeWrite block state.writePos) := by
  have published := fronts.published
  have moved : (state.writePos + itemSize block).toNat =
      state.writePos.toNat + (itemSize block).toNat := toNat_add inRange
  refine { fronts with published := ?_, bounded := ?_, writeWhole := ?_ }
  · simp only [State.storeWrite, moved]
    omega
  · simp only [State.storeWrite, moved]
    omega
  · simp only [State.storeWrite, moved]
    exact Nat.dvd_add fronts.writeWhole (Nat.dvd_refl _)

/-- The published front catches up with the reservation front. -/
theorem Fronts.publish : Fronts block { state with commitPos := state.writePos } :=
  { fronts with
    consumed := Nat.le_trans fronts.consumed fronts.published
    published := Nat.le_refl _
    commitWhole := fronts.writeWhole }

end Fronts

/-- A step that only moves the writer's program counter or its last result. -/
theorem Inv.goto {reserved : Option Nat} (inv : Inv block state) (pc : WriterPc)
    (writer : WriterOk block { state with reserved, writerPc := pc }) :
    Inv block { state with reserved, writerPc := pc } :=
  { inv with fronts := { inv.fronts with }, writer := writer }

theorem Inv.settled (inv : Inv block state) (idle : state.writerPc = .idle)
    (free : state.pending = false) : Settled state := by
  have writer := inv.writer
  simp only [WriterOk, idle] at writer
  rcases writer with settled | outstanding
  · exact settled
  · exact absurd outstanding.guarded (by simp [free])

theorem Inv.outstanding (inv : Inv block state) (idle : state.writerPc = .idle)
    (guarded : state.pending = true) : Outstanding block state := by
  have writer := inv.writer
  simp only [WriterOk, idle] at writer
  rcases writer with settled | outstanding
  · exact absurd settled.free (by simp [guarded])
  · exact outstanding

theorem inv_beginReserve (inv : Inv block state) (idle : state.writerPc = .idle)
    (sized : Sized block source) : Inv block (state.beginReserve source) := by
  unfold State.beginReserve
  split
  · rename_i guarded
    exact inv.goto .idle (.inr { inv.outstanding idle guarded with })
  · rename_i free
    have settled := inv.settled idle (by simpa using free)
    exact inv.goto (.loadWrite source) ⟨{ settled with }, sized⟩

theorem inv_beginCommit (inv : Inv block { state with writerPc := .idle }) :
    Inv block state.beginCommit := by
  unfold State.beginCommit
  split
  · exact inv
  · rename_i guarded
    have outstanding := inv.outstanding rfl (by simpa using guarded)
    exact inv.goto .storeCommit { outstanding with }

theorem inv_afterReserve (inv : Inv block { state with writerPc := .idle })
    (outstanding : Outstanding block state) (sized : Sized block source)
    (front : write = state.commitPos) : Inv block (state.afterReserve source write) := by
  unfold State.afterReserve
  split
  · exact inv
  · split
    · exact inv.goto (.copy _ write) ⟨{ outstanding with }, sized, front⟩
    · exact inv_beginCommit inv

theorem inv_storeWrite (inv : Inv block state) (small : NoWrap block state)
    (geometry : FixedGeometry block)
    (here : state.writerPc = .storeWrite source write)
    (taken : writerStep block state = some after) : Inv block after := by
  have writer := inv.writer
  simp only [WriterOk, here] at writer
  obtain ⟨settled, sized, rfl, room⟩ := writer
  have fronts := inv.fronts
  have item := Nat.le_of_dvd geometry.capacity geometry.divides
  have inRange : state.writePos.toNat + (itemSize block).toNat < 2 ^ 64 := by
    unfold NoWrap at small
    omega
  have moved : (state.writePos + itemSize block).toNat =
      state.writePos.toNat + (itemSize block).toNat := toNat_add inRange
  have outstanding : Outstanding block (state.storeWrite block state.writePos) := by
    refine ⟨rfl, ?_, rfl, ?_⟩
    · rw [settled.equal] at moved
      simp only [State.storeWrite, settled.equal, moved]
    · simp only [State.storeWrite, Log.reserve, settled.equal, Memory.slot, indexOf_eq]
  have resting : Inv block { state.storeWrite block state.writePos with writerPc := .idle } := by
    have claimed := fronts.claim inRange room
    exact { inv with fronts := { claimed with }, writer := .inr { outstanding with } }
  simp only [writerStep, here] at taken
  cases taken
  exact inv_afterReserve resting outstanding sized settled.equal

/-- The position a pending reservation is for. -/
theorem Outstanding.position (outstanding : Outstanding block state) :
    state.reservedEnd - itemSize block = state.commitPos := by
  have reserved := outstanding.reserved
  apply UInt64.toNat_inj.mp
  rw [outstanding.stop, toNat_sub (by omega), reserved]
  exact Nat.add_sub_cancel _ _

/-- A write into the outstanding slot, which the observer's draft follows. -/
theorem Outstanding.fill {offset : Nat} {bytes : List UInt8} (outstanding : Outstanding block state)
    (fits : offset + bytes.length ≤ (itemSize block).toNat) :
    Outstanding block (state.fill block offset bytes) := by
  refine { outstanding with draft := ?_ }
  simp only [State.fill, outstanding.position, indexOf_eq, Memory.slot, Log.fill]
  rw [Memory.read_write_inside fits, ← outstanding.draft]
  rfl

theorem inv_fill {offset : Nat} {bytes : List UInt8}
    (inv : Inv block { state with writerPc := .idle }) (outstanding : Outstanding block state)
    (fits : offset + bytes.length ≤ (itemSize block).toNat) :
    Inv block { state.fill block offset bytes with writerPc := .idle } :=
  { inv with
    fronts := { inv.fronts with }
    writer := .inr { outstanding.fill fits with } }

/-- The copy of `write` is one fill of the whole source. -/
theorem copy_eq (outstanding : Outstanding block state) (source : Source) :
    writerStep block { state with writerPc := .copy source state.commitPos } =
      some (State.beginCommit (state.fill block 0 (source.data.read 0 source.size.toNat))) := by
  simp only [writerStep, State.fill, outstanding.position, Nat.add_zero]
  rfl

theorem inv_copy {source : Source} (inv : Inv block state)
    (here : state.writerPc = .copy source write) (taken : writerStep block state = some after) :
    Inv block after := by
  have writer := inv.writer
  simp only [WriterOk, here] at writer
  obtain ⟨outstanding, sized, rfl⟩ := writer
  have resting : Inv block { state with writerPc := .idle } :=
    inv.goto .idle (.inr { outstanding with })
  have copied := copy_eq outstanding source
  rw [← here] at copied
  rw [copied] at taken
  cases taken
  exact inv_beginCommit (inv_fill resting outstanding (by simpa using sized source rfl))

/-- What the producer publishes only adds to what the reader has relied on. -/
theorem ReaderOk.mono (reader : ReaderOk block before) (pc : after.readerPc = before.readerPc)
    (readPos : after.readPos = before.readPos)
    (published : before.commitPos.toNat ≤ after.commitPos.toNat) : ReaderOk block after := by
  cases looking : before.readerPc with
  | idle | loadRead _ | bumpRead => simp only [ReaderOk, pc, looking]
  | loadCommit _ _ =>
    simp only [ReaderOk, pc, looking, readPos] at reader ⊢
    exact reader
  | copyOut _ _ =>
    simp only [ReaderOk, pc, looking, readPos] at reader ⊢
    exact ⟨reader.1, Nat.le_trans reader.2 published⟩
  | fetchAdd _ =>
    simp only [ReaderOk, pc, looking, readPos] at reader ⊢
    exact Nat.le_trans reader published

theorem inv_storeCommit (inv : Inv block state) (here : state.writerPc = .storeCommit)
    (taken : writerStep block state = some after) : Inv block after := by
  have writer := inv.writer
  simp only [WriterOk, here] at writer
  have published := inv.fronts.published
  simp only [writerStep, here, writer.stop] at taken
  cases taken
  refine ⟨{ inv.fronts.publish with }, ⟨rfl, rfl⟩, ?_, ?_⟩
  · exact inv.reader.mono rfl rfl published
  · intro position member
    exact Nat.le_trans (inv.viewed position member) published

theorem inv_writerStep (geometry : FixedGeometry block) (inv : Inv block state)
    (small : NoWrap block state) (taken : writerStep block state = some after) :
    Inv block after := by
  have writer := inv.writer
  cases here : state.writerPc with
  | idle => simp [writerStep, here] at taken
  | loadWrite source =>
    simp only [WriterOk, here] at writer
    simp only [writerStep, here] at taken
    cases taken
    exact inv.goto (.loadRead source state.writePos) ⟨{ writer.1 with }, writer.2, rfl⟩
  | loadRead source write =>
    simp only [WriterOk, here] at writer
    obtain ⟨settled, sized, rfl⟩ := writer
    simp only [writerStep, here] at taken
    split at taken
    · cases taken
      exact inv.goto .idle (.inl { settled with })
    · rename_i notFull
      cases taken
      exact inv.goto (.storeWrite source state.writePos)
        ⟨{ settled with }, sized, rfl, free_slot geometry inv.fronts notFull⟩
  | storeWrite source write => exact inv_storeWrite inv small geometry here taken
  | copy source write => exact inv_copy inv here taken
  | storeCommit => exact inv_storeCommit inv here taken
  | bumpCommit =>
    simp only [WriterOk, here] at writer
    simp only [writerStep, here] at taken
    cases taken
    exact { inv with fronts := { inv.fronts with }, writer := .inl { writer with } }

/-- The consumer moves nothing the writer has relied on, and only adds room. -/
theorem WriterOk.reader {moved : UInt64} {wake : UInt32} {slot : Option Nat} {outSize : UInt32}
    {out : List UInt8} {pc : ReaderPc} {views : List UInt64} (writer : WriterOk block state)
    (advanced : state.readPos.toNat ≤ moved.toNat) :
    WriterOk block { state with
      readPos := moved, readWakeSeq := wake, slot, outSize, out, readerPc := pc,
      log := { state.log with views } } := by
  cases here : state.writerPc with
  | idle =>
    simp only [WriterOk, here] at writer ⊢
    rcases writer with settled | outstanding
    · exact .inl { settled with }
    · exact .inr { outstanding with }
  | loadWrite source | loadRead source write =>
    simp only [WriterOk, here] at writer ⊢
    exact ⟨{ writer.1 with }, writer.2⟩
  | storeWrite source write =>
    simp only [WriterOk, here] at writer ⊢
    exact ⟨{ writer.1 with }, writer.2.1, writer.2.2.1, by omega⟩
  | copy source write =>
    simp only [WriterOk, here] at writer ⊢
    exact ⟨{ writer.1 with }, writer.2⟩
  | storeCommit | bumpCommit =>
    simp only [WriterOk, here] at writer ⊢
    exact { writer with }

/-- A step that moves the reader's program counter and its caller's results. -/
theorem Inv.look {wake : UInt32} {slot : Option Nat} {outSize : UInt32} {out : List UInt8}
    (inv : Inv block state) (pc : ReaderPc) (reader : ReaderOk block { state with readerPc := pc }) :
    Inv block { state with readWakeSeq := wake, slot, outSize, out, readerPc := pc } :=
  { inv with
    fronts := { inv.fronts with }
    writer := inv.writer.reader (Nat.le_refl _)
    reader := reader }

/-- A non-null `try_read` records the slot at the front, which is published. -/
theorem Inv.view {slot : Option Nat} {outSize : UInt32} (inv : Inv block state) (pc : ReaderPc)
    (reader : ReaderOk block { state with readerPc := pc })
    (published : state.readPos.toNat + (itemSize block).toNat ≤ state.commitPos.toNat) :
    Inv block { state with
      slot, outSize, readerPc := pc, log := state.log.view state.readPos } := by
  refine { inv with
    fronts := { inv.fronts with }
    writer := inv.writer.reader (Nat.le_refl _)
    reader := reader
    viewed := ?_ }
  intro position member
  simp only [Log.view, List.mem_append, List.mem_singleton] at member
  rcases member with earlier | rfl
  · exact inv.viewed position earlier
  · exact published

/-- The fetch-and-add of `read_advance`, within the published slots. -/
theorem toNat_fetchAdd {count : UInt64} (published : state.readPos.toNat +
      count.toNat * (itemSize block).toNat ≤ state.commitPos.toNat) :
    (state.readPos + count * itemSize block).toNat =
      state.readPos.toNat + count.toNat * (itemSize block).toNat := by
  have limit := state.commitPos.toNat_lt
  have product : (count * itemSize block).toNat = count.toNat * (itemSize block).toNat :=
    toNat_mul (by omega)
  rw [toNat_add (by omega), product]

/-- The consumer's front moves on within the published slots. -/
theorem Fronts.consume {count : UInt64} (fronts : Fronts block state)
    (published : state.readPos.toNat + count.toNat * (itemSize block).toNat ≤
      state.commitPos.toNat) :
    Fronts block { state with readPos := state.readPos + count * itemSize block } := by
  have moved := toNat_fetchAdd published
  have bounded := fronts.bounded
  refine { fronts with consumed := ?_, bounded := ?_, readWhole := ?_ }
  · rw [moved]
    exact published
  · simp only [moved]
    omega
  · simp only [moved]
    exact Nat.dvd_add fronts.readWhole (Nat.dvd_mul_left _ _)

theorem published_slot (fronts : Fronts block state) (unread : ¬ state.commitPos ≤ state.readPos) :
    state.readPos.toNat + (itemSize block).toNat ≤ state.commitPos.toNat := by
  rw [UInt64.le_iff_toNat_le] at unread
  exact add_size_le fronts.readWhole fronts.commitWhole (Nat.not_le.mp unread)

theorem inv_readerStep (inv : Inv block state) (taken : readerStep block state = some after) :
    Inv block after := by
  have reader := inv.reader
  have fronts := inv.fronts
  cases here : state.readerPc with
  | idle => simp [readerStep, here] at taken
  | loadRead size =>
    simp only [readerStep, here] at taken
    cases taken
    exact inv.look (.loadCommit size state.readPos) rfl
  | loadCommit size read =>
    simp only [ReaderOk, here] at reader
    subst reader
    simp only [readerStep, here] at taken
    split at taken
    · cases taken
      exact inv.look .idle trivial
    · rename_i unread
      have published := published_slot fronts unread
      split at taken
      · cases taken
        exact inv.view .idle trivial published
      · cases taken
        exact inv.view (.copyOut _ state.readPos) ⟨rfl, published⟩ published
  | copyOut size read =>
    simp only [ReaderOk, here] at reader
    simp only [readerStep, here] at taken
    cases taken
    refine inv.look (.fetchAdd 1) ?_
    show state.readPos.toNat + (1 : UInt64).toNat * (itemSize block).toNat ≤ state.commitPos.toNat
    rw [UInt64.toNat_one, Nat.one_mul]
    exact reader.2
  | fetchAdd count =>
    simp only [ReaderOk, here] at reader
    have moved := toNat_fetchAdd reader
    simp only [readerStep, here] at taken
    cases taken
    exact { inv with
      fronts := { fronts.consume reader with }
      writer := inv.writer.reader (by omega)
      reader := trivial }
  | bumpRead =>
    simp only [readerStep, here] at taken
    cases taken
    exact inv.look .idle trivial

theorem Inv.resting (inv : Inv block state) (idle : state.writerPc = .idle) :
    Inv block { state with writerPc := .idle } := by
  rw [← idle]
  exact inv

theorem inv_step (geometry : FixedGeometry block) {action : Action} (inv : Inv block before)
    (admitted : SingleSession block before action after)
    (taken : step block before action = some after) : Inv block after := by
  cases action with
  | call call =>
    simp only [step] at taken
    split at taken
    · rename_i idle
      cases taken
      exact inv_beginReserve inv idle (by simp [Sized])
    · rename_i idle
      cases taken
      refine inv_beginReserve inv idle fun given member => ?_
      cases member
      exact admitted.contract
    · rename_i idle
      cases taken
      exact inv_beginCommit (inv.resting idle)
    · cases taken
  | fill offset bytes =>
    simp only [step] at taken
    split at taken
    · rename_i idle
      split at taken
      · rename_i reserved
        cases taken
        have filled := inv_fill (inv.resting idle) (inv.outstanding idle reserved.1) reserved.2
        simpa [State.fill, idle] using filled
      · cases taken
    · cases taken
  | writer => exact inv_writerStep geometry inv admitted.unwrapped taken
  | restart => exact absurd rfl admitted.single
  | read call =>
    simp only [step] at taken
    split at taken
    · cases taken
      exact inv.look (.loadRead none) trivial
    · cases taken
      exact inv.look (.loadRead (some _)) trivial
    · cases taken
      exact inv.look (.fetchAdd _) admitted.contract
    · cases taken
  | reader => exact inv_readerStep inv taken

theorem inv_initial (data : Memory) (fresh : block.rbMeta = {}) : Inv block (initial block data) := by
  simp only [initial, fresh]
  refine ⟨⟨Nat.le_refl _, Nat.le_refl _, Nat.zero_le _, ⟨0, rfl⟩, ⟨0, rfl⟩, ⟨0, rfl⟩⟩,
    .inl ⟨rfl, rfl⟩, trivial, ?_⟩
  simp [Viewed]

end SpscRing.Fixed
