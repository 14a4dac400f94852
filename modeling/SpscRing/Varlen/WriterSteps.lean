import SpscRing.Varlen.Frame

/-! Every step of the producer keeps the representation invariant. -/

namespace SpscRing.Varlen

open SpscRing.Foundation

section Observers

variable {front : UInt64} {slots more : List Slot} {position : UInt64} {holds : Slot → Prop}
variable {pc : ReaderPc} {log grown : Log} {consuming : Bool}

theorem Front.append (ahead : Front front slots position holds) :
    Front front (slots ++ more) position holds := by
  obtain ⟨same, first, rest, cons, property⟩ := ahead
  exact ⟨same, first, rest ++ more, by simp [cons], property⟩

/-- What the producer publishes behind the front does not concern the reader. -/
theorem ReaderOk.append (ok : ReaderOk front slots pc) : ReaderOk front (slots ++ more) pc := by
  cases pc with
  | idle | loadRead _ | skipBump _ | consumeBump => trivial
  | loadCommit _ _ => exact ok
  | checkPublished _ _ _ | checkWhole _ _ _ | checkPadding _ _ | skipSize _ _ | skipStore _ _ _
  | takeSize _ _ | takeMeta _ _ _ | handle _ _ _ _ | consumeSize _ | consumeStore _ _ =>
    exact Front.append ok

theorem ReaderOk.front_of_consuming (ok : ReaderOk front slots pc) (busy : pc.consuming = true) :
    ∃ first rest, slots = first :: rest := by
  cases pc with
  | consumeSize _ | consumeStore _ _ =>
    obtain ⟨-, first, rest, cons, -⟩ := ok
    exact ⟨first, rest, cons⟩
  | _ => cases busy

theorem Live.mono {block : ControlBlock} {data : Memory} {start stop : Nat}
    (tiled : Tiled Slot.size (Live block data log) start slots stop)
    (reservations : log.reservations ⊆ grown.reservations) (commits : log.commits ⊆ grown.commits) :
    Tiled Slot.size (Live block data grown) start slots stop :=
  tiled.imp fun _ _ _ _ live => ⟨live.1, fun payload => (live.2 payload).mono reservations commits⟩

theorem Delivery.mono (delivery : Delivery log consuming front slots)
    (published : grown.published = log.published) (reads : grown.reads = log.reads)
    (reservations : log.reservations ⊆ grown.reservations) (commits : log.commits ⊆ grown.commits) :
    Delivery grown consuming front slots where
  messages := by
    rw [published, Log.acceptedMessages, reads]
    exact delivery.messages
  reoffered := reads ▸ delivery.reoffered
  declined := reads ▸ delivery.declined
  owned := by
    rw [reads]
    exact fun outcome member offer offered =>
      (delivery.owned outcome member offer offered).mono reservations commits

theorem undelivered_append (slots more : List Slot) :
    undelivered (slots ++ more) = undelivered slots ++ undelivered more := by
  simp [undelivered, deliverable]

/-- Publishing one slot appends its message, if it has one, to what is undelivered. -/
theorem Delivery.snoc {slot : Slot} (delivery : Delivery log consuming front slots)
    (nonempty : consuming = true → ∃ first rest, slots = first :: rest)
    (published : deliverable grown.published = deliverable log.published ++ undelivered [slot])
    (reads : grown.reads = log.reads) (reservations : log.reservations ⊆ grown.reservations)
    (commits : log.commits ⊆ grown.commits) :
    Delivery grown consuming front (slots ++ [slot]) where
  messages := by
    rw [published, delivery.messages, Log.acceptedMessages, Log.acceptedMessages, reads,
      List.append_assoc, ← undelivered_append]
    cases consuming with
    | false => rfl
    | true =>
      obtain ⟨first, rest, cons⟩ := nonempty rfl
      simp [cons]
  reoffered := reads ▸ delivery.reoffered
  declined := by
    rw [reads]
    exact fun offer last => ⟨(delivery.declined offer last).1, (delivery.declined offer last).2.append⟩
  owned := by
    rw [reads]
    exact fun outcome member offer offered =>
      (delivery.owned outcome member offer offered).mono reservations commits

end Observers

variable {block : ControlBlock} {state : State} {slots : List Slot} {call : ReserveCall}
variable {head position : UInt64}

theorem Inv.front_le (inv : Inv block state slots) : state.readPos.toNat ≤ state.commitPos.toNat :=
  inv.tiled.le

/-- An idle writer with no reservation pending has published all it reserved. -/
theorem Inv.settled (inv : Inv block state slots) (resting : state.writerPc = .idle)
    (free : state.pending = false) : Settled state := by
  have writer := inv.writer
  simp only [WriterOk, resting] at writer
  rcases writer with settled | ⟨header, outstanding⟩
  · exact settled
  · exact absurd outstanding.guarded (by simp [free])

theorem Inv.outstanding (inv : Inv block state slots) (resting : state.writerPc = .idle)
    (guarded : state.pending = true) : ∃ header, Outstanding block state header := by
  have writer := inv.writer
  simp only [WriterOk, resting] at writer
  rcases writer with settled | outstanding
  · exact absurd settled.free (by simp [guarded])
  · exact outstanding

/-- A step that only moves the writer's program counter and its last result. -/
theorem Inv.goto {returned : Option ReserveResult} {backoff : AtomicBackoff}
    (inv : Inv block state slots) (pc : WriterPc)
    (writer : WriterOk block { state with writerPc := pc, returned := returned, backoff := backoff }) :
    Inv block { state with writerPc := pc, returned := returned, backoff := backoff } slots :=
  { inv with writer := writer }

theorem inv_beginReserve (inv : Inv block state slots) (resting : state.writerPc = .idle)
    (sound : SizeSound block call.payloadSize) :
    Inv block (state.beginReserve block call) slots := by
  unfold State.beginReserve State.finishReserve
  split
  · rename_i guarded
    obtain ⟨header, outstanding⟩ := inv.outstanding resting guarded
    exact inv.goto .idle (.inr ⟨header, { outstanding with }⟩)
  · rename_i free
    have settled := inv.settled resting (by simpa using free)
    split
    · exact inv.goto .idle (.inl { settled with })
    · rename_i small
      have room : (neededFor block call.payloadSize).toNat ≤ block.dataCapacity.toNat := by
        simpa [UInt64.lt_iff_toNat_lt] using small
      have unwrapped : Unwrapped block call.payloadSize :=
        sound.resolve_right (Nat.not_lt.mpr room)
      exact inv.goto (.loadHead call) ⟨⟨unwrapped, room⟩, settled.free, settled.equal⟩

/-- An idle writer with a matching reservation goes on to publish it; every
other `commit` is a no-op. -/
theorem inv_beginCommit (inv : Inv block { state with writerPc := .idle } slots) :
    Inv block (state.beginCommit position) slots := by
  unfold State.beginCommit
  split
  · exact inv
  · rename_i matching
    simp only [Bool.or_eq_true, Bool.not_eq_true', bne_iff_ne, ne_eq, not_or, Bool.not_eq_false,
      not_not] at matching
    obtain ⟨header, outstanding⟩ := inv.outstanding rfl matching.1
    exact inv.goto (.readSlotSize position) ⟨header, { outstanding with }, matching.2⟩

variable {after : State}

/-- The free-space check leaves a writer that has seen enough room either
before its padding or before its slot. -/
theorem inv_loadRead (inv : Inv block state slots) (small : InRange block state)
    (here : state.writerPc = .loadRead call head) (taken : writerStep block state = some after) :
    Inv block after slots := by
  have writer := inv.writer
  simp only [WriterOk, here] at writer
  obtain ⟨reserving, current⟩ := writer
  have short := (neededFor block call.payloadSize).toNat_lt
  have ordered := inv.front_le
  have committed := inv.committed
  simp only [writerStep, here] at taken
  split at taken
  · cases taken
    exact inv.goto .idle (.inl ⟨reserving.free, reserving.settled⟩)
  · rename_i roomy
    have room : Room block state call head := by
      subst current
      unfold InRange at small
      have fits := reserving.fits.room
      exact (room_iff (by omega) (by omega)).mp roomy
    split at taken
    · rename_i padded
      cases taken
      exact inv.goto (.casPad call head)
        ⟨{ reserving with }, current, room, by simpa [UInt64.lt_iff_toNat_lt] using padded⟩
    · rename_i contiguous
      cases taken
      exact inv.goto (.casSlot call head)
        ⟨{ reserving with }, current, room, by simpa [UInt64.lt_iff_toNat_lt] using contiguous⟩

/-- Publishing the outstanding slot appends it to the tiling. -/
theorem Inv.publish {slot : Slot} {log : Log} {commitPos : UInt64} {pending : Bool}
    (inv : Inv block state slots) (pc : WriterPc)
    (placed : SlotAt block state.data state.commitPos.toNat slot)
    (owned : slot.payload ≠ [] → log.OwnCommit state.commitPos)
    (moved : commitPos.toNat = state.commitPos.toNat + slot.size) (reserved : commitPos = state.writePos)
    (published : deliverable log.published = deliverable state.log.published ++ undelivered [slot])
    (reads : log.reads = state.log.reads)
    (reservations : state.log.reservations ⊆ log.reservations)
    (commits : state.log.commits ⊆ log.commits)
    (writer : WriterOk block { state with commitPos, pending, writerPc := pc, log }) :
    Inv block { state with commitPos, pending, writerPc := pc, log } (slots ++ [slot]) where
  tiled := by
    rw [moved]
    exact (Live.mono inv.tiled reservations commits).snoc ⟨placed, by simpa using owned⟩
  committed := Nat.le_of_eq (congrArg UInt64.toNat reserved)
  bounded := inv.bounded
  alignedCommit := reserved ▸ inv.alignedWrite
  alignedWrite := inv.alignedWrite
  writer := writer
  reader := inv.reader.append
  delivery := inv.delivery.snoc inv.reader.front_of_consuming published reads reservations commits

section Padded

variable (shape : Shape block)
include shape

theorem inv_casPad (inv : Inv block state slots) (small : InRange block state)
    (here : state.writerPc = .casPad call head) (taken : writerStep block state = some after) :
    Inv block after slots := by
  have writer := inv.writer
  simp only [WriterOk, here] at writer
  obtain ⟨reserving, current, room, short⟩ := writer
  have edge := index_add_wrapPadding shape head
  have aligned := inv.alignedWrite
  have bounded := inv.bounded
  have committed := inv.committed
  unfold InRange at small
  unfold Room at room
  simp only [writerStep, here, if_pos current.symm] at taken
  cases taken
  have reserved : (head + wrapPadding block head).toNat =
      head.toNat + (wrapPadding block head).toNat := toNat_add (by subst current; omega)
  refine { inv with committed := ?_, bounded := ?_, alignedWrite := ?_, writer := ?_ }
  · subst current
    simp only [reserved]
    omega
  · simp only [reserved]
    omega
  · simp only [reserved]
    rw [← current] at aligned
    exact Nat.dvd_add aligned (granule_dvd_wrapPadding shape aligned)
  · exact ⟨reserving.fits, reserving.free, by rw [current]; exact reserving.settled.symm,
      reserved, short⟩

/-- The dummy header may spill over the ring end, but not onto a published slot. -/
theorem inv_writePad (inv : Inv block state slots) (here : state.writerPc = .writePad call head)
    (taken : writerStep block state = some after) : Inv block after slots := by
  have writer := inv.writer
  simp only [WriterOk, here] at writer
  have edge := index_add_wrapPadding shape head
  have bounded := inv.bounded
  rw [writer.reserved] at bounded
  simp only [writerStep, here] at taken
  cases taken
  refine { inv with tiled := ?_, writer := ?_ }
  · refine tiled_write shape inv.tiled (confined_storeHeader _ _ _)
      (Nat.le_of_eq (congrArg UInt64.toNat writer.front)) bounded (.inr edge)
  · exact ⟨{ writer with }, loadHeader_storeHeader _ _ _⟩

theorem inv_publishPad (inv : Inv block state slots) (here : state.writerPc = .publishPad call head)
    (taken : writerStep block state = some after) : ∃ slot, Inv block after (slots ++ [slot]) := by
  have writer := inv.writer
  simp only [WriterOk, here] at writer
  obtain ⟨padding, header⟩ := writer
  have front := padding.front
  have short := padding.short
  have needed := (neededFor block call.payloadSize).toNat_lt
  have edge := index_add_wrapPadding shape head
  have size : (wrapPadding block head).toUInt32.toNat = (wrapPadding block head).toNat := by
    rw [UInt64.toNat_toUInt32]
    exact Nat.mod_eq_of_lt (by omega)
  have moved : head + wrapPadding block head = state.writePos := by
    apply UInt64.toNat_inj.mp
    rw [padding.reserved]
    exact toNat_add (by rw [← padding.reserved]; exact UInt64.toNat_lt _)
  have placed : SlotAt block state.data state.commitPos.toNat
      ⟨{ slotSize := (wrapPadding block head).toUInt32, payloadSize := 0 }, []⟩ := by
    rw [front]
    refine ⟨header, rfl, ?_, front ▸ inv.alignedCommit, ?_, .inr ⟨rfl, ?_⟩⟩
    · simp only [Slot.size, size]
      exact wrapPadding_pos shape head
    · simp only [Slot.size, size, edge, Nat.le_refl]
    · simp only [Slot.size, size, edge]
  simp only [writerStep, here] at taken
  cases taken
  refine ⟨_, inv.publish (.bumpPad call (head + wrapPadding block head)) placed (by simp) ?_ moved
    (by simp [undelivered, deliverable, Slot.message]) rfl (List.Subset.refl _) (List.Subset.refl _)
    ⟨⟨padding.fits, padding.free, moved.symm⟩, moved⟩⟩
  rw [moved, padding.reserved, front]
  simp only [Slot.size, size]

end Padded

section Reserved

theorem inv_casSlot (shape : Shape block) (inv : Inv block state slots)
    (small : InRange block state) (here : state.writerPc = .casSlot call head)
    (taken : writerStep block state = some after) : Inv block after slots := by
  have writer := inv.writer
  simp only [WriterOk, here] at writer
  obtain ⟨reserving, current, room, contiguous⟩ := writer
  have aligned := inv.alignedWrite
  have committed := inv.committed
  have fits := reserving.fits.room
  unfold InRange at small
  unfold Room at room
  simp only [writerStep, here, if_pos current.symm] at taken
  cases taken
  have reserved : (head + (neededFor block call.payloadSize).toUInt64).toNat =
      head.toNat + (neededFor block call.payloadSize).toNat := by
    rw [toNat_add, UInt32.toNat_toUInt64]
    rw [UInt32.toNat_toUInt64]
    subst current
    omega
  have grown : state.log.reservations ⊆ (state.log.reserve head).reservations := by
    simp [Log.reserve]
  refine { inv with
    tiled := Live.mono inv.tiled grown (List.Subset.refl _)
    committed := ?_
    bounded := ?_
    alignedWrite := ?_
    writer := ?_
    delivery := inv.delivery.mono rfl rfl grown (List.Subset.refl _) }
  · subst current
    simp only [reserved]
    omega
  · simp only [reserved]
    omega
  · simp only [reserved]
    rw [← current] at aligned
    rw [toNat_neededFor_exact shape _ reserving.fits.unwrapped]
    exact Nat.dvd_add aligned (granule_dvd_alignment.trans (exactSlotSize_dvd _))
  · exact ⟨reserving.fits, reserving.free, by rw [current]; exact reserving.settled.symm,
      reserved, contiguous, by simp [Log.reserve]⟩

/-- After a reservation the caller may copy, commit or go away; nothing of it
changes what is published. -/
theorem inv_afterCopy (inv : Inv block { state with writerPc := .idle } slots) :
    Inv block (state.afterCopy call head) slots := by
  unfold State.afterCopy
  split
  · exact inv_beginCommit inv
  · exact inv

theorem inv_afterReserve {header : VarlenSlotHeader}
    (inv : Inv block { state with writerPc := .idle } slots)
    (outstanding : Outstanding block state header) (current : head = state.lastPosition)
    (size : header.payloadSize = call.payloadSize) :
    Inv block (state.afterReserve call head) slots := by
  unfold State.afterReserve
  split
  · split
    · exact inv.goto (.copyPayload call head _) ⟨header, { outstanding with }, current, size⟩
    · exact inv_afterCopy inv
  · exact inv_afterCopy inv

theorem inv_writeSlot (shape : Shape block) (inv : Inv block state slots)
    (here : state.writerPc = .writeSlot call head) (taken : writerStep block state = some after) :
    Inv block after slots := by
  have writer := inv.writer
  simp only [WriterOk, here] at writer
  have front := writer.front
  have edge := index_add_wrapPadding shape head
  have contiguous := writer.contiguous
  have large := writer.fits.needed_ge shape
  have bounded := inv.bounded
  rw [writer.reserved] at bounded
  have outstanding : Outstanding block (state.writeSlot block call head)
      { slotSize := neededFor block call.payloadSize
        payloadSize := call.payloadSize
        messageMeta := call.messageMeta } := by
    refine ⟨rfl, front.symm, ?_, rfl, large, rfl, ?_, ?_⟩
    · refine ⟨?_, ?_, ?_, inv.alignedCommit, ?_, .inl large⟩
      · rw [State.writeSlot, front, ← indexOf_eq]
        exact loadHeader_storeHeader _ _ _
      · simp only [State.writeSlot, front, indexOf_eq]
      · simp only [Slot.size]
        omega
      · simp only [State.writeSlot, front, Slot.size]
        omega
    · rw [State.writeSlot, front]
      exact writer.reserved
    · rw [State.writeSlot, front]
      exact writer.logged
  have placed : Inv block { state.writeSlot block call head with writerPc := .idle } slots := by
    refine { inv with
      tiled := Live.mono (tiled_write shape inv.tiled (confined_storeHeader _ _ _)
        (Nat.le_of_eq (congrArg UInt64.toNat front)) bounded (.inl (by omega)))
        (List.Subset.refl _) (List.Subset.refl _)
      writer := .inr ⟨_, { outstanding with }⟩
      delivery := inv.delivery.mono rfl rfl (List.Subset.refl _) (List.Subset.refl _) }
  simp only [writerStep, here] at taken
  cases taken
  exact inv_afterReserve placed outstanding rfl rfl

theorem Outstanding.index {header : VarlenSlotHeader} (outstanding : Outstanding block state header) :
    indexOf block state.lastPosition = state.commitPos.toNat % block.dataCapacity.toNat := by
  rw [outstanding.front, indexOf_eq]

/-- A write into the payload area of the outstanding slot. -/
theorem Outstanding.fill {header : VarlenSlotHeader} {offset : Nat} {bytes : List UInt8}
    (outstanding : Outstanding block state header)
    (fits : offset + bytes.length ≤ header.payloadSize.toNat) :
    Outstanding block (state.fill block offset bytes) header := by
  have placed := outstanding.slot
  refine { outstanding with slot := { placed with header := ?_, payload := ?_ } }
  · rw [← placed.header]
    simp only [State.fill, outstanding.index]
    exact loadHeader_congr ((Memory.confined_write (Nat.le_refl _) (Nat.le_refl _)).agree (.inl (by omega)))
  · simp only [State.fill, outstanding.index, Log.fill]
    rw [Memory.read_write_inside fits, placed.payload]

theorem inv_fill (shape : Shape block) {header : VarlenSlotHeader}
    (inv : Inv block { state with writerPc := .idle } slots)
    (outstanding : Outstanding block state header) (offset : Nat) (bytes : List UInt8)
    (fits : offset + bytes.length ≤ header.payloadSize.toNat) :
    Inv block { state.fill block offset bytes with writerPc := .idle } slots := by
  have roomy := outstanding.roomy
  have bounded := inv.bounded
  simp only [outstanding.reserved] at bounded
  have confined : (state.fill block offset bytes).data.Confined state.data
      (state.commitPos.toNat % block.dataCapacity.toNat) header.slotSize.toNat := by
    rw [State.fill, outstanding.index]
    exact Memory.confined_write (by omega) (by omega)
  exact { inv with
    tiled := Live.mono (tiled_write shape inv.tiled confined (Nat.le_refl _) bounded
      (.inl (Nat.le_refl _))) (List.Subset.refl _) (List.Subset.refl _)
    writer := .inr ⟨header, { outstanding.fill fits with }⟩
    delivery := inv.delivery.mono rfl rfl (List.Subset.refl _) (List.Subset.refl _) }

theorem inv_copyPayload (shape : Shape block) {source : Memory} (inv : Inv block state slots)
    (here : state.writerPc = .copyPayload call head source)
    (taken : writerStep block state = some after) : Inv block after slots := by
  have writer := inv.writer
  simp only [WriterOk, here] at writer
  obtain ⟨header, outstanding, rfl, size⟩ := writer
  have resting : Inv block { state with writerPc := .idle } slots :=
    inv.goto .idle (.inr ⟨header, { outstanding with }⟩)
  have filled := inv_fill shape resting outstanding 0 (source.read 0 call.payloadSize.toNat)
    (by simp [size])
  simp only [writerStep, here] at taken
  cases taken
  exact inv_afterCopy filled

theorem inv_publishSlot {slotSize : UInt32} (inv : Inv block state slots)
    (here : state.writerPc = .publishSlot position slotSize)
    (taken : writerStep block state = some after) : ∃ slot, Inv block after (slots ++ [slot]) := by
  have writer := inv.writer
  simp only [WriterOk, here] at writer
  obtain ⟨header, outstanding, rfl, rfl⟩ := writer
  have front := outstanding.front
  have moved : (state.lastPosition + header.slotSize.toUInt64).toNat =
      state.commitPos.toNat + header.slotSize.toNat := by
    rw [front, toNat_add, UInt32.toNat_toUInt64]
    rw [UInt32.toNat_toUInt64, ← outstanding.reserved]
    exact UInt64.toNat_lt _
  have reserved : state.lastPosition + header.slotSize.toUInt64 = state.writePos :=
    UInt64.toNat_inj.mp (moved.trans outstanding.reserved.symm)
  have draft : (⟨header, state.log.draft.payload⟩ : Slot).message = state.log.draft := by
    simp only [Slot.message, outstanding.sameMeta]
  simp only [writerStep, here] at taken
  cases taken
  refine ⟨_, inv.publish .bumpSlot outstanding.slot (fun _ => ⟨state.log.session, ?_, ?_⟩) moved
    reserved ?_ rfl (List.Subset.refl _) (by simp [Log.commit]) ⟨rfl, reserved.symm⟩⟩
  · exact outstanding.logged
  · simp [Log.commit, front]
  · simp only [Log.commit, undelivered, deliverable, List.filter_append, List.map_cons, List.map_nil,
      draft]

end Reserved

/-- Every step of the writer's current call keeps the invariant, publishing at most one slot. -/
theorem inv_writerStep (shape : Shape block) (inv : Inv block state slots)
    (small : InRange block state) (taken : writerStep block state = some after) :
    ∃ more, Inv block after (slots ++ more) := by
  have writer := inv.writer
  have same (kept : Inv block after slots) : ∃ more, Inv block after (slots ++ more) :=
    ⟨[], by simpa using kept⟩
  cases here : state.writerPc with
  | idle => simp [writerStep, here] at taken
  | loadHead call =>
    simp only [WriterOk, here] at writer
    simp only [writerStep, here] at taken
    cases taken
    exact same (inv.goto (.loadRead call state.writePos) ⟨{ writer with }, rfl⟩)
  | loadRead call head => exact same (inv_loadRead inv small here taken)
  | casPad call head => exact same (inv_casPad shape inv small here taken)
  | writePad call head => exact same (inv_writePad shape inv here taken)
  | publishPad call head =>
    obtain ⟨slot, kept⟩ := inv_publishPad shape inv here taken
    exact ⟨[slot], kept⟩
  | bumpPad call head =>
    simp only [WriterOk, here] at writer
    simp only [writerStep, here] at taken
    cases taken
    exact same { inv with writer := ⟨{ writer.1 with }, writer.2⟩ }
  | casSlot call head => exact same (inv_casSlot shape inv small here taken)
  | writeSlot call head => exact same (inv_writeSlot shape inv here taken)
  | copyPayload call head source => exact same (inv_copyPayload shape inv here taken)
  | readSlotSize position =>
    simp only [WriterOk, here] at writer
    obtain ⟨header, outstanding, current⟩ := writer
    simp only [writerStep, here] at taken
    cases taken
    refine same (inv.goto (.publishSlot position _) ⟨header, { outstanding with }, current, ?_⟩)
    rw [current, outstanding.index, outstanding.slot.header]
  | publishSlot position slotSize =>
    obtain ⟨slot, kept⟩ := inv_publishSlot inv here taken
    exact ⟨[slot], kept⟩
  | bumpSlot =>
    simp only [WriterOk, here] at writer
    simp only [writerStep, here] at taken
    cases taken
    exact same { inv with writer := .inl { writer with } }

end SpscRing.Varlen
