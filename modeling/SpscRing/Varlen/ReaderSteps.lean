import Mathlib.Data.List.Chain
import SpscRing.Varlen.WriterSteps

/-! Every step of the consumer keeps the representation invariant. -/

namespace SpscRing.Varlen

open SpscRing.Foundation

section Observers

variable {log : Log} {front moved : UInt64} {first : Slot} {slots rest : List Slot}
variable {consuming : Bool}

/-- A call of `read` ends with an outcome that agrees with the slots in the ring. -/
theorem Delivery.finishRead (delivery : Delivery log false front slots) (outcome : ReadOutcome)
    (messages : undelivered slots =
      outcome.acceptedMessage.toList ++ undelivered (if consuming then slots.tail else slots))
    (reoffered : ∀ offer, log.reads.getLast? = some (.declined offer) →
      outcome = .declined offer ∨ outcome = .accepted offer)
    (declined : ∀ offer, outcome = .declined offer → consuming = false ∧
      Front front slots offer.position fun slot => slot.payload ≠ [] ∧ slot.message = offer.message)
    (owned : ∀ offer, outcome.offer = some offer → log.OwnCommit offer.position) :
    Delivery (log.finishRead outcome) consuming front slots where
  messages := by
    have earlier := delivery.messages
    rw [if_neg (by decide), messages, ← List.append_assoc] at earlier
    rw [Log.finishRead, earlier]
    cases outcome <;> simp [Log.acceptedMessages, ReadOutcome.acceptedMessage]
  reoffered := by
    refine List.isChain_append.mpr ⟨delivery.reoffered, List.isChain_singleton _, ?_⟩
    intro earlier last later next offer same
    simp only [List.head?_cons, Option.mem_some_iff] at next
    exact next ▸ reoffered offer (same ▸ last)
  declined := by
    intro offer last
    simp only [Log.finishRead, List.getLast?_append, List.getLast?_singleton,
      Option.some_or, Option.some.injEq] at last
    exact declined offer last
  owned := by
    intro other member offer offered
    simp only [Log.finishRead, List.mem_append, List.mem_singleton] at member
    rcases member with earlier | rfl
    · exact delivery.owned other earlier offer offered
    · exact owned offer offered

/-- The front leaves a slot behind whose message, if any, has been accepted. -/
theorem Delivery.advance (delivery : Delivery log consuming front (first :: rest))
    (spent : consuming = true ∨ first.payload = []) : Delivery log false moved rest where
  messages := by
    rw [delivery.messages]
    cases consuming with
    | true => rfl
    | false =>
      have empty : first.payload = [] := by simpa using spent
      simp [undelivered, deliverable, Slot.message, empty]
  reoffered := delivery.reoffered
  declined := by
    intro offer last
    obtain ⟨unspent, -, slot, others, cons, payload, -⟩ := delivery.declined offer last
    cases cons
    rcases spent with busy | empty
    · exact absurd busy (by simp [unspent])
    · exact absurd empty payload
  owned := delivery.owned

end Observers

variable {block : ControlBlock} {state after : State} {slots : List Slot} {readPos : UInt64}
variable {holds : Slot → Prop} {call : ReadCall} {answer : Bool}

/-- The consumer moves nothing the writer has relied on, and only adds room. -/
theorem WriterOk.reader {moved : UInt64} {wake : UInt32} {pc : ReaderPc}
    {result : Option ReadOutcome} {reads : List ReadOutcome}
    (writer : WriterOk block state) (advanced : state.readPos.toNat ≤ moved.toNat) :
    WriterOk block { state with
      readPos := moved, readWakeSeq := wake, result, readerPc := pc,
      log := { state.log with reads } } := by
  cases here : state.writerPc with
  | idle =>
    simp only [WriterOk, here] at writer ⊢
    rcases writer with settled | ⟨header, outstanding⟩
    · exact .inl { settled with }
    · exact .inr ⟨header, { outstanding with }⟩
  | loadHead call =>
    simp only [WriterOk, here] at writer ⊢
    exact { writer with }
  | loadRead call head | bumpPad call head =>
    simp only [WriterOk, here] at writer ⊢
    exact ⟨{ writer.1 with }, writer.2⟩
  | casPad call head | casSlot call head =>
    simp only [WriterOk, here, Room] at writer ⊢
    exact ⟨{ writer.1 with }, writer.2.1, by omega, writer.2.2.2⟩
  | writePad call head | writeSlot call head =>
    simp only [WriterOk, here] at writer ⊢
    exact { writer with }
  | publishPad call head =>
    simp only [WriterOk, here] at writer ⊢
    exact ⟨{ writer.1 with }, writer.2⟩
  | copyPayload call head source =>
    simp only [WriterOk, here] at writer ⊢
    obtain ⟨header, outstanding, rest⟩ := writer
    exact ⟨header, { outstanding with }, rest⟩
  | readSlotSize position | publishSlot position slotSize =>
    simp only [WriterOk, here] at writer ⊢
    obtain ⟨header, outstanding, rest⟩ := writer
    exact ⟨header, { outstanding with }, rest⟩
  | bumpSlot =>
    simp only [WriterOk, here] at writer ⊢
    exact { writer with }

/-- The slot at the front, with its bytes in place. -/
theorem Inv.front_slot (inv : Inv block state slots)
    (ahead : Front state.readPos slots readPos holds) :
    readPos = state.readPos ∧ ∃ first rest, slots = first :: rest ∧ holds first ∧
      SlotAt block state.data readPos.toNat first ∧
      loadHeader state.data (indexOf block readPos) = first.header ∧
      (first.payload ≠ [] → state.log.OwnCommit readPos) ∧
      Tiled Slot.size (Live block state.data state.log) (readPos.toNat + first.size) rest
        state.commitPos.toNat := by
  obtain ⟨rfl, first, rest, rfl, property⟩ := ahead
  have live := inv.tiled.1
  refine ⟨rfl, first, rest, rfl, property, live.1, ?_, by simpa using live.2, inv.tiled.2⟩
  rw [indexOf_eq]
  exact live.1.header

/-- A step that only moves the reader's program counter. -/
theorem Inv.look (inv : Inv block state slots) {wake : UInt32} (pc : ReaderPc)
    (reader : ReaderOk state.readPos slots pc) (same : pc.consuming = state.readerPc.consuming) :
    Inv block { state with readWakeSeq := wake, readerPc := pc } slots :=
  { inv with
    writer := inv.writer.reader (Nat.le_refl _)
    reader := reader
    delivery := by
      simp only [same]
      exact inv.delivery }

/-- The first defensive branch of `read`: a published slot has a size. -/
theorem Inv.published {used : UInt64} (inv : Inv block state slots)
    (here : state.readerPc = .checkPublished call readPos used) :
    (loadHeader state.data (indexOf block readPos)).slotSize ≠ 0 := by
  have reader := inv.reader
  simp only [ReaderOk, here] at reader
  obtain ⟨-, first, -, -, -, placed, header, -⟩ := inv.front_slot reader
  have positive := placed.positive
  rw [header]
  intro zero
  simp [Slot.size, zero] at positive

/-- The second defensive branch of `read`: the published bytes cover the slot. -/
theorem Inv.whole {used : UInt64} (inv : Inv block state slots)
    (here : state.readerPc = .checkWhole call readPos used) :
    ¬ used < (loadHeader state.data (indexOf block readPos)).slotSize.toUInt64 := by
  have reader := inv.reader
  simp only [ReaderOk, here] at reader
  obtain ⟨-, first, -, -, covered, -, header, -⟩ := inv.front_slot reader
  rw [header, UInt64.lt_iff_toNat_lt, UInt32.toNat_toUInt64]
  exact Nat.not_lt.mpr covered

/-- The published bytes seen by `read`: none exactly when the ring is drained. -/
theorem used_eq {committed front : UInt64} : (if committed > front then committed - front else 0).toNat =
    committed.toNat - front.toNat := by
  simp only [GT.gt, UInt64.lt_iff_toNat_lt]
  split
  · exact toNat_sub (by omega)
  · rw [UInt64.toNat_zero]
    omega

theorem inv_loadCommit (inv : Inv block state slots)
    (here : state.readerPc = .loadCommit call readPos)
    (taken : readerStep block answer state = some after) : Inv block after slots := by
  have reader := inv.reader
  have delivery := inv.delivery
  simp only [ReaderOk, here] at reader
  simp only [here, ReaderPc.consuming] at delivery
  subst reader
  simp only [readerStep, here, ← UInt64.toNat_inj, used_eq, UInt64.toNat_zero] at taken
  split at taken
  · rename_i unread
    cases taken
    have empty := inv.tiled.eq_nil (by omega) fun _ _ live => live.1.positive
    subst empty
    refine { inv with
      writer := inv.writer.reader (Nat.le_refl _)
      reader := trivial
      delivery := delivery.finishRead .empty rfl (fun offer last => ?_) (by simp)
        (by simp [ReadOutcome.offer]) }
    obtain ⟨-, -, first, rest, cons, -⟩ := delivery.declined offer last
    cases cons
  · rename_i unread
    cases taken
    obtain ⟨first, rest, cons, live, tiled⟩ := inv.tiled.uncons (by omega)
    have covered := tiled.le
    refine inv.look (.checkPublished call state.readPos _) ⟨rfl, first, rest, cons, ?_⟩
      (by simp [here, ReaderPc.consuming])
    rw [used_eq]
    omega

theorem inv_handle {payloadSize : UInt32} {messageMeta : MessageMeta} (inv : Inv block state slots)
    (here : state.readerPc = .handle call readPos payloadSize messageMeta)
    (taken : readerStep block answer state = some after) : Inv block after slots := by
  have reader := inv.reader
  have delivery := inv.delivery
  simp only [ReaderOk, here] at reader
  simp only [here, ReaderPc.consuming] at delivery
  obtain ⟨current, first, rest, cons, ⟨payload, size, sameMeta⟩, placed, header, owned, tiled⟩ :=
    inv.front_slot reader
  have message : (⟨state.data.read (indexOf block readPos + 32) payloadSize.toNat, messageMeta⟩ :
      Message) = first.message := by
    rw [indexOf_eq, ← size, placed.payload, ← sameMeta]
    rfl
  have delivered : undelivered slots = [first.message] ++ undelivered slots.tail := by
    simp [cons, undelivered, deliverable, Slot.message, payload]
  -- a message that was declined before is the one in front now
  have reoffered : ∀ offer, state.log.reads.getLast? = some (.declined offer) →
      offer = ⟨readPos, first.message⟩ := by
    intro offer last
    obtain ⟨-, position, slot, others, again, -, sameMessage⟩ := delivery.declined offer last
    rw [cons] at again
    cases again
    cases offer
    simp_all
  simp only [readerStep, here, message] at taken
  split at taken
  · cases taken
    exact { inv with
      writer := inv.writer.reader (Nat.le_refl _)
      reader := ⟨current, first, rest, cons, payload⟩
      delivery := delivery.finishRead (.accepted ⟨readPos, first.message⟩) delivered
        (fun offer last => .inr (by rw [reoffered offer last])) (by simp)
        (by
          intro offer same
          cases same
          exact owned payload) }
  · cases taken
    exact { inv with
      writer := inv.writer.reader (Nat.le_refl _)
      reader := trivial
      delivery := delivery.finishRead (.declined ⟨readPos, first.message⟩) rfl
        (fun offer last => .inl (by rw [reoffered offer last]))
        (by
          intro offer same
          cases same
          exact ⟨rfl, current, first, rest, cons, payload, rfl⟩)
        (by
          intro offer same
          cases same
          exact owned payload) }

variable {first : Slot} {rest : List Slot}

theorem Inv.toNat_advance (inv : Inv block state (first :: rest)) :
    (state.readPos + first.header.slotSize.toUInt64).toNat = state.readPos.toNat + first.size := by
  have covered := inv.tiled.2.le
  have limit := state.commitPos.toNat_lt
  simp only [Slot.size] at covered ⊢
  rw [toNat_add, UInt32.toNat_toUInt64]
  rw [UInt32.toNat_toUInt64]
  omega

/-- The front moves past its slot, which has been skipped or consumed. -/
theorem Inv.advance (inv : Inv block state (first :: rest)) (pc : ReaderPc)
    (reader : ∀ front slots, ReaderOk front slots pc) (resting : pc.consuming = false)
    (spent : state.readerPc.consuming = true ∨ first.payload = []) :
    Inv block { state with
      readPos := state.readPos + first.header.slotSize.toUInt64, readerPc := pc } rest := by
  have remaining := inv.tiled.2
  have bounded := inv.bounded
  have moved := inv.toNat_advance
  refine { inv with
    tiled := moved ▸ remaining
    bounded := ?_
    writer := inv.writer.reader (by omega)
    reader := reader _ _
    delivery := ?_ }
  · simp only [moved]
    omega
  · simp only [resting]
    exact inv.delivery.advance spent

/-- A slot has a size, so the front does not stay where it is. -/
theorem Inv.advance_ne (inv : Inv block state (first :: rest)) :
    state.readPos + first.header.slotSize.toUInt64 ≠ state.readPos := by
  intro still
  have moved := inv.toNat_advance
  have positive := inv.tiled.1.1.positive
  rw [still] at moved
  omega

/-- Every step of the reader's current call keeps the invariant, and the slots
as long as the front stays. -/
theorem inv_readerStep (inv : Inv block state slots)
    (taken : readerStep block answer state = some after) :
    ∃ rest, Inv block after rest ∧ (after.readPos = state.readPos → rest = slots) := by
  have reader := inv.reader
  cases here : state.readerPc with
  | idle => simp [readerStep, here] at taken
  | loadRead call =>
    simp only [readerStep, here] at taken
    cases taken
    exact ⟨slots, inv.look (.loadCommit call state.readPos) rfl (by simp [here, ReaderPc.consuming]),
      fun _ => rfl⟩
  | loadCommit call readPos => exact ⟨slots, inv_loadCommit inv here taken, fun _ => rfl⟩
  | checkPublished call readPos used =>
    simp only [ReaderOk, here] at reader
    simp only [readerStep, here, if_neg (inv.published here)] at taken
    cases taken
    exact ⟨slots, inv.look (.checkWhole call readPos used) reader (by simp [here, ReaderPc.consuming]),
      fun _ => rfl⟩
  | checkWhole call readPos used =>
    simp only [ReaderOk, here] at reader
    simp only [readerStep, here, if_neg (inv.whole here)] at taken
    cases taken
    obtain ⟨current, first, rest, cons, -⟩ := reader
    exact ⟨slots, inv.look (.checkPadding call readPos) ⟨current, first, rest, cons, trivial⟩
      (by simp [here, ReaderPc.consuming]), fun _ => rfl⟩
  | checkPadding call readPos =>
    simp only [ReaderOk, here] at reader
    obtain ⟨current, first, rest, cons, -, placed, header, -⟩ := inv.front_slot reader
    simp only [readerStep, here, header, ← payload_eq_nil placed] at taken
    split at taken
    · rename_i empty
      cases taken
      exact ⟨slots, inv.look (.skipSize call readPos) ⟨current, first, rest, cons, empty⟩
        (by simp [here, ReaderPc.consuming]), fun _ => rfl⟩
    · rename_i payload
      cases taken
      exact ⟨slots, inv.look (.takeSize call readPos) ⟨current, first, rest, cons, payload⟩
        (by simp [here, ReaderPc.consuming]), fun _ => rfl⟩
  | skipSize call readPos =>
    simp only [ReaderOk, here] at reader
    obtain ⟨current, first, rest, cons, empty, -, header, -⟩ := inv.front_slot reader
    simp only [readerStep, here, header] at taken
    cases taken
    exact ⟨slots, inv.look (.skipStore call readPos _) ⟨current, first, rest, cons, empty, rfl⟩
      (by simp [here, ReaderPc.consuming]), fun _ => rfl⟩
  | skipStore call readPos slotSize =>
    simp only [ReaderOk, here] at reader
    obtain ⟨rfl, first, rest, rfl, empty, rfl⟩ := reader
    simp only [readerStep, here] at taken
    cases taken
    exact ⟨rest, inv.advance (.skipBump call) (fun _ _ => trivial) rfl (.inr empty),
      fun still => absurd still inv.advance_ne⟩
  | skipBump call =>
    simp only [readerStep, here] at taken
    cases taken
    exact ⟨slots, inv.look (.loadRead call) trivial (by simp [here, ReaderPc.consuming]),
      fun _ => rfl⟩
  | takeSize call readPos =>
    simp only [ReaderOk, here] at reader
    obtain ⟨current, first, rest, cons, payload, -, header, -⟩ := inv.front_slot reader
    simp only [readerStep, here, header] at taken
    cases taken
    exact ⟨slots, inv.look (.takeMeta call readPos _) ⟨current, first, rest, cons, payload, rfl⟩
      (by simp [here, ReaderPc.consuming]), fun _ => rfl⟩
  | takeMeta call readPos payloadSize =>
    simp only [ReaderOk, here] at reader
    obtain ⟨current, first, rest, cons, ⟨payload, size⟩, -, header, -⟩ := inv.front_slot reader
    simp only [readerStep, here, header] at taken
    cases taken
    exact ⟨slots, inv.look (.handle call readPos payloadSize _)
      ⟨current, first, rest, cons, payload, size, rfl⟩ (by simp [here, ReaderPc.consuming]),
      fun _ => rfl⟩
  | handle call readPos payloadSize messageMeta => exact ⟨slots, inv_handle inv here taken, fun _ => rfl⟩
  | consumeSize readPos =>
    simp only [ReaderOk, here] at reader
    obtain ⟨current, first, rest, cons, payload, -, header, -⟩ := inv.front_slot reader
    simp only [readerStep, here, header] at taken
    cases taken
    exact ⟨slots, inv.look (.consumeStore readPos _) ⟨current, first, rest, cons, payload, rfl⟩
      (by simp [here, ReaderPc.consuming]), fun _ => rfl⟩
  | consumeStore readPos slotSize =>
    simp only [ReaderOk, here] at reader
    obtain ⟨rfl, first, rest, rfl, payload, rfl⟩ := reader
    simp only [readerStep, here] at taken
    cases taken
    exact ⟨rest, inv.advance .consumeBump (fun _ _ => trivial) rfl
      (.inl (by simp [here, ReaderPc.consuming])), fun still => absurd still inv.advance_ne⟩
  | consumeBump =>
    simp only [readerStep, here] at taken
    cases taken
    exact ⟨slots, inv.look .idle trivial (by simp [here, ReaderPc.consuming]),
      fun _ => rfl⟩

end SpscRing.Varlen
