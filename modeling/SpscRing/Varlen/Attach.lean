import SpscRing.Varlen.Drain
import SpscRing.Varlen.Representation

/-! Attaching to an existing segment: what the two attach checks admit, and
whether a producer can work on it. -/

namespace SpscRing.Varlen

open SpscRing.Foundation

/-- `validate_varlen_control_block`, with the block as it leaves it: an unset
alignment becomes the default before the structural check. -/
def validateVarlenControlBlock (header : ControlBlock) : Bool × ControlBlock :=
  let header := if header.dataAlignment = 0 then { header with dataAlignment := 8 } else header
  (validateControlBlock header && header.layoutType == LayoutType.varlen.toUInt32, header)

section Definitions

variable (block : ControlBlock)

/-- One producer throughout, payloads within the limit, fronts below `2^64`. -/
structure SingleWriter (before : State) (action : Action) (after : State) : Prop where
  limit : action.WithinLimit
  inRange : InRange block before
  single : action ≠ .restart

/-- The committed messages with the positions of their slots, in order. -/
def Log.committed (log : Log) : List (UInt64 × Message) :=
  (log.commits.map Reservation.position).zip log.published

/-- The logical position behind a message, its header included. -/
def messageEnd (entry : UInt64 × Message) : Nat := entry.1.toNat + 32 + entry.2.payload.length

/-- What a varlen producer relies on, in every state of every run: a reservation
covers header and payload, committed messages lie apart, and a consumer that
drains the ring has been handed every committed message with a payload. -/
structure Attachable (data : Memory) : Prop where
  roomy : ∀ state, (machine block).Reachable (SingleWriter block) (initial block data) state →
    ∀ call head after result, state.writerPc = .writeSlot call head →
      writerStep block state = some after → after.returned = some result → result.status = .ok →
        result.position.toNat + 32 + call.payloadSize.toNat ≤ after.writePos.toNat
  apart : ∀ state, (machine block).Reachable (SingleWriter block) (initial block data) state →
    state.log.committed.Pairwise fun earlier later => messageEnd earlier ≤ later.1.toNat
  delivered : ∀ state, (machine block).Reachable (SingleWriter block) (initial block data) state →
    state.readerPc = .idle → (∃ after, Drains block state after) ∧
      ∀ after, Drains block state after →
        after.log.acceptedMessages = deliverable state.log.published

end Definitions

variable {block : ControlBlock} {data : Memory} {before state after : State} {slots : List Slot}
variable {action : Action}

theorem shape_of_validated (validated : validateControlBlock block = true)
    (aligned : block.dataAlignment ≠ 0) : Shape block := by
  simp only [validateControlBlock, Bool.and_eq_true, Bool.or_eq_true, beq_iff_eq, aligned,
    false_or, bne_iff_ne, ne_eq] at validated
  obtain ⟨⟨-, power⟩, roomy⟩ := validated
  exact ⟨alignment_power power,
    Nat.pos_of_ne_zero fun zero => roomy (UInt64.toNat_inj.mp (by simpa using zero))⟩

theorem SingleWriter.orderly (shape : Shape block) (single : SingleWriter block before action after) :
    Orderly block before action after :=
  ⟨single.limit.sizeSound shape, single.inRange, fun restart => absurd restart single.single⟩

section Commits

/-- What a step of the producer adds to the log of commits: one message, the
draft of the outstanding slot, or none. -/
def Commits (before after : State) : Prop :=
  (after.log.commits = before.log.commits ∧ after.log.published = before.log.published) ∨
    ∃ position slotSize, before.writerPc = .publishSlot position slotSize ∧
      after.commitPos = position + slotSize.toUInt64 ∧
      after.log.commits = before.log.commits ++ [⟨before.log.session, position⟩] ∧
      after.log.published = before.log.published ++ [before.log.draft]

theorem writerStep_commits (taken : writerStep block before = some after) : Commits before after := by
  cases here : before.writerPc with
  | idle => simp [writerStep, here] at taken
  | loadRead _ _ =>
    simp only [writerStep, here, State.finishReserve] at taken
    split at taken
    · cases taken
      exact .inl ⟨rfl, rfl⟩
    · split at taken <;> cases taken <;> exact .inl ⟨rfl, rfl⟩
  | casPad _ _ | casSlot _ _ =>
    simp only [writerStep, here] at taken
    split at taken <;> cases taken <;> exact .inl ⟨rfl, rfl⟩
  | writeSlot call head =>
    simp only [writerStep, here] at taken
    cases taken
    obtain ⟨pc, quiet, -⟩ := afterReserve_eq (before.writeSlot block call head) call head
    rw [quiet]
    exact .inl ⟨rfl, rfl⟩
  | copyPayload call head source =>
    simp only [writerStep, here] at taken
    cases taken
    obtain ⟨pc, quiet, -⟩ := afterCopy_eq _ call head
    rw [quiet]
    exact .inl ⟨rfl, rfl⟩
  | publishSlot position slotSize =>
    simp only [writerStep, here] at taken
    cases taken
    exact .inr ⟨position, slotSize, here, rfl, rfl, rfl⟩
  | loadHead _ | writePad _ _ | publishPad _ _ | bumpPad _ _ | readSlotSize _ | bumpSlot =>
    simp only [writerStep, here] at taken
    cases taken
    exact .inl ⟨rfl, rfl⟩

theorem step_commits (taken : step block before action = some after) : Commits before after := by
  rcases step_cases taken with ⟨_, _, _, _, rfl⟩ | written | ⟨-, rfl⟩ | ⟨_, rfl⟩ | ⟨_, read⟩
  · exact .inl ⟨rfl, rfl⟩
  · exact writerStep_commits written
  · exact .inl ⟨rfl, rfl⟩
  · exact .inl ⟨rfl, rfl⟩
  · have frame := readerStep_frame read
    exact .inl ⟨frame.commits, frame.published⟩

/-- The committed messages lie one behind the other, up to the published front. -/
structure Spread (state : State) : Prop where
  lengths : state.log.commits.length = state.log.published.length
  apart : state.log.committed.Pairwise fun earlier later => messageEnd earlier ≤ later.1.toNat
  behind : ∀ entry ∈ state.log.committed, messageEnd entry ≤ state.commitPos.toNat

theorem Spread.of_eq (spread : Spread before) (commits : after.log.commits = before.log.commits)
    (published : after.log.published = before.log.published)
    (advanced : before.commitPos ≤ after.commitPos) : Spread after := by
  have same : after.log.committed = before.log.committed := by
    rw [Log.committed, Log.committed, commits, published]
  have forward := UInt64.le_iff_toNat_le.mp advanced
  refine ⟨by rw [commits, published]; exact spread.lengths, same ▸ spread.apart, ?_⟩
  intro entry member
  rw [same] at member
  exact Nat.le_trans (spread.behind entry member) forward

theorem spread_step (shape : Shape block) (inv : Inv block before slots) (spread : Spread before)
    (admitted : Orderly block before action after)
    (taken : step block before action = some after) : Spread after := by
  rcases step_commits taken with ⟨commits, published⟩ | ⟨position, slotSize, here, front, commits, published⟩
  · exact spread.of_eq commits published (step_advanced shape inv admitted taken).commitPos
  · have writer := inv.writer
    simp only [WriterOk, here] at writer
    obtain ⟨header, outstanding, rfl, rfl⟩ := writer
    have roomy := outstanding.roomy
    have length : before.log.draft.payload.length = header.payloadSize.toNat :=
      length_payload outstanding.slot
    have start : before.lastPosition.toNat = before.commitPos.toNat :=
      congrArg UInt64.toNat outstanding.front
    have limit := before.writePos.toNat_lt
    have moved : after.commitPos.toNat = before.commitPos.toNat + header.slotSize.toNat := by
      rw [front, toNat_add, UInt32.toNat_toUInt64, start]
      rw [UInt32.toNat_toUInt64, start, ← outstanding.reserved]
      exact limit
    have grown : after.log.committed =
        before.log.committed ++ [(before.lastPosition, before.log.draft)] := by
      rw [Log.committed, commits, published, List.map_append,
        List.zip_append (by simpa using spread.lengths)]
      rfl
    refine ⟨by rw [commits, published]; simp [spread.lengths], ?_, ?_⟩
    · rw [grown, List.pairwise_append]
      refine ⟨spread.apart, List.pairwise_singleton _ _, ?_⟩
      intro earlier member last only
      rw [List.mem_singleton.mp only, start]
      exact spread.behind earlier member
    · intro entry member
      rw [grown, List.mem_append, List.mem_singleton] at member
      rcases member with earlier | rfl
      · exact Nat.le_trans (spread.behind entry earlier) (by omega)
      · simp only [messageEnd]
        omega

end Commits

section Usable

variable (shape : Shape block) (fresh : Meta.SameFronts {} block.rbMeta)

/-- Draining hands out every committed message with a payload. -/
theorem Inv.drained_delivers (inv : Inv block state slots) (idle : state.readerPc = .idle)
    (drains : Drains block state after) :
    after.log.acceptedMessages = deliverable state.log.published := by
  obtain ⟨frame, returned, none⟩ := drains.spec idle
  obtain ⟨rest, kept⟩ := drains.inv inv idle
  have front := congrArg UInt64.toNat (kept.read_eq_of_not_whole none)
  have empty := kept.tiled.eq_nil (Nat.le_of_eq front.symm) fun _ _ live => live.1.positive
  have messages := kept.delivery.messages
  rw [frame.published, empty, returned] at messages
  simpa [ReaderPc.consuming, undelivered, deliverable] using messages.symm

include shape fresh

theorem reachable_spread
    (reached : (machine block).Reachable (SingleWriter block) (initial block data) state) :
    (∃ slots, Inv block state slots) ∧ Spread state := by
  refine reached.invariant (fun state => (∃ slots, Inv block state slots) ∧ Spread state)
    ⟨⟨[], inv_initial data fresh⟩, ⟨rfl, .nil, by simp [Log.committed, initial]⟩⟩ ?_
  rintro before action after ⟨⟨slots, inv⟩, spread⟩ admitted taken
  obtain ⟨next, kept, -⟩ := inv_step shape inv (admitted.orderly shape) taken
  exact ⟨⟨next, kept⟩, spread_step shape inv spread (admitted.orderly shape) taken⟩

/-- A positive capacity and a power-of-two alignment are all a producer needs;
the capacity need not be a multiple of the alignment. -/
theorem attachable_of_shape (data : Memory) : Attachable block data where
  roomy := by
    intro state reached call head after result here taken returned ok
    obtain ⟨⟨slots, inv⟩, -⟩ := reachable_spread shape fresh reached
    have writer := inv.writer
    simp only [WriterOk, here] at writer
    have large := writer.fits.needed_ge shape
    have moved := writer.reserved
    simp only [writerStep, here] at taken
    cases taken
    obtain ⟨pc, quiet, -⟩ := afterReserve_eq (state.writeSlot block call head) call head
    rw [quiet] at returned ⊢
    cases returned
    show head.toNat + 32 + call.payloadSize.toNat ≤ state.writePos.toNat
    omega
  apart := fun state reached => (reachable_spread shape fresh reached).2.apart
  delivered := by
    intro state reached idle
    obtain ⟨⟨slots, inv⟩, -⟩ := reachable_spread shape fresh reached
    exact ⟨drains_exists block idle, fun after drains => inv.drained_delivers idle drains⟩

end Usable

/-- With an alignment of 0 every slot size is rounded to 0. -/
theorem neededFor_unaligned (unaligned : block.dataAlignment = 0) (payloadSize : UInt32) :
    neededFor block payloadSize = 0 := by
  rw [neededFor, alignUpU32, unaligned]
  have mask : ~~~((0 : UInt32) - 1) = 0 := by decide
  rw [mask, UInt32.and_zero]

/-- On such a block the first reservation, of an empty payload even, takes no room. -/
theorem unaligned_not_attachable (unaligned : block.dataAlignment = 0)
    (fresh : Meta.SameFronts {} block.rbMeta) (data : Memory) : ¬ Attachable block data := by
  intro attachable
  have read : (initial block data).readPos = 0 := fresh.readPos
  have written : (initial block data).writePos = 0 := fresh.writePos
  have needed : neededFor block 0 = 0 := neededFor_unaligned unaligned 0
  have admitted {state after : State} {action : Action} (front : state.writePos = 0)
      (limit : action.WithinLimit) (single : action ≠ .restart) :
      SingleWriter block state action after := by
    refine ⟨limit, ?_, single⟩
    rw [InRange, front, UInt64.toNat_zero, Nat.zero_add]
    exact block.dataCapacity.toNat_lt
  let call : ReserveCall := { payloadSize := 0 }
  let claimed : State := { initial block data with
    writePos := 0
    writerPc := .writeSlot call 0
    log := (initial block data).log.reserve 0 }
  have entering : (machine block).step (initial block data) (.call (tryReserve 0)) =
      some { initial block data with writerPc := .loadHead call } := by
    simp [machine, step, tryReserve, initial, State.beginReserve, call, needed]
  have looking : (machine block).step { initial block data with writerPc := .loadHead call } .writer =
      some { initial block data with writerPc := .loadRead call 0 } := by
    simp only [machine, step, writerStep, written]
  have choosing : (machine block).step { initial block data with writerPc := .loadRead call 0 } .writer =
      some { initial block data with writerPc := .casSlot call 0 } := by
    simp [machine, step, writerStep, read, call, needed]
  have claiming : (machine block).step { initial block data with writerPc := .casSlot call 0 } .writer =
      some claimed := by
    simp [machine, step, writerStep, written, call, needed, claimed]
  have run : (machine block).Run (SingleWriter block) (initial block data)
      [.call (tryReserve 0), .writer, .writer, .writer] claimed :=
    .next entering (admitted written (by decide) (by simp))
      (.next looking (admitted written trivial (by simp))
        (.next choosing (admitted written trivial (by simp))
          (.next claiming (admitted written trivial (by simp)) (.done _))))
  have room : (0 : UInt64).toNat + 32 + (0 : UInt32).toNat ≤ (0 : UInt64).toNat :=
    attachable.roomy claimed ⟨_, run⟩ call 0 _ _ rfl rfl rfl rfl
  exact absurd room (by decide)

/-- The documented attach check is sufficient for a varlen producer precisely
when the alignment is set. -/
theorem attach_check_sufficient_iff (validated : validateControlBlock block = true)
    (fresh : Meta.SameFronts {} block.rbMeta) : Attachable block data ↔ block.dataAlignment ≠ 0 := by
  constructor
  · intro attachable unaligned
    exact unaligned_not_attachable unaligned fresh data attachable
  · intro aligned
    exact attachable_of_shape (shape_of_validated validated aligned) fresh data

/-- The varlen check, which fills in an unset alignment, is sufficient as it is. -/
theorem attachable_of_varlen_check {header : ControlBlock}
    (checked : validateVarlenControlBlock header = (true, block))
    (fresh : Meta.SameFronts {} header.rbMeta) : Attachable block data := by
  simp only [validateVarlenControlBlock, Prod.mk.injEq, Bool.and_eq_true] at checked
  obtain ⟨⟨validated, -⟩, same⟩ := checked
  rw [same] at validated
  have set : block.dataAlignment ≠ 0 ∧ Meta.SameFronts {} block.rbMeta := by
    subst same
    split
    · exact ⟨(by decide : (8 : UInt32) ≠ 0), fresh⟩
    · rename_i aligned
      exact ⟨aligned, fresh⟩
  exact attachable_of_shape (shape_of_validated validated set.1) set.2 data

/-- A capacity of 100 bytes with an alignment of 8: no initialised segment has
it, the attach check admits it. -/
def unevenBlock : ControlBlock := { sampleBlock with dataCapacity := 100 }

theorem attach_check_sufficient_iff_uneven : Attachable unevenBlock fun _ => 0 :=
  (attach_check_sufficient_iff (by decide) ⟨rfl, rfl, rfl⟩).mpr (by decide)

/-- A legacy segment: the alignment is unset. -/
def legacyBlock : ControlBlock := { sampleBlock with dataAlignment := 0 }

theorem legacy_block_not_attachable : validateControlBlock legacyBlock = true ∧
    legacyBlock.layoutType = LayoutType.varlen.toUInt32 ∧ legacyBlock.rbMeta = {} ∧
    ¬ Attachable legacyBlock fun _ => 0 :=
  ⟨by decide, rfl, rfl, unaligned_not_attachable rfl ⟨rfl, rfl, rfl⟩ _⟩

end SpscRing.Varlen
