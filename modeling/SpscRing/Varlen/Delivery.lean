import SpscRing.Varlen.Representation

/-! Delivery: the consumer is handed exactly the committed messages, in order,
whatever the interleaving. -/

namespace SpscRing.Varlen

open SpscRing.Foundation

variable {header block : ControlBlock} {capacity : UInt64} {alignment itemSize : UInt32}
variable {data : Memory} {state later : State} {slots : List Slot} {actions : List Action}

/-- The bytes a handler sees at the payload pointer it was given. -/
def State.view (block : ControlBlock) (state : State) (readPos : UInt64) (payloadSize : UInt32) :
    List UInt8 :=
  state.data.read (indexOf block readPos + 32) payloadSize.toNat

/-- The message in front of a running handler: the first one not yet accepted. -/
structure Offered (block : ControlBlock) (state : State) (readPos : UInt64) (payloadSize : UInt32)
    (messageMeta : MessageMeta) : Prop where
  inside : indexOf block readPos + 32 + payloadSize.toNat ≤ block.dataCapacity.toNat
  next : (deliverable state.log.published)[state.log.acceptedMessages.length]? =
    some ⟨state.view block readPos payloadSize, messageMeta⟩

/-- The message in front is refused: the handler has declined it, or the buffer of the
copying `read` is there and too small for it. -/
def Refuses (payloadSize : UInt32) (answer : Bool) : ReadCall → Prop
  | .handler => answer = false
  | .copy out maxSize => out = true ∧ maxSize < payloadSize

/-- What the step out of a running handler makes of the message in front. A refused one
stays there and the call returns false; any other is accepted. -/
structure Answered (state : State) (offer : Offer) (refuses : Prop) (after : State) : Prop where
  kept : after.readPos = state.readPos
  refused : refuses → after.readerPc = .idle ∧ after.result = some (.declined offer) ∧
    after.log.reads = state.log.reads ++ [.declined offer]
  taken : ¬ refuses → after.readerPc = .consumeSize offer.position ∧
    after.result = some (.accepted offer) ∧ after.log.reads = state.log.reads ++ [.accepted offer]

theorem accepts_eq_false_iff (call : ReadCall) (payloadSize : UInt32) (answer : Bool) :
    call.accepts payloadSize answer = false ↔ Refuses payloadSize answer call := by
  cases call with
  | handler => exact Iff.rfl
  | copy out maxSize =>
    have positive (small : maxSize < payloadSize) : 0 < payloadSize := by
      rw [UInt32.lt_iff_toNat_lt] at small ⊢
      exact Nat.lt_of_le_of_lt (Nat.zero_le _) small
    simp only [ReadCall.accepts, Refuses, Bool.not_eq_false', Bool.and_eq_true, decide_eq_true_eq]
    constructor
    · rintro ⟨⟨there, -⟩, small⟩
      exact ⟨there, small⟩
    · rintro ⟨there, small⟩
      exact ⟨⟨there, positive small⟩, small⟩

theorem answered_of_handle {call : ReadCall} {readPos : UInt64} {payloadSize : UInt32}
    {messageMeta : MessageMeta} (answer : Bool)
    (here : state.readerPc = .handle call readPos payloadSize messageMeta) :
    ∃ after, (machine block).step state (.reader answer) = some after ∧
      Answered state ⟨readPos, state.view block readPos payloadSize, messageMeta⟩
        (Refuses payloadSize answer call) after := by
  let offer : Offer := ⟨readPos, state.view block readPos payloadSize, messageMeta⟩
  by_cases accepts : call.accepts payloadSize answer = true
  · have free : ¬ Refuses payloadSize answer call := by
      rw [← accepts_eq_false_iff, accepts]
      decide
    have taken : (machine block).step state (.reader answer) =
        some (state.finishRead (.accepted offer) (.consumeSize readPos)) := by
      simp only [machine, step, readerStep, here, if_pos accepts, offer, State.view]
    exact ⟨_, taken, rfl, fun refuses => absurd refuses free, fun _ => ⟨rfl, rfl, rfl⟩⟩
  · have declined : Refuses payloadSize answer call :=
      (accepts_eq_false_iff _ _ _).mp (Bool.eq_false_of_not_eq_true accepts)
    have taken : (machine block).step state (.reader answer) =
        some (state.finishRead (.declined offer) .idle) := by
      simp only [machine, step, readerStep, here, if_neg accepts, offer, State.view]
    exact ⟨_, taken, rfl, fun _ => ⟨rfl, rfl, rfl⟩, fun accepted => absurd declined accepted⟩

theorem Inv.accepted_prefix (inv : Inv block state slots) :
    state.log.acceptedMessages <+: deliverable state.log.published := by
  rw [inv.delivery.messages]
  exact List.prefix_append _ _

theorem Inv.offered {call : ReadCall} {readPos : UInt64} {payloadSize : UInt32}
    {messageMeta : MessageMeta} (inv : Inv block state slots)
    (here : state.readerPc = .handle call readPos payloadSize messageMeta) :
    Offered block state readPos payloadSize messageMeta := by
  have reader := inv.reader
  have messages := inv.delivery.messages
  simp only [ReaderOk, here] at reader
  simp only [here, ReaderPc.consuming] at messages
  obtain ⟨-, first, rest, rfl, ⟨payload, size, sameMeta⟩, placed, -, -, -⟩ := inv.front_slot reader
  have whole := placed.whole
  have shape := placed.shape
  have nonzero : first.header.payloadSize ≠ 0 := fun zero =>
    payload ((payload_eq_nil placed).mpr zero)
  constructor
  · rw [indexOf_eq, ← size]
    rcases shape with roomy | ⟨empty, -⟩
    · omega
    · exact absurd empty nonzero
  · have front : undelivered (first :: rest) = first.message :: undelivered rest := by
      simp [undelivered, deliverable, Slot.message, payload]
    rw [messages, if_neg (by decide), front, State.view, indexOf_eq, ← size, placed.payload,
      ← sameMeta]
    simp [Slot.message]

/-- The view of a running handler keeps its bytes until the consumer's front moves. -/
theorem Inv.view_kept (shape : Shape block) {call : ReadCall} {readPos : UInt64}
    {payloadSize : UInt32} {messageMeta : MessageMeta} (inv : Inv block state slots)
    (here : state.readerPc = .handle call readPos payloadSize messageMeta)
    (run : (machine block).Run (Orderly block) state actions later)
    (still : later.readPos = state.readPos) :
    later.view block readPos payloadSize = state.view block readPos payloadSize := by
  have reader := inv.reader
  simp only [ReaderOk, here] at reader
  obtain ⟨rfl, first, rest, rfl, ⟨-, size, -⟩, placed, -⟩ := inv.front_slot reader
  obtain ⟨next, invLater, more, rfl⟩ := run_slots shape run inv still
  have kept := invLater.tiled.1.1
  rw [still] at kept
  rw [State.view, State.view, indexOf_eq, ← size, kept.payload, placed.payload]

end SpscRing.Varlen
