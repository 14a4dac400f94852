import SpscRing.Foundation.Tiling
import SpscRing.Varlen.System

/-! The representation invariant of the variable-length ring: the published
interval is tiled by whole slots that spell out the undelivered messages, and at
most one slot is outstanding behind it. -/

namespace SpscRing.Varlen

open SpscRing.Foundation

/-- A slot of the ring as the reader will find it. -/
structure Slot where
  header : VarlenSlotHeader
  payload : List UInt8

namespace Slot

def size (slot : Slot) : Nat := slot.header.slotSize.toNat

def message (slot : Slot) : Message := ⟨slot.payload, slot.header.messageMeta⟩

end Slot

/-- The messages `read` delivers: padding and empty payloads are skipped. -/
def deliverable (messages : List Message) : List Message :=
  messages.filter fun message => !message.payload.isEmpty

def undelivered (slots : List Slot) : List Message := deliverable (slots.map Slot.message)

def ReadOutcome.acceptedMessage : ReadOutcome → Option Message
  | .accepted offer => some offer.message
  | _ => none

/-- The messages handed to a handler that accepted, in order. -/
def Log.acceptedMessages (log : Log) : List Message := log.reads.filterMap ReadOutcome.acceptedMessage

def ReadOutcome.offer : ReadOutcome → Option Offer
  | .empty => none
  | .declined offer | .accepted offer => some offer

section Predicates

variable (block : ControlBlock)

/-- The bytes at a position spell out a whole slot. A slot shorter than its
header is padding that ends exactly at the ring end. -/
structure SlotAt (data : Memory) (position : Nat) (slot : Slot) : Prop where
  header : loadHeader data (position % block.dataCapacity.toNat) = slot.header
  payload : data.read (position % block.dataCapacity.toNat + 32) slot.header.payloadSize.toNat =
    slot.payload
  positive : 0 < slot.size
  aligned : granule block ∣ position
  whole : position % block.dataCapacity.toNat + slot.size ≤ block.dataCapacity.toNat
  shape : 32 + slot.header.payloadSize.toNat ≤ slot.size ∨
    (slot.header.payloadSize = 0 ∧
      position % block.dataCapacity.toNat + slot.size = block.dataCapacity.toNat)

/-- A published slot; one with a payload was committed by its own session. -/
def Live (data : Memory) (log : Log) (position : Nat) (slot : Slot) : Prop :=
  SlotAt block data position slot ∧ (slot.payload ≠ [] → log.OwnCommit (UInt64.ofNat position))

/-- The slot size of a payload is computed without a 32-bit wrap. -/
def Unwrapped (payloadSize : UInt32) : Prop :=
  32 + payloadSize.toNat + block.dataAlignment.toNat - 1 < 2 ^ 32

instance (payloadSize : UInt32) : Decidable (Unwrapped block payloadSize) :=
  inferInstanceAs (Decidable (_ < _))

/-- No wrapped slot size passes the size check. -/
def SizeSound (payloadSize : UInt32) : Prop :=
  Unwrapped block payloadSize ∨ block.dataCapacity.toNat < (neededFor block payloadSize).toNat

instance (payloadSize : UInt32) : Decidable (SizeSound block payloadSize) :=
  inferInstanceAs (Decidable (_ ∨ _))

/-- The size check passed, without a 32-bit wrap. -/
structure Fits (call : ReserveCall) : Prop where
  unwrapped : Unwrapped block call.payloadSize
  room : (neededFor block call.payloadSize).toNat ≤ block.dataCapacity.toNat

/-- The writer is between its size check and its next reservation. -/
structure Reserving (state : State) (call : ReserveCall) : Prop where
  fits : Fits block call
  free : state.pending = false
  settled : state.writePos = state.commitPos

/-- Enough free bytes for the call from `head` on; the consumer only adds to them. -/
def Room (state : State) (call : ReserveCall) (head : UInt64) : Prop :=
  head.toNat + (neededFor block call.payloadSize).toNat ≤
    state.readPos.toNat + block.dataCapacity.toNat

/-- The padding slot from `head` to the ring end is reserved but not published. -/
structure Padding (state : State) (call : ReserveCall) (head : UInt64) : Prop where
  fits : Fits block call
  free : state.pending = false
  front : state.commitPos = head
  reserved : state.writePos.toNat = head.toNat + (wrapPadding block head).toNat
  short : (wrapPadding block head).toNat < (neededFor block call.payloadSize).toNat

/-- The message slot at `head` is reserved and its header not yet written. -/
structure Claimed (state : State) (call : ReserveCall) (head : UInt64) : Prop where
  fits : Fits block call
  free : state.pending = false
  front : state.commitPos = head
  reserved : state.writePos.toNat = head.toNat + (neededFor block call.payloadSize).toNat
  contiguous : (neededFor block call.payloadSize).toNat ≤ (wrapPadding block head).toNat
  logged : ⟨state.log.session, head⟩ ∈ state.log.reservations

/-- The outstanding reservation: one whole slot with its header written. -/
structure Outstanding (state : State) (header : VarlenSlotHeader) : Prop where
  guarded : state.pending = true
  front : state.lastPosition = state.commitPos
  slot : SlotAt block state.data state.commitPos.toNat ⟨header, state.log.draft.payload⟩
  size : header.payloadSize = state.requested
  roomy : 32 + header.payloadSize.toNat ≤ header.slotSize.toNat
  sameMeta : header.messageMeta = state.log.draft.messageMeta
  reserved : state.writePos.toNat = state.commitPos.toNat + header.slotSize.toNat
  logged : ⟨state.log.session, state.commitPos⟩ ∈ state.log.reservations

/-- Nothing is reserved beyond what is published. -/
structure Settled (state : State) : Prop where
  free : state.pending = false
  equal : state.writePos = state.commitPos

def WriterOk (state : State) : Prop :=
  match state.writerPc with
  | .idle => Settled state ∨ ∃ header, Outstanding block state header
  | .loadHead call => Reserving block state call
  | .loadRead call head | .bumpPad call head => Reserving block state call ∧ head = state.writePos
  | .casPad call head =>
    Reserving block state call ∧ head = state.writePos ∧ Room block state call head ∧
      (wrapPadding block head).toNat < (neededFor block call.payloadSize).toNat
  | .casSlot call head =>
    Reserving block state call ∧ head = state.writePos ∧ Room block state call head ∧
      (neededFor block call.payloadSize).toNat ≤ (wrapPadding block head).toNat
  | .writePad call head => Padding block state call head
  | .publishPad call head =>
    Padding block state call head ∧ loadHeader state.data (indexOf block head) =
      { slotSize := (wrapPadding block head).toUInt32, payloadSize := 0 }
  | .writeSlot call head => Claimed block state call head
  | .copyPayload call head _ =>
    ∃ header, Outstanding block state header ∧ head = state.lastPosition ∧
      header.payloadSize = call.payloadSize
  | .readSlotSize position => ∃ header, Outstanding block state header ∧ position = state.lastPosition
  | .publishSlot position slotSize =>
    ∃ header, Outstanding block state header ∧ position = state.lastPosition ∧
      header.slotSize = slotSize
  | .bumpSlot => Settled state

/-- A local position of the reader is the front, and the slot there has a property. -/
def Front (front : UInt64) (slots : List Slot) (position : UInt64) (holds : Slot → Prop) : Prop :=
  position = front ∧ ∃ first rest, slots = first :: rest ∧ holds first

def ReaderOk (front : UInt64) (slots : List Slot) : ReaderPc → Prop
  | .idle | .loadRead _ | .skipBump _ | .consumeBump => True
  | .loadCommit _ readPos => readPos = front
  | .checkPublished _ readPos used | .checkWhole _ readPos used =>
    Front front slots readPos fun slot => slot.size ≤ used.toNat
  | .checkPadding _ readPos => Front front slots readPos fun _ => True
  | .skipSize _ readPos => Front front slots readPos fun slot => slot.payload = []
  | .skipStore _ readPos slotSize =>
    Front front slots readPos fun slot => slot.payload = [] ∧ slot.header.slotSize = slotSize
  | .takeSize _ readPos | .consumeSize readPos =>
    Front front slots readPos fun slot => slot.payload ≠ []
  | .takeMeta _ readPos payloadSize =>
    Front front slots readPos fun slot =>
      slot.payload ≠ [] ∧ slot.header.payloadSize = payloadSize
  | .handle _ readPos payloadSize messageMeta =>
    Front front slots readPos fun slot => slot.payload ≠ [] ∧
      slot.header.payloadSize = payloadSize ∧ slot.header.messageMeta = messageMeta
  | .consumeStore readPos slotSize =>
    Front front slots readPos fun slot => slot.payload ≠ [] ∧ slot.header.slotSize = slotSize

/-- The handler has accepted the message in front, which `read_pos` still covers. -/
def ReaderPc.consuming : ReaderPc → Bool
  | .consumeSize _ | .consumeStore _ _ => true
  | _ => false

/-- After a decline the next call of `read` offers the same message again. -/
def Reoffers (earlier later : ReadOutcome) : Prop :=
  ∀ offer, earlier = .declined offer → later = .declined offer ∨ later = .accepted offer

/-- The observer's log agrees with the slots that are still in the ring. -/
structure Delivery (log : Log) (consuming : Bool) (front : UInt64) (slots : List Slot) : Prop where
  messages : deliverable log.published =
    log.acceptedMessages ++ undelivered (if consuming then slots.tail else slots)
  reoffered : log.reads.IsChain Reoffers
  declined : ∀ offer, log.reads.getLast? = some (.declined offer) → consuming = false ∧
    Front front slots offer.position fun slot =>
      slot.payload ≠ [] ∧ slot.message = offer.message
  owned : ∀ outcome ∈ log.reads, ∀ offer, outcome.offer = some offer →
    log.OwnCommit offer.position

/-- A lap ahead of the reservation front is still a 64-bit position. -/
def InRange (state : State) : Prop :=
  state.writePos.toNat + block.dataCapacity.toNat < 2 ^ 64

/-- The fronts stay clear of the end of the 64-bit range. -/
def NoWrap (state : State) : Prop :=
  state.writePos.toNat + block.dataCapacity.toNat < 2 ^ 63

/-- The invariant of every run in which no accepted slot size and no front wraps
and new sessions start with nothing outstanding. -/
structure Inv (state : State) (slots : List Slot) : Prop where
  tiled : Tiled Slot.size (Live block state.data state.log) state.readPos.toNat slots
    state.commitPos.toNat
  committed : state.commitPos.toNat ≤ state.writePos.toNat
  bounded : state.writePos.toNat ≤ state.readPos.toNat + block.dataCapacity.toNat
  alignedCommit : granule block ∣ state.commitPos.toNat
  alignedWrite : granule block ∣ state.writePos.toNat
  writer : WriterOk block state
  reader : ReaderOk state.readPos slots state.readerPc
  delivery : Delivery state.log state.readerPc.consuming state.readPos slots

end Predicates

end SpscRing.Varlen
