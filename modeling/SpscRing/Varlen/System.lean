import SpscRing.AtomicBackoff
import SpscRing.Foundation.Machine
import SpscRing.NotifyWord.Word
import SpscRing.Session
import SpscRing.Varlen.Header

/-! The variable-length ring as a machine: one `varlen_writer` and one
`varlen_reader` on a segment, each advancing by single atomic accesses, header
and payload accesses included. -/

namespace SpscRing.Varlen

open SpscRing.Foundation SpscRing.NotifyWord

inductive ReserveStatus where
  | ok
  | full
  | timeout
  | messageTooLarge
  | pendingCommit
  deriving DecidableEq

/-- `payload` is a byte offset into the data region, `none` the null pointer. -/
structure ReserveResult where
  status : ReserveStatus := .full
  payload : Option Nat := none
  position : UInt64 := 0
  deriving DecidableEq

/-- The arguments of a reservation, and what the caller does with it: the
buffer it copies from, if any, and whether it commits at once. -/
structure ReserveCall where
  payloadSize : UInt32
  messageMeta : MessageMeta := {}
  source : Option Memory := none
  commits : Bool := false

inductive WriterCall where
  | reserve (call : ReserveCall)
  | commit (position : UInt64)

def tryReserve (payloadSize : UInt32) (messageMeta : MessageMeta := {}) : WriterCall :=
  .reserve { payloadSize, messageMeta }

def reserveAndCopy (payloadSize : UInt32) (data : Option Memory) (messageMeta : MessageMeta := {}) :
    WriterCall :=
  .reserve { payloadSize, messageMeta, source := data }

def write (payloadSize : UInt32) (data : Option Memory) (messageMeta : MessageMeta := {}) :
    WriterCall :=
  .reserve { payloadSize, messageMeta, source := data, commits := true }

/-- Where the writer is, with the locals that are live there. -/
inductive WriterPc where
  | idle
  | loadHead (call : ReserveCall)
  | loadRead (call : ReserveCall) (head : UInt64)
  | casPad (call : ReserveCall) (head : UInt64)
  | writePad (call : ReserveCall) (head : UInt64)
  | publishPad (call : ReserveCall) (head : UInt64)
  | bumpPad (call : ReserveCall) (head : UInt64)
  | casSlot (call : ReserveCall) (head : UInt64)
  | writeSlot (call : ReserveCall) (head : UInt64)
  | copyPayload (call : ReserveCall) (head : UInt64) (source : Memory)
  | readSlotSize (position : UInt64)
  | publishSlot (position : UInt64) (slotSize : UInt32)
  | bumpSlot

def WriterPc.isIdle : WriterPc → Bool
  | .idle => true
  | _ => false

theorem WriterPc.isIdle_iff (pc : WriterPc) : pc.isIdle = true ↔ pc = .idle := by
  cases pc <;> simp [isIdle]

/-- `read` with a caller's handler, or the copying `read` with its buffer
(`out` tells whether it is non-null) and its size. -/
inductive ReadCall where
  | handler
  | copy (out : Bool) (maxSize : UInt32)

/-- The handler's verdict; the copying variant declines exactly when the
message does not fit the caller's buffer. -/
def ReadCall.accepts : ReadCall → UInt32 → Bool → Bool
  | .handler, _, answer => answer
  | .copy out maxSize, size, _ => !(out && decide (0 < size) && decide (maxSize < size))

inductive ReaderPc where
  | idle
  | loadRead (call : ReadCall)
  | loadCommit (call : ReadCall) (readPos : UInt64)
  | checkPublished (call : ReadCall) (readPos used : UInt64)
  | checkWhole (call : ReadCall) (readPos used : UInt64)
  | checkPadding (call : ReadCall) (readPos : UInt64)
  | skipSize (call : ReadCall) (readPos : UInt64)
  | skipStore (call : ReadCall) (readPos : UInt64) (slotSize : UInt32)
  | skipBump (call : ReadCall)
  | takeSize (call : ReadCall) (readPos : UInt64)
  | takeMeta (call : ReadCall) (readPos : UInt64) (payloadSize : UInt32)
  | handle (call : ReadCall) (readPos : UInt64) (payloadSize : UInt32) (messageMeta : MessageMeta)
  | consumeSize (readPos : UInt64)
  | consumeStore (readPos : UInt64) (slotSize : UInt32)
  | consumeBump

structure Message where
  payload : List UInt8 := []
  messageMeta : MessageMeta := {}
  deriving DecidableEq

/-- A message as `read` hands it to a handler, with the position of its slot. -/
structure Offer where
  position : UInt64
  message : Message
  deriving DecidableEq

/-- How one call of `read` ended. -/
inductive ReadOutcome where
  | empty
  | declined (offer : Offer)
  | accepted (offer : Offer)
  deriving DecidableEq

/-- What an observer records; no step of the two sides and no loop around their calls
reads it. `draft` is the message as the producer has filled it so far into the
outstanding slot. -/
structure Log extends SessionLog where
  draft : Message := {}
  published : List Message := []
  reads : List ReadOutcome := []

namespace Log

def reserve (log : Log) (position : UInt64) : Log :=
  { log with reservations := log.reservations ++ [⟨log.session, position⟩] }

def fill (log : Log) (offset : Nat) (bytes : List UInt8) : Log :=
  { log with draft := { log.draft with payload := Memory.patch log.draft.payload offset bytes } }

def commit (log : Log) (position : UInt64) : Log :=
  { log with
    commits := log.commits ++ [⟨log.session, position⟩]
    published := log.published ++ [log.draft] }

def finishRead (log : Log) (outcome : ReadOutcome) : Log :=
  { log with reads := log.reads ++ [outcome] }

end Log

/-- The shared segment, the two objects with their program counters, and the
observer's log. The geometry of the control block never changes and is a
parameter of the machine. `requested` is the payload size that the caller of the
outstanding reservation asked for; `result` is the verdict of the last `read`, with
what its handler was shown. -/
structure State extends Meta where
  data : Memory
  backoff : AtomicBackoff := {}
  pending : Bool := false
  lastPosition : UInt64 := 0
  requested : UInt32 := 0
  returned : Option ReserveResult := none
  result : Option ReadOutcome := none
  writerPc : WriterPc := .idle
  readerPc : ReaderPc := .idle
  log : Log := {}

inductive Action where
  | call (call : WriterCall)
  | fill (offset : Nat) (bytes : List UInt8)
  | writer
  | restart
  | read (call : ReadCall)
  | reader (answer : Bool)

/-- A fresh writer and reader on a segment with the given data bytes. -/
def initial (block : ControlBlock) (data : Memory) : State :=
  { toMeta := block.rbMeta, data := data }

variable (block : ControlBlock)

/-- Bytes from the head to the ring end. -/
def wrapPadding (head : UInt64) : UInt64 := block.dataCapacity - head % block.dataCapacity

/-- `commit`: a no-op unless it names the outstanding reservation. -/
def State.beginCommit (state : State) (position : UInt64) : State :=
  if !state.pending || position != state.lastPosition then { state with writerPc := .idle }
  else { state with writerPc := .readSlotSize position }

def State.finishReserve (state : State) (result : ReserveResult) : State :=
  { state with returned := some result, writerPc := .idle }

/-- The part of `try_reserve` before its first access to the fronts. -/
def State.beginReserve (state : State) (call : ReserveCall) : State :=
  if state.pending then state.finishReserve { status := .pendingCommit }
  else if (neededFor block call.payloadSize).toUInt64 > block.dataCapacity then
    state.finishReserve { status := .messageTooLarge }
  else { state with writerPc := .loadHead call }

/-- After the copy: `write` goes on to commit, the other variants return. -/
def State.afterCopy (state : State) (call : ReserveCall) (head : UInt64) : State :=
  if call.commits then state.beginCommit head else { state with writerPc := .idle }

/-- After a successful reservation: copy a non-empty payload from a non-null buffer. -/
def State.afterReserve (state : State) (call : ReserveCall) (head : UInt64) : State :=
  match call.source with
  | some source =>
    if 0 < call.payloadSize then { state with writerPc := .copyPayload call head source }
    else state.afterCopy call head
  | none => state.afterCopy call head

/-- The header write of a successful reservation, its result and its guard. -/
def State.writeSlot (state : State) (call : ReserveCall) (head : UInt64) : State :=
  let index := indexOf block head
  let data := storeHeader state.data index
    { slotSize := neededFor block call.payloadSize
      payloadSize := call.payloadSize
      messageMeta := call.messageMeta }
  { state with
    data := data
    pending := true
    lastPosition := head
    requested := call.payloadSize
    returned := some { status := .ok, payload := some (index + 32), position := head }
    log := { state.log with
      draft := ⟨data.read (index + 32) call.payloadSize.toNat, call.messageMeta⟩ } }

/-- The next atomic access of the writer's current call. -/
def writerStep (state : State) : Option State :=
  match state.writerPc with
  | .idle => none
  | .loadHead call => some { state with writerPc := .loadRead call state.writePos }
  | .loadRead call head =>
    let needed := (neededFor block call.payloadSize).toUInt64
    let used := head - state.readPos
    if used + needed > block.dataCapacity then some (state.finishReserve { status := .full })
    else if wrapPadding block head < needed then some { state with writerPc := .casPad call head }
    else some { state with writerPc := .casSlot call head }
  | .casPad call head =>
    if state.writePos = head then
      some { state with
        writePos := head + wrapPadding block head
        writerPc := .writePad call head }
    else some { state with backoff := state.backoff.pause, writerPc := .loadHead call }
  | .writePad call head =>
    some { state with
      data := storeHeader state.data (indexOf block head)
        { slotSize := (wrapPadding block head).toUInt32, payloadSize := 0 }
      writerPc := .publishPad call head }
  | .publishPad call head =>
    some { state with
      commitPos := head + wrapPadding block head
      writerPc := .bumpPad call (head + wrapPadding block head) }
  | .bumpPad call head =>
    some { state with
      commitSeq := (bumpNotifyWord state.commitSeq).1
      writerPc := .loadRead call head }
  | .casSlot call head =>
    if state.writePos = head then
      some { state with
        writePos := head + (neededFor block call.payloadSize).toUInt64
        writerPc := .writeSlot call head
        log := state.log.reserve head }
    else
      some { state with backoff := state.backoff.pause, writerPc := .loadRead call state.writePos }
  | .writeSlot call head => some ((state.writeSlot block call head).afterReserve call head)
  | .copyPayload call head source =>
    let bytes := source.read 0 call.payloadSize.toNat
    some (State.afterCopy { state with
      data := state.data.write (indexOf block head + 32) bytes
      log := state.log.fill 0 bytes } call head)
  | .readSlotSize position =>
    some { state with
      writerPc := .publishSlot position (loadHeader state.data (indexOf block position)).slotSize }
  | .publishSlot position slotSize =>
    some { state with
      commitPos := position + slotSize.toUInt64
      pending := false
      writerPc := .bumpSlot
      log := state.log.commit position }
  | .bumpSlot =>
    some { state with commitSeq := (bumpNotifyWord state.commitSeq).1, writerPc := .idle }

/-- The verdict of the current `read`, after which the call goes on to `pc`. -/
def State.finishRead (state : State) (outcome : ReadOutcome) (pc : ReaderPc) : State :=
  { state with result := some outcome, readerPc := pc, log := state.log.finishRead outcome }

/-- `read` returns without having called its handler. -/
def State.finishEmpty (state : State) : State := state.finishRead .empty .idle

/-- The next atomic access of the reader's current call; `answer` is what the
caller's handler returns when this step is its call. -/
def readerStep (answer : Bool) (state : State) : Option State :=
  match state.readerPc with
  | .idle => none
  | .loadRead call => some { state with readerPc := .loadCommit call state.readPos }
  | .loadCommit call readPos =>
    let used := if state.commitPos > readPos then state.commitPos - readPos else 0
    if used = 0 then some state.finishEmpty
    else some { state with readerPc := .checkPublished call readPos used }
  | .checkPublished call readPos used =>
    if (loadHeader state.data (indexOf block readPos)).slotSize = 0 then some state.finishEmpty
    else some { state with readerPc := .checkWhole call readPos used }
  | .checkWhole call readPos used =>
    if used < (loadHeader state.data (indexOf block readPos)).slotSize.toUInt64 then
      some state.finishEmpty
    else some { state with readerPc := .checkPadding call readPos }
  | .checkPadding call readPos =>
    if (loadHeader state.data (indexOf block readPos)).payloadSize = 0 then
      some { state with readerPc := .skipSize call readPos }
    else some { state with readerPc := .takeSize call readPos }
  | .skipSize call readPos =>
    some { state with
      readerPc := .skipStore call readPos (loadHeader state.data (indexOf block readPos)).slotSize }
  | .skipStore call readPos slotSize =>
    some { state with readPos := readPos + slotSize.toUInt64, readerPc := .skipBump call }
  | .skipBump call =>
    some { state with
      readWakeSeq := (bumpNotifyWord state.readWakeSeq).1
      readerPc := .loadRead call }
  | .takeSize call readPos =>
    some { state with
      readerPc := .takeMeta call readPos
        (loadHeader state.data (indexOf block readPos)).payloadSize }
  | .takeMeta call readPos payloadSize =>
    some { state with
      readerPc := .handle call readPos payloadSize
        (loadHeader state.data (indexOf block readPos)).messageMeta }
  | .handle call readPos payloadSize messageMeta =>
    let offer : Offer :=
      ⟨readPos, state.data.read (indexOf block readPos + 32) payloadSize.toNat, messageMeta⟩
    if call.accepts payloadSize answer then
      some (state.finishRead (.accepted offer) (.consumeSize readPos))
    else some (state.finishRead (.declined offer) .idle)
  | .consumeSize readPos =>
    some { state with
      readerPc := .consumeStore readPos (loadHeader state.data (indexOf block readPos)).slotSize }
  | .consumeStore readPos slotSize =>
    some { state with readPos := readPos + slotSize.toUInt64, readerPc := .consumeBump }
  | .consumeBump =>
    some { state with readWakeSeq := (bumpNotifyWord state.readWakeSeq).1, readerPc := .idle }

/-- The producer session ends wherever it is, and a new `varlen_writer` is
constructed on the existing segment. -/
def State.restart (state : State) : State :=
  { state with
    backoff := {}
    pending := false
    lastPosition := 0
    requested := 0
    returned := none
    writerPc := .idle
    log := { state.log with session := state.log.session + 1 } }

/-- The producer writes into the payload area of its outstanding reservation. -/
def State.fill (state : State) (offset : Nat) (bytes : List UInt8) : State :=
  { state with
    data := state.data.write (indexOf block state.lastPosition + 32 + offset) bytes
    log := state.log.fill offset bytes }

def step (state : State) : Action → Option State
  | .call call =>
    match state.writerPc, call with
    | .idle, .reserve call => some (state.beginReserve block call)
    | .idle, .commit position => some (state.beginCommit position)
    | _, _ => none
  | .fill offset bytes =>
    match state.writerPc with
    | .idle =>
      if state.pending ∧ offset + bytes.length ≤ state.requested.toNat then
        some (state.fill block offset bytes)
      else none
    | _ => none
  | .writer => writerStep block state
  | .restart => some state.restart
  | .read call =>
    match state.readerPc with
    | .idle => some { state with readerPc := .loadRead call }
    | _ => none
  | .reader answer => readerStep block answer state

def machine : Machine State Action := ⟨step block⟩

end SpscRing.Varlen
