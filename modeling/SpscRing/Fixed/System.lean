import SpscRing.ControlBlock
import SpscRing.Foundation.Machine
import SpscRing.Foundation.Memory
import SpscRing.NotifyWord.Word
import SpscRing.Session

/-! The fixed-size ring as a machine: one `fixed_writer` and one `fixed_reader`
on a segment, each advancing by single accesses. -/

namespace SpscRing.Fixed

open SpscRing.Foundation SpscRing.NotifyWord

/-- What `write` copies into its slot; `try_reserve` copies nothing. -/
structure Source where
  data : Memory
  size : UInt32

inductive WriterCall where
  | tryReserve
  | commit
  | write (data : Memory) (size : UInt32)

/-- Where the writer is, with the locals that are live there. -/
inductive WriterPc where
  | idle
  | loadWrite (source : Option Source)
  | loadRead (source : Option Source) (write : UInt64)
  | storeWrite (source : Option Source) (write : UInt64)
  | copy (source : Source) (write : UInt64)
  | storeCommit
  | bumpCommit

inductive ReaderCall where
  | tryRead
  | readAdvance (count : UInt64)
  | read (size : UInt32)

/-- Where the reader is; a size stands for the copying `read`. -/
inductive ReaderPc where
  | idle
  | loadRead (size : Option UInt32)
  | loadCommit (size : Option UInt32) (read : UInt64)
  | copyOut (size : UInt32) (read : UInt64)
  | fetchAdd (count : UInt64)
  | bumpRead

def WriterPc.isIdle : WriterPc → Bool
  | .idle => true
  | _ => false

def ReaderPc.isIdle : ReaderPc → Bool
  | .idle => true
  | _ => false

theorem WriterPc.isIdle_iff {pc : WriterPc} : pc.isIdle = true ↔ pc = .idle := by
  cases pc <;> simp [isIdle]

theorem ReaderPc.isIdle_iff {pc : ReaderPc} : pc.isIdle = true ↔ pc = .idle := by
  cases pc <;> simp [isIdle]

/-- What an observer records; no step of the code depends on it. `draft` is the
slot as the producer has filled it so far, `views` the positions of the slots
that `try_read` has returned. -/
structure Log extends SessionLog where
  draft : List UInt8 := []
  views : List UInt64 := []

namespace Log

def reserve (log : Log) (position : UInt64) (draft : List UInt8) : Log :=
  { log with draft := draft, reservations := log.reservations ++ [⟨log.session, position⟩] }

def fill (log : Log) (offset : Nat) (bytes : List UInt8) : Log :=
  { log with draft := Memory.patch log.draft offset bytes }

def commit (log : Log) (position : UInt64) : Log :=
  { log with commits := log.commits ++ [⟨log.session, position⟩] }

def view (log : Log) (position : UInt64) : Log :=
  { log with views := log.views ++ [position] }

end Log

/-- The shared segment, the two objects with their program counters, what their
callers hold, and the observer's log. Pointers are offsets into the data region,
`none` the null pointer. -/
structure State extends Meta where
  data : Memory
  reservedEnd : UInt64 := 0
  pending : Bool := false
  reserved : Option Nat := none
  slot : Option Nat := none
  outSize : UInt32 := 0
  out : List UInt8 := []
  writerPc : WriterPc := .idle
  readerPc : ReaderPc := .idle
  log : Log := {}

inductive Action where
  | call (call : WriterCall)
  | fill (offset : Nat) (bytes : List UInt8)
  | writer
  | restart
  | read (call : ReaderCall)
  | reader

/-- A fresh writer and reader on a segment with the given data bytes. -/
def initial (block : ControlBlock) (data : Memory) : State :=
  { toMeta := block.rbMeta, data := data }

variable (block : ControlBlock)

def itemSize : UInt64 := block.fixedItemSize.toUInt64

/-- The check of the `fixed_writer` constructor, which aborts when it fails. -/
def attachesFixedWriter : Bool :=
  !(block.fixedItemSize != 0 && block.dataCapacity % itemSize block != 0)

/-- `item_count()`. -/
def itemCount : Nat := (block.dataCapacity / itemSize block).toNat

/-- The part of `try_reserve` before its first access to the fronts. -/
def State.beginReserve (state : State) (source : Option Source) : State :=
  if state.pending then { state with reserved := none, writerPc := .idle }
  else { state with writerPc := .loadWrite source }

/-- `commit` up to its store: a no-op when no reservation is pending. -/
def State.beginCommit (state : State) : State :=
  if !state.pending then { state with writerPc := .idle }
  else { state with writerPc := .storeCommit }

/-- After a successful reservation: `try_reserve` returns, `write` copies and commits. -/
def State.afterReserve (state : State) (source : Option Source) (write : UInt64) : State :=
  match source with
  | none => { state with writerPc := .idle }
  | some source =>
    if 0 < source.size then { state with writerPc := .copy source write } else state.beginCommit

/-- The store of the reservation front, with the assignments around it. -/
def State.storeWrite (state : State) (write : UInt64) : State :=
  { state with
    reservedEnd := write + itemSize block
    writePos := write + itemSize block
    pending := true
    reserved := some (indexOf block write)
    log := state.log.reserve write (state.data.read (indexOf block write) (itemSize block).toNat) }

/-- The next access of the writer's current call. -/
def writerStep (state : State) : Option State :=
  match state.writerPc with
  | .idle => none
  | .loadWrite source => some { state with writerPc := .loadRead source state.writePos }
  | .loadRead source write =>
    if write % block.dataCapacity = state.readPos % block.dataCapacity ∧ write > state.readPos then
      some { state with reserved := none, writerPc := .idle }
    else some { state with writerPc := .storeWrite source write }
  | .storeWrite source write => some ((state.storeWrite block write).afterReserve source write)
  | .copy source write =>
    let bytes := source.data.read 0 source.size.toNat
    some (State.beginCommit { state with
      data := state.data.write (indexOf block write) bytes
      log := state.log.fill 0 bytes })
  | .storeCommit =>
    some { state with
      commitPos := state.reservedEnd
      pending := false
      writerPc := .bumpCommit
      log := state.log.commit (state.reservedEnd - itemSize block) }
  | .bumpCommit =>
    some { state with commitSeq := (bumpNotifyWord state.commitSeq).1, writerPc := .idle }

/-- The next access of the reader's current call. -/
def readerStep (state : State) : Option State :=
  match state.readerPc with
  | .idle => none
  | .loadRead size => some { state with readerPc := .loadCommit size state.readPos }
  | .loadCommit size read =>
    if state.commitPos ≤ read then some { state with slot := none, readerPc := .idle }
    else
      match size with
      | none =>
        some { state with
          slot := some (indexOf block read)
          outSize := (itemSize block).toUInt32
          readerPc := .idle
          log := state.log.view read }
      | some size => some { state with readerPc := .copyOut size read, log := state.log.view read }
  | .copyOut size read =>
    some { state with
      out := state.data.read (indexOf block read) size.toNat
      readerPc := .fetchAdd 1 }
  | .fetchAdd count =>
    some { state with
      readPos := state.readPos + count * itemSize block
      readerPc := .bumpRead }
  | .bumpRead =>
    some { state with readWakeSeq := (bumpNotifyWord state.readWakeSeq).1, readerPc := .idle }

/-- The producer session ends wherever it is, and a new `fixed_writer` is
constructed on the existing segment. -/
def State.restart (state : State) : State :=
  { state with
    reservedEnd := 0
    pending := false
    reserved := none
    writerPc := .idle
    log := { state.log with session := state.log.session + 1 } }

/-- The producer writes into its outstanding slot. -/
def State.fill (state : State) (offset : Nat) (bytes : List UInt8) : State :=
  { state with
    data := state.data.write (indexOf block (state.reservedEnd - itemSize block) + offset) bytes
    log := state.log.fill offset bytes }

def step (state : State) : Action → Option State
  | .call call =>
    match state.writerPc, call with
    | .idle, .tryReserve => some (state.beginReserve none)
    | .idle, .write data size => some (state.beginReserve (some ⟨data, size⟩))
    | .idle, .commit => some state.beginCommit
    | _, _ => none
  | .fill offset bytes =>
    match state.writerPc with
    | .idle =>
      if state.pending ∧ offset + bytes.length ≤ (itemSize block).toNat then
        some (state.fill block offset bytes)
      else none
    | _ => none
  | .writer => writerStep block state
  | .restart => some state.restart
  | .read call =>
    match state.readerPc, call with
    | .idle, .tryRead => some { state with readerPc := .loadRead none }
    | .idle, .read size => some { state with readerPc := .loadRead (some size) }
    | .idle, .readAdvance count => some { state with readerPc := .fetchAdd count }
    | _, _ => none
  | .reader => readerStep block state

def machine : Machine State Action := ⟨step block⟩

end SpscRing.Fixed
