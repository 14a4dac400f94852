import SpscRing.Channel.Fixed
import SpscRing.Fixed.Refinement
import SpscRing.Foundation.Drain

/-! `run_fixed_channel` of the thread channel example: a producer that numbers its
frames and then sets a flag, and a consumer that drains the ring until it finds it empty
and the flag set. -/

namespace SpscRing.FixedChannel

open SpscRing.Foundation SpscRing.Fixed

/-- Where the producer is: its loop test, its calls into the ring, the wait on a full
ring, and what follows the loop. -/
inductive ProducerPc where
  | test
  | reserving
  | loadWake
  | waitWake (wake : UInt32)
  | fill
  | commit
  | committing
  | storeDone
  | join

inductive ConsumerPc where
  | tryRead
  | reading
  | advance
  | advancing
  | testDone
  | loadSeq
  | waitCommit (seq : UInt32)
  | left

/-- The ring, the two threads with their locals, and the flag they share. -/
structure Channel where
  ring : Fixed.State
  producer : ProducerPc := .test
  sent : UInt64 := 0
  done : Bool := false
  consumer : ConsumerPc := .tryRead
  drained : UInt64 := 0
  mismatches : UInt64 := 0

inductive Thread where
  | producer
  | consumer

variable (block : ControlBlock) (messages : UInt64)

def initial (data : Memory) : Channel := { ring := Fixed.initial block data }

/-- The next access of the producer. The wait of its backoff returns at any time. -/
def producerStep (channel : Channel) : Option Channel :=
  match channel.producer with
  | .test =>
    if channel.sent < messages then
      (step block channel.ring (.call .tryReserve)).map fun ring =>
        { channel with ring, producer := .reserving }
    else some { channel with producer := .storeDone }
  | .reserving =>
    if channel.ring.writerPc.isIdle then
      if channel.ring.reserved.isSome then some { channel with producer := .fill }
      else some { channel with producer := .loadWake }
    else (step block channel.ring .writer).map fun ring => { channel with ring }
  | .loadWake => some { channel with producer := .waitWake channel.ring.readWakeSeq }
  | .waitWake _ => some { channel with producer := .test }
  | .fill =>
    (step block channel.ring (.fill 0 (bytesU64 channel.sent))).map fun ring =>
      { channel with ring, producer := .commit }
  | .commit =>
    (step block channel.ring (.call .commit)).map fun ring =>
      { channel with ring, producer := .committing }
  | .committing =>
    if channel.ring.writerPc.isIdle then
      some { channel with sent := channel.sent + 1, producer := .test }
    else (step block channel.ring .writer).map fun ring => { channel with ring }
  | .storeDone => some { channel with done := true, producer := .join }
  | .join => none

/-- The consumer has a view of the slot at `index`: it compares the tag and counts. -/
def Channel.receive (channel : Channel) (index : Nat) : Channel :=
  { channel with
    consumer := .advance
    drained := channel.drained + 1
    mismatches :=
      if loadU64 channel.ring.data index ≠ channel.drained then channel.mismatches + 1
      else channel.mismatches }

/-- The next access of the consumer. -/
def consumerStep (channel : Channel) : Option Channel :=
  match channel.consumer with
  | .tryRead =>
    (step block channel.ring (.read .tryRead)).map fun ring =>
      { channel with ring, consumer := .reading }
  | .reading =>
    if channel.ring.readerPc.isIdle then
      match channel.ring.slot with
      | some index => some (channel.receive index)
      | none => some { channel with consumer := .testDone }
    else (step block channel.ring .reader).map fun ring => { channel with ring }
  | .advance =>
    (step block channel.ring (.read (.readAdvance 1))).map fun ring =>
      { channel with ring, consumer := .advancing }
  | .advancing =>
    if channel.ring.readerPc.isIdle then some { channel with consumer := .tryRead }
    else (step block channel.ring .reader).map fun ring => { channel with ring }
  | .testDone =>
    if channel.done then some { channel with consumer := .left }
    else some { channel with consumer := .loadSeq }
  | .loadSeq => some { channel with consumer := .waitCommit channel.ring.commitSeq }
  | .waitCommit _ => some { channel with consumer := .tryRead }
  | .left => none

def channelStep (channel : Channel) : Thread → Option Channel
  | .producer => producerStep block messages channel
  | .consumer => consumerStep block channel

def machine : Machine Channel Thread := ⟨channelStep block messages⟩

end SpscRing.FixedChannel
