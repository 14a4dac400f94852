import SpscRing.Channel.Varlen
import SpscRing.Varlen.Delivery

/-! `run_varlen_channel` of the thread channel example: messages of 1 to 31 bytes, each
with its number in `user_data`. The memory keeps what a short padding header spills past
the data region; the example's own arena ends there. -/

namespace SpscRing.VarlenChannel

open SpscRing.Foundation SpscRing.Varlen
open SpscRing.Channel (Role)

/-- The length of a message. -/
def lengthOf (number : UInt64) : UInt32 := (1 + number % 31).toUInt32

/-- The letter a message is filled with. -/
def letterOf (number : UInt64) : UInt8 := (97 + number % 26).toUInt8

def metaOf (number : UInt64) : MessageMeta := { userData := number }

/-- The message with a number, as the producer means it. -/
def messageOf (number : UInt64) : Message :=
  ⟨List.replicate (lengthOf number).toNat (letterOf number), metaOf number⟩

/-- The size of the consumer's buffer. -/
def bufferSize : UInt32 := 512

inductive ProducerPc where
  | test
  | reserving
  | loadWake
  | waitWake (wake : UInt32)
  | fill (position : UInt64)
  | commit (position : UInt64)
  | committing
  | storeDone
  | join

inductive ConsumerPc where
  | read
  | reading
  | testDone
  | loadSeq
  | waitCommit (seq : UInt32)
  | left
  deriving DecidableEq

/-- The ring, the two threads with their locals, and the flag they share. `unexpected`
records the producer's complaint about a status. -/
structure Channel where
  ring : Varlen.State
  producer : ProducerPc := .test
  sent : UInt64 := 0
  unexpected : Bool := false
  done : Bool := false
  consumer : ConsumerPc := .read
  drained : UInt64 := 0
  mismatches : UInt64 := 0

/-- What the consumer's last `read` has put into `meta`, nothing when it returned false. -/
def received (ring : Varlen.State) : Option MessageMeta :=
  match ring.result with
  | some (.accepted offer) => some offer.message.messageMeta
  | _ => none

/-- The status of the producer's `try_reserve` decides how its loop goes on. -/
def Channel.answer (channel : Channel) (result : ReserveResult) : Channel :=
  if result.status = .full then { channel with producer := .loadWake }
  else if result.status ≠ .ok then { channel with unexpected := true, producer := .storeDone }
  else { channel with producer := .fill result.position }

/-- The consumer compares the number it was given and counts. -/
def Channel.receive (channel : Channel) (messageMeta : MessageMeta) : Channel :=
  { channel with
    consumer := .read
    drained := channel.drained + 1
    mismatches :=
      if messageMeta.userData ≠ channel.drained then channel.mismatches + 1
      else channel.mismatches }

variable (block : ControlBlock) (messages : UInt64)

def initial (data : Memory) : Channel := { ring := Varlen.initial block data }

/-- The next access of the producer. The wait of its backoff returns at any time. -/
def producerStep (channel : Channel) : Option Channel :=
  match channel.producer with
  | .test =>
    if channel.sent < messages then
      (step block channel.ring
        (.call (tryReserve (lengthOf channel.sent) (metaOf channel.sent)))).map fun ring =>
          { channel with ring, producer := .reserving }
    else some { channel with producer := .storeDone }
  | .reserving =>
    if channel.ring.writerPc.isIdle then channel.ring.returned.map channel.answer
    else (step block channel.ring .writer).map fun ring => { channel with ring }
  | .loadWake => some { channel with producer := .waitWake channel.ring.readWakeSeq }
  | .waitWake _ => some { channel with producer := .test }
  | .fill position =>
    (step block channel.ring (.fill 0 (messageOf channel.sent).payload)).map fun ring =>
      { channel with ring, producer := .commit position }
  | .commit position =>
    (step block channel.ring (.call (.commit position))).map fun ring =>
      { channel with ring, producer := .committing }
  | .committing =>
    if channel.ring.writerPc.isIdle then
      some { channel with sent := channel.sent + 1, producer := .test }
    else (step block channel.ring .writer).map fun ring => { channel with ring }
  | .storeDone => some { channel with done := true, producer := .join }
  | .join => none

/-- The next access of the consumer; its copying `read` asks no handler. -/
def consumerStep (channel : Channel) : Option Channel :=
  match channel.consumer with
  | .read =>
    (step block channel.ring (.read (.copy true bufferSize))).map fun ring =>
      { channel with ring, consumer := .reading }
  | .reading =>
    if channel.ring.readerPc.isIdle then
      match received channel.ring with
      | some messageMeta => some (channel.receive messageMeta)
      | none => some { channel with consumer := .testDone }
    else (step block channel.ring (.reader true)).map fun ring => { channel with ring }
  | .testDone =>
    if channel.done then some { channel with consumer := .left }
    else some { channel with consumer := .loadSeq }
  | .loadSeq => some { channel with consumer := .waitCommit channel.ring.commitSeq }
  | .waitCommit _ => some { channel with consumer := .read }
  | .left => none

def channelStep (channel : Channel) : Role → Option Channel
  | .producer => producerStep block messages channel
  | .consumer => consumerStep block channel

def machine : Machine Channel Role := ⟨channelStep block messages⟩

end SpscRing.VarlenChannel
