import Mathlib.Data.Int.Notation
import Mathlib.Data.List.Basic

/-! The timed waits that poll: `atomic_wait_for` of platforms without a wait
primitive, and the Win32 one when the native wait API is unavailable. Both are
one loop around a polling loop of their own. -/

namespace SpscRing.AtomicWait

universe u v w

/-- What the environment shows at one step: the word, if the step loads it, and
the clock, if the step reads it. -/
structure Moment (Word : Type u) (Clock : Type v) where
  word : Word
  clock : Clock

/-- Where a timed wait is, with the locals that are live there. -/
inductive Pc (Clock : Type v) (Poll : Type w) where
  | readStart
  | testWord (start : Clock)
  | readNow (start : Clock)
  | poll (start : Clock) (place : Poll)
  | pollOnly (place : Poll)
  | returned (value : Bool)

/-- A timed wait: where it begins, what it compares the word with, when its
deadline has passed, and its inner loop, which loads the word and at some point
returns. -/
structure TimedWait (Word : Type u) (Clock : Type v) (Poll : Type w) where
  begin : Pc Clock Poll
  old : Word
  expired : (start now : Clock) → Bool
  enter : Poll
  poll : Word → Poll → Option Poll

namespace TimedWait

variable {Word : Type u} {Clock : Type v} {Poll : Type w} [DecidableEq Word]

/-- The next step of the wait; a wait that has returned takes none. -/
def step (wait : TimedWait Word Clock Poll) :
    Pc Clock Poll → Moment Word Clock → Option (Pc Clock Poll)
  | .readStart, moment => some (.testWord moment.clock)
  | .testWord start, moment =>
    if moment.word = wait.old then some (.readNow start) else some (.returned true)
  | .readNow start, moment =>
    if wait.expired start moment.clock then some (.returned false)
    else some (.poll start wait.enter)
  | .poll start place, moment =>
    match wait.poll moment.word place with
    | some next => some (.poll start next)
    | none => some (.testWord start)
  | .pollOnly place, moment =>
    match wait.poll moment.word place with
    | some next => some (.pollOnly next)
    | none => some (.returned true)
  | .returned _, _ => none

/-- Where the wait is after a number of steps in an environment. -/
def after (wait : TimedWait Word Clock Poll) (moments : Nat → Moment Word Clock) :
    Nat → Pc Clock Poll
  | 0 => wait.begin
  | count + 1 => (wait.step (wait.after moments count) (moments count)).getD
      (wait.after moments count)

/-- The call returns false after finitely many steps. -/
def TimesOut (wait : TimedWait Word Clock Poll) (moments : Nat → Moment Word Clock) : Prop :=
  ∃ count, wait.after moments count = .returned false

end TimedWait

section Portable

variable {Word : Type u} [DecidableEq Word]

/-- Where `atomic_poll` is; a pause counts those already made. -/
inductive AtomicPoll where
  | load (iteration : UInt32)
  | pause (iteration made : UInt32)
  | yield (iteration : UInt32)
  deriving DecidableEq

/-- The pauses of an iteration, `1u << exp`. Should the iteration wrap to zero,
the shift is by the low five bits of its predecessor. -/
def atomicPollPauses (iteration : UInt32) : UInt32 :=
  let exp := if iteration < 9 then iteration - 1 else 8
  1 <<< exp

/-- The next step of `atomic_poll`. -/
def atomicPoll (old word : Word) : AtomicPoll → Option AtomicPoll
  | .load iteration => if word = old then some (.pause (iteration + 1) 0) else none
  | .pause iteration made =>
    if made < atomicPollPauses iteration then some (.pause iteration (made + 1))
    else if iteration % 32 = 0 then some (.yield iteration)
    else some (.load iteration)
  | .yield iteration => some (.load iteration)

/-- The portable `atomic_wait_for`, on a steady clock in nanoseconds. A negative
timeout only polls. -/
def atomicWaitFor (old : Word) (timeoutMs : Int32) : TimedWait Word Int AtomicPoll where
  begin := if timeoutMs < 0 then .pollOnly (.load 0) else .readStart
  old := old
  expired start now := decide (now ≥ start + timeoutMs.toInt * 1000000)
  enter := .load 0
  poll := atomicPoll old

end Portable

namespace Win32

variable {Word : Type u} [DecidableEq Word]

/-- The fields of `wait_tuning` that polling uses. -/
structure WaitTuning where
  spinCount : UInt32 := 1000
  yieldCount : UInt32 := 10
  pollingSleepMs : UInt32 := 1

/-- Where `polling_wait` is. -/
inductive PollingWait where
  | load (iteration : UInt32)
  | pause (iteration made : UInt32)
  | switchToThread (iteration : UInt32)
  | sleep (iteration milliseconds : UInt32)
  deriving DecidableEq

/-- The next step of `polling_wait`. -/
def pollingWait (tuning : WaitTuning) (old word : Word) : PollingWait → Option PollingWait
  | .load iteration =>
    if word ≠ old then none
    else if iteration + 1 ≤ tuning.spinCount then some (.pause (iteration + 1) 0)
    else if iteration + 1 ≤ tuning.spinCount + tuning.yieldCount then
      some (.switchToThread (iteration + 1))
    else some (.sleep (iteration + 1) tuning.pollingSleepMs)
  | .pause iteration made =>
    let exp := min (iteration - 1) 8
    if made < 1 <<< exp then some (.pause iteration (made + 1)) else some (.load iteration)
  | .switchToThread iteration => some (.load iteration)
  | .sleep iteration _ => some (.load iteration)

/-- `sync::atomic_wait_for` without the native wait API, on the tick count in
milliseconds, which wraps. -/
def atomicWaitFor (tuning : WaitTuning) (old : Word) (timeoutMs : Int32) :
    TimedWait Word UInt32 PollingWait where
  begin := .readStart
  old := old
  expired start now := !(decide (timeoutMs < 0)) && decide ((now - start).toInt32 ≥ timeoutMs)
  enter := .load 0
  poll := pollingWait tuning old

end Win32

end SpscRing.AtomicWait
