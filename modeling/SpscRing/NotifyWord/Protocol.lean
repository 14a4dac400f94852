import Mathlib.Logic.Function.Basic
import SpscRing.Foundation.Machine
import SpscRing.NotifyWord.Word

/-! The wait/notify protocol of `notify_word.hpp` as a machine: any set of
waiters inside `wait_on_notify_word` / `wait_on_notify_word_for`, and one bumper
doing rounds of publish, bump and, when the bump saw the waiter flag, notify.
Every load, read-modify-write, predicate evaluation, platform compare and
notify is one step. -/

namespace SpscRing.NotifyWord

open SpscRing.Foundation

/-- One call of `wait_on_notify_word` (no timeout argument) or of
`wait_on_notify_word_for`. The predicate may look at the published state and at
the word itself; `true` means keep waiting. -/
structure WaitCall (Shared : Type) where
  pred : Shared → UInt32 → Bool
  timeoutMs : Option Int := none

/-- Only a non-negative timeout sets a deadline; a negative one delegates to
the untimed variant. -/
def WaitCall.hasDeadline (call : WaitCall Shared) : Bool :=
  match call.timeoutMs with
  | none => false
  | some timeout => decide (0 ≤ timeout)

/-- Program counter of a waiter together with the locals of its call:
`registered` is `registered_by_us`, `marked` the word returned by `fetch_or`. -/
inductive WaiterPc (Shared : Type) where
  | idle
  | check (call : WaitCall Shared) (registered : Bool)
  | register (call : WaitCall Shared) (registered : Bool)
  | recheck (call : WaitCall Shared) (registered : Bool) (marked : UInt32)
  | deadline (call : WaitCall Shared) (registered : Bool) (marked : UInt32)
  | wait (call : WaitCall Shared) (registered : Bool) (marked : UInt32)
  | blocked (call : WaitCall Shared) (registered : Bool) (marked : UInt32)
  | clear (call : WaitCall Shared) (result : Bool)
  | returning (call : WaitCall Shared) (result : Bool)

inductive BumperPc where
  | betweenRounds
  | published
  | mustNotify
  deriving DecidableEq

/-- `bumps`, `marks` and `carried` observe the run and steer nothing: the bumps
since a waiter's last `fetch_or`, whether its current call executed one, and
whether a bump carried out of bit 30 since its last read-modify-write. -/
structure State (Waiter Shared : Type) where
  word : UInt32
  shared : Shared
  bumper : BumperPc
  waiter : Waiter → WaiterPc Shared
  bumps : Waiter → Nat
  marks : Waiter → Bool
  carried : Waiter → Bool

inductive Action (Waiter Shared : Type) where
  | call (waiter : Waiter) (call : WaitCall Shared)
  | waiter (waiter : Waiter) (expired : Bool)
  | wake (waiter : Waiter)
  | publish (value : Shared)
  | bump
  | notify

variable {Waiter Shared : Type}

def initial (word : UInt32) (value : Shared) : State Waiter Shared where
  word := word
  shared := value
  bumper := .betweenRounds
  waiter _ := .idle
  bumps _ := 0
  marks _ := false
  carried _ := false

/-- Leave the call: a waiter clears the flag only when it registered it. -/
def leave (call : WaitCall Shared) (registered result : Bool) : WaiterPc Shared :=
  if registered then .clear call result else .returning call result

/-- The platform wait returned: back to the top of the loop. -/
def WaiterPc.woken : WaiterPc Shared → WaiterPc Shared
  | .blocked call registered _ => .check call registered
  | pc => pc

/-- The call a waiter sleeps in. -/
def WaiterPc.blockedCall : WaiterPc Shared → Option (WaitCall Shared)
  | .blocked call _ _ => some call
  | _ => none

theorem WaiterPc.blockedCall_eq_some {pc : WaiterPc Shared} {call : WaitCall Shared} :
    pc.blockedCall = some call ↔ ∃ registered marked, pc = .blocked call registered marked := by
  cases pc <;> simp [blockedCall]

variable [DecidableEq Waiter]

def State.goto (state : State Waiter Shared) (self : Waiter) (pc : WaiterPc Shared) :
    State Waiter Shared :=
  { state with waiter := Function.update state.waiter self pc }

/-- The next step of a waiter; `expired` is what the clock says when the timed
variant computes its remaining time. -/
def waiterStep (state : State Waiter Shared) (self : Waiter) (expired : Bool) :
    Option (State Waiter Shared) :=
  match state.waiter self with
  | .idle | .blocked .. => none
  | .check call registered =>
    if call.pred state.shared state.word then some (state.goto self (.register call registered))
    else some (state.goto self (leave call registered true))
  | .register call registered =>
    some { state.goto self
        (.recheck call (registered || !hasWaiter state.word) state.word) with
      word := setWaiter state.word
      bumps := Function.update state.bumps self 0
      marks := Function.update state.marks self true
      carried := Function.update state.carried self false }
  | .recheck call registered marked =>
    if call.pred state.shared state.word then
      if call.hasDeadline then some (state.goto self (.deadline call registered marked))
      else some (state.goto self (.wait call registered marked))
    else some (state.goto self (leave call registered true))
  | .deadline call registered marked =>
    if expired then some (state.goto self (leave call registered false))
    else some (state.goto self (.wait call registered marked))
  | .wait call registered marked =>
    if state.word = marked then some (state.goto self (.blocked call registered marked))
    else some (state.goto self (.check call registered))
  | .clear call result =>
    some { state.goto self (.returning call result) with
      word := clearWaiter state.word
      carried := Function.update state.carried self false }
  | .returning _ _ => some (state.goto self .idle)

def step (state : State Waiter Shared) : Action Waiter Shared → Option (State Waiter Shared)
  | .call self call =>
    match state.waiter self with
    | .idle => some { state.goto self (.check call false) with
        marks := Function.update state.marks self false }
    | _ => none
  | .waiter self expired => waiterStep state self expired
  | .wake self =>
    match state.waiter self with
    | .blocked call registered _ => some (state.goto self (.check call registered))
    | _ => none
  | .publish value =>
    match state.bumper with
    | .betweenRounds => some { state with shared := value, bumper := .published }
    | _ => none
  | .bump =>
    match state.bumper with
    | .published =>
      let (word, waiters) := bumpNotifyWord state.word
      some { state with
        word := word
        bumper := if waiters then .mustNotify else .betweenRounds
        bumps := fun waiter => state.bumps waiter + 1
        carried := fun waiter => state.carried waiter || carries state.word }
    | _ => none
  | .notify =>
    match state.bumper with
    | .mustNotify => some { state with
        bumper := .betweenRounds
        waiter := fun waiter => (state.waiter waiter).woken }
    | _ => none

variable (Waiter Shared) in
def machine : Machine (State Waiter Shared) (Action Waiter Shared) := ⟨step⟩

/-- Fewer than `2^31` bumps fall between a `fetch_or` and the platform compare
that follows it. -/
def fewBumps (before : State Waiter Shared) : Action Waiter Shared → Bool
  | .waiter self _ =>
    match before.waiter self with
    | .wait .. => decide (before.bumps self < 2 ^ 31)
    | _ => true
  | _ => true

def FewBumps (before : State Waiter Shared) (action : Action Waiter Shared)
    (_ : State Waiter Shared) : Prop := fewBumps before action = true

instance (before after : State Waiter Shared) (action : Action Waiter Shared) :
    Decidable (FewBumps before action after) := inferInstanceAs (Decidable (_ = true))

/-- A wakeup is lost when a waiter sleeps although its predicate turned false
and no round is under way that could still wake it. -/
def LostWakeup (state : State Waiter Shared) (self : Waiter) : Prop :=
  ∃ call registered marked, state.waiter self = .blocked call registered marked ∧
    call.pred state.shared state.word = false ∧ state.bumper = .betweenRounds

end SpscRing.NotifyWord
