import SpscRing.NotifyWord.Registrars

/-! A ring whose two ends block instead of spinning: the consumer waits on
`commit_seq` while nothing is published, the producer on `read_wake_seq` while
there is no room. The machine interleaves the single accesses of the ring with
those of `wait_on_notify_word`, both on the words of the ring itself. -/

namespace SpscRing.Channel

open SpscRing.Foundation SpscRing.NotifyWord

inductive Role where
  | producer
  | consumer
  deriving DecidableEq

def Role.peer : Role → Role
  | .producer => .consumer
  | .consumer => .producer

@[simp]
theorem Role.peer_peer (role : Role) : role.peer.peer = role := by
  cases role <;> rfl

@[simp]
theorem Role.peer_ne (role : Role) : role.peer ≠ role := by
  cases role <;> decide

@[simp]
theorem Role.ne_peer (role : Role) : role ≠ role.peer := by
  cases role <;> decide

theorem Role.eq_or_eq_peer (self role : Role) : self = role ∨ self = role.peer := by
  cases self <;> cases role <;> decide

/-- What the ends of a ring show of it. An end publishes a front and then bumps a
notify word (`publishing` between the two); it waits, for an operation given by
its argument, while the front of the other end makes `mustWait` true. -/
structure Ends (Ring Act Arg : Type) where
  step : Ring → Act → Option Ring
  actor : Act → Role
  front : Role → Ring → UInt64
  word : Role → Ring → UInt32
  setWord : Role → Ring → UInt32 → Ring
  publishing : Role → Ring → Bool
  parks : Role → Arg → Ring → Bool
  mustWait : Role → Arg → Ring → UInt64 → Bool

/-- A thread as far as it is outside the ring: its call of `wait_on_notify_word`
with the observers of that call, and whether its last bump saw the waiter flag
and the notify is still to come. -/
structure Thread where
  pc : WaiterPc UInt64 := .idle
  owes : Bool := false
  bumps : Nat := 0
  marks : Bool := false
  carried : Bool := false

def WaiterPc.isIdle : WaiterPc UInt64 → Bool
  | .idle => true
  | _ => false

theorem WaiterPc.isIdle_iff {pc : WaiterPc UInt64} : WaiterPc.isIdle pc = true ↔ pc = .idle := by
  cases pc <;> simp [isIdle]

/-- Neither inside a wait call nor about to notify. -/
def Thread.free (thread : Thread) : Bool := WaiterPc.isIdle thread.pc && !thread.owes

def Thread.asleep (thread : Thread) : Bool := thread.pc.blockedCall.isSome

structure State (Ring : Type) where
  ring : Ring
  thread : Role → Thread

inductive Action (Act Arg : Type) where
  | ring (action : Act)
  | notify (self : Role)
  | wait (self : Role) (arg : Arg) (timeoutMs : Option Int)
  | waiter (self : Role) (expired : Bool)
  | wake (self : Role)

def initial {Ring : Type} (ring : Ring) : State Ring := ⟨ring, fun _ => {}⟩

def State.put {Ring : Type} (state : State Ring) (self : Role) (thread : Thread) : State Ring :=
  { state with thread := Function.update state.thread self thread }

variable {Ring Act Arg : Type} (ends : Ends Ring Act Arg)

/-- The wait call of an end: its predicate reads the other end's front. -/
def waitCall (self : Role) (arg : Arg) (ring : Ring) (timeoutMs : Option Int) : WaitCall UInt64 where
  pred front _ := ends.mustWait self arg ring front
  timeoutMs := timeoutMs

/-- The wait/notify protocol as the waits of one end see it: its peer is the bumper. -/
def State.view (state : State Ring) (self : Role) : NotifyWord.State Unit UInt64 where
  word := ends.word self.peer state.ring
  shared := ends.front self.peer state.ring
  bumper :=
    if (state.thread self.peer).owes then .mustNotify
    else if ends.publishing self.peer state.ring then .published
    else .betweenRounds
  waiter _ := (state.thread self).pc
  bumps _ := (state.thread self).bumps
  marks _ := (state.thread self).marks
  carried _ := (state.thread self).carried

/-- Put back what a step of the waiter changed: the word and its own record. -/
def State.store (state : State Ring) (self : Role) (protocol : NotifyWord.State Unit UInt64) :
    State Ring :=
  State.put ⟨ends.setWord self.peer state.ring protocol.word, state.thread⟩ self
    { state.thread self with
      pc := protocol.waiter ()
      bumps := protocol.bumps ()
      marks := protocol.marks ()
      carried := protocol.carried () }

/-- The bump of one end: its result decides whether the end goes on to notify. -/
def State.bump (state : State Ring) (self : Role) (ring : Ring) : State Ring :=
  let word := ends.word self state.ring
  let owner := state.thread self
  let waiting := state.thread self.peer
  (State.put ⟨ring, state.thread⟩ self { owner with owes := (bumpNotifyWord word).2 }).put self.peer
    { waiting with bumps := waiting.bumps + 1, carried := waiting.carried || carries word }

/-- The ring takes a step of one end. -/
def State.advance (state : State Ring) (self : Role) (ring : Ring) : State Ring :=
  if ends.publishing self state.ring && !ends.publishing self ring then state.bump ends self ring
  else { state with ring := ring }

/-- `atomic_notify_all` on the word the end has bumped. -/
def State.notify (state : State Ring) (self : Role) : State Ring :=
  let owner := state.thread self
  let waiting := state.thread self.peer
  (state.put self { owner with owes := false }).put self.peer { waiting with pc := waiting.pc.woken }

def State.startWait (state : State Ring) (self : Role) (arg : Arg) (timeoutMs : Option Int) :
    State Ring :=
  state.put self { state.thread self with
    pc := .check (waitCall ends self arg state.ring timeoutMs) false
    marks := false }

/-- A thread steps the ring, waits and notifies in its own program order; the two
threads interleave freely. -/
def step (state : State Ring) : Action Act Arg → Option (State Ring)
  | .ring action =>
    if (state.thread (ends.actor action)).free then
      (ends.step state.ring action).map (state.advance ends (ends.actor action))
    else none
  | .notify self => if (state.thread self).owes then some (state.notify self) else none
  | .wait self arg timeoutMs =>
    if (state.thread self).free && ends.parks self arg state.ring then
      some (state.startWait ends self arg timeoutMs)
    else none
  | .waiter self expired => (waiterStep (state.view ends self) () expired).map (state.store ends self)
  | .wake self =>
    (NotifyWord.step (state.view ends self) (.wake ())).map (state.store ends self)

def machine : Machine (State Ring) (Action Act Arg) := ⟨step ends⟩

end SpscRing.Channel
