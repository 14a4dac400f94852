import SpscRing.AtomicWait.Polling

/-! The waits that block in the kernel: `sync::atomic_wait_for` over `FUTEX_WAIT`, over
`WaitOnAddress`, and over the two Darwin primitives. Each is a loop, or a single pass,
around a kernel call that compares the word and puts the thread to sleep in one step. -/

namespace SpscRing.AtomicWait

/-- Why the kernel let a sleeping thread go. -/
inductive Outcome where
  | woken
  | interrupted
  | timedOut
  deriving DecidableEq

/-- What the environment shows at one step, and how a kernel wait ends there. -/
structure KernelMoment (Clock : Type) extends Moment UInt32 Clock where
  outcome : Outcome := .interrupted

/-- Where a native wait is. Times are nanoseconds of the steady clock; a kernel wait
carries the timeout it was given, if any. -/
inductive NativePc where
  | readClock
  | load (deadline : Int)
  | readNow (deadline : Int)
  | enter (deadline : Int) (timeout : Option Int)
  | queued (deadline : Int) (timeout : Option Int)
  | released (deadline : Int) (outcome : Outcome)
  | lastLoad
  | returned (value : Bool)
  deriving DecidableEq

/-- What the native waits differ in: whether they take a deadline, what follows a load
that still finds the old value, how long they sleep at a time, and where they go when
the kernel refuses to block or lets them go. -/
structure NativeWait where
  begin : NativePc
  old : UInt32
  deadline : (start : Int) → Int
  proceed : (deadline : Int) → NativePc
  expired : (deadline now : Int) → Bool
  slice : (deadline now : Int) → Option Int
  mismatch : (deadline : Int) → NativePc
  resume : (deadline : Int) → Outcome → NativePc

namespace NativeWait

/-- The next step of the wait; `queued` steps when the kernel lets the thread go. -/
def step (wait : NativeWait) : NativePc → KernelMoment Int → Option NativePc
  | .readClock, moment => some (.load (wait.deadline moment.clock))
  | .load deadline, moment =>
    if moment.word = wait.old then some (wait.proceed deadline) else some (.returned true)
  | .readNow deadline, moment =>
    if wait.expired deadline moment.clock then some (.returned false)
    else some (.enter deadline (wait.slice deadline moment.clock))
  | .enter deadline timeout, moment =>
    if moment.word = wait.old then some (.queued deadline timeout)
    else some (wait.mismatch deadline)
  | .queued deadline _, moment => some (.released deadline moment.outcome)
  | .released deadline outcome, _ => some (wait.resume deadline outcome)
  | .lastLoad, moment => some (.returned (moment.word != wait.old))
  | .returned _, _ => none

/-- Where the wait is after a number of steps in an environment. -/
def after (wait : NativeWait) (moments : Nat → KernelMoment Int) : Nat → NativePc
  | 0 => wait.begin
  | count + 1 => (wait.step (wait.after moments count) (moments count)).getD
      (wait.after moments count)

end NativeWait

/-- A timeout in milliseconds, as nanoseconds of the steady clock. -/
def nanoseconds (timeoutMs : Int32) : Int := timeoutMs.toInt * 1000000

/-- The timeout a kernel call is given by a caller's `timeout_ms`: none when negative. -/
def kernelTimeout (timeoutMs : Int32) : Option Int :=
  if timeoutMs < 0 then none else some (nanoseconds timeoutMs)

/-- Linux: one `FUTEX_WAIT`; the caller re-checks the value. -/
def Futex.atomicWaitFor (expected : UInt32) (timeoutMs : Int32) : NativeWait where
  begin := .load 0
  old := expected
  deadline start := start
  proceed deadline := .enter deadline (kernelTimeout timeoutMs)
  expired _ _ := false
  slice _ _ := none
  mismatch _ := .returned true
  resume _ outcome := .returned (timeoutMs < 0 || outcome != .timedOut)

/-- Win32 with the native API: every `WaitOnAddress` is given the whole timeout, and
one that times out is followed by a last load. -/
def Win32.nativeWaitFor (old : UInt32) (timeoutMs : Int32) : NativeWait where
  begin := .load 0
  old := old
  deadline start := start
  proceed deadline := .enter deadline (kernelTimeout timeoutMs)
  expired _ _ := false
  slice _ _ := none
  mismatch := .load
  resume deadline outcome :=
    if outcome = .timedOut ∧ ¬ timeoutMs < 0 then .lastLoad else .load deadline

/-- Darwin with `os_sync_wait_on_address`: each wait is given the time that is left. -/
def Darwin.osSyncWaitFor (old : UInt32) (timeoutMs : Int32) : NativeWait where
  begin := if timeoutMs < 0 then .load 0 else .readClock
  old := old
  deadline start := start + nanoseconds timeoutMs
  proceed deadline := if timeoutMs < 0 then .enter deadline none else .readNow deadline
  expired deadline now := deadline - now ≤ 0
  slice deadline now := some (deadline - now)
  mismatch := .load
  resume deadline outcome :=
    if outcome = .timedOut ∧ ¬ timeoutMs < 0 then .returned false else .load deadline

/-- `SPSCRING_ULOCK_TIMEOUT_US`. -/
def Darwin.ulockSlice : Int := 50000 * 1000

/-- Darwin with `__ulock_wait`: slices of 50 ms, and a deadline in whole milliseconds. -/
def Darwin.ulockWaitFor (old : UInt32) (timeoutMs : Int32) : NativeWait where
  begin := if timeoutMs < 0 then .load 0 else .readClock
  old := old
  deadline start := start + nanoseconds timeoutMs
  proceed deadline :=
    if timeoutMs < 0 then .enter deadline (some ulockSlice) else .readNow deadline
  expired deadline now := (deadline - now).tdiv 1000000 ≤ 0
  slice _ _ := some ulockSlice
  mismatch := .load
  resume deadline _ := .load deadline

/-- The kernel waits the library is built on. -/
inductive Native where
  | futex
  | waitOnAddress
  | osSync
  | ulock
  deriving DecidableEq

def Native.atomicWaitFor : Native → UInt32 → Int32 → NativeWait
  | .futex => Futex.atomicWaitFor
  | .waitOnAddress => Win32.nativeWaitFor
  | .osSync => Darwin.osSyncWaitFor
  | .ulock => Darwin.ulockWaitFor

section Environment

variable (wait : NativeWait) (moments : Nat → KernelMoment Int)

/-- The kernel reports a timeout only of a wait that was given one, and not before
that has passed since the thread went to sleep. -/
def Honest : Prop :=
  ∀ count deadline timeout, wait.after moments (count + 1) = .queued deadline timeout →
    (moments (count + 1)).outcome = .timedOut →
      ∃ given ∈ timeout, (moments count).clock + given ≤ (moments (count + 1)).clock

/-- The steady clock does not go back. -/
def Steady : Prop :=
  ∀ ⦃earlier later⦄, earlier ≤ later → (moments earlier).clock ≤ (moments later).clock

end Environment

variable {backend : Native} {old : UInt32} {timeoutMs : Int32} {moments : Nat → KernelMoment Int}

/-- A native wait that takes no step has returned. -/
theorem NativeWait.returned_of_stuck {wait : NativeWait} {pc : NativePc} {moment : KernelMoment Int}
    (stuck : wait.step pc moment = none) : ∃ value, pc = .returned value := by
  cases pc with
  | returned value => exact ⟨value, rfl⟩
  | readClock | queued _ _ | released _ _ | lastLoad => cases stuck
  | load _ | readNow _ | enter _ _ =>
    simp only [NativeWait.step] at stuck
    split at stuck <;> cases stuck

/-- What holds at the start and is kept by every step holds wherever the wait is. -/
theorem NativeWait.after_invariant (wait : NativeWait) (moments : Nat → KernelMoment Int)
    (holds : Nat → NativePc → Prop) (start : holds 0 wait.begin)
    (kept : ∀ count next, holds count (wait.after moments count) →
      wait.step (wait.after moments count) (moments count) = some next → holds (count + 1) next)
    (still : ∀ count value, holds count (.returned value) → holds (count + 1) (.returned value))
    (count : Nat) : holds count (wait.after moments count) := by
  induction count with
  | zero => exact start
  | succ count ih =>
    cases taken : wait.step (wait.after moments count) (moments count) with
    | some next =>
      rw [NativeWait.after, taken]
      exact kept count next ih taken
    | none =>
      obtain ⟨value, here⟩ := returned_of_stuck taken
      rw [NativeWait.after, taken, here]
      exact still count value (here ▸ ih)

theorem NativeWait.after_succ {wait : NativeWait} {count : Nat} {next : NativePc}
    (taken : wait.step (wait.after moments count) (moments count) = some next) :
    wait.after moments (count + 1) = next := by
  rw [NativeWait.after, taken, Option.getD_some]

end SpscRing.AtomicWait
