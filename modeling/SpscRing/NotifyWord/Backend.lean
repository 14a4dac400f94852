import SpscRing.AtomicWait.Native
import SpscRing.Foundation.Positions
import SpscRing.NotifyWord.Word

/-! The platform waits as the wait/notify protocol uses them: what it may rely on, and
the six backends that provide it. -/

namespace SpscRing.NotifyWord

open SpscRing.Foundation SpscRing.AtomicWait

/-- A platform wait. `queued` places are those at which the kernel holds the thread;
only a comparison that finds the expected value leads to one. A wait that is not held
uses up its `rank` once the word has another value. -/
structure Backend (Clock Place : Type) where
  start : (expected : UInt32) → (timeoutMs : Int32) → Place
  step : (expected : UInt32) → (timeoutMs : Int32) → Place → KernelMoment Clock → Option Place
  queued : Place → Bool
  release : Place → Outcome → Place
  rank : Place → Nat
  started : ∀ expected timeoutMs, queued (start expected timeoutMs) = false
  compares : ∀ expected timeoutMs place moment next, queued place = false →
    step expected timeoutMs place moment = some next → queued next = true → moment.word = expected
  released : ∀ place outcome, queued (release place outcome) = false
  leaves : ∀ expected timeoutMs place moment next, queued place = false →
    moment.word ≠ expected → step expected timeoutMs place moment = some next →
      rank next < rank place

def NativePc.isQueued : NativePc → Bool
  | .queued _ _ => true
  | _ => false

def NativePc.release : NativePc → Outcome → NativePc
  | .queued deadline _, outcome => .released deadline outcome
  | pc, _ => pc

theorem isQueued_release (pc : NativePc) (outcome : Outcome) :
    NativePc.isQueued (NativePc.release pc outcome) = false := by
  cases pc <;> rfl

/-- A native wait reaches the queue only from its entry into the kernel. -/
theorem native_compares (native : Native) {expected : UInt32} {timeoutMs : Int32}
    {place next : NativePc} {moment : KernelMoment Int} (outside : NativePc.isQueued place = false)
    (taken : (native.atomicWaitFor expected timeoutMs).step place moment = some next)
    (queued : NativePc.isQueued next = true) : moment.word = expected := by
  cases place with
  | readClock | lastLoad =>
    cases taken
    cases queued
  | returned _ => cases taken
  | queued _ _ => cases outside
  | load deadline =>
    simp only [NativeWait.step] at taken
    split at taken <;> cases taken
    · cases native <;> simp only [Native.atomicWaitFor, Futex.atomicWaitFor, Win32.nativeWaitFor,
        Darwin.osSyncWaitFor, Darwin.ulockWaitFor] at queued
      · cases queued
      · cases queued
      · split at queued <;> cases queued
      · split at queued <;> cases queued
    · cases queued
  | readNow deadline =>
    simp only [NativeWait.step] at taken
    split at taken <;> cases taken <;> cases queued
  | enter deadline timeout =>
    simp only [NativeWait.step] at taken
    split at taken <;> cases taken
    · rename_i same
      rw [same]
      cases native <;> rfl
    · cases native <;> cases queued
  | released deadline outcome =>
    simp only [NativeWait.step, Option.some.injEq] at taken
    subst taken
    cases native <;> simp only [Native.atomicWaitFor, Futex.atomicWaitFor, Win32.nativeWaitFor,
      Darwin.osSyncWaitFor, Darwin.ulockWaitFor] at queued
    · cases queued
    · split at queued <;> cases queued
    · split at queued <;> cases queued
    · cases queued

def NativePc.rank : NativePc → Nat
  | .readNow _ => 3
  | .readClock | .enter _ _ | .queued _ _ | .released _ _ => 2
  | .load _ | .lastLoad => 1
  | .returned _ => 0

theorem native_leaves (native : Native) {expected : UInt32} {timeoutMs : Int32}
    {place next : NativePc} {moment : KernelMoment Int} (outside : NativePc.isQueued place = false)
    (changed : moment.word ≠ expected)
    (taken : (native.atomicWaitFor expected timeoutMs).step place moment = some next) :
    NativePc.rank next < NativePc.rank place := by
  have compared : (native.atomicWaitFor expected timeoutMs).old = expected := by
    cases native <;> rfl
  cases place with
  | readClock | lastLoad =>
    cases taken
    simp [NativePc.rank]
  | returned _ => cases taken
  | queued _ _ => cases outside
  | load deadline =>
    simp only [NativeWait.step, compared, changed, if_false, Option.some.injEq] at taken
    subst taken
    simp [NativePc.rank]
  | readNow deadline =>
    simp only [NativeWait.step] at taken
    split at taken <;> cases taken <;> simp [NativePc.rank]
  | enter deadline timeout =>
    simp only [NativeWait.step, compared, changed, if_false, Option.some.injEq] at taken
    subst taken
    cases native <;> simp [Native.atomicWaitFor, Futex.atomicWaitFor, Win32.nativeWaitFor,
      Darwin.osSyncWaitFor, Darwin.ulockWaitFor, NativePc.rank]
  | released deadline outcome =>
    simp only [NativeWait.step, Option.some.injEq] at taken
    subst taken
    cases native <;> simp only [Native.atomicWaitFor, Futex.atomicWaitFor, Win32.nativeWaitFor,
      Darwin.osSyncWaitFor, Darwin.ulockWaitFor]
    · simp [NativePc.rank]
    · split <;> simp [NativePc.rank]
    · split <;> simp [NativePc.rank]
    · simp [NativePc.rank]

/-- The four backends that block in the kernel. -/
def nativeBackend (native : Native) : Backend Int NativePc where
  start expected timeoutMs := (native.atomicWaitFor expected timeoutMs).begin
  step expected timeoutMs := (native.atomicWaitFor expected timeoutMs).step
  queued := NativePc.isQueued
  release := NativePc.release
  rank := NativePc.rank
  started expected timeoutMs := by
    cases native with
    | futex | waitOnAddress => rfl
    | osSync | ulock =>
      simp only [Native.atomicWaitFor, Darwin.osSyncWaitFor, Darwin.ulockWaitFor]
      split <;> rfl
  compares _ _ _ _ _ outside taken queued := native_compares native outside taken queued
  released := isQueued_release
  leaves _ _ _ _ _ outside changed taken := native_leaves native outside changed taken

/-- A polling loop with the steps it has left once the word has changed. -/
structure PollingLoop (Clock Poll : Type) where
  wait : UInt32 → Int32 → TimedWait UInt32 Clock Poll
  rank : Poll → Nat
  enter : Poll
  enters : ∀ expected timeoutMs, (wait expected timeoutMs).enter = enter
  compared : ∀ expected timeoutMs, (wait expected timeoutMs).old = expected
  leaves : ∀ expected timeoutMs word place next, word ≠ expected →
    (wait expected timeoutMs).poll word place = some next → rank next < rank place

def PollingLoop.rankAt {Clock Poll : Type} (loop : PollingLoop Clock Poll) : Pc Clock Poll → Nat
  | .readStart => 2
  | .testWord _ => 1
  | .readNow _ => loop.rank loop.enter + 3
  | .poll _ place => loop.rank place + 2
  | .pollOnly place => loop.rank place + 1
  | .returned _ => 0

theorem PollingLoop.leavesAt {Clock Poll : Type} (loop : PollingLoop Clock Poll) {expected : UInt32}
    {timeoutMs : Int32} {place next : Pc Clock Poll} {moment : Moment UInt32 Clock}
    (changed : moment.word ≠ expected)
    (taken : (loop.wait expected timeoutMs).step place moment = some next) :
    loop.rankAt next < loop.rankAt place := by
  cases place with
  | readStart =>
    cases taken
    simp [rankAt]
  | testWord start =>
    simp only [TimedWait.step, loop.compared, changed, if_false, Option.some.injEq] at taken
    subst taken
    simp [rankAt]
  | readNow start =>
    simp only [TimedWait.step] at taken
    split at taken <;> cases taken
    · simp [rankAt]
    · simp [rankAt, loop.enters]
  | poll start place =>
    simp only [TimedWait.step] at taken
    split at taken <;> cases taken
    · rename_i following polled
      have fewer := loop.leaves _ _ _ _ _ changed polled
      simp only [rankAt]
      omega
    · simp [rankAt]
  | pollOnly place =>
    simp only [TimedWait.step] at taken
    split at taken <;> cases taken
    · rename_i following polled
      have fewer := loop.leaves _ _ _ _ _ changed polled
      simp only [rankAt]
      omega
    · simp [rankAt]
  | returned value => cases taken

/-- A backend that polls: the kernel never holds the thread. -/
def pollingBackend {Clock Poll : Type} (loop : PollingLoop Clock Poll) :
    Backend Clock (Pc Clock Poll) where
  start expected timeoutMs := (loop.wait expected timeoutMs).begin
  step expected timeoutMs place moment := (loop.wait expected timeoutMs).step place moment.toMoment
  queued _ := false
  release place _ := place
  rank := loop.rankAt
  started _ _ := rfl
  compares _ _ _ _ _ _ _ queued := by cases queued
  released _ _ := rfl
  leaves _ _ _ _ _ _ changed taken := loop.leavesAt changed taken

/-- The pauses an iteration has left, and the load after them. -/
def AtomicPoll.rank : AtomicPoll → Nat
  | .load _ => 0
  | .yield _ => 1
  | .pause iteration made => (atomicPollPauses iteration).toNat - made.toNat + 2

theorem atomicPoll_leaves {expected word : UInt32} {place next : AtomicPoll}
    (changed : word ≠ expected) (taken : atomicPoll expected word place = some next) :
    AtomicPoll.rank next < AtomicPoll.rank place := by
  cases place with
  | load iteration => simp [atomicPoll, changed] at taken
  | yield iteration =>
    cases taken
    simp [AtomicPoll.rank]
  | pause iteration made =>
    simp only [atomicPoll] at taken
    split at taken
    · rename_i more
      cases taken
      have below := UInt32.lt_iff_toNat_lt.mp more
      have counted := toNat_succ_u32 more
      simp only [AtomicPoll.rank, counted]
      omega
    · split at taken <;> cases taken <;> simp [AtomicPoll.rank]

def portableLoop : PollingLoop Int AtomicPoll where
  wait := atomicWaitFor
  rank := AtomicPoll.rank
  enter := .load 0
  enters _ _ := rfl
  compared _ _ := rfl
  leaves _ _ _ _ _ changed taken := atomicPoll_leaves changed taken

/-- The platforms without a wait primitive. -/
def portableBackend : Backend Int (Pc Int AtomicPoll) := pollingBackend portableLoop

def PollingWait.rank : Win32.PollingWait → Nat
  | .load _ => 0
  | .switchToThread _ | .sleep _ _ => 1
  | .pause iteration made => ((1 : UInt32) <<< min (iteration - 1) 8).toNat - made.toNat + 1

theorem pollingWait_leaves {tuning : Win32.WaitTuning} {expected word : UInt32}
    {place next : Win32.PollingWait} (changed : word ≠ expected)
    (taken : Win32.pollingWait tuning expected word place = some next) :
    PollingWait.rank next < PollingWait.rank place := by
  cases place with
  | load iteration => simp [Win32.pollingWait, changed] at taken
  | switchToThread iteration | sleep iteration milliseconds =>
    cases taken
    simp [PollingWait.rank]
  | pause iteration made =>
    simp only [Win32.pollingWait] at taken
    split at taken
    · rename_i more
      cases taken
      have below := UInt32.lt_iff_toNat_lt.mp more
      have counted := toNat_succ_u32 more
      simp only [PollingWait.rank, counted]
      omega
    · cases taken
      simp [PollingWait.rank]

def win32Loop (tuning : Win32.WaitTuning) : PollingLoop UInt32 Win32.PollingWait where
  wait := Win32.atomicWaitFor tuning
  rank := PollingWait.rank
  enter := .load 0
  enters _ _ := rfl
  compared _ _ := rfl
  leaves _ _ _ _ _ changed taken := pollingWait_leaves changed taken

/-- Win32 without the native wait API. -/
def win32PollingBackend (tuning : Win32.WaitTuning) :
    Backend UInt32 (Pc UInt32 Win32.PollingWait) :=
  pollingBackend (win32Loop tuning)

end SpscRing.NotifyWord
