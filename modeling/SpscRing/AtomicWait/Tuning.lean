import SpscRing.AtomicWait.Backoff

/-! The tuning of the Win32 waits, read from the environment of the process, and how long
`polling_wait` can keep a processor busy under it. -/

namespace SpscRing.AtomicWait.Win32

open SpscRing.Foundation

universe u

/-- What the code asks the process for: the text of an environment variable, empty when it
is not set, and `std::wcstoul` in base 10, with the number of characters it read. -/
structure Process where
  environment : String → List UInt16
  wcstoul : List UInt16 → UInt32 × Nat

/-- The whole of `wait_tuning`. -/
structure NativeTuning extends WaitTuning where
  waitTimeoutMs : UInt32 := 1

/-- `try_read_env_u32`, with `none` for false. A text of 32 characters or more does not fit
the buffer, and the call then returns the size it would need. -/
def tryReadEnvU32 (process : Process) (name : String) : Option UInt32 :=
  let text := process.environment name
  if text.length = 0 ∨ 32 ≤ text.length then none
  else
    let parsed := process.wcstoul text
    if parsed.2 = 0 ∨ text.getD parsed.2 0 ≠ 0 then none else some parsed.1

def clampU32 (value minValue maxValue : UInt32) : UInt32 :=
  if value < minValue then minValue else if value > maxValue then maxValue else value

/-- One setting: what its variable holds, clamped, or else its default. -/
def setting (process : Process) (name : String) (fallback maxValue : UInt32) : UInt32 :=
  match tryReadEnvU32 process name with
  | some value => clampU32 value 0 maxValue
  | none => fallback

def loadWaitTuning (process : Process) : NativeTuning where
  spinCount := setting process "SPSCRING_WIN32_WAIT_SPIN" 1000 1000000
  yieldCount := setting process "SPSCRING_WIN32_WAIT_YIELD" 10 100000
  waitTimeoutMs := setting process "SPSCRING_WIN32_WAIT_TIMEOUT_MS" 1 60000
  pollingSleepMs := setting process "SPSCRING_WIN32_POLL_SLEEP_MS" 1 60000

theorem clampU32_le (value : UInt32) {maxValue : UInt32} : clampU32 value 0 maxValue ≤ maxValue := by
  unfold clampU32
  split
  · exact UInt32.zero_le
  · split
    · exact UInt32.le_refl _
    · rename_i below
      exact UInt32.not_lt.mp below

theorem setting_le (process : Process) (name : String) {fallback maxValue : UInt32}
    (within : fallback ≤ maxValue) : setting process name fallback maxValue ≤ maxValue := by
  unfold setting
  split
  · exact clampU32_le _
  · exact within

section Busy

variable {Word : Type u} [DecidableEq Word]

def PollingWait.isAsleep : PollingWait → Bool
  | .sleep _ _ => true
  | .load _ | .pause _ _ | .switchToThread _ => false

/-- The word has not changed, and the wait has not gone to sleep. -/
structure KeptBusy (old : Word) (before : PollingWait) (word : Word) (after : PollingWait) : Prop where
  unchanged : word = old
  awake : after.isAsleep = false

instance (old : Word) (before : PollingWait) (word : Word) (after : PollingWait) :
    Decidable (KeptBusy old before word after) :=
  decidable_of_iff (word = old ∧ after.isAsleep = false)
    ⟨fun ⟨unchanged, awake⟩ => ⟨unchanged, awake⟩, fun ⟨unchanged, awake⟩ => ⟨unchanged, awake⟩⟩

/-- The steps that are left, at most, before a wait sleeps whose next iteration has this
number: one that spins takes at most 258, one that yields takes two. -/
def busyFrom (spins yields iteration : Nat) : Nat :=
  if iteration ≤ spins then 258 * (spins + 1 - iteration) + 2 * yields
  else if iteration ≤ spins + yields then 2 * (spins + yields + 1 - iteration)
  else 0

def PollingWait.busyLeft (tuning : WaitTuning) (place : PollingWait) : Nat :=
  let onwards (iteration : UInt32) :=
    busyFrom tuning.spinCount.toNat tuning.yieldCount.toNat (iteration + 1).toNat
  match place with
  | .load iteration => onwards iteration
  | .pause iteration made => 257 - made.toNat + onwards iteration
  | .switchToThread iteration | .sleep iteration _ => 1 + onwards iteration

/-- An iteration makes at most 256 pauses. -/
def PausesWithin : PollingWait → Prop
  | .pause _ made => made.toNat ≤ 256
  | .load _ | .switchToThread _ | .sleep _ _ => True

theorem busyFrom_spin {spins iteration : Nat} (yields : Nat) (spinning : iteration ≤ spins) :
    busyFrom spins yields (iteration + 1) + 258 ≤ busyFrom spins yields iteration := by
  unfold busyFrom
  rw [if_pos spinning]
  split
  · omega
  · split <;> omega

theorem busyFrom_yield {spins yields iteration : Nat} (spun : ¬ iteration ≤ spins)
    (yielding : iteration ≤ spins + yields) :
    busyFrom spins yields (iteration + 1) + 2 ≤ busyFrom spins yields iteration := by
  have next : ¬ iteration + 1 ≤ spins := by omega
  unfold busyFrom
  rw [if_neg spun, if_neg next, if_pos yielding]
  split <;> omega

theorem busyFrom_le (spins yields iteration : Nat) :
    busyFrom spins yields iteration ≤ 258 * (spins + 1) + 2 * yields := by
  unfold busyFrom
  split
  · omega
  · split <;> omega

variable {tuning : WaitTuning} {old word : Word} {place next : PollingWait}

theorem pausesWithin_step (within : PausesWithin place)
    (taken : pollingWait tuning old word place = some next) : PausesWithin next := by
  cases place with
  | load iteration =>
    simp only [pollingWait] at taken
    split at taken
    · cases taken
    · split at taken
      · cases taken
        exact Nat.zero_le _
      · split at taken <;> cases taken <;> trivial
  | pause iteration made =>
    have capped : ((1 : UInt32) <<< pollingWaitExp iteration).toNat ≤ 256 :=
      (capped_some (pollingWaitExp_le iteration)).pauses _ rfl
    simp only [pollingWait] at taken
    split at taken <;> cases taken
    · rename_i more
      have fewer : made.toNat < ((1 : UInt32) <<< pollingWaitExp iteration).toNat :=
        UInt32.lt_iff_toNat_lt.mp more
      show (made + 1).toNat ≤ 256
      rw [toNat_succ_u32 more]
      omega
    · trivial
  | switchToThread iteration | sleep iteration _ =>
    cases taken
    trivial

/-- A wait that stays awake uses up its steps. -/
theorem busyLeft_step (roomy : tuning.spinCount.toNat + tuning.yieldCount.toNat + 1 < 2 ^ 32)
    (within : PausesWithin place) (busy : KeptBusy old place word next)
    (taken : pollingWait tuning old word place = some next) :
    next.busyLeft tuning + 1 ≤ place.busyLeft tuning := by
  obtain ⟨rfl, awake⟩ := busy
  cases place with
  | load iteration =>
    have sum : (tuning.spinCount + tuning.yieldCount).toNat =
        tuning.spinCount.toNat + tuning.yieldCount.toNat := by
      rw [UInt32.toNat_add]
      omega
    have onwards (least : (iteration + 1).toNat + 1 < 2 ^ 32) :
        (iteration + 1 + 1).toNat = (iteration + 1).toNat + 1 := by
      rw [UInt32.toNat_add (iteration + 1), UInt32.toNat_one]
      omega
    simp only [pollingWait, ne_eq, not_true_eq_false, if_false] at taken
    split at taken
    · rename_i spinning
      have early := UInt32.le_iff_toNat_le.mp spinning
      have fewer := busyFrom_spin tuning.yieldCount.toNat early
      cases taken
      simp only [PollingWait.busyLeft, onwards (by omega), UInt32.toNat_zero]
      omega
    · rename_i spun
      have late : ¬ (iteration + 1).toNat ≤ tuning.spinCount.toNat := by
        rwa [UInt32.le_iff_toNat_le] at spun
      split at taken
      · rename_i yielding
        have early := UInt32.le_iff_toNat_le.mp yielding
        rw [sum] at early
        have fewer := busyFrom_yield late early
        cases taken
        simp only [PollingWait.busyLeft, onwards (by omega)]
        omega
      · cases taken
        simp [PollingWait.isAsleep] at awake
  | pause iteration made =>
    simp only [PausesWithin] at within
    have capped : ((1 : UInt32) <<< pollingWaitExp iteration).toNat ≤ 256 :=
      (capped_some (pollingWaitExp_le iteration)).pauses _ rfl
    simp only [pollingWait] at taken
    split at taken <;> cases taken
    · rename_i more
      have fewer : made.toNat < ((1 : UInt32) <<< pollingWaitExp iteration).toNat :=
        UInt32.lt_iff_toNat_lt.mp more
      have counted := toNat_succ_u32 more
      simp only [PollingWait.busyLeft, counted]
      omega
    · simp only [PollingWait.busyLeft]
      omega
  | switchToThread iteration | sleep iteration _ =>
    cases taken
    simp only [PollingWait.busyLeft]
    omega

theorem busyLeft_le (tuning : WaitTuning) (place : PollingWait) :
    place.busyLeft tuning ≤
      257 + (258 * (tuning.spinCount.toNat + 1) + 2 * tuning.yieldCount.toNat) := by
  have most (iteration : UInt32) := busyFrom_le tuning.spinCount.toNat tuning.yieldCount.toNat
    (iteration + 1).toNat
  cases place with
  | load iteration | pause iteration _ | switchToThread iteration | sleep iteration _ =>
    have bound := most iteration
    simp only [PollingWait.busyLeft]
    omega

/-- An environment that asks for two spins and one yield, in decimal digits. -/
def sampleProcess : Process where
  environment
    | "SPSCRING_WIN32_WAIT_SPIN" => [0x32]
    | "SPSCRING_WIN32_WAIT_YIELD" => [0x31]
    | _ => []
  wcstoul text :=
    (text.foldl (fun number digit => number * 10 + (digit.toUInt32 - 0x30)) 0, text.length)

end Busy

end SpscRing.AtomicWait.Win32
