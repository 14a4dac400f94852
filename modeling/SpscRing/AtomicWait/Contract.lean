import SpscRing.AtomicWait.Native

/-! What a native timed wait tells its caller: a false result is never early, a true
one was seen. -/

namespace SpscRing.AtomicWait

variable {backend : Native} {old : UInt32} {timeoutMs : Int32} {moments : Nat → KernelMoment Int}

/-- How early a timeout may be reported: the `__ulock_wait` loop counts the time left in
whole milliseconds. -/
def Native.slack : Native → Int
  | .ulock => 999999
  | .futex | .waitOnAddress | .osSync => 0

/-- A deadline taken by one of the Darwin loops. -/
def DeadlineKept (backend : Native) (timeoutMs : Int32) (moments : Nat → KernelMoment Int)
    (deadline : Int) : Prop :=
  backend = .osSync ∨ backend = .ulock → 0 ≤ timeoutMs →
    deadline = (moments 0).clock + nanoseconds timeoutMs

/-- Why a native wait does not time out early, place by place. -/
def Timely (backend : Native) (timeoutMs : Int32) (moments : Nat → KernelMoment Int)
    (count : Nat) : NativePc → Prop
  | .readClock => count = 0
  | .load deadline => DeadlineKept backend timeoutMs moments deadline
  | .readNow deadline => 0 ≤ timeoutMs ∧ DeadlineKept backend timeoutMs moments deadline
  | .enter deadline timeout => DeadlineKept backend timeoutMs moments deadline ∧
    (backend ≠ .ulock → ∀ given ∈ timeout,
      (moments 0).clock + nanoseconds timeoutMs ≤ (moments count).clock + given)
  | .queued deadline timeout => DeadlineKept backend timeoutMs moments deadline ∧
    (backend ≠ .ulock → ∃ previous, count = previous + 1 ∧ ∀ given ∈ timeout,
      (moments 0).clock + nanoseconds timeoutMs ≤ (moments previous).clock + given)
  | .released deadline outcome => DeadlineKept backend timeoutMs moments deadline ∧
    (backend ≠ .ulock → outcome = .timedOut →
      (moments 0).clock + nanoseconds timeoutMs ≤ (moments count).clock)
  | .lastLoad => 0 ≤ timeoutMs ∧
    (moments 0).clock + nanoseconds timeoutMs ≤ (moments count).clock
  | .returned value => value = false → 0 ≤ timeoutMs ∧
    (moments 0).clock + nanoseconds timeoutMs - backend.slack ≤ (moments count).clock

/-- The times in nanoseconds that are left, less than one whole millisecond of them. -/
theorem lt_of_tdiv_le_zero {remaining : Int} (none : remaining.tdiv 1000000 ≤ 0) :
    remaining ≤ 999999 := by
  by_contra more
  have positive : 1 ≤ remaining.tdiv 1000000 := by
    rw [Int.tdiv_eq_ediv_of_nonneg (by omega)]
    omega
  omega

section Steps

variable (steady : Steady moments)
include steady

theorem timely_load {count : Nat} {deadline : Int} {next : NativePc}
    (held : Timely backend timeoutMs moments count (.load deadline))
    (taken : (backend.atomicWaitFor old timeoutMs).step (.load deadline) (moments count) = some next) :
    Timely backend timeoutMs moments (count + 1) next := by
  have later : (moments 0).clock ≤ (moments (count + 1)).clock := steady (Nat.zero_le _)
  have given : ∀ time ∈ kernelTimeout timeoutMs,
      (moments 0).clock + nanoseconds timeoutMs ≤ (moments (count + 1)).clock + time := by
    intro time member
    unfold kernelTimeout at member
    split at member
    · cases member
    · cases member
      omega
  simp only [NativeWait.step] at taken
  split at taken
  · cases taken
    cases backend with
    | futex | waitOnAddress => exact ⟨held, fun _ => given⟩
    | osSync | ulock =>
      by_cases negative : timeoutMs < 0
      · simp only [Native.atomicWaitFor, Darwin.osSyncWaitFor, Darwin.ulockWaitFor, negative, if_true]
        exact ⟨held, by simp⟩
      · simp only [Native.atomicWaitFor, Darwin.osSyncWaitFor, Darwin.ulockWaitFor, negative, if_false]
        exact ⟨Int32.not_lt.mp negative, held⟩
  · cases taken
    exact fun impossible => absurd impossible (by decide)

theorem timely_readNow {count : Nat} {deadline : Int} {next : NativePc}
    (held : Timely backend timeoutMs moments count (.readNow deadline))
    (taken : (backend.atomicWaitFor old timeoutMs).step (.readNow deadline) (moments count) =
      some next) : Timely backend timeoutMs moments (count + 1) next := by
  obtain ⟨finite, kept⟩ := held
  have forward : (moments count).clock ≤ (moments (count + 1)).clock := steady (Nat.le_succ _)
  simp only [NativeWait.step] at taken
  split at taken
  · rename_i expired
    cases taken
    refine fun _ => ⟨finite, ?_⟩
    cases backend with
    | futex | waitOnAddress => cases expired
    | osSync =>
      have due := kept (.inl rfl) finite
      simp only [Native.atomicWaitFor, Darwin.osSyncWaitFor, decide_eq_true_eq] at expired
      simp only [Native.slack]
      omega
    | ulock =>
      have due := kept (.inr rfl) finite
      simp only [Native.atomicWaitFor, Darwin.ulockWaitFor, decide_eq_true_eq] at expired
      have soon := lt_of_tdiv_le_zero expired
      simp only [Native.slack]
      omega
  · cases taken
    refine ⟨kept, fun reports => ?_⟩
    cases backend with
    | futex | waitOnAddress => simp [Native.atomicWaitFor, Futex.atomicWaitFor, Win32.nativeWaitFor]
    | ulock => exact absurd rfl reports
    | osSync =>
      have due := kept (.inl rfl) finite
      rintro given member
      cases member
      omega

theorem timely_released {count : Nat} {deadline : Int} {outcome : Outcome} {next : NativePc}
    (held : Timely backend timeoutMs moments count (.released deadline outcome))
    (taken : (backend.atomicWaitFor old timeoutMs).step (.released deadline outcome) (moments count) =
      some next) : Timely backend timeoutMs moments (count + 1) next := by
  obtain ⟨kept, late⟩ := held
  have forward : (moments count).clock ≤ (moments (count + 1)).clock := steady (Nat.le_succ _)
  simp only [NativeWait.step, Option.some.injEq] at taken
  subst taken
  cases backend with
  | futex =>
    intro expired
    simp only [Bool.or_eq_false_iff, decide_eq_false_iff_not, bne_eq_false_iff_eq] at expired
    have passed := late (by decide) expired.2
    refine ⟨Int32.not_lt.mp expired.1, ?_⟩
    simp only [Native.slack]
    omega
  | waitOnAddress =>
    simp only [Native.atomicWaitFor, Win32.nativeWaitFor]
    split
    · rename_i expired
      have passed := late (by decide) expired.1
      exact ⟨Int32.not_lt.mp expired.2, by omega⟩
    · exact kept
  | osSync =>
    simp only [Native.atomicWaitFor, Darwin.osSyncWaitFor]
    split
    · rename_i expired
      have passed := late (by decide) expired.1
      refine fun _ => ⟨Int32.not_lt.mp expired.2, ?_⟩
      simp only [Native.slack]
      omega
    · exact kept
  | ulock => exact kept

/-- No step of a native wait times out early. -/
theorem timely_step (honest : Honest (backend.atomicWaitFor old timeoutMs) moments) {count : Nat}
    {next : NativePc}
    (held : Timely backend timeoutMs moments count
      ((backend.atomicWaitFor old timeoutMs).after moments count))
    (taken : (backend.atomicWaitFor old timeoutMs).step
      ((backend.atomicWaitFor old timeoutMs).after moments count) (moments count) = some next) :
    Timely backend timeoutMs moments (count + 1) next := by
  have forward : (moments count).clock ≤ (moments (count + 1)).clock := steady (Nat.le_succ _)
  cases here : (backend.atomicWaitFor old timeoutMs).after moments count with
  | readClock =>
    rw [here] at held taken
    cases held
    cases taken
    rintro (rfl | rfl) - <;> rfl
  | load deadline =>
    rw [here] at held taken
    exact timely_load steady held taken
  | readNow deadline =>
    rw [here] at held taken
    exact timely_readNow steady held taken
  | enter deadline timeout =>
    rw [here] at held taken
    obtain ⟨kept, within⟩ := held
    simp only [NativeWait.step] at taken
    split at taken <;> cases taken
    · exact ⟨kept, fun reports => ⟨count, rfl, within reports⟩⟩
    · cases backend with
      | futex => exact fun impossible => absurd impossible (by decide)
      | waitOnAddress | osSync | ulock => exact kept
  | queued deadline timeout =>
    rw [here] at held taken
    obtain ⟨kept, within⟩ := held
    cases taken
    refine ⟨kept, fun reports expired => ?_⟩
    obtain ⟨previous, rfl, bound⟩ := within reports
    obtain ⟨given, member, slept⟩ := honest previous deadline timeout here expired
    have due := bound given member
    omega
  | released deadline outcome =>
    rw [here] at held taken
    exact timely_released steady held taken
  | lastLoad =>
    rw [here] at held taken
    cases taken
    obtain ⟨finite, late⟩ := held
    refine fun _ => ⟨finite, ?_⟩
    have slack : 0 ≤ backend.slack := by cases backend <;> decide
    omega
  | returned value =>
    rw [here] at taken
    cases taken

end Steps

/-- A wait that loads the word again after the kernel let it go returns true only of a
load that found another value. -/
def Observed (backend : Native) (old : UInt32) (moments : Nat → KernelMoment Int) (count : Nat) :
    NativePc → Prop
  | .returned true => backend ≠ .futex → ∃ earlier < count, (moments earlier).word ≠ old
  | _ => True

theorem observed_step {count : Nat} {pc next : NativePc}
    (taken : (backend.atomicWaitFor old timeoutMs).step pc (moments count) = some next) :
    Observed backend old moments (count + 1) next := by
  have compares : (backend.atomicWaitFor old timeoutMs).old = old := by cases backend <;> rfl
  cases pc with
  | readClock | queued _ _ =>
    cases taken
    trivial
  | load deadline =>
    simp only [NativeWait.step, compares] at taken
    split at taken
    · cases taken
      cases backend <;> simp only [Native.atomicWaitFor, Futex.atomicWaitFor, Win32.nativeWaitFor,
        Darwin.osSyncWaitFor, Darwin.ulockWaitFor] <;> (try split) <;> trivial
    · rename_i changed
      cases taken
      exact fun _ => ⟨count, Nat.lt_succ_self _, changed⟩
  | readNow deadline =>
    simp only [NativeWait.step] at taken
    split at taken <;> cases taken <;> trivial
  | enter deadline timeout =>
    simp only [NativeWait.step] at taken
    split at taken <;> cases taken
    · trivial
    · cases backend with
      | futex => exact fun reloads => absurd rfl reloads
      | waitOnAddress | osSync | ulock => trivial
  | released deadline outcome =>
    simp only [NativeWait.step, Option.some.injEq] at taken
    subst taken
    cases backend with
    | futex =>
      simp only [Native.atomicWaitFor, Futex.atomicWaitFor]
      cases (decide (timeoutMs < 0) || outcome != .timedOut)
      · trivial
      · exact fun reloads => absurd rfl reloads
    | waitOnAddress | osSync =>
      simp only [Native.atomicWaitFor, Win32.nativeWaitFor, Darwin.osSyncWaitFor]
      split <;> trivial
    | ulock => trivial
  | lastLoad =>
    simp only [NativeWait.step, compares, Option.some.injEq] at taken
    subst taken
    cases changed : ((moments count).word != old)
    · trivial
    · exact fun _ => ⟨count, Nat.lt_succ_self _, by simpa using changed⟩
  | returned value => cases taken

/-- What the result of a native `atomic_wait_for` says: false, that the timeout was
finite and has passed since the call began; true, that the value was seen changed. A
futex wait makes no promise with true, and the `__ulock_wait` loop may be up to a
millisecond early with false. -/
structure WaitContract (backend : Native) (old : UInt32) (timeoutMs : Int32)
    (moments : Nat → KernelMoment Int) (count : Nat) (value : Bool) : Prop where
  expired : value = false → 0 ≤ timeoutMs ∧
    (moments 0).clock + nanoseconds timeoutMs - backend.slack ≤ (moments count).clock
  changed : value = true → backend ≠ .futex → ∃ earlier < count, (moments earlier).word ≠ old

/-- Every native wait keeps its contract, whatever the word, the clock and the kernel do. -/
theorem native_wait_contract (backend : Native) (old : UInt32) (timeoutMs : Int32)
    (moments : Nat → KernelMoment Int) (steady : Steady moments)
    (honest : Honest (backend.atomicWaitFor old timeoutMs) moments) (count : Nat) (value : Bool)
    (ended : (backend.atomicWaitFor old timeoutMs).after moments count = .returned value) :
    WaitContract backend old timeoutMs moments count value := by
  constructor
  · have timely := (backend.atomicWaitFor old timeoutMs).after_invariant moments
      (Timely backend timeoutMs moments) ?_
      (fun count next held taken => timely_step steady honest held taken) ?_ count
    · rw [ended] at timely
      exact timely
    · cases backend with
      | futex | waitOnAddress => rintro (impossible | impossible) <;> cases impossible
      | osSync | ulock =>
        simp only [Native.atomicWaitFor, Darwin.osSyncWaitFor, Darwin.ulockWaitFor]
        split
        · rename_i negative
          exact fun _ finite => absurd negative (Int32.not_lt.mpr finite)
        · rfl
    · intro count value held expired
      have forward : (moments count).clock ≤ (moments (count + 1)).clock := steady (Nat.le_succ _)
      have due := held expired
      exact ⟨due.1, by omega⟩
  · rintro rfl reloads
    have observed := (backend.atomicWaitFor old timeoutMs).after_invariant moments
      (Observed backend old moments) ?_ (fun count next _ taken => observed_step taken) ?_ count
    · rw [ended] at observed
      exact observed reloads
    · cases backend with
      | futex | waitOnAddress => trivial
      | osSync | ulock =>
        simp only [Native.atomicWaitFor, Darwin.osSyncWaitFor, Darwin.ulockWaitFor]
        split <;> trivial
    · intro count value held
      cases value with
      | false => trivial
      | true =>
        intro reloads
        obtain ⟨earlier, before, different⟩ := held reloads
        exact ⟨earlier, Nat.lt_succ_of_lt before, different⟩

/-- A kernel wait that is let go after 300 ms, with a timeout. -/
def sleepy (count : Nat) : KernelMoment Int :=
  ⟨⟨0, count * 300000000⟩, if count = 2 then .timedOut else .interrupted⟩

/-- There a wait of 200 ms over `WaitOnAddress` returns false after its last load. -/
theorem native_wait_contract_late : WaitContract .waitOnAddress 0 200 sleepy 5 false := by
  refine native_wait_contract .waitOnAddress 0 200 sleepy ?_ ?_ 5 false (by decide)
  · intro first second ordered
    simp only [sleepy]
    omega
  · intro count deadline timeout queued expired
    by_cases second : count = 1
    · subst second
      have asleep : (Native.waitOnAddress.atomicWaitFor 0 200).after sleepy 2 =
          .queued 0 (some 200000000) := by decide
      rw [asleep] at queued
      cases queued
      exact ⟨200000000, rfl, by decide⟩
    · simp [sleepy, second] at expired

end SpscRing.AtomicWait
