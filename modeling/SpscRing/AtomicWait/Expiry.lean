import Mathlib.Data.Nat.Find
import SpscRing.AtomicWait.Contract

/-! When a native timed wait on an unchanged word ends. -/

namespace SpscRing.AtomicWait

variable {backend : Native} {old : UInt32} {timeoutMs : Int32} {moments : Nat → KernelMoment Int}

section Unchanged

variable (unchanged : ∀ count, (moments count).word = old)
include unchanged

/-- One pass of the loop over `WaitOnAddress`, up to the kernel letting it go. -/
theorem win32_pass {count : Nat}
    (here : (Win32.nativeWaitFor old timeoutMs).after moments count = .load 0) :
    (Win32.nativeWaitFor old timeoutMs).after moments (count + 1) =
        .enter 0 (kernelTimeout timeoutMs) ∧
      (Win32.nativeWaitFor old timeoutMs).after moments (count + 2) =
        .queued 0 (kernelTimeout timeoutMs) ∧
      (Win32.nativeWaitFor old timeoutMs).after moments (count + 3) =
        .released 0 (moments (count + 2)).outcome := by
  have first : (Win32.nativeWaitFor old timeoutMs).after moments (count + 1) =
      .enter 0 (kernelTimeout timeoutMs) :=
    NativeWait.after_succ (by rw [here]; simp [NativeWait.step, Win32.nativeWaitFor, unchanged])
  have second : (Win32.nativeWaitFor old timeoutMs).after moments (count + 2) =
      .queued 0 (kernelTimeout timeoutMs) :=
    NativeWait.after_succ (by rw [first]; simp [NativeWait.step, Win32.nativeWaitFor, unchanged])
  exact ⟨first, second, NativeWait.after_succ (by rw [second]; rfl)⟩

/-- Without a timeout the loop is back at its load after every four steps. -/
theorem win32_turns (turn : Nat)
    (awake : ∀ earlier < turn, (moments (4 * earlier + 2)).outcome ≠ .timedOut) :
    (Win32.nativeWaitFor old timeoutMs).after moments (4 * turn) = .load 0 := by
  induction turn with
  | zero => rfl
  | succ turn ih =>
    have here := ih fun earlier before => awake earlier (Nat.lt_succ_of_lt before)
    obtain ⟨-, -, third⟩ := win32_pass unchanged here
    have woken := awake turn (Nat.lt_succ_self turn)
    change (Win32.nativeWaitFor old timeoutMs).after moments (4 * turn + 3 + 1) = .load 0
    exact NativeWait.after_succ (by rw [third]; simp [NativeWait.step, Win32.nativeWaitFor, woken])

/-- On an unchanged word a finite wait over `WaitOnAddress` ends exactly if one of its
kernel waits, each of them given the whole timeout again, times out. -/
theorem win32_ends_iff (finite : 0 ≤ timeoutMs) :
    (∃ count value, (Win32.nativeWaitFor old timeoutMs).after moments count = .returned value) ↔
      ∃ turn, (moments (4 * turn + 2)).outcome = .timedOut := by
  constructor
  · rintro ⟨count, value, ended⟩
    by_contra never
    simp only [not_exists] at never
    have here : (Win32.nativeWaitFor old timeoutMs).after moments (4 * (count / 4)) = .load 0 :=
      win32_turns unchanged (count / 4) fun earlier _ => never earlier
    obtain ⟨first, second, third⟩ := win32_pass unchanged here
    have split : count = 4 * (count / 4) ∨ count = 4 * (count / 4) + 1 ∨
        count = 4 * (count / 4) + 2 ∨ count = 4 * (count / 4) + 3 := by omega
    rcases split with place | place | place | place <;> rw [place] at ended
    · simp [here] at ended
    · simp [first] at ended
    · simp [second] at ended
    · simp [third] at ended
  · intro times
    have least := Nat.find_spec times
    have here : (Win32.nativeWaitFor old timeoutMs).after moments (4 * Nat.find times) = .load 0 :=
      win32_turns unchanged (Nat.find times) fun earlier before => Nat.find_min times before
    obtain ⟨-, -, third⟩ := win32_pass unchanged here
    have last : (Win32.nativeWaitFor old timeoutMs).after moments (4 * Nat.find times + 4) =
        .lastLoad :=
      NativeWait.after_succ (by rw [third]; simp [NativeWait.step, Win32.nativeWaitFor, least, finite])
    exact ⟨4 * Nat.find times + 5, _, NativeWait.after_succ (by rw [last]; rfl)⟩

/-- On an unchanged word a futex wait is over as soon as its one kernel wait is. -/
theorem futex_ends (finite : 0 ≤ timeoutMs) :
    (Futex.atomicWaitFor old timeoutMs).after moments 4 =
      .returned ((moments 2).outcome != .timedOut) := by
  have first : (Futex.atomicWaitFor old timeoutMs).after moments 1 =
      .enter 0 (kernelTimeout timeoutMs) :=
    NativeWait.after_succ (by simp [NativeWait.after, NativeWait.step, Futex.atomicWaitFor, unchanged])
  have second : (Futex.atomicWaitFor old timeoutMs).after moments 2 =
      .queued 0 (kernelTimeout timeoutMs) :=
    NativeWait.after_succ (by rw [first]; simp [NativeWait.step, Futex.atomicWaitFor, unchanged])
  have third : (Futex.atomicWaitFor old timeoutMs).after moments 3 =
      .released 0 (moments 2).outcome := NativeWait.after_succ (by rw [second]; rfl)
  have given : ¬ timeoutMs < 0 := Int32.not_lt.mpr finite
  exact NativeWait.after_succ (by rw [third]; simp [NativeWait.step, Futex.atomicWaitFor, given])

end Unchanged

section Darwin

theorem tdiv_le_zero {remaining : Int} (none : remaining ≤ 0) : remaining.tdiv 1000000 ≤ 0 := by
  have opposite : 0 ≤ (-remaining).tdiv 1000000 := Int.tdiv_nonneg (by omega) (by decide)
  rw [Int.neg_tdiv] at opposite
  omega

/-- The two Darwin loops. -/
def Native.isDarwin : Native → Bool
  | .osSync | .ulock => true
  | .futex | .waitOnAddress => false

/-- Where a finite wait of a Darwin loop is on a word that does not change. -/
def OnDeadline (timeoutMs : Int32) (moments : Nat → KernelMoment Int) (count : Nat) :
    NativePc → Prop
  | .readClock => count = 0
  | .load deadline | .readNow deadline | .enter deadline _ | .queued deadline _
  | .released deadline _ => deadline = (moments 0).clock + nanoseconds timeoutMs
  | .lastLoad => False
  | .returned value => value = false

/-- The steps a Darwin loop has left once its deadline has passed. -/
def NativePc.stepsLeft : NativePc → Nat
  | .enter _ _ => 5
  | .queued _ _ => 4
  | .readClock | .released _ _ => 3
  | .load _ | .lastLoad => 2
  | .readNow _ => 1
  | .returned _ => 0

variable (darwin : backend.isDarwin = true) (finite : 0 ≤ timeoutMs)
variable (unchanged : ∀ count, (moments count).word = old)
include darwin finite unchanged

theorem onDeadline_step {count : Nat} {pc next : NativePc} (held : OnDeadline timeoutMs moments count pc)
    (taken : (backend.atomicWaitFor old timeoutMs).step pc (moments count) = some next) :
    OnDeadline timeoutMs moments (count + 1) next ∧
      ((moments 0).clock + nanoseconds timeoutMs ≤ (moments count).clock →
        next.stepsLeft < pc.stepsLeft) := by
  have bounded : ¬ timeoutMs < 0 := Int32.not_lt.mpr finite
  cases pc with
  | readClock =>
    cases taken
    cases held
    refine ⟨?_, fun _ => by simp [NativePc.stepsLeft]⟩
    cases backend <;> first | rfl | cases darwin
  | load deadline =>
    have proceeds : next = .readNow deadline := by
      cases backend with
      | futex | waitOnAddress => cases darwin
      | osSync | ulock =>
        simpa [NativeWait.step, Native.atomicWaitFor, Darwin.osSyncWaitFor, Darwin.ulockWaitFor,
          unchanged, if_neg bounded, eq_comm] using taken
    subst proceeds
    exact ⟨held, fun _ => by simp [NativePc.stepsLeft]⟩
  | readNow deadline =>
    cases held
    simp only [NativeWait.step] at taken
    split at taken <;> cases taken
    · exact ⟨rfl, fun _ => by simp [NativePc.stepsLeft]⟩
    · rename_i early
      refine ⟨rfl, fun passed => absurd ?_ early⟩
      cases backend with
      | futex | waitOnAddress => cases darwin
      | osSync =>
        simp only [Native.atomicWaitFor, Darwin.osSyncWaitFor, decide_eq_true_eq]
        omega
      | ulock =>
        simp only [Native.atomicWaitFor, Darwin.ulockWaitFor, decide_eq_true_eq]
        exact tdiv_le_zero (by omega)
  | enter deadline timeout =>
    have compares : (backend.atomicWaitFor old timeoutMs).old = old := by cases backend <;> rfl
    simp only [NativeWait.step, compares, unchanged, if_true] at taken
    cases taken
    exact ⟨held, fun _ => by simp [NativePc.stepsLeft]⟩
  | queued deadline timeout =>
    cases taken
    exact ⟨held, fun _ => by simp [NativePc.stepsLeft]⟩
  | released deadline outcome =>
    have resumes : next = .returned false ∨ next = .load deadline := by
      cases backend with
      | futex | waitOnAddress => cases darwin
      | osSync =>
        simp only [NativeWait.step, Native.atomicWaitFor, Darwin.osSyncWaitFor] at taken
        split at taken <;> cases taken
        · exact .inl rfl
        · exact .inr rfl
      | ulock =>
        cases taken
        exact .inr rfl
    rcases resumes with rfl | rfl
    · exact ⟨rfl, fun _ => by simp [NativePc.stepsLeft]⟩
    · exact ⟨held, fun _ => by simp [NativePc.stepsLeft]⟩
  | lastLoad => cases held
  | returned value => cases taken

/-- On an unchanged word a finite wait of a Darwin loop returns false within five steps
of its deadline. -/
theorem darwin_ends {past : Nat}
    (passed : ∀ count ≥ past, (moments 0).clock + nanoseconds timeoutMs ≤ (moments count).clock) :
    ∃ count ≤ past + 5, (backend.atomicWaitFor old timeoutMs).after moments count =
      .returned false := by
  have placed := (backend.atomicWaitFor old timeoutMs).after_invariant moments
    (OnDeadline timeoutMs moments) ?_
    (fun _ _ held taken => (onDeadline_step darwin finite unchanged held taken).1)
    (fun _ _ held => held)
  · have closes (budget : Nat) : ∀ count ≥ past,
        ((backend.atomicWaitFor old timeoutMs).after moments count).stepsLeft ≤ budget →
          ∃ later ≤ count + budget, (backend.atomicWaitFor old timeoutMs).after moments later =
            .returned false := by
      induction budget with
      | zero =>
        intro count late spent
        have held := placed count
        cases here : (backend.atomicWaitFor old timeoutMs).after moments count with
        | returned value =>
          rw [here] at held
          cases held
          exact ⟨count, Nat.le_refl _, here⟩
        | _ => simp [here, NativePc.stepsLeft] at spent
      | succ budget ih =>
        intro count late spent
        have held := placed count
        cases taken : (backend.atomicWaitFor old timeoutMs).step
            ((backend.atomicWaitFor old timeoutMs).after moments count) (moments count) with
        | none =>
          obtain ⟨value, here⟩ := NativeWait.returned_of_stuck taken
          rw [here] at held
          cases held
          exact ⟨count, by omega, here⟩
        | some next =>
          have closer := (onDeadline_step darwin finite unchanged held taken).2 (passed count late)
          have moved := NativeWait.after_succ taken
          obtain ⟨later, bound, ended⟩ := ih (count + 1) (by omega) (by rw [moved]; omega)
          exact ⟨later, by omega, ended⟩
    exact closes 5 past (Nat.le_refl _)
      (by cases (backend.atomicWaitFor old timeoutMs).after moments past <;> simp [NativePc.stepsLeft])
  · cases backend with
    | futex | waitOnAddress => cases darwin
    | osSync | ulock =>
      simp only [Native.atomicWaitFor, Darwin.osSyncWaitFor, Darwin.ulockWaitFor,
        Int32.not_lt.mpr finite, if_false]
      rfl

end Darwin

/-- When each of the native waits ends, on a word that does not change. -/
structure NativeEnds (old : UInt32) (timeoutMs : Int32) (moments : Nat → KernelMoment Int) :
    Prop where
  futex : (Futex.atomicWaitFor old timeoutMs).after moments 4 =
    .returned ((moments 2).outcome != .timedOut)
  win32 : (∃ count value, (Win32.nativeWaitFor old timeoutMs).after moments count =
      .returned value) ↔ ∃ turn, (moments (4 * turn + 2)).outcome = .timedOut
  darwin : ∀ backend : Native, backend.isDarwin = true → ∀ past,
    (∀ count ≥ past, (moments 0).clock + nanoseconds timeoutMs ≤ (moments count).clock) →
      ∃ count ≤ past + 5, (backend.atomicWaitFor old timeoutMs).after moments count =
        .returned false

/-- A finite futex wait ends with its only kernel wait; the Darwin loops end with the
clock; the loop over `WaitOnAddress` ends with the first of its kernel waits that times
out, and a wait that is let go early starts the whole timeout again. -/
theorem native_wait_ends (old : UInt32) (timeoutMs : Int32) (moments : Nat → KernelMoment Int)
    (finite : 0 ≤ timeoutMs) (unchanged : ∀ count, (moments count).word = old) :
    NativeEnds old timeoutMs moments :=
  ⟨futex_ends unchanged finite, win32_ends_iff unchanged finite,
    fun _ darwin _ passed => darwin_ends darwin finite unchanged passed⟩

theorem native_wait_ends_late : NativeEnds 0 200 sleepy :=
  native_wait_ends 0 200 sleepy (by decide) fun _ => rfl

end SpscRing.AtomicWait
