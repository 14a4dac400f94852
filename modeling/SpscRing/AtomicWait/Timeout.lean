import SpscRing.AtomicWait.Polling

/-! When a timed wait on an unchanged word ends. The deadline is checked once,
before the inner loop; that loop only looks at the word. -/

namespace SpscRing.AtomicWait

universe u v w

namespace TimedWait

variable {Word : Type u} {Clock : Type v} {Poll : Type w} [DecidableEq Word]
variable {wait : TimedWait Word Clock Poll} {moments : Nat → Moment Word Clock}

/-- The inner loop does not return while the word is the old one. -/
def Unending (wait : TimedWait Word Clock Poll) : Prop :=
  ∀ place, wait.poll wait.old place ≠ none

theorem after_succ {count : Nat} {next : Pc Clock Poll}
    (taken : wait.step (wait.after moments count) (moments count) = some next) :
    wait.after moments (count + 1) = next := by
  rw [after, taken, Option.getD_some]

section Unchanged

variable (entry : wait.begin = .readStart) (unchanged : ∀ count, (moments count).word = wait.old)
include entry unchanged

/-- The first reading of the clock, the first load, and then the deadline. -/
theorem after_two : wait.after moments 2 = .readNow (moments 0).clock := by
  have first : wait.after moments 1 = .testWord (moments 0).clock :=
    after_succ (by simp [after, entry, step])
  exact after_succ (by simp [first, step, unchanged])

theorem after_polling (unending : wait.Unending)
    (early : wait.expired (moments 0).clock (moments 2).clock = false) (count : Nat) :
    ∃ place, wait.after moments (count + 3) = .poll (moments 0).clock place := by
  induction count with
  | zero =>
    have check := after_two entry unchanged
    exact ⟨wait.enter, after_succ (by simp [check, step, early])⟩
  | succ count ih =>
    obtain ⟨place, polling⟩ := ih
    obtain ⟨next, stays⟩ := Option.ne_none_iff_exists'.mp (unending place)
    exact ⟨next, after_succ (by simp [polling, step, unchanged, stays])⟩

/-- A wait whose inner loop looks at the word only times out on an unchanged
word exactly if its single look at the clock finds the deadline passed. -/
theorem timesOut_iff (unending : wait.Unending) :
    wait.TimesOut moments ↔ wait.expired (moments 0).clock (moments 2).clock = true := by
  have check := after_two entry unchanged
  constructor
  · rintro ⟨count, ended⟩
    by_contra early
    have polling := after_polling entry unchanged unending (by simpa using early)
    rcases count with _ | _ | _ | count
    · simp [after, entry] at ended
    · simp [after, entry, step] at ended
    · simp [check] at ended
    · obtain ⟨place, here⟩ := polling count
      simp [here] at ended
  · intro expired
    exact ⟨3, after_succ (by simp [check, step, expired])⟩

end Unchanged

end TimedWait

variable {Word : Type u} [DecidableEq Word] {old : Word} {timeoutMs : Int32}

theorem atomicWaitFor_unending : (atomicWaitFor old timeoutMs).Unending := by
  intro place
  cases place with
  | load iteration => simp [atomicWaitFor, atomicPoll]
  | pause iteration made =>
    simp only [atomicWaitFor, atomicPoll]
    split
    · simp
    · split <;> simp
  | yield iteration => simp [atomicWaitFor, atomicPoll]

theorem win32_unending {tuning : Win32.WaitTuning} :
    (Win32.atomicWaitFor tuning old timeoutMs).Unending := by
  intro place
  cases place with
  | load iteration =>
    simp only [Win32.atomicWaitFor, Win32.pollingWait, ne_eq, not_true_eq_false, if_false]
    split
    · simp
    · split <;> simp
  | pause iteration made =>
    simp only [Win32.atomicWaitFor, Win32.pollingWait]
    split <;> simp
  | switchToThread iteration => simp [Win32.atomicWaitFor, Win32.pollingWait]
  | sleep iteration milliseconds => simp [Win32.atomicWaitFor, Win32.pollingWait]

/-- On an unchanged word, either polling wait with a finite timeout returns false
exactly if the deadline has passed by the time of the first load of the word:
the clock is not read again. -/
theorem timed_wait_ends_iff (old : Word) (timeoutMs : Int32) (tuning : Win32.WaitTuning)
    (finite : 0 ≤ timeoutMs) (steady : Nat → Moment Word Int) (ticks : Nat → Moment Word UInt32)
    (unchanged : ∀ count, (steady count).word = old ∧ (ticks count).word = old) :
    ((atomicWaitFor old timeoutMs).TimesOut steady ↔
      (steady 2).clock ≥ (steady 0).clock + timeoutMs.toInt * 1000000) ∧
    ((Win32.atomicWaitFor tuning old timeoutMs).TimesOut ticks ↔
      ((ticks 2).clock - (ticks 0).clock).toInt32 ≥ timeoutMs) := by
  have bounded : ¬ timeoutMs < 0 := Int32.not_lt.mpr finite
  constructor
  · rw [TimedWait.timesOut_iff (if_neg bounded) (fun count => (unchanged count).1)
      atomicWaitFor_unending]
    simp [atomicWaitFor]
  · rw [TimedWait.timesOut_iff rfl (fun count => (unchanged count).2) win32_unending]
    simp [Win32.atomicWaitFor, bounded]

/-- A second passes with each step: both waits of 200 ms end. -/
theorem timed_wait_ends_iff_late :
    (atomicWaitFor (0 : UInt32) 200).TimesOut (fun count => ⟨0, count * 1000000000⟩) ∧
    (Win32.atomicWaitFor {} (0 : UInt32) 200).TimesOut (fun count => ⟨0, count.toUInt32 * 1000⟩) := by
  have ends := timed_wait_ends_iff (0 : UInt32) 200 {} (by decide)
    (fun count => ⟨0, count * 1000000000⟩) (fun count => ⟨0, count.toUInt32 * 1000⟩)
    (fun _ => ⟨rfl, rfl⟩)
  exact ⟨ends.1.mpr (by decide), ends.2.mpr (by decide)⟩

/-- A clock that shows one millisecond more at each step, up to a second. -/
def slowMilliseconds (count : Nat) : Nat := min count 1000

/-- With that clock the deadline of 200 ms is reached at the 200th step, but
neither wait looks: both poll for ever. -/
theorem unchanged_word_polls_forever :
    (∀ count, slowMilliseconds count ≤ slowMilliseconds (count + 1)) ∧
    slowMilliseconds 200 = slowMilliseconds 0 + 200 ∧
    ¬ (atomicWaitFor (0 : UInt32) 200).TimesOut
      (fun count => ⟨0, slowMilliseconds count * 1000000⟩) ∧
    ¬ (Win32.atomicWaitFor {} (0 : UInt32) 200).TimesOut
      (fun count => ⟨0, (slowMilliseconds count).toUInt32⟩) := by
  refine ⟨?_, rfl, ?_, ?_⟩
  · intro count
    unfold slowMilliseconds
    omega
  · intro ended
    have expired := (TimedWait.timesOut_iff rfl (fun _ => rfl) atomicWaitFor_unending).mp ended
    exact absurd expired (by decide)
  · intro ended
    have expired := (TimedWait.timesOut_iff rfl (fun _ => rfl) win32_unending).mp ended
    exact absurd expired (by decide)

end SpscRing.AtomicWait
