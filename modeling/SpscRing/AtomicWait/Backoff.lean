import Mathlib.Data.Nat.Bitwise
import SpscRing.AtomicBackoff
import SpscRing.AtomicWait.Polling
import SpscRing.Foundation.Positions
import SpscRing.Foundation.Refinement

/-! The three backoff loops: `atomic_poll`, the Win32 `polling_wait` and
`atomic_backoff::pause`. Each spins `1u << exp` times with an exponent capped at
eight; only `atomic_poll` subtracts one after it has compared with the cap. -/

namespace SpscRing.AtomicWait

open SpscRing.Foundation

universe u v

/-- The exponent of an iteration of `atomic_poll`. -/
def atomicPollExp (iteration : UInt32) : UInt32 := if iteration < 9 then iteration - 1 else 8

example (iteration : UInt32) : atomicPollPauses iteration = 1 <<< atomicPollExp iteration := rfl

/-- The exponent of a spinning iteration of `polling_wait`. -/
def Win32.pollingWaitExp (iteration : UInt32) : UInt32 := min (iteration - 1) 8

example (tuning : Win32.WaitTuning) (old word iteration made : UInt32) :
    Win32.pollingWait tuning old word (.pause iteration made) =
      if made < 1 <<< Win32.pollingWaitExp iteration then some (.pause iteration (made + 1))
      else some (.load iteration) := rfl

/-- What a caller does with an `atomic_backoff` object. -/
inductive BackoffCall where
  | pause
  | reset

section Machines

variable {Word : Type u} [DecidableEq Word]

/-- `atomic_poll`, driven by the words its loads return. -/
def pollMachine (old : Word) : Machine AtomicPoll Word := ⟨fun place word => atomicPoll old word place⟩

def Win32.pollMachine (tuning : WaitTuning) (old : Word) : Machine PollingWait Word :=
  ⟨fun place word => pollingWait tuning old word place⟩

def backoffMachine : Machine AtomicBackoff BackoffCall where
  step backoff
    | .pause => some backoff.pause
    | .reset => some backoff.reset

/-- One entry for each iteration: its exponent, if it spins. -/
def pollShift (old : Word) : AtomicPoll → Word → List (Option UInt32)
  | .load iteration, word => if word = old then [some (atomicPollExp (iteration + 1))] else []
  | .pause _ _, _ | .yield _, _ => []

def Win32.pollShift (tuning : WaitTuning) (old : Word) : PollingWait → Word → List (Option UInt32)
  | .load iteration, word =>
    if word ≠ old then []
    else if iteration + 1 ≤ tuning.spinCount then [some (pollingWaitExp (iteration + 1))]
    else [none]
  | .pause _ _, _ | .switchToThread _, _ | .sleep _ _, _ => []

def backoffShift (backoff : AtomicBackoff) : BackoffCall → List (Option UInt32)
  | .pause => [backoff.pauseExp]
  | .reset => []

/-- An iteration that spins shifts by at most eight and pauses at most 256 times. -/
structure Capped (shift : Option UInt32) : Prop where
  exponent : ∀ exp ∈ shift, exp.toNat ≤ 8
  pauses : ∀ exp ∈ shift, ((1 : UInt32) <<< exp).toNat ≤ 256

/-- All iterations of every run with at most `count` of them are capped. -/
def CappedUpTo {Place : Type v} {Input : Type u} (machine : Machine Place Input)
    (shift : Place → Input → List (Option UInt32)) (start : Place) (count : Nat) : Prop :=
  ∀ inputs place, machine.Run Machine.Always start inputs place →
    (machine.trace shift start inputs).length ≤ count →
    ∀ exp ∈ machine.trace shift start inputs, Capped exp

end Machines

/-- A shift by at most eight pauses at most 256 times. -/
theorem capped_some {exp : UInt32} (small : exp.toNat ≤ 8) : Capped (some exp) := by
  have power : ((1 : UInt32) <<< exp).toNat = 2 ^ exp.toNat := by
    have grown : 2 ^ exp.toNat ≤ 2 ^ 8 := Nat.pow_le_pow_right (by decide) small
    have kept : exp.toNat % 32 = exp.toNat := Nat.mod_eq_of_lt (by omega)
    rw [UInt32.toNat_shiftLeft, UInt32.toNat_one, kept, Nat.shiftLeft_eq, Nat.one_mul]
    exact Nat.mod_eq_of_lt (by omega)
  refine ⟨?_, ?_⟩
  · intro other same
    cases same
    exact small
  · intro other same
    cases same
    rw [power]
    exact Nat.pow_le_pow_right (by decide) small

theorem capped_none : Capped none := ⟨by simp, by simp⟩

/-- The exponent of `atomic_poll` leaves its range only when the counter is zero. -/
theorem atomicPollExp_le_iff {iteration : UInt32} :
    (atomicPollExp iteration).toNat ≤ 8 ↔ iteration ≠ 0 := by
  constructor
  · rintro small rfl
    exact absurd small (by decide)
  · intro nonzero
    have positive : (1 : UInt32) ≤ iteration := by
      have := (UInt32.toNat_inj (b := 0)).not.mpr nonzero
      rw [UInt32.le_iff_toNat_le]
      simp only [UInt32.toNat_zero, UInt32.toNat_one] at *
      omega
    unfold atomicPollExp
    split
    · rename_i below
      have bound : iteration.toNat < 9 := UInt32.lt_iff_toNat_lt.mp below
      rw [UInt32.toNat_sub_of_le _ _ positive, UInt32.toNat_one]
      omega
    · decide

/-- Capping the predecessor needs no such condition. -/
theorem Win32.pollingWaitExp_le (iteration : UInt32) : (pollingWaitExp iteration).toNat ≤ 8 := by
  change (if iteration - 1 ≤ 8 then iteration - 1 else 8).toNat ≤ 8
  split
  · rename_i below
    exact UInt32.le_iff_toNat_le.mp below
  · decide

theorem pauseExp_le {backoff : AtomicBackoff} {exp : UInt32}
    (spins : backoff.pauseExp = some exp) : exp.toNat ≤ 8 := by
  simp only [AtomicBackoff.pauseExp, Option.ite_none_right_eq_some, Option.some.injEq] at spins
  obtain ⟨-, rfl⟩ := spins
  split
  · rename_i below
    exact Nat.le_of_lt (UInt32.lt_iff_toNat_lt.mp below)
  · decide

section Runs

variable {Word : Type u} [DecidableEq Word] {old : Word}

theorem Win32.pollShift_capped (tuning : WaitTuning) (place : PollingWait) (word : Word) :
    ∀ shift ∈ pollShift tuning old place word, Capped shift := by
  intro shift member
  cases place with
  | load iteration =>
    simp only [pollShift] at member
    split at member
    · cases member
    · split at member
      · rw [List.mem_singleton] at member
        exact member ▸ capped_some (pollingWaitExp_le _)
      · rw [List.mem_singleton] at member
        exact member ▸ capped_none
  | pause _ _ => cases member
  | switchToThread _ => cases member
  | sleep _ _ => cases member

theorem backoffShift_capped (backoff : AtomicBackoff) (call : BackoffCall) :
    ∀ shift ∈ backoffShift backoff call, Capped shift := by
  intro shift member
  cases call with
  | pause =>
    rw [backoffShift, List.mem_singleton] at member
    cases spins : backoff.pauseExp with
    | none => exact member ▸ spins ▸ capped_none
    | some exp => exact member ▸ spins ▸ capped_some (pauseExp_le spins)
  | reset => cases member

/-- The counter of `atomic_poll`. -/
def AtomicPoll.iteration : AtomicPoll → UInt32
  | .load iteration | .pause iteration _ | .yield iteration => iteration

/-- Only a load that still finds the old word moves the counter, and it then shows
the exponent of the counter it has moved to. -/
theorem pollMachine_cases {place next : AtomicPoll} {word : Word}
    (taken : (pollMachine old).step place word = some next) :
    (next.iteration = place.iteration + 1 ∧
      pollShift old place word = [some (atomicPollExp next.iteration)]) ∨
    (next.iteration = place.iteration ∧ pollShift old place word = []) := by
  cases place with
  | load iteration =>
    simp only [pollMachine, atomicPoll, Option.ite_none_right_eq_some, Option.some.injEq] at taken
    obtain ⟨same, rfl⟩ := taken
    exact .inl ⟨rfl, by simp only [pollShift, if_pos same, AtomicPoll.iteration]⟩
  | pause iteration made =>
    simp only [pollMachine, atomicPoll] at taken
    refine .inr ⟨?_, rfl⟩
    split at taken
    · cases taken
      rfl
    · split at taken
      · cases taken
        rfl
      · cases taken
        rfl
  | yield iteration =>
    cases taken
    exact .inr ⟨rfl, rfl⟩

/-- As long as the counter has not come back to zero, every exponent is in range. -/
theorem poll_capped {place after : AtomicPoll} {words : List Word}
    (run : (pollMachine old).Run Machine.Always place words after)
    (short : place.iteration.toNat + ((pollMachine old).trace (pollShift old) place words).length <
      2 ^ 32) : ∀ shift ∈ (pollMachine old).trace (pollShift old) place words, Capped shift := by
  induction run with
  | done _ => exact fun _ member => absurd member List.not_mem_nil
  | next taken _ _ ih =>
    simp only [Machine.trace, taken] at short ⊢
    obtain ⟨moved, shown⟩ | ⟨kept, shown⟩ := pollMachine_cases taken
    · rw [shown, List.length_append, List.length_singleton] at short
      have counted := congrArg UInt32.toNat moved
      rw [UInt32.toNat_add, UInt32.toNat_one, Nat.mod_eq_of_lt (by omega)] at counted
      rw [shown]
      intro shift member
      rcases List.mem_cons.mp member with rfl | later
      · refine capped_some (atomicPollExp_le_iff.mpr fun zero => ?_)
        rw [zero, UInt32.toNat_zero] at counted
        omega
      · exact ih (by omega) shift later
    · rw [shown, List.nil_append] at short ⊢
      exact ih (kept ▸ short)

/-- An iteration that has begun makes its remaining pauses and loads again. -/
theorem pauses_run (old : Word) (iteration made : UInt32) :
    ∃ words, (pollMachine old).Run Machine.Always (.pause iteration made) words (.load iteration) ∧
      (pollMachine old).trace (pollShift old) (.pause iteration made) words = [] := by
  induction left : (atomicPollPauses iteration).toNat - made.toNat generalizing made with
  | zero =>
    have enough : ¬ made < atomicPollPauses iteration := by
      rw [UInt32.lt_iff_toNat_lt]
      omega
    by_cases yields : iteration % 32 = 0
    · have taken : (pollMachine old).step (.pause iteration made) old = some (.yield iteration) := by
        simp only [pollMachine, atomicPoll, if_neg enough, if_pos yields]
      refine ⟨[old, old], .next taken trivial (.next rfl trivial (.done _)), ?_⟩
      simp only [Machine.trace, taken, pollShift, List.nil_append]
      rfl
    · have taken : (pollMachine old).step (.pause iteration made) old = some (.load iteration) := by
        simp only [pollMachine, atomicPoll, if_neg enough, if_neg yields]
      refine ⟨[old], .next taken trivial (.done _), ?_⟩
      simp only [Machine.trace, taken, pollShift, List.append_nil]
  | succ rest ih =>
    have more : made < atomicPollPauses iteration := by
      rw [UInt32.lt_iff_toNat_lt]
      omega
    have taken : (pollMachine old).step (.pause iteration made) old =
        some (.pause iteration (made + 1)) := by
      simp only [pollMachine, atomicPoll, if_pos more]
    have counted := toNat_succ_u32 more
    obtain ⟨words, run, quiet⟩ := ih (made + 1) (by omega)
    refine ⟨old :: words, .next taken trivial run, ?_⟩
    simp only [Machine.trace, taken, quiet, pollShift, List.append_nil]

/-- While the word stays as it was, the loop goes round any number of times. -/
theorem idle_run (old : Word) (count : Nat) :
    ∃ words, (pollMachine old).Run Machine.Always (.load 0) words (.load (.ofNat count)) ∧
      ((pollMachine old).trace (pollShift old) (.load 0) words).length = count := by
  induction count with
  | zero => exact ⟨[], .done _, rfl⟩
  | succ count ih =>
    obtain ⟨words, run, counted⟩ := ih
    obtain ⟨pauses, more, quiet⟩ := pauses_run old (UInt32.ofNat (count + 1)) 0
    have taken : (pollMachine old).step (.load (.ofNat count)) old =
        some (.pause (.ofNat (count + 1)) 0) := by
      simp [pollMachine, atomicPoll]
    refine ⟨words ++ old :: pauses, run.append (.next taken trivial more), ?_⟩
    rw [run.trace_append, List.length_append, counted]
    simp only [Machine.trace, taken, quiet, pollShift, if_true, List.append_nil,
      List.length_singleton]

/-- The iteration after `2 ^ 32 - 1` others shifts by the largest 32-bit number. -/
theorem wrapped_run (old : Word) :
    ∃ words place, (pollMachine old).Run Machine.Always (.load 0) words place ∧
      ((pollMachine old).trace (pollShift old) (.load 0) words).length = 2 ^ 32 ∧
      some 0xFFFFFFFF ∈ (pollMachine old).trace (pollShift old) (.load 0) words := by
  obtain ⟨words, run, counted⟩ := idle_run old (2 ^ 32 - 1)
  have taken : (pollMachine old).step (.load (.ofNat (2 ^ 32 - 1))) old = some (.pause 0 0) := by
    simp [pollMachine, atomicPoll]
  have shown : (pollMachine old).trace (pollShift old) (.load 0) (words ++ [old]) =
      (pollMachine old).trace (pollShift old) (.load 0) words ++ [some 0xFFFFFFFF] := by
    have wrapped : atomicPollExp (.ofNat (2 ^ 32 - 1) + 1) = 0xFFFFFFFF := by decide
    rw [run.trace_append]
    simp only [Machine.trace, taken, pollShift, if_true, List.append_nil, wrapped]
  refine ⟨words ++ [old], .pause 0 0, run.append (.next taken trivial (.done _)), ?_, ?_⟩
  · rw [shown, List.length_append, counted, List.length_singleton]
    rfl
  · rw [shown]
    simp

end Runs

section Main

variable {Word : Type u} [DecidableEq Word]

/-- `polling_wait` and `pause` keep their shifts in range for any number of iterations,
`atomic_poll` for exactly the numbers that its counter can hold. -/
theorem backoff_capped_iff (tuning : Win32.WaitTuning) (old : Word) (count : Nat) :
    (CappedUpTo (pollMachine old) (pollShift old) (.load 0) count ↔ count < 2 ^ 32) ∧
    (∀ iterations, CappedUpTo (Win32.pollMachine tuning old) (Win32.pollShift tuning old) (.load 0)
      iterations) ∧
    ∀ calls, CappedUpTo backoffMachine backoffShift {} calls := by
  refine ⟨⟨fun capped => ?_, fun few words place run short => poll_capped run ?_⟩,
    fun iterations words place _ _ => ?_, fun count calls backoff _ _ => ?_⟩
  · by_contra many
    obtain ⟨words, place, run, counted, shown⟩ := wrapped_run old
    have small := (capped words place run (by omega) _ shown).exponent _ rfl
    exact absurd small (by decide)
  · change 0 + _ < _
    omega
  · exact Machine.forall_trace (Win32.pollShift_capped tuning) _ _
  · exact Machine.forall_trace backoffShift_capped _ _

/-- A call of `atomic_poll` whose word stays zero for `2 ^ 32` loads shifts by `2 ^ 32 - 1`. -/
theorem atomic_poll_wraps : ∃ words place,
    (pollMachine (0 : UInt32)).Run Machine.Always (.load 0) words place ∧
      some 0xFFFFFFFF ∈ (pollMachine (0 : UInt32)).trace (pollShift 0) (.load 0) words ∧
      ¬ Capped (some 0xFFFFFFFF) ∧
      ¬ ∀ count, CappedUpTo (pollMachine (0 : UInt32)) (pollShift 0) (.load 0) count := by
  obtain ⟨words, place, run, counted, shown⟩ := wrapped_run (0 : UInt32)
  have wide : ¬ Capped (some 0xFFFFFFFF) := fun capped =>
    absurd (capped.exponent _ rfl) (by decide)
  exact ⟨words, place, run, shown, wide, fun capped =>
    wide (capped (2 ^ 32) words place run counted.le _ shown)⟩

end Main

end SpscRing.AtomicWait
