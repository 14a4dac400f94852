import Mathlib.Data.Nat.Notation

/-! `atomic_backoff`: pauses that double until they give way to yields. A pause
touches nothing shared, so of a call only the counter remains. -/

namespace SpscRing

structure AtomicBackoff where
  pauseCount : UInt32 := 0
  deriving DecidableEq

namespace AtomicBackoff

/-- A call of `pause` spins `1u << exp` times for this exponent; past the threshold it
yields instead. -/
def pauseExp (backoff : AtomicBackoff) : Option UInt32 :=
  let yieldThreshold := 16
  if backoff.pauseCount < yieldThreshold then
    some (if backoff.pauseCount < 8 then backoff.pauseCount else 8)
  else none

def pause (backoff : AtomicBackoff) : AtomicBackoff :=
  { backoff with pauseCount := backoff.pauseCount + 1 }

def reset (backoff : AtomicBackoff) : AtomicBackoff :=
  { backoff with pauseCount := 0 }

end AtomicBackoff

end SpscRing
