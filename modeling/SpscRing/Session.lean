import Mathlib.Data.List.Basic

/-! Producer sessions on one segment: which session reserved a slot, and which
session committed it. -/

namespace SpscRing

/-- A slot together with the producer session that reserved or committed it. -/
structure Reservation where
  session : Nat
  position : UInt64
  deriving DecidableEq

structure SessionLog where
  session : Nat := 0
  reservations : List Reservation := []
  commits : List Reservation := []

namespace SessionLog

variable {log grown : SessionLog} {position : UInt64}

/-- Some session both reserved and committed the slot at a position. -/
def OwnCommit (log : SessionLog) (position : UInt64) : Prop :=
  ∃ session, ⟨session, position⟩ ∈ log.reservations ∧ ⟨session, position⟩ ∈ log.commits

theorem OwnCommit.mono (owned : log.OwnCommit position)
    (reservations : log.reservations ⊆ grown.reservations) (commits : log.commits ⊆ grown.commits) :
    grown.OwnCommit position := by
  obtain ⟨session, reserved, committed⟩ := owned
  exact ⟨session, reservations reserved, commits committed⟩

end SessionLog

end SpscRing
