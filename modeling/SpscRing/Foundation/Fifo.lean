import SpscRing.Foundation.Refinement

/-! The bounded first-in first-out queue as an abstract machine. -/

namespace SpscRing.Foundation.Fifo

universe u

variable {Item : Type u}

inductive Event (Item : Type u) where
  | push (item : Item)
  | peek (item : Item)
  | pop (items : List Item)

namespace Event

def pushed : Event Item → List Item
  | .push item => [item]
  | .peek _ | .pop _ => []

def popped : Event Item → List Item
  | .pop items => items
  | .push _ | .peek _ => []

end Event

variable [DecidableEq Item]

/-- A full queue takes nothing more; only what is in front can be seen or removed. -/
def step (bound : Nat) (queue : List Item) : Event Item → Option (List Item)
  | .push item => if queue.length < bound then some (queue ++ [item]) else none
  | .peek item => if queue.head? = some item then some queue else none
  | .pop items => if items <+: queue then some (queue.drop items.length) else none

def machine (bound : Nat) : Machine (List Item) (Event Item) := ⟨step bound⟩

variable {bound : Nat} {before after : List Item} {event : Event Item} {events : List (Event Item)}

theorem step_balance (taken : step bound before event = some after) :
    before ++ event.pushed = event.popped ++ after := by
  cases event with
  | push item =>
    simp only [step] at taken
    split at taken
    · cases taken
      rfl
    · cases taken
  | peek item =>
    simp only [step] at taken
    split at taken
    · cases taken
      simp [Event.pushed, Event.popped]
    · cases taken
  | pop items =>
    simp only [step] at taken
    split at taken
    · rename_i front
      cases taken
      obtain ⟨rest, same⟩ := front
      simp [Event.pushed, Event.popped, ← same]
    · cases taken

/-- Nothing is lost, duplicated or reordered: what went in is what came out,
followed by what is still in the queue. -/
theorem run_balance (run : (machine bound).Run Machine.Always before events after) :
    before ++ events.flatMap Event.pushed = events.flatMap Event.popped ++ after := by
  induction run with
  | done _ => simp
  | next taken _ _ ih =>
    have first := step_balance taken
    rw [List.flatMap_cons, List.flatMap_cons, ← List.append_assoc, first, List.append_assoc, ih,
      List.append_assoc]

end SpscRing.Foundation.Fifo
