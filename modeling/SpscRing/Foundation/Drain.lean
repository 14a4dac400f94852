import SpscRing.Foundation.Refinement

/-! A bounded stream between two threads and a flag that closes it: the producer sends
a fixed number of items and then sets the flag, the consumer takes items until it finds
the stream empty and, at a later moment, the flag set. -/

namespace SpscRing.Foundation.Drain

inductive Phase where
  | polling
  | foundEmpty
  | left
  deriving DecidableEq

structure Stream where
  sent : Nat := 0
  taken : Nat := 0
  closed : Bool := false
  phase : Phase := .polling

inductive Event where
  | send
  | close
  | take
  | look
  | again
  | leave

variable (bound total : Nat)

def step (stream : Stream) : Event → Option Stream
  | .send =>
    if stream.closed = false ∧ stream.sent < total ∧ stream.sent < stream.taken + bound then
      some { stream with sent := stream.sent + 1 }
    else none
  | .close =>
    if stream.closed = false ∧ stream.sent = total then some { stream with closed := true } else none
  | .take =>
    if stream.phase = .polling ∧ stream.taken < stream.sent then
      some { stream with taken := stream.taken + 1 }
    else none
  | .look =>
    if stream.phase = .polling ∧ stream.taken = stream.sent then
      some { stream with phase := .foundEmpty }
    else none
  | .again =>
    if stream.phase = .foundEmpty ∧ stream.closed = false then
      some { stream with phase := .polling }
    else none
  | .leave =>
    if stream.phase = .foundEmpty ∧ stream.closed = true then some { stream with phase := .left }
    else none

def machine : Machine Stream Event := ⟨step bound total⟩

/-- What holds of a stream at any time. -/
structure Sound (stream : Stream) : Prop where
  ordered : stream.taken ≤ stream.sent
  limited : stream.sent ≤ total
  bounded : stream.sent ≤ stream.taken + bound
  closed : stream.closed = true → stream.sent = total
  left : stream.phase = .left → stream.closed = true

variable {bound total} {before after : Stream} {event : Event}

theorem sound_step (sound : Sound bound total before)
    (taken : step bound total before event = some after) : Sound bound total after := by
  obtain ⟨ordered, limited, bounded, closed, left⟩ := sound
  cases event <;> simp only [step] at taken <;> split at taken <;> cases taken
  case send allowed =>
    obtain ⟨opened, more, room⟩ := allowed
    refine ⟨Nat.le_succ_of_le ordered, more, room, fun ended => ?_, left⟩
    simp [opened] at ended
  case close allowed => exact ⟨ordered, limited, bounded, fun _ => allowed.2, fun _ => rfl⟩
  case take allowed =>
    refine ⟨allowed.2, limited, ?_, closed, left⟩
    show before.sent ≤ before.taken + 1 + bound
    omega
  case look allowed =>
    exact ⟨ordered, limited, bounded, closed, fun ended => by cases ended⟩
  case again allowed =>
    exact ⟨ordered, limited, bounded, closed, fun ended => by cases ended⟩
  case leave allowed => exact ⟨ordered, limited, bounded, closed, fun _ => allowed.2⟩

theorem sound_start : Sound bound total {} where
  ordered := Nat.le_refl _
  limited := Nat.zero_le _
  bounded := Nat.zero_le _
  closed := by simp
  left := by simp

/-- A consumer that has left may have left a full stream behind, and no more. -/
theorem left_bounds (reached : (machine bound total).Reachable Machine.Always {} after)
    (ended : after.phase = .left) : after.taken ≤ total ∧ total ≤ after.taken + bound := by
  have sound : Sound bound total after :=
    reached.invariant (Sound bound total) sound_start
      fun _ _ _ sound _ taken => sound_step sound taken
  have all := sound.closed (sound.left ended)
  exact ⟨all ▸ sound.ordered, all ▸ sound.bounded⟩

/-- Items sent and taken one by one. -/
theorem run_passing (roomy : 0 < bound) {count : Nat} (within : count ≤ total) :
    (machine bound total).Reachable Machine.Always {} { sent := count, taken := count } := by
  induction count with
  | zero => exact .refl _
  | succ count ih =>
    have sent : (machine bound total).step { sent := count, taken := count } .send =
        some { sent := count + 1, taken := count } := by
      simp [machine, step, roomy, Nat.lt_of_succ_le within]
    have taken : (machine bound total).step { sent := count + 1, taken := count } .take =
        some { sent := count + 1, taken := count + 1 } := by
      simp [machine, step]
    exact (ih (Nat.le_of_succ_le within)).run
      (.next sent trivial (.next taken trivial (.done _)))

/-- Items sent while the consumer is about to read the flag. -/
theorem run_behind {taken count : Nat} (within : taken + count ≤ total) (room : count ≤ bound) :
    (machine bound total).Reachable Machine.Always
      { sent := taken, taken := taken, phase := .foundEmpty }
      { sent := taken + count, taken := taken, phase := .foundEmpty } := by
  induction count with
  | zero => exact .refl _
  | succ count ih =>
    have more : taken + count < total := within
    have sent : (machine bound total).step
        { sent := taken + count, taken := taken, phase := .foundEmpty } .send =
          some { sent := taken + (count + 1), taken := taken, phase := .foundEmpty } := by
      simp [machine, step, more, Nat.lt_of_succ_le room, Nat.add_assoc]
    exact (ih (Nat.le_of_succ_le within) (Nat.le_of_succ_le room)).run (.next sent trivial (.done _))

/-- Every such number of items can be left behind. -/
theorem left_reachable (roomy : 0 < bound) {taken : Nat} (within : taken ≤ total)
    (bounded : total ≤ taken + bound) :
    (machine bound total).Reachable Machine.Always {}
      { sent := total, taken := taken, closed := true, phase := .left } := by
  obtain ⟨behind, rfl⟩ := Nat.exists_eq_add_of_le within
  have looked : (machine bound (taken + behind)).step { sent := taken, taken := taken } .look =
      some { sent := taken, taken := taken, phase := .foundEmpty } := by
    simp [machine, step]
  have closed : (machine bound (taken + behind)).step
      { sent := taken + behind, taken := taken, phase := .foundEmpty } .close =
        some { sent := taken + behind, taken := taken, closed := true, phase := .foundEmpty } := by
    simp [machine, step]
  have left : (machine bound (taken + behind)).step
      { sent := taken + behind, taken := taken, closed := true, phase := .foundEmpty } .leave =
        some { sent := taken + behind, taken := taken, closed := true, phase := .left } := by
    simp [machine, step]
  obtain ⟨sending, sends⟩ := run_behind (Nat.le_refl (taken + behind)) (by omega : behind ≤ bound)
  exact (run_passing roomy within).run (.next looked trivial
    (sends.append (.next closed trivial (.next left trivial (.done _)))))

end SpscRing.Foundation.Drain
