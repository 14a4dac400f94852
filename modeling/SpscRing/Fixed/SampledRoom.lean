import SpscRing.Fixed.FullTest
import SpscRing.RingView

/-! A producer that looks at `available_bytes()` before it reserves a slot. -/

namespace SpscRing.Fixed

open SpscRing.Foundation

section Definitions

variable (block : ControlBlock)

/-- How far a call has come that finds the slot at the front free. -/
def Granted (front : UInt64) (state : State) : Prop :=
  match state.writerPc with
  | .loadWrite _ => state.writePos = front ∧
    Roomy block state.toMeta front (itemSize block).toNat
  | .loadRead _ write => write = front ∧ Roomy block state.toMeta front (itemSize block).toNat
  | .idle | .storeWrite _ _ | .copy _ _ | .storeCommit | .bumpCommit => PassedAt block front state

/-- What a call does that finds the slot at the front free: it takes at most six steps,
can always take the next one, and returns with that slot. -/
structure Reserves (front : UInt64) (actions : List Action) (state : State) : Prop where
  steps : actions.countP Action.isWriter ≤ 6
  enabled : state.writerPc ≠ .idle → ∃ next, step block state .writer = some next
  returns : state.writerPc = .idle → state.reserved = some (indexOf block front)

end Definitions

variable {block : ControlBlock} {state before after : State} {front : UInt64}
variable {source : Option Source}

theorem Granted.frame (granted : Granted block front before) (frame : ConsumerFrame before after) :
    Granted block front after := by
  cases here : before.writerPc with
  | loadWrite _ | loadRead _ _ =>
    simp only [Granted, frame.writerPc, here, frame.writePos] at granted ⊢
    exact ⟨granted.1, granted.2.mono frame.readPos⟩
  | idle | storeWrite _ _ | copy _ _ | storeCommit | bumpCommit =>
    simp only [Granted, frame.writerPc, here] at granted ⊢
    exact granted.consume frame

theorem PassedAt.granted (passed : PassedAt block front state) : Granted block front state := by
  cases here : state.writerPc with
  | loadWrite _ | loadRead _ _ => simp [PassedAt, here] at passed
  | idle | storeWrite _ _ | copy _ _ | storeCommit | bumpCommit =>
    simp only [Granted, here]
    exact passed

/-- The full test of a call that has its room lets it pass. -/
theorem granted_writerStep (geometry : FixedGeometry block) (occupancy : Occupancy block before)
    (granted : Granted block front before) (taken : writerStep block before = some after) :
    Granted block front after := by
  have writer := occupancy.writer
  cases here : before.writerPc with
  | idle => simp [writerStep, here] at taken
  | loadWrite source =>
    simp only [Granted, here] at granted
    simp only [writerStep, here] at taken
    cases taken
    exact granted
  | loadRead source write =>
    simp only [Granted, here] at granted
    simp only [WriterFronts, here] at writer
    obtain ⟨-, rfl⟩ := writer
    obtain ⟨rfl, roomy⟩ := granted
    have notFull : ¬ (before.writePos % block.dataCapacity = before.readPos % block.dataCapacity ∧
        before.writePos > before.readPos) := by
      rw [full_iff geometry occupancy.fronts]
      intro lap
      have fronts := occupancy.fronts
      have apart := congrArg UInt64.toNat lap
      rw [toNat_sub (Nat.le_trans fronts.consumed fronts.published)] at apart
      have positive := geometry.positive
      have capacity := geometry.capacity
      unfold Roomy at roomy
      omega
    simp only [writerStep, here, if_neg notFull] at taken
    cases taken
    rfl
  | storeWrite _ _ | copy _ _ | storeCommit | bumpCommit =>
    simp only [Granted, here] at granted
    exact (passedAt_writerStep granted taken).granted

/-- A call that reserves begins with its load of the reservation front. -/
theorem beginReserve_granted (entry : State) (source : Option Source) (free : entry.pending = false)
    (roomy : Roomy block entry.toMeta entry.writePos (itemSize block).toNat) :
    Granted block entry.writePos (entry.beginReserve source) ∧
      (entry.beginReserve source).writerPc.stepsLeft ≤ 6 := by
  have begun : entry.beginReserve source = { entry with writerPc := .loadWrite source } := by
    simp [State.beginReserve, free]
  rw [begun]
  exact ⟨⟨rfl, roomy⟩, Nat.le_refl _⟩

theorem step_reserve {entry called : State} {call : WriterCall} (reserving : call ≠ .commit)
    (begun : step block entry (.call call) = some called) :
    entry.writerPc = .idle ∧ ∃ source, entry.beginReserve source = called := by
  simp only [step] at begun
  split at begun
  · rename_i idle
    cases begun
    exact ⟨idle, none, rfl⟩
  · rename_i data size idle
    cases begun
    exact ⟨idle, some ⟨data, size⟩, rfl⟩
  · exact absurd rfl reserving
  · cases begun

/-- The producer, between two calls, has seen room for a slot in `available_bytes()`.
Whatever the consumer does while it looks, until it calls and during the call, its next
`try_reserve` or `write` gets the slot at its front. -/
theorem fixed_sampled_room_reserves {data : Memory} {first second entry called : State}
    {call : WriterCall} {sampling waiting actions : List Action}
    (valid : isValidFixedRing block = true) (fresh : Meta.SameFronts {} block.rbMeta)
    (reached : (machine block).Reachable (Disciplined block) (initial block data) first)
    (resting : first.writerPc = .idle) (free : first.pending = false)
    (sampled : (machine block).Run (During block) first sampling second)
    (room : itemSize block ≤ availableBytes block first.writePos second.readPos)
    (waited : (machine block).Run (During block) second waiting entry)
    (reserving : call ≠ .commit) (begun : step block entry (.call call) = some called)
    (run : (machine block).Run (During block) called actions state) :
    Reserves block first.writePos actions state := by
  have geometry := fixedGeometry_of_valid valid
  have initially := reachable_occupancy geometry fresh reached
  obtain ⟨sound, frame⟩ := resting_run geometry initially resting sampled
  have roomy := roomy_of_available initially.fronts.bounded
    (Nat.le_trans sound.fronts.consumed sound.fronts.published) frame.writePos frame.readPos
    (UInt64.le_iff_toNat_le.mp room)
  obtain ⟨occupancy, onward⟩ := resting_run geometry sound (frame.writerPc.trans resting) waited
  have front : entry.writePos = first.writePos := onward.writePos.trans frame.writePos
  obtain ⟨idle, source, rfl⟩ := step_reserve reserving begun
  obtain ⟨granted, most⟩ := beginReserve_granted entry source
    (onward.pending.trans (frame.pending.trans free)) (front ▸ roomy.mono onward.readPos)
  rw [front] at granted
  have kept (before : State) (action : Action) (after : State)
      (held : Granted block first.writePos before ∧ Occupancy block before)
      (admitted : During block before action after)
      (taken : step block before action = some after) :
      Granted block first.writePos after ∧ Occupancy block after := by
    refine ⟨?_, occupancy_step geometry held.2 admitted.toDisciplined taken⟩
    rcases frame_of_beside held.2.reader admitted.beside taken with stepped | frame
    · exact granted_writerStep geometry held.2 held.1 stepped
    · exact held.1.frame frame
  have begins : Granted block first.writePos (entry.beginReserve source) ∧
      Occupancy block (entry.beginReserve source) :=
    ⟨granted, occupancy_beginReserve occupancy idle⟩
  have ended := run.preserves _ kept begins
  have steps := run.countP_le Action.isWriter (fun state => state.writerPc.stepsLeft) _ kept (by
    intro before action after held admitted taken
    cases action with
    | writer => exact writerStep_stepsLeft taken
    | read call | reader =>
      rcases frame_of_beside held.2.reader admitted.beside taken with stepped | frame
      · exact Nat.le_of_succ_le (writerStep_stepsLeft stepped)
      · simp [Action.isWriter, frame.writerPc]
    | call _ | fill _ _ | restart => exact admitted.beside.elim) begins
  refine ⟨by omega, writer_enabled, fun returned => ?_⟩
  have result := ended.1
  simpa only [Granted, PassedAt, returned] using result

/-- On a full ring the consumer frees a slot while the producer looks. -/
theorem fixed_sampled_room_reserves_freed : ∃ first second called state actions,
    (machine sampleBlock).Reachable (Disciplined sampleBlock) (initial sampleBlock fun _ => 0) first ∧
    availableBytes sampleBlock first.writePos first.readPos = 0 ∧
    availableBytes sampleBlock first.writePos second.readPos = 16 ∧
    step sampleBlock second (.call .tryReserve) = some called ∧
    (machine sampleBlock).Run (During sampleBlock) called actions state ∧
    state.writerPc = .idle ∧ Reserves sampleBlock first.writePos actions state := by
  let sampling : List Action := .read (.read 16) :: List.replicate 4 .reader
  let actions : List Action := List.replicate 3 .writer
  obtain ⟨first, earlier, passed⟩ := (machine sampleBlock).run_of_replay (Disciplined sampleBlock)
    (initial sampleBlock fun _ => 0)
    (.call (.write (fun _ => 7) 16) :: List.replicate 6 .writer ++
      .call (.write (fun _ => 8) 16) :: List.replicate 6 .writer)
    (fun first => first.writerPc.isIdle && !first.pending &&
      decide (availableBytes sampleBlock first.writePos first.readPos = 0) &&
      ((machine sampleBlock).replay (During sampleBlock) first sampling).any fun second =>
        decide (availableBytes sampleBlock first.writePos second.readPos = 16) &&
        (step sampleBlock second (.call .tryReserve)).any fun called =>
          ((machine sampleBlock).replay (During sampleBlock) called actions).any fun state =>
            state.writerPc.isIdle) (by decide +kernel)
  simp only [Bool.and_eq_true, Bool.not_eq_true', decide_eq_true_eq, Option.any_eq_true,
    WriterPc.isIdle_iff] at passed
  obtain ⟨⟨⟨resting, free⟩, full⟩, second, replayed, available, called, begun, state, ended, idle⟩ :=
    passed
  have run := Machine.replay_run ended
  refine ⟨first, second, called, state, actions, ⟨_, earlier⟩, full, available, begun, run, idle, ?_⟩
  refine fixed_sampled_room_reserves (by decide) ⟨rfl, rfl, rfl⟩ ⟨_, earlier⟩ resting free
    (Machine.replay_run replayed) ?_ (.done _) (by simp) begun run
  rw [available]
  decide

end SpscRing.Fixed
