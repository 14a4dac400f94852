import SpscRing.AtomicBackoff
import SpscRing.Channel.Fixed
import SpscRing.Fixed.SampledRoom

/-! `spin_until_reserve` of the fixed-size writer: `try_reserve` again and again, with a
pause of the backoff after each call that returned null, until there is a slot. -/

namespace SpscRing.Fixed

open SpscRing.Foundation

inductive SpinPc where
  | enter
  | reserving
  | returned
  deriving DecidableEq

/-- The ring and the producer inside `spin_until_reserve`, with the caller's backoff. -/
structure Spin where
  ring : State
  backoff : AtomicBackoff := {}
  pc : SpinPc := .enter

/-- The producer takes its next step, or the consumer goes on. -/
inductive SpinAction where
  | spin
  | consumer (action : Action)

section Definitions

variable (block : ControlBlock)

/-- The producer's next step. -/
def spinStep (spin : Spin) : Option Spin :=
  match spin.pc with
  | .enter => (step block spin.ring (.call .tryReserve)).map fun ring =>
      { spin with ring, pc := .reserving }
  | .reserving =>
    if spin.ring.writerPc.isIdle then
      if spin.ring.reserved.isSome then some { spin with pc := .returned }
      else some { spin with backoff := spin.backoff.pause, pc := .enter }
    else (step block spin.ring .writer).map fun ring => { spin with ring }
  | .returned => none

def spinMachine : Machine Spin SpinAction where
  step spin action :=
    match action with
    | .spin => spinStep block spin
    | .consumer action =>
      if action.actor = .consumer then
        (step block spin.ring action).map fun ring => { spin with ring }
      else none

/-- The consumer consumes what is published. -/
def Beside (before : Spin) : SpinAction → Spin → Prop
  | .spin, _ => True
  | .consumer action, _ => AdvanceWithin block before.ring action

instance (before : Spin) (action : SpinAction) (after : Spin) :
    Decidable (Beside block before action after) :=
  match action with
  | .spin => .isTrue trivial
  | .consumer action => inferInstanceAs (Decidable (AdvanceWithin block before.ring action))

/-- Where a call is that has no slot yet. -/
def Attempting (spin : Spin) : Prop :=
  match spin.pc with
  | .enter => spin.ring.writerPc = .idle
  | .reserving =>
    match spin.ring.writerPc with
    | .idle => spin.ring.reserved = none
    | .loadWrite source | .loadRead source _ | .storeWrite source _ => source = none
    | .copy _ _ | .storeCommit | .bumpCommit => False
  | .returned => False

/-- The call has no slot yet and has left the ring as it found it. -/
structure Trying (entry : State) (spin : Spin) : Prop where
  occupancy : Occupancy block spin.ring
  writePos : spin.ring.writePos = entry.writePos
  commitPos : spin.ring.commitPos = entry.commitPos
  pending : spin.ring.pending = entry.pending
  attempting : Attempting spin

/-- The call has the slot that was next when it was made. -/
structure Won (entry : State) (spin : Spin) : Prop where
  slot : spin.ring.reserved = some (indexOf block entry.writePos)
  rests : spin.ring.writerPc = .idle
  called : spin.pc ≠ .enter

/-- A call finds its slot at some time: nothing is outstanding, and the slots that were
reserved and never published do not fill the ring. -/
structure Grantable (entry : State) : Prop where
  free : entry.pending = false
  room : entry.writePos.toNat < entry.commitPos.toNat + block.dataCapacity.toNat

/-- The invariant of one call of `spin_until_reserve`. -/
def Spins (entry : State) (spin : Spin) : Prop :=
  Trying block entry spin ∨ (Won block entry spin ∧ Grantable block entry)

end Definitions

variable {block : ControlBlock} {entry ring next : State} {spin after : Spin}

section Steps

variable (geometry : FixedGeometry block)
  (inRange : entry.writePos.toNat + (itemSize block).toNat < 2 ^ 64)
include geometry inRange

theorem spins_consumer {action : Action} (spins : Spins block entry spin)
    (acts : action.actor = .consumer) (within : AdvanceWithin block spin.ring action)
    (taken : step block spin.ring action = some next) :
    Spins block entry { spin with ring := next } := by
  have kept := producerKept_of_actor acts taken
  rcases spins with trying | ⟨won, grantable⟩
  · have admitted : Disciplined block spin.ring action next :=
      ⟨within, by rw [trying.writePos]; exact inRange⟩
    refine .inl ⟨occupancy_step geometry trying.occupancy admitted taken,
      kept.writePos.trans trying.writePos, kept.commitPos.trans trying.commitPos,
      kept.pending.trans trying.pending, ?_⟩
    have attempting := trying.attempting
    simp only [Attempting, kept.writerPc, kept.reserved] at attempting ⊢
    exact attempting
  · exact .inr ⟨⟨kept.reserved.trans won.slot, kept.writerPc.trans won.rests, won.called⟩, grantable⟩

/-- A step of an attempt leaves it an attempt, or reserves the slot. -/
theorem trying_writer (trying : Trying block entry spin) (here : spin.pc = .reserving)
    (taken : step block spin.ring .writer = some next) :
    Spins block entry { spin with ring := next } := by
  have attempting := trying.attempting
  have writer := trying.occupancy.writer
  have admitted : Disciplined block spin.ring .writer next :=
    ⟨trivial, by rw [trying.writePos]; exact inRange⟩
  have occupancy := occupancy_step geometry trying.occupancy admitted taken
  simp only [Attempting, here] at attempting
  simp only [step] at taken
  cases at' : spin.ring.writerPc with
  | idle => simp [writerStep, at'] at taken
  | loadWrite source =>
    simp only [at'] at attempting
    simp only [writerStep, at', Option.some.injEq] at taken
    subst taken
    exact .inl ⟨occupancy, trying.writePos, trying.commitPos, trying.pending, by
      simpa [Attempting, here] using attempting⟩
  | loadRead source write =>
    simp only [at'] at attempting
    simp only [writerStep, at'] at taken
    split at taken <;> cases taken
    · exact .inl ⟨occupancy, trying.writePos, trying.commitPos, trying.pending, by
        simp [Attempting, here]⟩
    · exact .inl ⟨occupancy, trying.writePos, trying.commitPos, trying.pending, by
        simpa [Attempting, here] using attempting⟩
  | storeWrite source write =>
    simp only [at'] at attempting
    subst attempting
    simp only [WriterFronts, at'] at writer
    obtain ⟨free, rfl, room⟩ := writer
    simp only [writerStep, at', Option.some.injEq] at taken
    subst taken
    refine .inr ⟨⟨?_, rfl, by simp [here]⟩, trying.pending.symm.trans free, ?_⟩
    · rw [← trying.writePos]
      rfl
    · have ordered := trying.occupancy.fronts.consumed
      have positive := geometry.positive
      rw [← trying.writePos, ← trying.commitPos]
      omega
  | copy _ _ | storeCommit | bumpCommit =>
    simp only [at'] at attempting

theorem spins_spin (spins : Spins block entry spin) (taken : spinStep block spin = some after) :
    Spins block entry after := by
  cases here : spin.pc with
  | enter =>
    rcases spins with trying | ⟨won, -⟩
    · have idle : spin.ring.writerPc = .idle := by
        simpa [Attempting, here] using trying.attempting
      simp only [spinStep, here, step, idle, Option.map_some, Option.some.injEq] at taken
      subst taken
      refine .inl ⟨occupancy_beginReserve trying.occupancy idle, ?_, ?_, ?_, ?_⟩
      all_goals unfold State.beginReserve
      · split <;> exact trying.writePos
      · split <;> exact trying.commitPos
      · split <;> exact trying.pending
      · split <;> simp [Attempting]
    · exact absurd here won.called
  | reserving =>
    simp only [spinStep, here] at taken
    split at taken
    · rename_i idle
      have rests := WriterPc.isIdle_iff.mp idle
      rcases spins with trying | ⟨won, grantable⟩
      · have empty : spin.ring.reserved = none := by
          simpa [Attempting, here, rests] using trying.attempting
        simp only [empty, Option.isSome_none, Bool.false_eq_true, if_false, Option.some.injEq] at taken
        subst taken
        exact .inl { trying with attempting := rests }
      · simp only [won.slot, Option.isSome_some, if_true, Option.some.injEq] at taken
        subst taken
        exact .inr ⟨{ won with called := by simp }, grantable⟩
    · rename_i busy
      obtain ⟨next, moved, rfl⟩ := Option.map_eq_some_iff.mp taken
      rcases spins with trying | ⟨won, -⟩
      · exact here ▸ trying_writer geometry inRange trying here moved
      · exact absurd (WriterPc.isIdle_iff.mpr won.rests) busy
  | returned => simp [spinStep, here] at taken

theorem spins_run {actions : List SpinAction}
    (run : (spinMachine block).Run (Beside block) spin actions after)
    (spins : Spins block entry spin) : Spins block entry after := by
  refine run.preserves (Spins block entry) ?_ spins
  intro before action after spins admitted taken
  cases action with
  | spin => exact spins_spin geometry inRange spins taken
  | consumer action =>
    simp only [spinMachine, Option.ite_none_right_eq_some, Option.map_eq_some_iff] at taken
    obtain ⟨acts, next, moved, rfl⟩ := taken
    exact spins_consumer geometry inRange spins acts admitted moved

end Steps

section Draining

/-- A step of the consumer that consumes what is published. -/
structure Freeing (block : ControlBlock) (before : State) (action : Action) (after : State) : Prop
    extends Disciplined block before action after where
  acts : action.actor = .consumer

/-- The steps a call of the consumer can still take. -/
def ReaderPc.stepsLeft : ReaderPc → Nat
  | .idle => 0
  | .bumpRead => 1
  | .fetchAdd _ => 2
  | .copyOut _ _ => 3
  | .loadCommit _ _ => 4
  | .loadRead _ => 5

theorem readerStep_stepsLeft (taken : readerStep block ring = some next) :
    next.readerPc.stepsLeft < ring.readerPc.stepsLeft := by
  cases here : ring.readerPc with
  | idle => simp [readerStep, here] at taken
  | loadCommit size read =>
    simp only [readerStep, here] at taken
    split at taken
    · cases taken
      simp [ReaderPc.stepsLeft]
    · split at taken <;> cases taken <;> simp [ReaderPc.stepsLeft]
  | loadRead _ | copyOut _ _ | fetchAdd _ | bumpRead =>
    simp only [readerStep, here, Option.some.injEq] at taken
    subst taken
    simp [ReaderPc.stepsLeft]

theorem reader_enabled (busy : ring.readerPc ≠ .idle) :
    ∃ next, step block ring .reader = some next := by
  simp only [step, readerStep]
  cases here : ring.readerPc with
  | idle => exact absurd here busy
  | loadCommit size read =>
    dsimp only
    split
    · exact ⟨_, rfl⟩
    · cases size <;> exact ⟨_, rfl⟩
  | loadRead _ | copyOut _ _ | fetchAdd _ | bumpRead => exact ⟨_, rfl⟩

variable (geometry : FixedGeometry block) (occupancy : Occupancy block ring)
  (inRange : ring.writePos.toNat + (itemSize block).toNat < 2 ^ 64)
include geometry occupancy inRange

/-- The consumer can finish the call it is in. -/
theorem reader_returns : ∃ next, (machine block).Reachable (Freeing block) ring next ∧
    next.readerPc = .idle ∧ Occupancy block next ∧ ConsumerFrame ring next := by
  induction left : ring.readerPc.stepsLeft using Nat.strong_induction_on generalizing ring with
  | _ count ih =>
    by_cases idle : ring.readerPc = .idle
    · exact ⟨ring, .refl ring, idle, occupancy, .refl ring⟩
    · obtain ⟨between, taken⟩ : ∃ between, step block ring .reader = some between :=
        reader_enabled idle
      have admitted : Freeing block ring .reader between := ⟨⟨trivial, inRange⟩, rfl⟩
      have frame := readerStep_frame occupancy.reader taken
      obtain ⟨next, ⟨actions, run⟩, rests, sound, onward⟩ :=
        ih _ (left ▸ readerStep_stepsLeft taken)
          (occupancy_step geometry occupancy admitted.toDisciplined taken)
          (by rw [frame.writePos]; exact inRange) rfl
      exact ⟨next, ⟨.reader :: actions, .next taken admitted run⟩, rests, sound, frame.trans onward⟩

/-- Unless reserved slots that nobody published fill the ring, the consumer can make room. -/
theorem room_comes (room : ring.writePos.toNat < ring.commitPos.toNat + block.dataCapacity.toNat) :
    ∃ next, (machine block).Reachable (Freeing block) ring next ∧
      Roomy block next.toMeta ring.writePos (itemSize block).toNat := by
  obtain ⟨rested, reached, idle, sound, frame⟩ := reader_returns geometry occupancy inRange
  have fronts := sound.fronts
  by_cases level : rested.readPos.toNat = rested.commitPos.toNat
  · refine ⟨rested, reached, ?_⟩
    have whole : (itemSize block).toNat ∣ rested.readPos.toNat + block.dataCapacity.toNat :=
      Nat.dvd_add fronts.readWhole geometry.divides
    have behind : rested.writePos.toNat < rested.readPos.toNat + block.dataCapacity.toNat := by
      rw [level, frame.writePos, frame.commitPos]
      exact room
    have apart := add_size_le fronts.writeWhole whole behind
    rw [frame.writePos] at apart
    exact apart
  · have ahead := add_size_le fronts.readWhole fronts.commitWhole
      (Nat.lt_of_le_of_ne fronts.consumed level)
    have within : rested.writePos.toNat + (itemSize block).toNat < 2 ^ 64 := by
      rw [frame.writePos]
      exact inRange
    have called : (machine block).step rested (.read (.readAdvance 1)) =
        some { rested with readerPc := .fetchAdd 1 } := by
      simp [machine, step, idle]
    have moved : (machine block).step { rested with readerPc := .fetchAdd 1 } .reader =
        some { rested with
          readPos := rested.readPos + 1 * itemSize block, readerPc := .bumpRead } := rfl
    refine ⟨_, reached.run (.next called ⟨⟨?_, within⟩, rfl⟩ (.next moved ⟨⟨trivial, within⟩, rfl⟩
      (.done _))), ?_⟩
    · simpa [AdvanceWithin] using ahead
    · have below := rested.commitPos.toNat_lt
      have bounded := fronts.bounded
      rw [frame.writePos] at bounded
      unfold Roomy
      dsimp only
      rw [UInt64.one_mul, toNat_add (by omega)]
      omega

end Draining

/-- What the consumer can do it can do beside the spinning producer. -/
theorem reachable_beside (reached : (machine block).Reachable (Freeing block) ring next)
    (here : spin.ring = ring) :
    (spinMachine block).Reachable (Beside block) spin { spin with ring := next } := by
  obtain ⟨actions, run⟩ := reached
  induction run generalizing spin with
  | done state =>
    subst here
    exact .refl spin
  | @next before between last action _ taken admitted _ ih =>
    subst here
    have moved : (spinMachine block).step spin (.consumer action) =
        some { spin with ring := between } := by
      have stepped : step block spin.ring action = some between := taken
      simp [spinMachine, admitted.acts, stepped]
    obtain ⟨actions, rest⟩ : (spinMachine block).Reachable (Beside block)
        { spin with ring := between } { spin with ring := last } := ih rfl
    exact ⟨_, .next moved admitted.advance rest⟩

section Returns

variable (geometry : FixedGeometry block)
  (inRange : entry.writePos.toNat + (itemSize block).toNat < 2 ^ 64)
include geometry inRange

/-- A step of an attempt that is still running. -/
theorem attempt_steps (trying : Trying block entry spin) (here : spin.pc = .reserving)
    (busy : spin.ring.writerPc ≠ .idle) :
    ∃ next, step block spin.ring .writer = some next ∧
      (spinMachine block).step spin .spin = some { spin with ring := next } ∧
      Spins block entry { spin with ring := next } := by
  obtain ⟨next, taken⟩ : ∃ next, step block spin.ring .writer = some next := writer_enabled busy
  have working : spin.ring.writerPc.isIdle ≠ true := fun idle => busy (WriterPc.isIdle_iff.mp idle)
  refine ⟨next, taken, ?_, trying_writer geometry inRange trying here taken⟩
  simp [spinMachine, spinStep, here, working, taken]

/-- An attempt ends, with the slot or back at the start of the loop. -/
theorem attempt_ends (trying : Trying block entry spin) :
    ∃ next, (spinMachine block).Reachable (Beside block) spin next ∧
      (Won block entry next ∨ (Trying block entry next ∧ next.pc = .enter)) := by
  cases here : spin.pc with
  | enter => exact ⟨spin, .refl spin, .inr ⟨trying, here⟩⟩
  | returned => simpa [Attempting, here] using trying.attempting
  | reserving =>
    induction left : spin.ring.writerPc.stepsLeft using Nat.strong_induction_on
      generalizing spin with
    | _ count ih =>
      by_cases idle : spin.ring.writerPc = .idle
      · have empty : spin.ring.reserved = none := by
          simpa [Attempting, here, idle] using trying.attempting
        have paused : (spinMachine block).step spin .spin =
            some { spin with backoff := spin.backoff.pause, pc := .enter } := by
          simp [spinMachine, spinStep, here, idle, WriterPc.isIdle, empty]
        exact ⟨_, ⟨_, .next paused trivial (.done _)⟩, .inr ⟨{ trying with attempting := idle }, rfl⟩⟩
      · obtain ⟨next, taken, moved, spins⟩ := attempt_steps geometry inRange trying here idle
        rcases spins with trying | ⟨won, -⟩
        · obtain ⟨final, ⟨actions, run⟩, ends⟩ :=
            ih _ (by have fewer := writerStep_stepsLeft taken; dsimp only; omega) trying here rfl
          exact ⟨final, ⟨_, .next moved trivial run⟩, ends⟩
        · exact ⟨_, ⟨_, .next moved trivial (.done _)⟩, .inl won⟩

/-- An attempt that finds the slot free gets it. -/
theorem attempt_wins (trying : Trying block entry spin) (here : spin.pc = .reserving)
    (granted : Granted block entry.writePos spin.ring) :
    ∃ next, (spinMachine block).Reachable (Beside block) spin next ∧ Won block entry next := by
  induction left : spin.ring.writerPc.stepsLeft using Nat.strong_induction_on generalizing spin with
  | _ count ih =>
    by_cases idle : spin.ring.writerPc = .idle
    · have slot : spin.ring.reserved = some (indexOf block entry.writePos) := by
        simpa [Granted, PassedAt, idle] using granted
      exact ⟨spin, .refl spin, slot, idle, by simp [here]⟩
    · obtain ⟨next, taken, moved, spins⟩ := attempt_steps geometry inRange trying here idle
      rcases spins with later | ⟨won, -⟩
      · have still : Granted block entry.writePos next :=
          granted_writerStep geometry trying.occupancy granted taken
        obtain ⟨final, ⟨actions, run⟩, won⟩ :=
          ih _ (by have fewer := writerStep_stepsLeft taken; dsimp only; omega) later here still rfl
        exact ⟨final, ⟨_, .next moved trivial run⟩, won⟩
      · exact ⟨_, ⟨_, .next moved trivial (.done _)⟩, won⟩

/-- From the start of the loop a call that can be granted gets its slot. -/
theorem enter_wins (trying : Trying block entry spin) (here : spin.pc = .enter)
    (grantable : Grantable block entry) :
    ∃ next, (spinMachine block).Reachable (Beside block) spin next ∧ Won block entry next := by
  have within : spin.ring.writePos.toNat + (itemSize block).toNat < 2 ^ 64 := by
    rw [trying.writePos]
    exact inRange
  obtain ⟨freed, reached, roomy⟩ := room_comes geometry trying.occupancy within (by
    rw [trying.writePos, trying.commitPos]
    exact grantable.room)
  obtain ⟨actions, run⟩ : (spinMachine block).Reachable (Beside block) spin
      { spin with ring := freed } := reachable_beside reached rfl
  rcases spins_run geometry inRange run (.inl trying) with later | ⟨won, -⟩
  · have idle : freed.writerPc = .idle := by simpa [Attempting, here] using later.attempting
    have front : freed.writePos = entry.writePos := later.writePos
    have free : freed.pending = false := later.pending.trans grantable.free
    have begun : (spinMachine block).step { spin with ring := freed } .spin =
        some { spin with ring := freed.beginReserve none, pc := .reserving } := by
      simp [spinMachine, spinStep, here, step, idle]
    have granted : Granted block entry.writePos (freed.beginReserve none) := by
      rw [trying.writePos] at roomy
      have starts := beginReserve_granted freed none free (front ▸ roomy)
      rw [front] at starts
      exact starts.1
    rcases spins_spin geometry inRange (.inl later) begun with called | ⟨won, -⟩
    · obtain ⟨final, ⟨more, rest⟩, won⟩ := attempt_wins geometry inRange called rfl granted
      exact ⟨final, ⟨_, run.append (.next begun trivial rest)⟩, won⟩
    · exact ⟨_, ⟨_, run.append (.next begun trivial (.done _))⟩, won⟩
  · exact absurd here won.called

end Returns

/-- A call that has its slot returns it. -/
theorem Won.returns (won : Won block entry spin) :
    ∃ after, (spinMachine block).Reachable (Beside block) spin after ∧ after.pc = .returned := by
  cases here : spin.pc with
  | enter => exact absurd here won.called
  | reserving =>
    have left : (spinMachine block).step spin .spin = some { spin with pc := .returned } := by
      simp [spinMachine, spinStep, here, won.rests, WriterPc.isIdle, won.slot]
    exact ⟨_, ⟨_, .next left trivial (.done _)⟩, rfl⟩
  | returned => exact ⟨spin, .refl spin, here⟩

/-- At every moment of a call of `spin_until_reserve`, beside any consumer that keeps its
contract: the call can still return if and only if no reservation was outstanding when it
was made and the slots reserved and never published did not fill the ring; and it returns
the slot that was next. Crashed sessions count: what they reserved stays reserved. -/
theorem spin_until_reserve_returns_iff {data : Memory} {backoff : AtomicBackoff}
    {actions : List SpinAction} (valid : isValidFixedRing block = true)
    (fresh : Meta.SameFronts {} block.rbMeta)
    (reached : (machine block).Reachable (Disciplined block) (initial block data) ring)
    (idle : ring.writerPc = .idle)
    (inRange : ring.writePos.toNat + (itemSize block).toNat < 2 ^ 64)
    (run : (spinMachine block).Run (Beside block) { ring, backoff } actions spin) :
    ((∃ after, (spinMachine block).Reachable (Beside block) spin after ∧ after.pc = .returned) ↔
      ring.pending = false ∧
        ring.writePos.toNat < ring.commitPos.toNat + block.dataCapacity.toNat) ∧
    (spin.pc = .returned → spin.ring.reserved = some (indexOf block ring.writePos)) := by
  have geometry := fixedGeometry_of_valid valid
  have occupancy := reachable_occupancy geometry fresh reached
  have spins := spins_run geometry inRange run (.inl ⟨occupancy, rfl, rfl, rfl, idle⟩)
  have ended {after : Spin} (spins : Spins block ring after) (returned : after.pc = .returned) :
      Won block ring after ∧ Grantable block ring := by
    rcases spins with trying | won
    · have attempting := trying.attempting
      simp [Attempting, returned] at attempting
    · exact won
  refine ⟨⟨?_, ?_⟩, fun returned => (ended spins returned).1.slot⟩
  · rintro ⟨after, ⟨more, rest⟩, returned⟩
    obtain ⟨-, grantable⟩ := ended (spins_run geometry inRange rest spins) returned
    exact ⟨grantable.free, grantable.room⟩
  · rintro ⟨free, room⟩
    have won : ∃ next, (spinMachine block).Reachable (Beside block) spin next ∧
        Won block ring next := by
      rcases spins with trying | ⟨won, -⟩
      · obtain ⟨next, ⟨first, attempt⟩, won | ⟨later, here⟩⟩ := attempt_ends geometry inRange trying
        · exact ⟨next, ⟨first, attempt⟩, won⟩
        · obtain ⟨final, ⟨second, rest⟩, won⟩ := enter_wins geometry inRange later here ⟨free, room⟩
          exact ⟨final, ⟨_, attempt.append rest⟩, won⟩
      · exact ⟨spin, .refl spin, won⟩
    obtain ⟨next, reached, won⟩ := won
    obtain ⟨after, ⟨more, rest⟩, returned⟩ := won.returns
    exact ⟨after, reached.run rest, returned⟩

/-- Two sessions that end between reservation and commit take both slots of the ring with
them: nothing is outstanding, nothing is published, and no call ever returns. -/
theorem spin_until_reserve_returns_iff_abandoned : ∃ ring,
    (machine sampleBlock).Reachable (Disciplined sampleBlock) (initial sampleBlock fun _ => 0) ring ∧
    ring.pending = false ∧ ring.commitPos = 0 ∧
    ¬ ∃ after, (spinMachine sampleBlock).Reachable (Beside sampleBlock) { ring } after ∧
      after.pc = .returned := by
  obtain ⟨ring, run, passed⟩ := (machine sampleBlock).run_of_replay (Disciplined sampleBlock)
    (initial sampleBlock fun _ => 0)
    (.call .tryReserve :: List.replicate 3 .writer ++ .restart ::
      .call .tryReserve :: List.replicate 3 .writer ++ [.restart])
    (fun ring => ring.writerPc.isIdle && !ring.pending && decide (ring.commitPos = 0) &&
      decide (ring.writePos = 32)) (by decide +kernel)
  simp only [Bool.and_eq_true, Bool.not_eq_true', decide_eq_true_eq, WriterPc.isIdle_iff] at passed
  obtain ⟨⟨⟨idle, free⟩, unpublished⟩, front⟩ := passed
  refine ⟨ring, ⟨_, run⟩, free, unpublished, fun returns => ?_⟩
  have grantable := (spin_until_reserve_returns_iff (by decide) ⟨rfl, rfl, rfl⟩ ⟨_, run⟩ idle
    (by rw [front]; decide) (.done _)).1.mp returns
  rw [front, unpublished] at grantable
  exact absurd grantable.2 (by decide)

end SpscRing.Fixed
