import SpscRing.Fixed.Spin

/-! `spin_until_read` of the fixed-size reader: `try_read` again and again, with a pause of
the backoff after each call that returned null, until there is a slot. -/

namespace SpscRing.Fixed

open SpscRing.Foundation

inductive ReadSpinPc where
  | enter
  | reading
  | returned
  deriving DecidableEq

/-- The ring and the consumer inside `spin_until_read`, with the caller's backoff. -/
structure ReadSpin where
  ring : State
  backoff : AtomicBackoff := {}
  pc : ReadSpinPc := .enter

/-- The consumer takes its next step, or the producer goes on. -/
inductive ReadSpinAction where
  | spin
  | producer (action : Action)

section Definitions

variable (block : ControlBlock)

/-- The consumer's next step. -/
def readSpinStep (spin : ReadSpin) : Option ReadSpin :=
  match spin.pc with
  | .enter => (step block spin.ring (.read .tryRead)).map fun ring =>
      { spin with ring, pc := .reading }
  | .reading =>
    if spin.ring.readerPc.isIdle then
      if spin.ring.slot.isSome then some { spin with pc := .returned }
      else some { spin with backoff := spin.backoff.pause, pc := .enter }
    else (step block spin.ring .reader).map fun ring => { spin with ring }
  | .returned => none

def readSpinMachine : Machine ReadSpin ReadSpinAction where
  step spin action :=
    match action with
    | .spin => readSpinStep block spin
    | .producer action =>
      if action.actor = .producer then
        (step block spin.ring action).map fun ring => { spin with ring }
      else none

/-- Any producer, also one that crashes and is started again, with its front in range. -/
def BesideReader (before : ReadSpin) : ReadSpinAction → ReadSpin → Prop
  | .spin, _ => True
  | .producer action, after => Disciplined block before.ring action after.ring

instance (before : ReadSpin) (action : ReadSpinAction) (after : ReadSpin) :
    Decidable (BesideReader block before action after) :=
  match action with
  | .spin => .isTrue trivial
  | .producer action => inferInstanceAs (Decidable (Disciplined block before.ring action after.ring))

/-- Every slot is reserved, none is published, and no session is left to publish one. -/
structure Wedged (ring : State) : Prop where
  free : ring.pending = false
  level : ring.commitPos = ring.readPos
  full : ring.writePos.toNat = ring.readPos.toNat + block.dataCapacity.toNat

/-- The invariant of the ring: an outstanding slot lies beyond the published ones. -/
structure Ahead (ring : State) : Prop where
  occupancy : Occupancy block ring
  beyond : ring.pending = true → ring.commitPos.toNat < ring.writePos.toNat

/-- The consumer has the oldest slot, which is published. -/
structure Seen (entry ring : State) : Prop where
  slot : ring.slot = some (indexOf block entry.readPos)
  published : entry.readPos.toNat + (itemSize block).toNat ≤ ring.commitPos.toNat

/-- Where a call is in its loop. -/
def Looking (entry : State) (spin : ReadSpin) : Prop :=
  match spin.pc with
  | .enter => spin.ring.readerPc = .idle
  | .reading =>
    match spin.ring.readerPc with
    | .loadRead size | .loadCommit size _ => size = none
    | .idle => spin.ring.slot = none ∨ Seen block entry spin.ring
    | .copyOut _ _ | .fetchAdd _ | .bumpRead => False
  | .returned => spin.ring.readerPc = .idle ∧ Seen block entry spin.ring

/-- The invariant of one call of `spin_until_read`. -/
structure ReadSpins (entry : State) (spin : ReadSpin) : Prop where
  ahead : Ahead block spin.ring
  readPos : spin.ring.readPos = entry.readPos
  looking : Looking block entry spin

/-- What a step of the producer does to its fronts. -/
inductive ProducerMove (before after : State) : Prop where
  | stay (writePos : after.writePos = before.writePos) (commitPos : after.commitPos = before.commitPos)
      (pending : after.pending = before.pending ∨ after.pending = false)
  | reserve (free : before.pending = false)
      (room : before.writePos.toNat + (itemSize block).toNat ≤
        before.readPos.toNat + block.dataCapacity.toNat)
      (writePos : after.writePos = before.writePos + itemSize block)
      (commitPos : after.commitPos = before.commitPos)
  | publish (guarded : before.pending = true) (writePos : after.writePos = before.writePos)
      (commitPos : after.commitPos = before.writePos) (free : after.pending = false)

end Definitions

variable {block : ControlBlock} {entry ring next : State} {action : Action}

theorem producerMove_writer (occupancy : Occupancy block ring)
    (taken : writerStep block ring = some next) : ProducerMove block ring next := by
  have writer := occupancy.writer
  cases here : ring.writerPc with
  | idle => simp [writerStep, here] at taken
  | loadWrite source | bumpCommit =>
    simp only [writerStep, here, Option.some.injEq] at taken
    subst taken
    exact .stay rfl rfl (.inl rfl)
  | loadRead source write =>
    simp only [writerStep, here] at taken
    split at taken <;> cases taken <;> exact .stay rfl rfl (.inl rfl)
  | storeWrite source write =>
    simp only [WriterFronts, here] at writer
    obtain ⟨free, rfl, room⟩ := writer
    simp only [writerStep, here, Option.some.injEq] at taken
    obtain ⟨pc, moved⟩ := afterReserve_eq (ring.storeWrite block ring.writePos) source ring.writePos
    rw [taken] at moved
    subst moved
    exact .reserve free room rfl rfl
  | copy source write =>
    simp only [writerStep, here, Option.some.injEq] at taken
    obtain ⟨pc, moved⟩ := beginCommit_eq { ring with
      data := ring.data.write (indexOf block write) (source.data.read 0 source.size.toNat)
      log := ring.log.fill 0 (source.data.read 0 source.size.toNat) }
    rw [here] at moved
    rw [taken] at moved
    subst moved
    exact .stay rfl rfl (.inl rfl)
  | storeCommit =>
    simp only [WriterFronts, here] at writer
    simp only [writerStep, here, Option.some.injEq] at taken
    subst taken
    exact .publish writer.1 rfl writer.2 rfl

theorem producerMove (occupancy : Occupancy block ring) (acts : action.actor = .producer)
    (taken : step block ring action = some next) : ProducerMove block ring next := by
  cases action with
  | call call =>
    simp only [step] at taken
    split at taken
    · cases taken
      obtain ⟨pc, reserved, moved⟩ := beginReserve_eq ring none
      rw [moved]
      exact .stay rfl rfl (.inl rfl)
    · cases taken
      obtain ⟨pc, reserved, moved⟩ := beginReserve_eq ring (some _)
      rw [moved]
      exact .stay rfl rfl (.inl rfl)
    · cases taken
      obtain ⟨pc, moved⟩ := beginCommit_eq ring
      rw [moved]
      exact .stay rfl rfl (.inl rfl)
    · cases taken
  | fill offset bytes =>
    simp only [step] at taken
    split at taken
    · split at taken <;> cases taken
      exact .stay rfl rfl (.inl rfl)
    · cases taken
  | writer => exact producerMove_writer occupancy taken
  | restart =>
    cases taken
    exact .stay rfl rfl (.inr rfl)
  | read _ | reader => cases acts

/-- The producer never takes back what it has published. -/
theorem published_mono (ahead : Ahead block ring) (acts : action.actor = .producer)
    (taken : step block ring action = some next) :
    ring.commitPos.toNat ≤ next.commitPos.toNat := by
  cases producerMove ahead.occupancy acts taken with
  | stay _ commitPos _ | reserve _ _ _ commitPos => rw [commitPos]
  | publish _ _ commitPos _ =>
    rw [commitPos]
    exact ahead.occupancy.fronts.published

section Ring

variable (geometry : FixedGeometry block) (ahead : Ahead block ring)
include geometry ahead

theorem ahead_step (admitted : Disciplined block ring action next)
    (taken : step block ring action = some next) : Ahead block next := by
  refine ⟨occupancy_step geometry ahead.occupancy admitted taken, fun guarded => ?_⟩
  cases acts : action.actor with
  | producer =>
    cases producerMove ahead.occupancy acts taken with
    | stay writePos commitPos pending =>
      rw [writePos, commitPos]
      rcases pending with same | free
      · exact ahead.beyond (same ▸ guarded)
      · simp [free] at guarded
    | reserve free room writePos commitPos =>
      have ordered := ahead.occupancy.fronts.published
      have positive := geometry.positive
      rw [writePos, commitPos, toNat_add admitted.inRange]
      omega
    | publish _ _ _ free => simp [free] at guarded
  | consumer =>
    have kept := producerKept_of_actor acts taken
    rw [kept.writePos, kept.commitPos]
    exact ahead.beyond (kept.pending ▸ guarded)

/-- A wedged ring stays wedged, whatever its producers do. -/
theorem wedged_step (wedged : Wedged block ring) (acts : action.actor = .producer)
    (taken : step block ring action = some next) : Wedged block next := by
  have kept := consumerKept_of_actor acts taken
  cases producerMove ahead.occupancy acts taken with
  | stay writePos commitPos pending =>
    refine ⟨?_, ?_, ?_⟩
    · rcases pending with same | free
      · exact same.trans wedged.free
      · exact free
    · rw [commitPos, kept.readPos]
      exact wedged.level
    · rw [writePos, kept.readPos]
      exact wedged.full
  | reserve free room _ _ =>
    have positive := geometry.positive
    have full := wedged.full
    omega
  | publish guarded _ _ _ => exact absurd guarded (by simp [wedged.free])

end Ring

section Steps

variable {spin after : ReadSpin} (spins : ReadSpins block entry spin)
include spins

theorem readSpins_producer (geometry : FixedGeometry block) (acts : action.actor = .producer)
    (admitted : Disciplined block spin.ring action next)
    (taken : step block spin.ring action = some next) :
    ReadSpins block entry { spin with ring := next } := by
  have kept := consumerKept_of_actor acts taken
  have grown := published_mono spins.ahead acts taken
  have seen (held : Seen block entry spin.ring) : Seen block entry next :=
    ⟨kept.slot.trans held.slot, Nat.le_trans held.published grown⟩
  refine ⟨ahead_step geometry spins.ahead admitted taken, kept.readPos.trans spins.readPos, ?_⟩
  have looking := spins.looking
  unfold Looking at looking ⊢
  cases here : spin.pc <;> simp only [here, kept.readerPc, kept.slot] at looking ⊢
  case enter => exact looking
  case reading =>
    cases at' : spin.ring.readerPc <;> simp only [at'] at looking ⊢
    case idle => exact looking.imp_right seen
    case loadRead | loadCommit => exact looking
  case returned => exact ⟨looking.1, seen looking.2⟩

theorem readSpins_reader (here : spin.pc = .reading)
    (taken : step block spin.ring .reader = some next) :
    ReadSpins block entry { spin with ring := next } := by
  have reader := spins.ahead.occupancy.reader
  have frame := readerStep_frame reader taken
  have ahead : Ahead block next := by
    refine ⟨occupancy_readerStep spins.ahead.occupancy taken, fun guarded => ?_⟩
    rw [frame.commitPos, frame.writePos]
    exact spins.ahead.beyond (frame.pending ▸ guarded)
  have looking := spins.looking
  have fronts := spins.ahead.occupancy.fronts
  simp only [Looking, here] at looking
  simp only [step] at taken
  cases at' : spin.ring.readerPc <;> simp only [at'] at looking
  case idle => simp [readerStep, at'] at taken
  case loadRead size =>
    simp only [readerStep, at', Option.some.injEq] at taken
    subst taken
    exact ⟨ahead, spins.readPos, by simpa [Looking, here] using looking⟩
  case loadCommit size read =>
    subst looking
    simp only [ReaderOk, at'] at reader
    subst reader
    simp only [readerStep, at'] at taken
    split at taken <;> cases taken
    · exact ⟨ahead, spins.readPos, by simp [Looking, here]⟩
    · rename_i unread
      have seen : Seen block entry { spin.ring with
          slot := some (indexOf block spin.ring.readPos)
          outSize := (itemSize block).toUInt32
          readerPc := .idle
          log := spin.ring.log.view spin.ring.readPos } := by
        have published := published_slot fronts unread
        rw [spins.readPos] at published
        exact ⟨congrArg (fun front => some (indexOf block front)) spins.readPos, published⟩
      exact ⟨ahead, spins.readPos, by simpa [Looking, here] using seen⟩

theorem readSpins_spin (taken : readSpinStep block spin = some after) :
    ReadSpins block entry after := by
  cases here : spin.pc with
  | enter =>
    have idle : spin.ring.readerPc = .idle := by simpa [Looking, here] using spins.looking
    simp only [readSpinStep, here, step, idle, Option.map_some, Option.some.injEq] at taken
    subst taken
    have occupancy := spins.ahead.occupancy
    exact ⟨⟨⟨{ occupancy.fronts with }, occupancy.writer, trivial⟩, spins.ahead.beyond⟩,
      spins.readPos, rfl⟩
  | reading =>
    simp only [readSpinStep, here] at taken
    split at taken
    · rename_i idle
      have rests := ReaderPc.isIdle_iff.mp idle
      have looking : spin.ring.slot = none ∨ Seen block entry spin.ring := by
        simpa [Looking, here, rests] using spins.looking
      split at taken <;> cases taken
      · rename_i found
        rcases looking with missing | seen
        · simp [missing] at found
        · exact { spins with looking := ⟨rests, seen⟩ }
      · exact { spins with looking := rests }
    · obtain ⟨next, moved, rfl⟩ := Option.map_eq_some_iff.mp taken
      exact here ▸ readSpins_reader spins here moved
  | returned => simp [readSpinStep, here] at taken

theorem readSpins_step (geometry : FixedGeometry block) {action : ReadSpinAction}
    (admitted : BesideReader block spin action after)
    (taken : (readSpinMachine block).step spin action = some after) :
    ReadSpins block entry after := by
  cases action with
  | spin => exact readSpins_spin spins taken
  | producer action =>
    simp only [readSpinMachine, Option.ite_none_right_eq_some, Option.map_eq_some_iff] at taken
    obtain ⟨acts, next, moved, rfl⟩ := taken
    exact readSpins_producer spins geometry acts admitted moved

/-- The consumer's looking about does not free a wedged ring. -/
theorem readSpins_wedged (geometry : FixedGeometry block) {action : ReadSpinAction}
    (wedged : Wedged block spin.ring) (later : ReadSpins block entry after)
    (taken : (readSpinMachine block).step spin action = some after) : Wedged block after.ring := by
  cases action with
  | spin =>
    simp only [readSpinMachine, readSpinStep] at taken
    split at taken
    · obtain ⟨next, moved, rfl⟩ := Option.map_eq_some_iff.mp taken
      simp only [step] at moved
      split at moved <;> cases moved <;> exact { wedged with }
    · split at taken
      · split at taken <;> cases taken <;> exact wedged
      · obtain ⟨next, moved, rfl⟩ := Option.map_eq_some_iff.mp taken
        have frame := readerStep_frame spins.ahead.occupancy.reader moved
        have same : next.readPos = spin.ring.readPos := later.readPos.trans spins.readPos.symm
        refine ⟨frame.pending.trans wedged.free, ?_, ?_⟩
        · show next.commitPos = next.readPos
          rw [frame.commitPos, same]
          exact wedged.level
        · show next.writePos.toNat = next.readPos.toNat + _
          rw [frame.writePos, same]
          exact wedged.full
    · cases taken
  | producer action =>
    simp only [readSpinMachine, Option.ite_none_right_eq_some, Option.map_eq_some_iff] at taken
    obtain ⟨acts, next, moved, rfl⟩ := taken
    exact wedged_step geometry spins.ahead wedged acts moved

end Steps

section Publishing

/-- A step of the producer with its front in range. -/
structure Producing (block : ControlBlock) (before : State) (action : Action) (after : State) : Prop
    extends Disciplined block before action after where
  acts : action.actor = .producer

/-- The producer can bring it about that a slot is published which the consumer has not
passed. -/
def Publishes (block : ControlBlock) (ring : State) : Prop :=
  ∃ next, (machine block).Reachable (Producing block) ring next ∧
    next.readPos.toNat < next.commitPos.toNat

theorem Publishes.before (taken : step block ring action = some next)
    (acts : action.actor = .producer) (within : AdvanceWithin block ring action)
    (inRange : ring.writePos.toNat + (itemSize block).toNat < 2 ^ 64)
    (publishes : Publishes block next) : Publishes block ring := by
  obtain ⟨final, ⟨actions, run⟩, unread⟩ := publishes
  exact ⟨final, ⟨_, .next taken ⟨⟨within, inRange⟩, acts⟩ run⟩, unread⟩

/-- A producer with a slot outstanding can publish it. -/
theorem publishes_outstanding (guarded : ring.pending = true)
    (stop : ring.reservedEnd = ring.writePos)
    (beyond : ring.readPos.toNat < ring.writePos.toNat)
    (late : ring.writerPc.stepsLeft ≤ 3) (busy : ring.writerPc ≠ .bumpCommit)
    (inRange : ring.writePos.toNat + (itemSize block).toNat < 2 ^ 64) : Publishes block ring := by
  have stored (state : State) (here : state.writerPc = .storeCommit)
      (fronts : ring.toMeta.SameFronts state.toMeta) (end' : state.reservedEnd = ring.reservedEnd) :
      Publishes block state := by
    have taken : step block state .writer = some { state with
        commitPos := state.reservedEnd
        pending := false
        writerPc := .bumpCommit
        log := state.log.commit (state.reservedEnd - itemSize block) } := by
      simp only [step, writerStep, here]
    refine .before taken rfl trivial ?_ ⟨_, .refl _, ?_⟩
    · rw [fronts.writePos]
      exact inRange
    · show state.readPos.toNat < state.reservedEnd.toNat
      rw [fronts.readPos, end', stop]
      exact beyond
  cases here : ring.writerPc with
  | storeCommit => exact stored ring here ⟨rfl, rfl, rfl⟩ rfl
  | idle =>
    have called : step block ring (.call .commit) = some { ring with writerPc := .storeCommit } := by
      simp [step, here, State.beginCommit, guarded]
    exact .before called rfl trivial inRange (stored _ rfl ⟨rfl, rfl, rfl⟩ rfl)
  | copy source write =>
    have copied : step block ring .writer = some { ring with
        data := ring.data.write (indexOf block write) (source.data.read 0 source.size.toNat)
        log := ring.log.fill 0 (source.data.read 0 source.size.toNat)
        writerPc := .storeCommit } := by
      simp [step, writerStep, here, State.beginCommit, guarded]
    exact .before copied rfl trivial inRange (stored _ rfl ⟨rfl, rfl, rfl⟩ rfl)
  | bumpCommit => exact absurd here busy
  | loadWrite _ | loadRead _ _ | storeWrite _ _ => simp [here, WriterPc.stepsLeft] at late

section Open

variable (geometry : FixedGeometry block) (fronts : Fronts block ring)
  (room : ring.writePos.toNat < ring.readPos.toNat + block.dataCapacity.toNat)
  (inRange : ring.writePos.toNat + 2 * (itemSize block).toNat < 2 ^ 64)
include geometry fronts inRange

theorem publishes_storeWrite (source : Option Source) :
    Publishes block { ring with writerPc := .storeWrite source ring.writePos } := by
  have positive := geometry.positive
  have ordered := Nat.le_trans fronts.consumed fronts.published
  have sum : (ring.writePos + itemSize block).toNat =
      ring.writePos.toNat + (itemSize block).toNat := toNat_add (by omega)
  let state : State := { ring with writerPc := .storeWrite source ring.writePos }
  have late := afterReserve_stepsLeft (state.storeWrite block ring.writePos) source ring.writePos
  have quiet := bumping_afterReserve (state.storeWrite block ring.writePos) source ring.writePos
  have taken : step block state .writer =
      some ((state.storeWrite block ring.writePos).afterReserve source ring.writePos) := rfl
  obtain ⟨pc, moved⟩ := afterReserve_eq (state.storeWrite block ring.writePos) source ring.writePos
  rw [moved] at late quiet taken
  refine .before taken rfl trivial (by dsimp only [state]; omega) (publishes_outstanding rfl rfl ?_
    late ?_ ?_)
  · show ring.readPos.toNat < (ring.writePos + itemSize block).toNat
    omega
  · rintro rfl
    cases quiet
  · show (ring.writePos + itemSize block).toNat + (itemSize block).toNat < 2 ^ 64
    omega

include room

theorem publishes_loadRead (source : Option Source) :
    Publishes block { ring with writerPc := .loadRead source ring.writePos } := by
  have notFull : ¬ (ring.writePos % block.dataCapacity = ring.readPos % block.dataCapacity ∧
      ring.writePos > ring.readPos) := by
    rw [full_iff geometry fronts]
    intro lap
    have ordered := Nat.le_trans fronts.consumed fronts.published
    have apart := congrArg UInt64.toNat lap
    rw [toNat_sub ordered] at apart
    omega
  have tested : step block { ring with writerPc := .loadRead source ring.writePos } .writer =
      some { ring with writerPc := .storeWrite source ring.writePos } := by
    simp only [step, writerStep]
    rw [if_neg notFull]
  exact .before tested rfl trivial (by dsimp only; omega)
    (publishes_storeWrite geometry fronts inRange source)

theorem publishes_loadWrite (source : Option Source) :
    Publishes block { ring with writerPc := .loadWrite source } := by
  have loaded : step block { ring with writerPc := .loadWrite source } .writer =
      some { ring with writerPc := .loadRead source ring.writePos } := rfl
  exact .before loaded rfl trivial (by dsimp only; omega)
    (publishes_loadRead geometry fronts room inRange source)

theorem publishes_idle (free : ring.pending = false) :
    Publishes block { ring with writerPc := .idle } := by
  have called : step block { ring with writerPc := .idle } (.call .tryReserve) =
      some { ring with writerPc := .loadWrite none } := by
    simp [step, State.beginReserve, free]
  exact .before called rfl trivial (by dsimp only; omega)
    (publishes_loadWrite geometry fronts room inRange none)

end Open

/-- In a ring that is not wedged something is unread or can still be published. -/
theorem publishes_of_unwedged (geometry : FixedGeometry block) (ahead : Ahead block ring)
    (inRange : ring.writePos.toNat + 2 * (itemSize block).toNat < 2 ^ 64)
    (unwedged : ¬ Wedged block ring) : Publishes block ring := by
  have fronts := ahead.occupancy.fronts
  have writer := ahead.occupancy.writer
  by_cases unread : ring.readPos.toNat < ring.commitPos.toNat
  · exact ⟨ring, .refl ring, unread⟩
  · have level : ring.commitPos = ring.readPos := by
      have consumed := fronts.consumed
      exact UInt64.toNat_inj.mp (by omega)
    cases guarded : ring.pending with
    | true =>
      have beyond := ahead.beyond guarded
      rw [level] at beyond
      cases here : ring.writerPc <;> simp only [WriterFronts, here, guarded] at writer
      case idle =>
        exact publishes_outstanding guarded (writer trivial) beyond (by simp [here, WriterPc.stepsLeft])
          (by simp [here]) (by omega)
      case copy | storeCommit =>
        exact publishes_outstanding guarded writer.2 beyond (by simp [here, WriterPc.stepsLeft])
          (by simp [here]) (by omega)
      all_goals simp at writer
    | false =>
      have bounded := fronts.bounded
      have room : ring.writePos.toNat < ring.readPos.toNat + block.dataCapacity.toNat := by
        refine Nat.lt_of_le_of_ne bounded fun full => unwedged ⟨guarded, level, full⟩
      have same {pc : WriterPc} (here : ring.writerPc = pc) : { ring with writerPc := pc } = ring := by
        rw [← here]
      cases here : ring.writerPc <;> simp only [WriterFronts, here] at writer
      case idle => exact same here ▸ publishes_idle geometry fronts room inRange guarded
      case loadWrite source =>
        exact same here ▸ publishes_loadWrite geometry fronts room inRange source
      case loadRead source write =>
        obtain ⟨-, rfl⟩ := writer
        exact same here ▸ publishes_loadRead geometry fronts room inRange source
      case storeWrite source write =>
        obtain ⟨-, rfl, -⟩ := writer
        exact same here ▸ publishes_storeWrite geometry fronts inRange source
      case bumpCommit =>
        let bumped : State := { ring with commitSeq := ring.commitSeq + 1 }
        have taken : step block ring .writer = some { bumped with writerPc := .idle } := by
          simp only [step, writerStep, here]
          rfl
        have idle : Publishes block { bumped with writerPc := .idle } :=
          publishes_idle geometry { fronts with } room inRange guarded
        exact idle.before taken rfl trivial (by omega)
      case copy | storeCommit => simp [guarded] at writer

end Publishing

section Returns

variable {spin after : ReadSpin}

/-- What the producer can do it can do beside the spinning consumer. -/
theorem reachable_besideReader (reached : (machine block).Reachable (Producing block) ring next)
    (here : spin.ring = ring) :
    (readSpinMachine block).Reachable (BesideReader block) spin { spin with ring := next } := by
  obtain ⟨actions, run⟩ := reached
  induction run generalizing spin with
  | done state =>
    subst here
    exact .refl spin
  | @next before between last action _ taken admitted _ ih =>
    subst here
    have moved : (readSpinMachine block).step spin (.producer action) =
        some { spin with ring := between } := by
      have stepped : step block spin.ring action = some between := taken
      simp [readSpinMachine, admitted.acts, stepped]
    obtain ⟨actions, rest⟩ : (readSpinMachine block).Reachable (BesideReader block)
        { spin with ring := between } { spin with ring := last } := ih rfl
    exact ⟨_, .next moved admitted.toDisciplined rest⟩

/-- A call that looks while a slot is published returns it. -/
theorem enter_returns (idle : spin.ring.readerPc = .idle) (here : spin.pc = .enter)
    (unread : spin.ring.readPos.toNat < spin.ring.commitPos.toNat) :
    ∃ after, (readSpinMachine block).Reachable (BesideReader block) spin after ∧
      after.pc = .returned := by
  have ahead : ¬ spin.ring.commitPos ≤ spin.ring.readPos := by
    rw [UInt64.le_iff_toNat_le]
    omega
  have begun : (readSpinMachine block).step spin .spin = some { spin with
      ring := { spin.ring with readerPc := .loadRead none }, pc := .reading } := by
    simp [readSpinMachine, readSpinStep, here, step, idle]
  have looked : (readSpinMachine block).step { spin with
      ring := { spin.ring with readerPc := .loadCommit none spin.ring.readPos }
      pc := .reading } .spin = some { spin with
        ring := { spin.ring with
          slot := some (indexOf block spin.ring.readPos)
          outSize := (itemSize block).toUInt32
          readerPc := .idle
          log := spin.ring.log.view spin.ring.readPos }
        pc := .reading } := by
    simp only [readSpinMachine, readSpinStep, ReaderPc.isIdle, step, readerStep]
    rw [if_neg ahead]
    rfl
  exact ⟨_, ⟨List.replicate 4 .spin, .next begun trivial (.next rfl trivial (.next looked trivial
    (.next rfl trivial (.done _))))⟩, rfl⟩

/-- The consumer's own steps bring a call to its end while a slot is published. -/
theorem look_returns (spins : ReadSpins block entry spin)
    (unread : spin.ring.readPos.toNat < spin.ring.commitPos.toNat) :
    ∃ after, (readSpinMachine block).Reachable (BesideReader block) spin after ∧
      after.pc = .returned := by
  cases here : spin.pc with
  | enter => exact enter_returns (by simpa [Looking, here] using spins.looking) here unread
  | returned => exact ⟨spin, .refl spin, here⟩
  | reading =>
    induction left : spin.ring.readerPc.stepsLeft using Nat.strong_induction_on generalizing spin with
    | _ count ih =>
      by_cases idle : spin.ring.readerPc = .idle
      · by_cases found : spin.ring.slot.isSome = true
        · have ended : (readSpinMachine block).step spin .spin = some { spin with pc := .returned } := by
            simp [readSpinMachine, readSpinStep, here, idle, ReaderPc.isIdle, found]
          exact ⟨_, ⟨_, .next ended trivial (.done _)⟩, rfl⟩
        · have paused : (readSpinMachine block).step spin .spin =
              some { spin with backoff := spin.backoff.pause, pc := .enter } := by
            simp [readSpinMachine, readSpinStep, here, idle, ReaderPc.isIdle, found]
          obtain ⟨after, ⟨actions, run⟩, returned⟩ : ∃ after, (readSpinMachine block).Reachable
              (BesideReader block) { spin with backoff := spin.backoff.pause, pc := .enter } after ∧
                after.pc = .returned := enter_returns idle rfl unread
          exact ⟨after, ⟨_, .next paused trivial run⟩, returned⟩
      · obtain ⟨next, taken⟩ : ∃ next, step block spin.ring .reader = some next :=
          reader_enabled idle
        have frame := readerStep_frame spins.ahead.occupancy.reader taken
        have later := readSpins_reader spins here taken
        have busy : spin.ring.readerPc.isIdle ≠ true := fun rests => idle (ReaderPc.isIdle_iff.mp rests)
        have moved : (readSpinMachine block).step spin .spin = some { spin with ring := next } := by
          simp [readSpinMachine, readSpinStep, here, busy, taken]
        have ahead : next.readPos.toNat < next.commitPos.toNat := by
          have same : next.readPos = spin.ring.readPos := later.readPos.trans spins.readPos.symm
          rw [same, frame.commitPos]
          exact unread
        obtain ⟨after, ⟨actions, run⟩, returned⟩ :=
          ih _ (left ▸ readerStep_stepsLeft taken) later ahead here rfl
        exact ⟨after, ⟨_, .next moved trivial run⟩, returned⟩

end Returns

theorem reachable_ahead (geometry : FixedGeometry block) {data : Memory}
    (fresh : Meta.SameFronts {} block.rbMeta)
    (reached : (machine block).Reachable (Disciplined block) (initial block data) ring) :
    Ahead block ring :=
  reached.invariant (Ahead block) ⟨occupancy_initial data fresh, nofun⟩
    fun _ _ _ ahead admitted taken => ahead_step geometry ahead admitted taken

/-- At every moment of a call of `spin_until_read`, beside any producers that come and go:
the call can still return if and only if the ring is not wedged; and what it returns is the
oldest slot, which is published. -/
theorem spin_until_read_returns_iff {data : Memory} {backoff : AtomicBackoff}
    {actions : List ReadSpinAction} {spin : ReadSpin} (valid : isValidFixedRing block = true)
    (fresh : Meta.SameFronts {} block.rbMeta)
    (reached : (machine block).Reachable (Disciplined block) (initial block data) ring)
    (idle : ring.readerPc = .idle)
    (run : (readSpinMachine block).Run (BesideReader block) { ring, backoff } actions spin)
    (inRange : spin.ring.writePos.toNat + 2 * (itemSize block).toNat < 2 ^ 64) :
    ((∃ after, (readSpinMachine block).Reachable (BesideReader block) spin after ∧
      after.pc = .returned) ↔ ¬ Wedged block spin.ring) ∧
    (spin.pc = .returned → Seen block ring spin.ring) := by
  have geometry := fixedGeometry_of_valid valid
  have spins : ReadSpins block ring spin :=
    run.preserves (ReadSpins block ring)
      (fun _ _ _ spins admitted taken => readSpins_step spins geometry admitted taken)
      ⟨reachable_ahead geometry fresh reached, rfl, idle⟩
  have seen {after : ReadSpin} (spins : ReadSpins block ring after) (returned : after.pc = .returned) :
      Seen block ring after.ring := by
    have looking := spins.looking
    simp only [Looking, returned] at looking
    exact looking.2
  refine ⟨⟨?_, ?_⟩, seen spins⟩
  · rintro ⟨after, ⟨more, rest⟩, returned⟩ wedged
    have stuck : ReadSpins block ring after ∧ Wedged block after.ring := by
      refine rest.preserves (fun state => ReadSpins block ring state ∧ Wedged block state.ring) ?_
        ⟨spins, wedged⟩
      rintro before action next ⟨spins, wedged⟩ admitted taken
      have later := readSpins_step spins geometry admitted taken
      exact ⟨later, readSpins_wedged spins geometry wedged later taken⟩
    have published := (seen stuck.1 returned).published
    have level := congrArg UInt64.toNat (stuck.2.level.trans stuck.1.readPos)
    have positive := geometry.positive
    omega
  · intro unwedged
    obtain ⟨next, published, unread⟩ := publishes_of_unwedged geometry spins.ahead inRange unwedged
    obtain ⟨more, rest⟩ : (readSpinMachine block).Reachable (BesideReader block) spin
        { spin with ring := next } := reachable_besideReader published rfl
    have later : ReadSpins block ring { spin with ring := next } :=
      rest.preserves (ReadSpins block ring)
        (fun _ _ _ spins admitted taken => readSpins_step spins geometry admitted taken) spins
    obtain ⟨after, ⟨last, final⟩, returned⟩ := look_returns later unread
    exact ⟨after, ⟨_, rest.append final⟩, returned⟩

/-- Beside a producer that crashes with each of the two slots reserved, the consumer looks in
vain for ever; one that still has its second slot outstanding can end the wait. -/
theorem spin_until_read_returns_iff_crashed : ∃ waiting stuck actions,
    (readSpinMachine sampleBlock).Run (BesideReader sampleBlock)
      { ring := initial sampleBlock fun _ => 0 } actions waiting ∧
    (readSpinMachine sampleBlock).step waiting (.producer .restart) = some stuck ∧
    (∃ after, (readSpinMachine sampleBlock).Reachable (BesideReader sampleBlock) waiting after ∧
      after.pc = .returned) ∧
    ¬ ∃ after, (readSpinMachine sampleBlock).Reachable (BesideReader sampleBlock) stuck after ∧
      after.pc = .returned := by
  let actions : List ReadSpinAction := List.replicate 4 .spin ++
    .producer (.call .tryReserve) :: List.replicate 3 (.producer .writer) ++ .producer .restart ::
    .producer (.call .tryReserve) :: List.replicate 3 (.producer .writer)
  obtain ⟨waiting, run, passed⟩ := (readSpinMachine sampleBlock).run_of_replay
    (BesideReader sampleBlock) { ring := initial sampleBlock fun _ => 0 } actions
    (fun spin => spin.ring.pending && decide (spin.ring.commitPos = 0) &&
      decide (spin.ring.readPos = 0) && decide (spin.ring.writePos = 32)) (by decide +kernel)
  simp only [Bool.and_eq_true, decide_eq_true_eq] at passed
  obtain ⟨⟨⟨guarded, unpublished⟩, unread⟩, front⟩ := passed
  have crashed : (readSpinMachine sampleBlock).step waiting (.producer .restart) =
      some { waiting with ring := waiting.ring.restart } := by
    simp [readSpinMachine, Action.actor, step]
  have inRange : waiting.ring.writePos.toNat + (itemSize sampleBlock).toNat < 2 ^ 64 := by
    rw [front]
    decide
  have roomy : waiting.ring.writePos.toNat + 2 * (itemSize sampleBlock).toNat < 2 ^ 64 := by
    rw [front]
    decide
  refine ⟨waiting, _, actions, run, crashed, ?_, ?_⟩
  · refine (spin_until_read_returns_iff (by decide) ⟨rfl, rfl, rfl⟩ (.refl _) rfl run roomy).1.mpr ?_
    intro wedged
    exact absurd wedged.free (by simp [guarded])
  · have stops := spin_until_read_returns_iff (by decide) ⟨rfl, rfl, rfl⟩ (.refl _) rfl
      (run.append (.next crashed ⟨trivial, inRange⟩ (.done _))) roomy
    intro returns
    refine stops.1.mp returns ⟨rfl, ?_, ?_⟩
    · exact unpublished.trans unread.symm
    · show waiting.ring.writePos.toNat = waiting.ring.readPos.toNat + _
      rw [front, unread]
      rfl

end SpscRing.Fixed
