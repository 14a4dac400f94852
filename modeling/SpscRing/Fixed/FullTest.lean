import SpscRing.Fixed.Occupancy

/-! The full test of `try_reserve`: what it decides, and with what the call then returns,
whatever the consumer does meanwhile. -/

namespace SpscRing.Fixed

open SpscRing.Foundation

/-- What may happen while a call of the producer is under way. -/
def Action.BesideCall : Action → Prop
  | .writer | .read _ | .reader => True
  | .call _ | .fill _ _ | .restart => False

/-- The steps a call of the producer can still take. -/
def WriterPc.stepsLeft : WriterPc → Nat
  | .idle => 0
  | .loadWrite _ => 6
  | .loadRead _ _ => 5
  | .storeWrite _ _ => 4
  | .copy _ _ => 3
  | .storeCommit => 2
  | .bumpCommit => 1

/-- A step of the producer. -/
def Action.isWriter : Action → Bool
  | .writer => true
  | .call _ | .fill _ _ | .restart | .read _ | .reader => false

instance Action.decidableBesideCall (action : Action) : Decidable action.BesideCall :=
  match action with
  | .writer | .read _ | .reader => .isTrue trivial
  | .call _ | .fill _ _ | .restart => .isFalse id

section Definitions

variable (block : ControlBlock)

/-- A step of a call of the producer, or of the consumer beside it. -/
structure During (before : State) (action : Action) (after : State) : Prop
    extends Disciplined block before action after where
  beside : action.BesideCall

instance (before : State) (action : Action) (after : State) :
    Decidable (During block before action after) :=
  decidable_of_iff (Disciplined block before action after ∧ action.BesideCall)
    ⟨fun ⟨disciplined, beside⟩ => ⟨disciplined, beside⟩, fun admitted =>
      ⟨admitted.toDisciplined, admitted.beside⟩⟩

/-- A call that has passed the full test at the front `write`: it is about to store its
claim, or has the slot there. -/
def PassedAt (write : UInt64) (state : State) : Prop :=
  match state.writerPc with
  | .storeWrite _ front => front = write
  | .idle | .copy _ _ | .storeCommit | .bumpCommit => state.reserved = some (indexOf block write)
  | .loadWrite _ | .loadRead _ _ => False

/-- What `try_reserve` decides once it has loaded the reservation front `write`
and now loads `read_pos`: it returns the null pointer exactly when the ring is
one lap full, and otherwise the slot at `write`, which lies inside the region
and apart from every slot between the consumer's front, however far that has
moved, and `write`. -/
structure FullTestExact (state : State) (source : Option Source) (write : UInt64) : Prop where
  refuses : writerStep block state = some { state with reserved := none, writerPc := .idle } ↔
    write - state.readPos = block.dataCapacity
  claims : write - state.readPos ≠ block.dataCapacity →
    writerStep block state = some { state with writerPc := .storeWrite source write }
  returns : ∀ actions later, (machine block).Run (During block) state (.writer :: actions) later →
    later.writerPc = .idle → later.reserved =
      if write - state.readPos = block.dataCapacity then none else some (indexOf block write)
  settles : ∃ count later, (machine block).Run Machine.Always state
    (List.replicate count .writer) later ∧ later.writerPc = .idle
  inside : write - state.readPos ≠ block.dataCapacity →
    indexOf block write + (itemSize block).toNat ≤ block.dataCapacity.toNat
  apart : write - state.readPos ≠ block.dataCapacity →
    ∀ actions later, (machine block).Run (Disciplined block) state actions later →
      ∀ position : UInt64, (itemSize block).toNat ∣ position.toNat → later.readPos ≤ position →
        position < write → indexOf block position + (itemSize block).toNat ≤ indexOf block write ∨
          indexOf block write + (itemSize block).toNat ≤ indexOf block position

end Definitions

variable {block : ControlBlock} {state before after : State} {source : Option Source}
variable {write : UInt64}

section Local

variable (state source) (write : UInt64)

/-- After the reservation a call has at most its copy and its commit to make. -/
theorem afterReserve_stepsLeft : (state.afterReserve source write).writerPc.stepsLeft ≤ 3 := by
  unfold State.afterReserve State.beginCommit
  split
  · exact Nat.zero_le _
  · split
    · exact Nat.le_refl _
    · split <;> simp [WriterPc.stepsLeft]

theorem beginCommit_stepsLeft : state.beginCommit.writerPc.stepsLeft ≤ 2 := by
  unfold State.beginCommit
  split <;> simp [WriterPc.stepsLeft]

variable {state source write}

theorem passedAt_late {pc : WriterPc} (late : pc.stepsLeft ≤ 3)
    (reserved : state.reserved = some (indexOf block write)) :
    PassedAt block write { state with writerPc := pc } := by
  cases pc with
  | idle | copy _ _ | storeCommit | bumpCommit => exact reserved
  | loadWrite _ | loadRead _ _ | storeWrite _ _ => simp [WriterPc.stepsLeft] at late

end Local

/-- A step of the writer uses up one of the steps left. -/
theorem writerStep_stepsLeft (taken : writerStep block before = some after) :
    after.writerPc.stepsLeft + 1 ≤ before.writerPc.stepsLeft := by
  cases here : before.writerPc with
  | idle => simp [writerStep, here] at taken
  | loadWrite source | storeCommit | bumpCommit =>
    simp only [writerStep, here] at taken
    cases taken
    simp [WriterPc.stepsLeft]
  | loadRead source write =>
    simp only [writerStep, here] at taken
    split at taken <;> cases taken <;> simp [WriterPc.stepsLeft]
  | storeWrite source write =>
    simp only [writerStep, here] at taken
    cases taken
    exact Nat.succ_le_succ (afterReserve_stepsLeft _ source write)
  | copy source write =>
    simp only [writerStep, here] at taken
    cases taken
    exact Nat.succ_le_succ (beginCommit_stepsLeft _)

theorem writer_enabled (busy : state.writerPc ≠ .idle) :
    ∃ next, step block state .writer = some next := by
  simp only [step, writerStep]
  cases here : state.writerPc with
  | idle => exact absurd here busy
  | loadRead _ _ =>
    dsimp only
    split <;> exact ⟨_, rfl⟩
  | loadWrite _ | storeWrite _ _ | copy _ _ | storeCommit | bumpCommit => exact ⟨_, rfl⟩

/-- The producer alone brings its call to an end. -/
theorem writer_settles (block : ControlBlock) (state : State) :
    ∃ count later, (machine block).Run Machine.Always state (List.replicate count .writer) later ∧
      later.writerPc = .idle := by
  obtain ⟨count, later, run, stuck⟩ := (machine block).exists_stuck
    (fun _ action _ => action = .writer) (fun state => state.writerPc.stepsLeft) (fun _ => True)
    (fun _ _ _ _ _ _ => trivial)
    (by
      rintro before action after - rfl taken
      exact Nat.lt_of_succ_le (writerStep_stepsLeft taken))
    (fun _ => .writer) (fun _ _ _ => rfl) trivial
  have same : ((List.range count).map fun _ => Action.writer) = List.replicate count .writer := by
    simp
  rw [same] at run
  refine ⟨count, later, run.mono fun _ _ _ _ _ => trivial, ?_⟩
  by_contra busy
  obtain ⟨next, taken⟩ : ∃ next, step block later .writer = some next := writer_enabled busy
  exact absurd (taken.symm.trans stuck) (by simp)

theorem frame_of_beside {action : Action} (reader : ReaderOk block before)
    (beside : action.BesideCall) (taken : step block before action = some after) :
    writerStep block before = some after ∨ ConsumerFrame before after := by
  cases action with
  | writer => exact .inl taken
  | reader => exact .inr (readerStep_frame reader taken)
  | read call =>
    simp only [step] at taken
    split at taken <;> cases taken <;>
      exact .inr ⟨rfl, rfl, rfl, rfl, rfl, rfl, rfl, rfl, UInt64.le_refl _⟩
  | call _ | fill _ _ | restart => exact beside.elim

theorem PassedAt.consume (passed : PassedAt block write before) (frame : ConsumerFrame before after) :
    PassedAt block write after := by
  unfold PassedAt at passed ⊢
  rw [frame.writerPc, frame.reserved]
  exact passed

theorem passedAt_writerStep (passed : PassedAt block write before)
    (taken : writerStep block before = some after) : PassedAt block write after := by
  cases here : before.writerPc with
  | idle => simp [writerStep, here] at taken
  | loadWrite _ | loadRead _ _ => simp [PassedAt, here] at passed
  | storeWrite source front =>
    simp only [PassedAt, here] at passed
    subst passed
    simp only [writerStep, here, Option.some.injEq] at taken
    have late := afterReserve_stepsLeft (before.storeWrite block front) source front
    obtain ⟨pc, moved⟩ := afterReserve_eq (before.storeWrite block front) source front
    rw [taken] at late moved
    subst moved
    exact passedAt_late late rfl
  | copy source front =>
    simp only [PassedAt, here] at passed
    simp only [writerStep, here, Option.some.injEq] at taken
    have late := taken ▸ beginCommit_stepsLeft _
    obtain ⟨pc, moved⟩ := beginCommit_eq { before with
      data := before.data.write (indexOf block front) (source.data.read 0 source.size.toNat)
      log := before.log.fill 0 (source.data.read 0 source.size.toNat) }
    rw [here] at moved
    rw [taken] at moved
    subst moved
    exact passedAt_late (Nat.le_succ_of_le late) passed
  | storeCommit | bumpCommit =>
    simp only [PassedAt, here] at passed
    simp only [writerStep, here] at taken
    cases taken
    exact passed

/-- A call that holds its slot returns with it. -/
theorem passedAt_run (geometry : FixedGeometry block) {actions : List Action}
    (occupancy : Occupancy block before) (passed : PassedAt block write before)
    (run : (machine block).Run (During block) before actions after) : PassedAt block write after := by
  refine (run.preserves (fun state => Occupancy block state ∧ PassedAt block write state) ?_
    ⟨occupancy, passed⟩).2
  rintro state action next ⟨occupancy, passed⟩ admitted taken
  refine ⟨occupancy_step geometry occupancy admitted.toDisciplined taken, ?_⟩
  rcases frame_of_beside occupancy.reader admitted.beside taken with stepped | frame
  · exact passedAt_writerStep passed stepped
  · exact passed.consume frame

/-- While the producer is between two calls, only the consumer moves, and forward. -/
theorem resting_run (geometry : FixedGeometry block) {actions : List Action}
    (initially : Occupancy block before) (resting : before.writerPc = .idle)
    (run : (machine block).Run (During block) before actions after) :
    Occupancy block after ∧ ConsumerFrame before after := by
  have framed := run.framed ConsumerFrame
    (fun state => Occupancy block state ∧ state.writerPc = .idle) .refl .trans (by
      rintro state action next ⟨occupancy, idle⟩ admitted taken
      rcases frame_of_beside occupancy.reader admitted.beside taken with stepped | frame
      · simp [writerStep, idle] at stepped
      · exact ⟨⟨occupancy_step geometry occupancy admitted.toDisciplined taken,
          frame.writerPc.trans idle⟩, frame⟩) ⟨initially, resting⟩
  exact ⟨framed.1.1, framed.2⟩

/-- The modular full test of `try_reserve` is the plain occupancy test in every
interleaving, and decides what the call returns; a slot it grants overlaps nothing that is
still unread, for every value `read_pos` takes from there on. -/
theorem full_test_exact {data : Memory}
    (valid : isValidFixedRing block = true) (fresh : Meta.SameFronts {} block.rbMeta)
    (reached : (machine block).Reachable (Disciplined block) (initial block data) state)
    (here : state.writerPc = .loadRead source write) :
    FullTestExact block state source write := by
  have geometry := fixedGeometry_of_valid valid
  have occupancy := reachable_occupancy geometry fresh reached
  have fronts := occupancy.fronts
  have writer := occupancy.writer
  simp only [WriterFronts, here] at writer
  obtain ⟨-, rfl⟩ := writer
  have exactly := full_iff geometry fronts
  refine ⟨?_, ?_, ?_, writer_settles block state, fun _ => slot_inside geometry fronts.writeWhole, ?_⟩
  · rw [← exactly]
    simp only [writerStep, here]
    constructor
    · intro refused
      by_contra notFull
      rw [if_neg notFull, Option.some.injEq] at refused
      have stopped := congrArg State.writerPc refused
      cases stopped
    · intro full
      exact if_pos full
  · intro notFull
    simp only [writerStep, here]
    exact if_neg (mt exactly.mp notFull)
  · intro actions later run returned
    cases run with
    | next taken admitted rest =>
      have begun := occupancy_step geometry occupancy admitted.toDisciplined taken
      simp only [machine, step, writerStep, here, exactly] at taken
      split
      · rename_i full
        rw [if_pos full] at taken
        cases taken
        exact (resting_run geometry begun rfl rest).2.reserved
      · rename_i notFull
        rw [if_neg notFull] at taken
        cases taken
        have passed : PassedAt block state.writePos later := passedAt_run geometry begun rfl rest
        simpa only [PassedAt, returned] using passed
  · intro notFull actions later run position whole unread behind
    have room := free_slot geometry fronts (mt exactly.mp notFull)
    have forward := (run_advanced geometry run occupancy).2.readPos
    exact slot_apart whole fronts.writeWhole room (UInt64.le_trans forward unread) behind

/-- The reservation front that a `try_reserve` has loaded and not yet compared. -/
def WriterPc.loaded : WriterPc → Option UInt64
  | .loadRead none write => some write
  | _ => none

theorem WriterPc.loaded_eq_some {pc : WriterPc} {write : UInt64} :
    pc.loaded = some write ↔ pc = .loadRead none write := by
  cases pc with
  | loadRead source front => cases source <;> simp [loaded]
  | idle | loadWrite _ | storeWrite _ _ | copy _ _ | storeCommit | bumpCommit => simp [loaded]

/-- A ring of two slots, one of them taken, at the test of the next `try_reserve`. -/
theorem full_test_exact_half : ∃ state, (machine sampleBlock).Reachable (Disciplined sampleBlock)
      (initial sampleBlock fun _ => 0) state ∧ state.writerPc = .loadRead none 16 ∧
    FullTestExact sampleBlock state none 16 := by
  obtain ⟨state, run, passed⟩ := (machine sampleBlock).run_of_replay (Disciplined sampleBlock)
    (initial sampleBlock fun _ => 0)
    [.call (.write (fun _ => 7) 16), .writer, .writer, .writer, .writer, .writer, .writer,
      .call .tryReserve, .writer]
    (fun state => state.writerPc.loaded == some 16) (by decide)
  have here : state.writerPc = .loadRead none 16 :=
    WriterPc.loaded_eq_some.mp (beq_iff_eq.mp passed)
  exact ⟨state, ⟨_, run⟩, here, full_test_exact (by decide) ⟨rfl, rfl, rfl⟩ ⟨_, run⟩ here⟩

end SpscRing.Fixed
