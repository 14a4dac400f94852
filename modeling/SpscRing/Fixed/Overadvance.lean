import SpscRing.Fixed.Occupancy
import SpscRing.Fixed.Sessions

/-! A consumer that advances past what is published. `read_advance` checks nothing, so its
front may overtake the producer's; the slots it has jumped over are skipped when they come. -/

namespace SpscRing.Fixed

open SpscRing.Foundation

section Definitions

variable (block : ControlBlock)

/-- `write` copies no more than a slot. -/
def WriteSized : Action → Prop
  | .call (.write _ size) => size.toNat ≤ (itemSize block).toNat
  | _ => True

instance (action : Action) : Decidable (WriteSized block action) :=
  match action with
  | .call (.write _ size) => inferInstanceAs (Decidable (size.toNat ≤ (itemSize block).toNat))
  | .call .tryReserve | .call .commit | .fill _ _ | .writer | .restart | .read _ | .reader =>
    .isTrue trivial

/-- One producer session, and a consumer that may advance by any number of slots. -/
structure Unchecked (before : State) (action : Action) (after : State) : Prop where
  sized : WriteSized block action
  advance : AdvanceInRange block before action
  unwrapped : NoWrap block before
  single : action ≠ .restart

instance (before : State) (action : Action) (after : State) :
    Decidable (Unchecked block before action after) :=
  decidable_of_iff (WriteSized block action ∧ AdvanceInRange block before action ∧
      NoWrap block before ∧ action ≠ .restart)
    ⟨fun ⟨sized, advance, unwrapped, single⟩ => ⟨sized, advance, unwrapped, single⟩,
      fun ⟨sized, advance, unwrapped, single⟩ => ⟨sized, advance, unwrapped, single⟩⟩

/-- The ring as it would be with the consumer elsewhere and at rest. -/
def State.detach (state : State) (read : UInt64) : State :=
  { state with readPos := read, readerPc := .idle }

/-- Where a consumer would be that stops at the published front. -/
def State.behind (state : State) : UInt64 :=
  if state.commitPos < state.readPos then state.commitPos else state.readPos

/-- The invariant of a ring whose consumer may be ahead: to the producer it is as if the
consumer had stopped at the published front. -/
structure Loose (state : State) : Prop where
  inv : Inv block (state.detach state.behind)
  ledger : Ledger block state

/-- What an unchecked consumer cannot break. -/
structure Survives (state : State) : Prop where
  published : state.commitPos.toNat ≤ state.writePos.toNat
  bounded : state.writePos.toNat ≤ state.readPos.toNat + block.dataCapacity.toNat
  outstanding : state.writePos.toNat ≤ state.commitPos.toNat + (itemSize block).toNat
  viewed : Viewed block state
  caught : state.readPos ≤ state.commitPos → state.readerPc = .idle → Inv block state

end Definitions

variable {block : ControlBlock} {state before after : State} {read : UInt64}

theorem toNat_behind (state : State) :
    state.behind.toNat = min state.commitPos.toNat state.readPos.toNat := by
  unfold State.behind
  split
  · rename_i ahead
    rw [UInt64.lt_iff_toNat_lt] at ahead
    omega
  · rename_i near
    rw [UInt64.lt_iff_toNat_lt] at near
    omega

theorem behind_eq_of_le (near : state.readPos ≤ state.commitPos) : state.behind = state.readPos := by
  rw [State.behind, if_neg (UInt64.not_lt.mpr near)]

theorem toNat_advance {count : UInt64}
    (inRange : state.readPos.toNat + count.toNat * (itemSize block).toNat < 2 ^ 64) :
    (state.readPos + count * itemSize block).toNat =
      state.readPos.toNat + count.toNat * (itemSize block).toNat := by
  have product : (count * itemSize block).toNat = count.toNat * (itemSize block).toNat :=
    toNat_mul (by omega)
  rw [toNat_add (by omega), product]

/-- A resting consumer moves up within the published slots. -/
theorem Inv.raise {moved : UInt64} (inv : Inv block (state.detach read))
    (forward : read.toNat ≤ moved.toNat) (published : moved.toNat ≤ state.commitPos.toNat)
    (whole : (itemSize block).toNat ∣ moved.toNat) : Inv block (state.detach moved) where
  fronts :=
    { inv.fronts with
      consumed := published
      bounded := Nat.le_trans inv.fronts.bounded (Nat.add_le_add_right forward _)
      readWhole := whole }
  writer := inv.writer.reader forward
  reader := trivial
  viewed := inv.viewed

section Detach

variable (state read)

theorem detach_beginCommit :
    (state.detach read).beginCommit = state.beginCommit.detach read := by
  unfold State.beginCommit
  split <;> simp_all [State.detach]

theorem detach_beginReserve (source : Option Source) :
    (state.detach read).beginReserve source = (state.beginReserve source).detach read := by
  unfold State.beginReserve
  split <;> simp_all [State.detach]

theorem detach_afterReserve (source : Option Source) (write : UInt64) :
    (state.detach read).afterReserve source write = (state.afterReserve source write).detach read := by
  unfold State.afterReserve
  split
  · rfl
  · split
    · rfl
    · exact detach_beginCommit state read

end Detach

/-- The producer does the same with the consumer elsewhere, if its full test does. -/
theorem detach_writerStep
    (test : ∀ source write, before.writerPc = .loadRead source write →
      (write % block.dataCapacity = before.readPos % block.dataCapacity ∧ write > before.readPos ↔
        write % block.dataCapacity = read % block.dataCapacity ∧ write > read))
    (taken : writerStep block before = some after) :
    writerStep block (before.detach read) = some (after.detach read) := by
  have pc : (before.detach read).writerPc = before.writerPc := rfl
  cases here : before.writerPc with
  | idle => simp [writerStep, here] at taken
  | loadRead source write =>
    have same := test source write here
    simp only [writerStep, here] at taken
    simp only [writerStep, pc, here]
    split at taken
    · rename_i full
      cases taken
      exact if_pos (same.mp full)
    · rename_i free
      cases taken
      exact if_neg (mt same.mpr free)
  | storeWrite source write =>
    simp only [writerStep, here] at taken
    simp only [writerStep, pc, here]
    cases taken
    exact congrArg some (detach_afterReserve (before.storeWrite block write) read source write)
  | copy source write =>
    simp only [writerStep, here] at taken
    simp only [writerStep, pc, here]
    cases taken
    exact congrArg some (detach_beginCommit { before with
      data := before.data.write (indexOf block write) (source.data.read 0 source.size.toNat)
      log := before.log.fill 0 (source.data.read 0 source.size.toNat) } read)
  | loadWrite _ | storeCommit | bumpCommit =>
    simp only [writerStep, here] at taken
    simp only [writerStep, pc, here]
    cases taken
    rfl

/-- An action of the producer within one session. -/
def Action.isProducer : Action → Bool
  | .call _ | .fill _ _ | .writer => true
  | .restart | .read _ | .reader => false

theorem detach_step {action : Action} (acts : action.isProducer = true)
    (test : ∀ source write, before.writerPc = .loadRead source write →
      (write % block.dataCapacity = before.readPos % block.dataCapacity ∧ write > before.readPos ↔
        write % block.dataCapacity = read % block.dataCapacity ∧ write > read))
    (taken : step block before action = some after) :
    step block (before.detach read) action = some (after.detach read) ∧
      after.readPos = before.readPos := by
  have pc : (before.detach read).writerPc = before.writerPc := rfl
  cases action with
  | call call =>
    simp only [step] at taken
    split at taken
    · rename_i idle
      cases taken
      obtain ⟨pc, reserved, quiet⟩ := beginReserve_eq before none
      refine ⟨?_, by rw [quiet]⟩
      simp only [step, State.detach, idle]
      exact congrArg some (detach_beginReserve before read none)
    · rename_i data size idle
      cases taken
      obtain ⟨pc, reserved, quiet⟩ := beginReserve_eq before (some ⟨data, size⟩)
      refine ⟨?_, by rw [quiet]⟩
      simp only [step, State.detach, idle]
      exact congrArg some (detach_beginReserve before read (some ⟨data, size⟩))
    · rename_i idle
      cases taken
      obtain ⟨pc, quiet⟩ := beginCommit_eq before
      refine ⟨?_, by rw [quiet]⟩
      simp only [step, State.detach, idle]
      exact congrArg some (detach_beginCommit before read)
    · cases taken
  | fill offset bytes =>
    simp only [step] at taken
    split at taken
    · rename_i idle
      split at taken
      · rename_i fits
        cases taken
        refine ⟨?_, rfl⟩
        simp only [step, pc, idle]
        exact if_pos fits
      · cases taken
    · cases taken
  | writer => exact ⟨detach_writerStep test taken, writerStep_readPos taken⟩
  | restart | read _ | reader => cases acts

/-- The consumer may always be taken to have moved up to where it is. -/
theorem loose_follow (before : State) (inv : Inv block (after.detach before.behind)) (ledger : Ledger block after)
    (commitPos : before.commitPos.toNat ≤ after.commitPos.toNat)
    (readPos : before.readPos.toNat ≤ after.readPos.toNat) : Loose block after := by
  have earlier := toNat_behind before
  have later := toNat_behind after
  refine ⟨inv.raise (by omega) (by omega) ?_, ledger⟩
  unfold State.behind
  split
  · exact ledger.commitWhole
  · exact ledger.readWhole

/-- The consumer writes nothing the producer has written, wherever it advances to. -/
theorem consume_frame (reader : ReaderLedger block before)
    (taken : readerStep block before = some after) :
    after.data = before.data ∧ after.commitPos = before.commitPos ∧
      before.readPos.toNat ≤ after.readPos.toNat := by
  cases here : before.readerPc with
  | idle => simp [readerStep, here] at taken
  | loadRead _ | copyOut _ _ | bumpRead =>
    simp only [readerStep, here] at taken
    cases taken
    exact ⟨rfl, rfl, Nat.le_refl _⟩
  | loadCommit size read =>
    simp only [readerStep, here] at taken
    split at taken
    · cases taken
      exact ⟨rfl, rfl, Nat.le_refl _⟩
    · split at taken <;> cases taken <;> exact ⟨rfl, rfl, Nat.le_refl _⟩
  | fetchAdd count =>
    simp only [ReaderLedger, here] at reader
    simp only [readerStep, here] at taken
    cases taken
    refine ⟨rfl, rfl, ?_⟩
    dsimp only
    rw [toNat_advance reader]
    exact Nat.le_add_right _ _

section Steps

variable {action : Action} (geometry : FixedGeometry block) (loose : Loose block before)
include loose

/-- A consumer ahead of the producer and one at its front let it pass alike. -/
theorem Loose.test (source : Option Source) (write : UInt64)
    (here : before.writerPc = .loadRead source write) :
    (write % block.dataCapacity = before.readPos % block.dataCapacity ∧ write > before.readPos ↔
      write % block.dataCapacity = before.behind % block.dataCapacity ∧ write > before.behind) := by
  have writer := loose.inv.writer
  simp only [WriterOk, State.detach, here] at writer
  obtain ⟨settled, -, front⟩ := writer
  have equal : write = before.commitPos := front.trans settled.equal
  unfold State.behind
  split
  · rename_i ahead
    have passed : ¬ write > before.readPos := by
      rw [equal]
      exact UInt64.not_lt.mpr (UInt64.le_of_lt ahead)
    have level : ¬ write > before.commitPos := by
      rw [equal]
      exact UInt64.lt_irrefl _
    exact ⟨fun full => absurd full.2 passed, fun full => absurd full.2 level⟩
  · exact Iff.rfl

include geometry

/-- To the producer the consumer is one that stops at the published front. -/
theorem Loose.effect (acts : action.isProducer = true) (admitted : Unchecked block before action after)
    (taken : step block before action = some after) :
    Inv block (after.detach before.behind) ∧ after.readPos = before.readPos ∧
      Effect block (before.detach before.behind) (after.detach before.behind) := by
  obtain ⟨detached, readPos⟩ := detach_step acts loose.test taken
  have single : SingleSession block (before.detach before.behind) action
      (after.detach before.behind) := by
    refine ⟨?_, admitted.unwrapped, admitted.single⟩
    have sized := admitted.sized
    cases action with
    | call call =>
      cases call with
      | write data size => exact sized
      | tryReserve | commit => trivial
    | fill _ _ | writer => trivial
    | restart | read _ | reader => cases acts
  exact ⟨inv_step geometry loose.inv single detached, readPos,
    step_effect geometry loose.inv single detached⟩

omit geometry in
theorem loose_readerStep (ledger : Ledger block after)
    (taken : readerStep block before = some after) : Loose block after := by
  have reader := loose.ledger.reader
  cases here : before.readerPc with
  | idle => simp [readerStep, here] at taken
  | loadRead size | copyOut size read | bumpRead =>
    simp only [readerStep, here] at taken
    cases taken
    exact loose_follow before (loose.inv.look .idle trivial) ledger (Nat.le_refl _) (Nat.le_refl _)
  | loadCommit size read =>
    simp only [ReaderLedger, here] at reader
    subst reader
    simp only [readerStep, here] at taken
    split at taken
    · cases taken
      exact loose_follow before (loose.inv.look .idle trivial) ledger (Nat.le_refl _) (Nat.le_refl _)
    · rename_i unread
      have near : before.readPos ≤ before.commitPos := UInt64.le_of_lt (UInt64.not_le.mp unread)
      have below := Nat.not_le.mp (mt UInt64.le_iff_toNat_le.mpr unread)
      have whole := add_size_le loose.ledger.readWhole loose.ledger.commitWhole below
      have viewing (slot : Option Nat) (outSize : UInt32) : Inv block { before with
          slot, outSize, readerPc := .idle, log := before.log.view before.readPos } := by
        have inv := loose.inv
        rw [behind_eq_of_le near] at inv
        exact inv.view .idle trivial whole
      have same : before.behind = before.readPos := behind_eq_of_le near
      split at taken
      · cases taken
        refine loose_follow before ?_ ledger (Nat.le_refl _) (Nat.le_refl _)
        rw [same]
        exact viewing _ _
      · cases taken
        refine loose_follow before ?_ ledger (Nat.le_refl _) (Nat.le_refl _)
        rw [same]
        exact viewing _ _
  | fetchAdd count =>
    have frame := consume_frame loose.ledger.reader taken
    simp only [readerStep, here] at taken
    cases taken
    exact loose_follow before (loose.inv.look .idle trivial) ledger (Nat.le_refl _) frame.2.2

theorem loose_step (admitted : Unchecked block before action after)
    (taken : step block before action = some after) : Loose block after := by
  have item := Nat.le_of_dvd geometry.capacity geometry.divides
  have clean : CleanSessions block before action after :=
    ⟨admitted.unwrapped, admitted.advance, fun restart => absurd restart admitted.single⟩
  have ledger := ledger_step item loose.ledger clean taken
  cases acts : action.isProducer with
  | true =>
    obtain ⟨inv, readPos, effect⟩ := loose.effect geometry acts admitted taken
    have advanced := (effect.advanced loose.inv).commitPos
    exact loose_follow before inv ledger (UInt64.le_iff_toNat_le.mp advanced) (by rw [readPos])
  | false =>
    cases action with
    | read call =>
      simp only [step] at taken
      split at taken <;> cases taken <;> exact ⟨loose.inv, ledger⟩
    | reader => exact loose_readerStep loose ledger taken
    | restart => exact absurd rfl admitted.single
    | call _ | fill _ _ | writer => cases acts

/-- What a step leaves behind: the fronts do not move back, and neither side touches a
slot that is published and not yet consumed. -/
theorem loose_kept (admitted : Unchecked block before action after)
    (taken : step block before action = some after) :
    before.readPos.toNat ≤ after.readPos.toNat ∧ before.commitPos.toNat ≤ after.commitPos.toNat ∧
      ∀ position : UInt64, before.readPos.toNat ≤ position.toNat →
        position.toNat + (itemSize block).toNat ≤ before.commitPos.toNat →
          after.slotAt block position = before.slotAt block position := by
  cases acts : action.isProducer with
  | true =>
    obtain ⟨-, readPos, effect⟩ := loose.effect geometry acts admitted taken
    refine ⟨by rw [readPos], UInt64.le_iff_toNat_le.mp (effect.advanced loose.inv).commitPos, ?_⟩
    intro position unread published
    have nearer := toNat_behind before
    have behind : before.behind.toNat ≤ position.toNat := by omega
    have same := effect.slotAt loose.inv behind published
    exact same
  | false =>
    obtain ⟨data, commitPos, readPos⟩ : after.data = before.data ∧
        after.commitPos = before.commitPos ∧ before.readPos.toNat ≤ after.readPos.toNat := by
      cases action with
      | read call =>
        simp only [step] at taken
        split at taken <;> cases taken <;> exact ⟨rfl, rfl, Nat.le_refl _⟩
      | reader => exact consume_frame loose.ledger.reader taken
      | restart => exact absurd rfl admitted.single
      | call _ | fill _ _ | writer => cases acts
    refine ⟨readPos, by rw [commitPos], fun position _ _ => ?_⟩
    rw [State.slotAt, data, State.slotAt]

end Steps

section Runs

variable {actions : List Action} {position : UInt64} (geometry : FixedGeometry block)
include geometry

theorem loose_run_readPos (run : (machine block).Run (Unchecked block) before actions after)
    (initially : Loose block before) : before.readPos.toNat ≤ after.readPos.toNat := by
  refine (run.framed (fun first second => first.readPos.toNat ≤ second.readPos.toNat) (Loose block)
    (fun _ => Nat.le_refl _) Nat.le_trans ?_ initially).2
  intro state action next loose admitted taken
  exact ⟨loose_step geometry loose admitted taken, (loose_kept geometry loose admitted taken).1⟩

/-- A published slot keeps its bytes until the consumer advances past it. -/
theorem loose_run_slotAt (run : (machine block).Run (Unchecked block) before actions after)
    (initially : Loose block before)
    (published : position.toNat + (itemSize block).toNat ≤ before.commitPos.toNat)
    (unread : after.readPos.toNat ≤ position.toNat) :
    after.slotAt block position = before.slotAt block position := by
  induction run with
  | done state => rfl
  | next taken admitted rest ih =>
    obtain ⟨readPos, commitPos, same⟩ := loose_kept geometry initially admitted taken
    have later := loose_step geometry initially admitted taken
    have onward := loose_run_readPos geometry rest later
    exact (ih later (by omega) unread).trans (same position (by omega) published)

end Runs

theorem loose_initial (data : Memory) (fresh : block.rbMeta = {}) :
    Loose block (initial block data) := by
  refine ⟨?_, ledger_initial data fresh⟩
  have behind : (initial block data).behind = (initial block data).readPos := by
    rw [initial, fresh]
    rfl
  rw [behind]
  exact inv_initial data fresh

/-- At most one slot is reserved beyond the published ones. -/
theorem Inv.outstanding_le (inv : Inv block state) :
    state.writePos.toNat ≤ state.commitPos.toNat + (itemSize block).toNat := by
  have writer := inv.writer
  have settled (resting : Settled state) :
      state.writePos.toNat ≤ state.commitPos.toNat + (itemSize block).toNat := by
    rw [resting.equal]
    exact Nat.le_add_right _ _
  cases here : state.writerPc <;> simp only [WriterOk, here] at writer
  case idle =>
    rcases writer with resting | outstanding
    · exact settled resting
    · exact Nat.le_of_eq outstanding.reserved
  case copy => exact Nat.le_of_eq writer.1.reserved
  case storeCommit => exact Nat.le_of_eq writer.reserved
  case bumpCommit => exact settled writer
  all_goals exact settled writer.1

theorem Loose.survives (loose : Loose block state) : Survives block state where
  published := loose.inv.fronts.published
  bounded := by
    have bounded : state.writePos.toNat ≤ state.behind.toNat + block.dataCapacity.toNat :=
      loose.inv.fronts.bounded
    have behind := toNat_behind state
    omega
  outstanding := loose.inv.outstanding_le
  viewed := loose.inv.viewed
  caught near idle := by
    have inv := loose.inv
    have same : state.detach state.behind = state := by
      rw [behind_eq_of_le near, State.detach, ← idle]
    rwa [same] at inv

/-- Whatever counts the consumer passes to `read_advance`, short of carrying its front past
the 64-bit range, the producer never overwrites a slot that is published and not consumed,
`try_read` hands out published slots only, and once the producer has published what the
consumer jumped over, the ring is again as if nothing had happened. -/
theorem fixed_overadvance_survives {header : ControlBlock} {capacity : UInt64}
    {alignment item : UInt32} {data : Memory}
    (accepted : initControlBlock header capacity .fixed alignment item = some block)
    (valid : isValidFixedRing block = true)
    (reached : (machine block).Reachable (Unchecked block) (initial block data) state) :
    Survives block state ∧ ∀ more later position,
      (machine block).Run (Unchecked block) state more later →
        (itemSize block).toNat ∣ position.toNat → position < state.commitPos →
          later.readPos ≤ position → later.slotAt block position = state.slotAt block position := by
  obtain ⟨-, fresh, -⟩ := initControlBlock_accepted accepted
  have geometry := fixedGeometry_of_valid valid
  have loose := reached.invariant (Loose block) (loose_initial data fresh)
    fun _ _ _ loose => loose_step geometry loose
  refine ⟨loose.survives, ?_⟩
  intro more later position run whole published unread
  have slot := add_size_le whole loose.ledger.commitWhole (UInt64.lt_iff_toNat_lt.mp published)
  exact loose_run_slotAt geometry run loose slot (UInt64.le_iff_toNat_le.mp unread)

/-- A consumer advances by two slots on an empty ring: it is handed the third message. -/
theorem fixed_overadvance_survives_skipped : ∃ state,
    (machine sampleBlock).Reachable (Unchecked sampleBlock) (initial sampleBlock fun _ => 0) state ∧
      state.log.views = [32] ∧ Survives sampleBlock state := by
  obtain ⟨state, run, viewed⟩ := (machine sampleBlock).run_of_replay (Unchecked sampleBlock)
    (initial sampleBlock fun _ => 0)
    (.read (.readAdvance 2) :: .reader :: .reader ::
      .call (.write (fun _ => 7) 16) :: List.replicate 6 .writer ++
      .call (.write (fun _ => 8) 16) :: List.replicate 6 .writer ++
      [.read .tryRead, .reader, .reader] ++
      .call (.write (fun _ => 9) 16) :: List.replicate 6 .writer ++
      [.read .tryRead, .reader, .reader])
    (fun state => state.log.views == [32]) (by decide +kernel)
  exact ⟨state, ⟨_, run⟩, by simpa using viewed,
    (fixed_overadvance_survives sampleBlock_accepted (by decide) ⟨_, run⟩).1⟩

end SpscRing.Fixed
