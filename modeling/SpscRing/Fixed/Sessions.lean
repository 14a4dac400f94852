import SpscRing.Fixed.Refinement

/-! Producer sessions on a fixed ring: as long as each starts with nothing
outstanding, every slot handed out was committed by the session that reserved it. -/

namespace SpscRing.Fixed

open SpscRing.Foundation

section Predicates

variable (block : ControlBlock)

/-- `read_advance` does not carry the consumer's front past the 64-bit range. -/
def AdvanceInRange (state : State) : Action → Prop
  | .read (.readAdvance count) =>
    state.readPos.toNat + count.toNat * (itemSize block).toNat < 2 ^ 64
  | _ => True

instance (state : State) (action : Action) : Decidable (AdvanceInRange block state action) :=
  match action with
  | .read (.readAdvance count) => inferInstanceAs (Decidable
      (state.readPos.toNat + count.toNat * (itemSize block).toNat < 2 ^ 64))
  | .call _ | .fill _ _ | .writer | .restart | .read .tryRead | .read (.read _) | .reader =>
    .isTrue trivial

/-- The fronts do not wrap, and a new producer session starts only when
everything reserved has been published. -/
structure CleanSessions (before : State) (action : Action) (after : State) : Prop where
  unwrapped : NoWrap block before
  advance : AdvanceInRange block before action
  clean : action = .restart → before.writePos = before.commitPos

instance (before : State) (action : Action) (after : State) :
    Decidable (CleanSessions block before action after) :=
  decidable_of_iff (NoWrap block before ∧ AdvanceInRange block before action ∧
      (action = .restart → before.writePos = before.commitPos))
    ⟨fun ⟨unwrapped, advance, clean⟩ => ⟨unwrapped, advance, clean⟩,
      fun ⟨unwrapped, advance, clean⟩ => ⟨unwrapped, advance, clean⟩⟩

/-- The outstanding slot is the one this session reserved. -/
structure Held (state : State) : Prop where
  guarded : state.pending = true
  stop : state.reservedEnd = state.writePos
  reserved : state.writePos.toNat = state.commitPos.toNat + (itemSize block).toNat
  logged : ⟨state.log.session, state.commitPos⟩ ∈ state.log.reservations

def WriterLedger (state : State) : Prop :=
  match state.writerPc with
  | .idle => Settled state ∨ Held block state
  | .loadWrite _ | .bumpCommit => Settled state
  | .loadRead _ write | .storeWrite _ write => Settled state ∧ write = state.writePos
  | .copy _ _ | .storeCommit => Held block state

def ReaderLedger (state : State) : Prop :=
  match state.readerPc with
  | .idle | .loadRead _ | .bumpRead => True
  | .loadCommit _ read => read = state.readPos
  | .copyOut _ _ => state.readPos.toNat < state.commitPos.toNat
  | .fetchAdd count =>
    state.readPos.toNat + count.toNat * (itemSize block).toNat < 2 ^ 64

/-- Every slot below the published front was committed by its own session. -/
structure Ledger (state : State) : Prop where
  readWhole : (itemSize block).toNat ∣ state.readPos.toNat
  commitWhole : (itemSize block).toNat ∣ state.commitPos.toNat
  owned : ∀ position : UInt64, (itemSize block).toNat ∣ position.toNat →
    position.toNat < state.commitPos.toNat → state.log.OwnCommit position
  viewed : ∀ position ∈ state.log.views, state.log.OwnCommit position
  writer : WriterLedger block state
  reader : ReaderLedger block state

end Predicates

variable {block : ControlBlock} {state before after : State}

/-- A step that only moves the writer's program counter, the data or the draft. -/
theorem Ledger.goto {reserved : Option Nat} {data : Memory} {draft : List UInt8}
    (ledger : Ledger block state) (pc : WriterPc)
    (writer : WriterLedger block
      { state with data, reserved, writerPc := pc, log := { state.log with draft } }) :
    Ledger block { state with data, reserved, writerPc := pc, log := { state.log with draft } } :=
  { ledger with writer := writer }

theorem Ledger.settled (ledger : Ledger block state) (idle : state.writerPc = .idle)
    (free : state.pending = false) : Settled state := by
  have writer := ledger.writer
  simp only [WriterLedger, idle] at writer
  rcases writer with settled | held
  · exact settled
  · exact absurd held.guarded (by simp [free])

theorem Ledger.held (ledger : Ledger block state) (idle : state.writerPc = .idle)
    (guarded : state.pending = true) : Held block state := by
  have writer := ledger.writer
  simp only [WriterLedger, idle] at writer
  rcases writer with settled | held
  · exact absurd settled.free (by simp [guarded])
  · exact held

theorem ledger_beginCommit (ledger : Ledger block { state with writerPc := .idle }) :
    Ledger block state.beginCommit := by
  unfold State.beginCommit
  split
  · exact ledger
  · rename_i guarded
    have held := ledger.held rfl (by simpa using guarded)
    exact ledger.goto .storeCommit { held with }

theorem ledger_beginReserve {source : Option Source} (ledger : Ledger block state)
    (idle : state.writerPc = .idle) : Ledger block (state.beginReserve source) := by
  unfold State.beginReserve
  split
  · rename_i guarded
    exact ledger.goto .idle (.inr { ledger.held idle guarded with })
  · rename_i free
    exact ledger.goto (.loadWrite source) { ledger.settled idle (by simpa using free) with }

/-- A successful `try_reserve` enters its slot into the ledger. -/
theorem ledger_storeWrite (item : (itemSize block).toNat ≤ block.dataCapacity.toNat)
    (ledger : Ledger block state) (small : NoWrap block state) (settled : Settled state) (source : Option Source) :
    Ledger block ((state.storeWrite block state.writePos).afterReserve source state.writePos) := by
  unfold NoWrap at small
  have moved : (state.writePos + itemSize block).toNat =
      state.writePos.toNat + (itemSize block).toNat := toNat_add (by omega)
  have held : Held block (state.storeWrite block state.writePos) := by
    refine ⟨rfl, rfl, ?_, ?_⟩
    · rw [settled.equal] at moved
      simp only [State.storeWrite, settled.equal, moved]
    · simp [State.storeWrite, Log.reserve, settled.equal]
  have grown : state.log.reservations ⊆
      (state.storeWrite block state.writePos).log.reservations := by
    simp [State.storeWrite, Log.reserve]
  have resting : Ledger block { state.storeWrite block state.writePos with writerPc := .idle } :=
    { ledger with
      owned := fun position whole below =>
        (ledger.owned position whole below).mono grown (List.Subset.refl _)
      viewed := fun position member =>
        (ledger.viewed position member).mono grown (List.Subset.refl _)
      writer := .inr { held with } }
  unfold State.afterReserve
  split
  · exact resting
  · split
    · exact resting.goto (.copy _ state.writePos) { held with }
    · exact ledger_beginCommit resting

theorem ledger_storeCommit (ledger : Ledger block state) (here : state.writerPc = .storeCommit)
    (taken : writerStep block state = some after) : Ledger block after := by
  have held := ledger.writer
  simp only [WriterLedger, here] at held
  have reserved := held.reserved
  have position : state.writePos - itemSize block = state.commitPos := by
    apply UInt64.toNat_inj.mp
    rw [toNat_sub (by omega), reserved]
    exact Nat.add_sub_cancel _ _
  simp only [writerStep, here, held.stop, position] at taken
  cases taken
  have grown : state.log.commits ⊆ (state.log.commit state.commitPos).commits := by
    simp [Log.commit]
  refine ⟨ledger.readWhole, ?_, ?_, ?_, ⟨rfl, rfl⟩, ?_⟩
  · rw [reserved]
    exact Nat.dvd_add ledger.commitWhole (Nat.dvd_refl _)
  · intro position whole below
    rw [reserved] at below
    by_cases earlier : position.toNat < state.commitPos.toNat
    · exact (ledger.owned position whole earlier).mono (List.Subset.refl _) grown
    · -- the only whole position left below the new front is the one just committed
      have same : position = state.commitPos := by
        apply UInt64.toNat_inj.mp
        by_contra different
        have apart := add_size_le ledger.commitWhole whole (by omega)
        omega
      subst same
      exact ⟨state.log.session, held.logged, by simp [Log.commit]⟩
  · intro position member
    exact (ledger.viewed position member).mono (List.Subset.refl _) grown
  · have reader := ledger.reader
    cases looking : state.readerPc with
    | idle | loadRead _ | bumpRead => trivial
    | loadCommit _ _ | fetchAdd _ =>
      simp only [ReaderLedger, looking] at reader ⊢
      exact reader
    | copyOut _ _ =>
      simp only [ReaderLedger, looking] at reader ⊢
      omega

theorem ledger_writerStep (item : (itemSize block).toNat ≤ block.dataCapacity.toNat)
    (ledger : Ledger block state) (small : NoWrap block state) (taken : writerStep block state = some after) :
    Ledger block after := by
  have writer := ledger.writer
  cases here : state.writerPc with
  | idle => simp [writerStep, here] at taken
  | loadWrite source =>
    simp only [WriterLedger, here] at writer
    simp only [writerStep, here] at taken
    cases taken
    exact ledger.goto (.loadRead source state.writePos) ⟨{ writer with }, rfl⟩
  | loadRead source write =>
    simp only [WriterLedger, here] at writer
    simp only [writerStep, here] at taken
    split at taken
    · cases taken
      exact ledger.goto .idle (.inl { writer.1 with })
    · cases taken
      exact ledger.goto (.storeWrite source write) ⟨{ writer.1 with }, writer.2⟩
  | storeWrite source write =>
    simp only [WriterLedger, here] at writer
    obtain ⟨settled, rfl⟩ := writer
    simp only [writerStep, here] at taken
    cases taken
    exact ledger_storeWrite item ledger small settled source
  | copy source write =>
    simp only [WriterLedger, here] at writer
    simp only [writerStep, here] at taken
    cases taken
    exact ledger_beginCommit (ledger.goto .idle (.inr { writer with }))
  | storeCommit => exact ledger_storeCommit ledger here taken
  | bumpCommit =>
    simp only [WriterLedger, here] at writer
    simp only [writerStep, here] at taken
    cases taken
    exact { ledger with writer := .inl { writer with } }

/-- The consumer writes nothing that the producer's entries depend on. -/
theorem WriterLedger.reader {moved : UInt64} {wake : UInt32} {slot : Option Nat} {outSize : UInt32}
    {out : List UInt8} {pc : ReaderPc} {views : List UInt64} (writer : WriterLedger block state) :
    WriterLedger block { state with
      readPos := moved, readWakeSeq := wake, slot, outSize, out, readerPc := pc,
      log := { state.log with views } } := by
  cases here : state.writerPc with
  | idle =>
    simp only [WriterLedger, here] at writer ⊢
    rcases writer with settled | held
    · exact .inl { settled with }
    · exact .inr { held with }
  | loadWrite _ | bumpCommit | copy _ _ | storeCommit =>
    simp only [WriterLedger, here] at writer ⊢
    exact { writer with }
  | loadRead _ _ | storeWrite _ _ =>
    simp only [WriterLedger, here] at writer ⊢
    exact ⟨{ writer.1 with }, writer.2⟩

/-- A step that moves the reader's program counter and its caller's results. -/
theorem Ledger.look {wake : UInt32} {slot : Option Nat} {outSize : UInt32} {out : List UInt8}
    (ledger : Ledger block state) (pc : ReaderPc)
    (reader : ReaderLedger block { state with readerPc := pc }) :
    Ledger block { state with readWakeSeq := wake, slot, outSize, out, readerPc := pc } :=
  { ledger with writer := ledger.writer.reader, reader := reader }

/-- A non-null `try_read` hands out a slot below the published front. -/
theorem Ledger.view {slot : Option Nat} {outSize : UInt32} (ledger : Ledger block state)
    (pc : ReaderPc) (reader : ReaderLedger block { state with readerPc := pc })
    (unread : state.readPos.toNat < state.commitPos.toNat) :
    Ledger block { state with
      slot, outSize, readerPc := pc, log := state.log.view state.readPos } := by
  refine { ledger with writer := ledger.writer.reader, reader := reader, viewed := ?_ }
  intro position member
  simp only [Log.view, List.mem_append, List.mem_singleton] at member
  rcases member with earlier | rfl
  · exact ledger.viewed position earlier
  · exact ledger.owned state.readPos ledger.readWhole unread

theorem ledger_readerStep (ledger : Ledger block state) (taken : readerStep block state = some after) :
    Ledger block after := by
  have reader := ledger.reader
  cases here : state.readerPc with
  | idle => simp [readerStep, here] at taken
  | loadRead size =>
    simp only [readerStep, here] at taken
    cases taken
    exact ledger.look (.loadCommit size state.readPos) rfl
  | loadCommit size read =>
    simp only [ReaderLedger, here] at reader
    subst reader
    simp only [readerStep, here, UInt64.le_iff_toNat_le] at taken
    split at taken
    · cases taken
      exact ledger.look .idle trivial
    · rename_i unread
      have below := Nat.not_le.mp unread
      split at taken
      · cases taken
        exact ledger.view .idle trivial below
      · cases taken
        exact ledger.view (.copyOut _ state.readPos) below below
  | copyOut size read =>
    simp only [ReaderLedger, here] at reader
    have limit := state.commitPos.toNat_lt
    have whole := add_size_le ledger.readWhole ledger.commitWhole reader
    simp only [readerStep, here] at taken
    cases taken
    refine ledger.look (.fetchAdd 1) ?_
    show state.readPos.toNat + (1 : UInt64).toNat * (itemSize block).toNat < 2 ^ 64
    rw [UInt64.toNat_one, Nat.one_mul]
    omega
  | fetchAdd count =>
    simp only [ReaderLedger, here] at reader
    have product : (count * itemSize block).toNat = count.toNat * (itemSize block).toNat :=
      toNat_mul (by omega)
    have moved : (state.readPos + count * itemSize block).toNat =
        state.readPos.toNat + count.toNat * (itemSize block).toNat := by
      rw [toNat_add (by omega), product]
    simp only [readerStep, here] at taken
    cases taken
    refine { ledger with readWhole := ?_, writer := ledger.writer.reader, reader := trivial }
    simp only [moved]
    exact Nat.dvd_add ledger.readWhole (Nat.dvd_mul_left _ _)
  | bumpRead =>
    simp only [readerStep, here] at taken
    cases taken
    exact ledger.look .idle trivial

theorem ledger_step (item : (itemSize block).toNat ≤ block.dataCapacity.toNat) {action : Action}
    (ledger : Ledger block before) (admitted : CleanSessions block before action after)
    (taken : step block before action = some after) : Ledger block after := by
  cases action with
  | call call =>
    simp only [step] at taken
    split at taken
    · rename_i idle
      cases taken
      exact ledger_beginReserve ledger idle
    · rename_i idle
      cases taken
      exact ledger_beginReserve ledger idle
    · rename_i idle
      cases taken
      refine ledger_beginCommit ?_
      rw [← idle]
      exact ledger
    · cases taken
  | fill offset bytes =>
    simp only [step] at taken
    split at taken
    · rename_i idle
      split at taken
      · rename_i reserved
        cases taken
        have held := ledger.held idle reserved.1
        have filled : Ledger block { before.fill block offset bytes with writerPc := .idle } :=
          ledger.goto .idle (.inr { held with })
        simpa [State.fill, idle] using filled
      · cases taken
    · cases taken
  | writer => exact ledger_writerStep item ledger admitted.unwrapped taken
  | restart =>
    cases taken
    exact { ledger with writer := .inl ⟨rfl, admitted.clean rfl⟩ }
  | read call =>
    simp only [step] at taken
    split at taken
    · cases taken
      exact ledger.look (.loadRead none) trivial
    · cases taken
      exact ledger.look (.loadRead (some _)) trivial
    · cases taken
      exact ledger.look (.fetchAdd _) admitted.advance
    · cases taken
  | reader => exact ledger_readerStep ledger taken

theorem ledger_initial (data : Memory) (fresh : block.rbMeta = {}) :
    Ledger block (initial block data) := by
  simp only [initial, fresh]
  exact ⟨⟨0, rfl⟩, ⟨0, rfl⟩, fun _ _ below => absurd below (Nat.not_lt_zero _), by simp,
    .inl ⟨rfl, rfl⟩, trivial⟩

/-- Every slot that `try_read` returned was committed by the session that reserved it. -/
def OwnDeliveries (state : State) : Prop :=
  ∀ position ∈ state.log.views, state.log.OwnCommit position

theorem itemSize_le (geometry : Geometry block) (attaches : attachesFixedWriter block = true) :
    (itemSize block).toNat ≤ block.dataCapacity.toNat := by
  simp only [attachesFixedWriter, Bool.not_eq_true', Bool.and_eq_false_iff, bne_eq_false_iff_eq]
    at attaches
  rcases attaches with none | whole
  · simp [itemSize, none]
  · have multiple : (block.dataCapacity % itemSize block).toNat = 0 := congrArg UInt64.toNat whole
    rw [UInt64.toNat_mod] at multiple
    exact Nat.le_of_dvd geometry.positive (Nat.dvd_of_mod_eq_zero multiple)

theorem ownDeliveries_of_clean (geometry : Geometry block)
    (attaches : attachesFixedWriter block = true) (fresh : block.rbMeta = {}) {data : Memory}
    (reached : (machine block).Reachable (CleanSessions block) (initial block data) state) :
    OwnDeliveries state := by
  have ledger := reached.invariant (Ledger block) (ledger_initial data fresh)
    fun _ _ _ ledger => ledger_step (itemSize_le geometry attaches) ledger
  exact ledger.viewed

end SpscRing.Fixed
