import Mathlib.Logic.Relation
import SpscRing.Varlen.Footprint
import SpscRing.Varlen.Runs

/-! One call of `read` with nobody else stepping, over arbitrary bytes: the slots
it skips, where it stops, and that it stops at all. -/

namespace SpscRing.Varlen

open SpscRing.Foundation

section Definitions

variable (block : ControlBlock) (data : Memory) (stop : Nat)

/-- The header the bytes at a logical position spell out. -/
def headerAt (position : Nat) : VarlenSlotHeader :=
  loadHeader data (position % block.dataCapacity.toNat)

/-- What passes the checks of `read` for a slot: it has a size and ends within
the published bytes. -/
structure Whole (position : Nat) : Prop where
  sized : 0 < (headerAt block data position).slotSize.toNat
  within : position + (headerAt block data position).slotSize.toNat ≤ stop

/-- A whole slot without a payload, from its start to its end. -/
structure Skip (start finish : Nat) : Prop where
  whole : Whole block data stop start
  empty : (headerAt block data start).payloadSize = 0
  ends : finish = start + (headerAt block data start).slotSize.toNat

/-- Positions linked by slots that `read` skips. -/
def Skips (start finish : Nat) : Prop := Relation.ReflTransGen (Skip block data stop) start finish

/-- A whole slot with a payload: the handler is called on it. -/
structure Found (position : Nat) : Prop where
  whole : Whole block data stop position
  payload : (headerAt block data position).payloadSize ≠ 0

/-- What the handler is called with at a position. -/
def offerAt (position : UInt64) : Offer where
  position := position
  message :=
    { payload := data.read (indexOf block position + 32)
        (headerAt block data position.toNat).payloadSize.toNat
      messageMeta := (headerAt block data position.toNat).messageMeta }

end Definitions

section Call

variable (block : ControlBlock) (entry : State) (call : ReadCall) (admitted : Bool → Prop)

/-- The handler, giving only admitted answers, can return a verdict on a slot. -/
def Verdict (position : UInt64) (verdict : Bool) : Prop :=
  ∃ answer, admitted answer ∧
    call.accepts (headerAt block entry.data position.toNat).payloadSize answer = verdict

/-- How a call that found the segment as in `entry` ends: where it leaves
`read_pos`, and its outcome. -/
inductive ReadEnds : UInt64 → ReadOutcome → Prop where
  | empty {position : UInt64}
      (skipped : Skips block entry.data entry.commitPos.toNat entry.readPos.toNat position.toNat)
      (none : ¬ Whole block entry.data entry.commitPos.toNat position.toNat) :
      ReadEnds position .empty
  | declined {position : UInt64}
      (skipped : Skips block entry.data entry.commitPos.toNat entry.readPos.toNat position.toNat)
      (found : Found block entry.data entry.commitPos.toNat position.toNat)
      (verdict : Verdict block entry call admitted position false) :
      ReadEnds position (.declined (offerAt block entry.data position))
  | accepted {position after : UInt64}
      (skipped : Skips block entry.data entry.commitPos.toNat entry.readPos.toNat position.toNat)
      (found : Found block entry.data entry.commitPos.toNat position.toNat)
      (verdict : Verdict block entry call admitted position true)
      (moved : after.toNat = position.toNat + (headerAt block entry.data position.toNat).slotSize.toNat) :
      ReadEnds after (.accepted (offerAt block entry.data position))

/-- The call is at a position it has skipped to, and has not called its handler. -/
structure Looking (readPos : UInt64) (reads : List ReadOutcome) (current : ReadCall)
    (position : UInt64) : Prop where
  call : current = call
  front : position = readPos
  unread : reads = entry.log.reads
  skipped : Skips block entry.data entry.commitPos.toNat entry.readPos.toNat readPos.toNat

/-- The handler has accepted the slot at the front. -/
structure Consuming (readPos : UInt64) (reads : List ReadOutcome) (position : UInt64) : Prop where
  front : position = readPos
  reads : reads = entry.log.reads ++ [.accepted (offerAt block entry.data readPos)]
  skipped : Skips block entry.data entry.commitPos.toNat entry.readPos.toNat readPos.toNat
  found : Found block entry.data entry.commitPos.toNat readPos.toNat
  verdict : Verdict block entry call admitted readPos true

/-- What the locals of the call say about the bytes at its position. -/
def ScanPc (readPos : UInt64) (reads : List ReadOutcome) : ReaderPc → Prop
  | .loadRead current | .skipBump current => Looking block entry call readPos reads current readPos
  | .loadCommit current position => Looking block entry call readPos reads current position
  | .checkPublished current position used => Looking block entry call readPos reads current position ∧
    used.toNat = entry.commitPos.toNat - readPos.toNat
  | .checkWhole current position used => Looking block entry call readPos reads current position ∧
    used.toNat = entry.commitPos.toNat - readPos.toNat ∧
      (headerAt block entry.data readPos.toNat).slotSize ≠ 0
  | .checkPadding current position => Looking block entry call readPos reads current position ∧
    Whole block entry.data entry.commitPos.toNat readPos.toNat
  | .skipSize current position => Looking block entry call readPos reads current position ∧
    Whole block entry.data entry.commitPos.toNat readPos.toNat ∧
      (headerAt block entry.data readPos.toNat).payloadSize = 0
  | .skipStore current position slotSize => Looking block entry call readPos reads current position ∧
    Whole block entry.data entry.commitPos.toNat readPos.toNat ∧
      (headerAt block entry.data readPos.toNat).payloadSize = 0 ∧
      slotSize = (headerAt block entry.data readPos.toNat).slotSize
  | .takeSize current position => Looking block entry call readPos reads current position ∧
    Found block entry.data entry.commitPos.toNat readPos.toNat
  | .takeMeta current position payloadSize => Looking block entry call readPos reads current position ∧
    Found block entry.data entry.commitPos.toNat readPos.toNat ∧
      payloadSize = (headerAt block entry.data readPos.toNat).payloadSize
  | .handle current position payloadSize messageMeta =>
    Looking block entry call readPos reads current position ∧
      Found block entry.data entry.commitPos.toNat readPos.toNat ∧
      payloadSize = (headerAt block entry.data readPos.toNat).payloadSize ∧
      messageMeta = (headerAt block entry.data readPos.toNat).messageMeta
  | .consumeSize position => Consuming block entry call admitted readPos reads position
  | .consumeStore position slotSize => Consuming block entry call admitted readPos reads position ∧
    slotSize = (headerAt block entry.data readPos.toNat).slotSize
  | .consumeBump | .idle =>
    ∃ outcome, reads = entry.log.reads ++ [outcome] ∧ ReadEnds block entry call admitted readPos outcome

/-- A call of `read` that found the segment as in `entry` is under way or has returned. -/
structure Scanning (state : State) : Prop where
  frame : ConsumerFrame entry state
  told : ∀ outcome, state.log.reads = entry.log.reads ++ [outcome] → state.result = some outcome
  pc : ScanPc block entry call admitted state.readPos state.log.reads state.readerPc

end Call

variable {block : ControlBlock} {entry state after : State} {call : ReadCall} {admitted : Bool → Prop}
variable {data : Memory} {stop : Nat} {start finish position : Nat}

theorem headerAt_eq (data : Memory) (position : UInt64) :
    loadHeader data (indexOf block position) = headerAt block data position.toNat := by
  rw [headerAt, indexOf_eq]

theorem Skips.le (skipped : Skips block data stop start finish) : start ≤ finish := by
  induction skipped with
  | refl => exact Nat.le_refl _
  | tail _ last ih =>
    have ends := last.ends
    omega

/-- A chain of skipped slots ends within the published bytes, or never left its start. -/
theorem Skips.bounded (skipped : Skips block data stop start finish) : finish ≤ max start stop := by
  cases skipped with
  | refl => exact Nat.le_max_left _ _
  | tail _ last =>
    rw [last.ends]
    exact Nat.le_trans last.whole.within (Nat.le_max_right _ _)

theorem skip_rightUnique : Relator.RightUnique (Skip block data stop) := by
  intro start first second one two
  rw [one.ends, two.ends]

/-- The skipped slots lead to one position only that is not skipped itself. -/
theorem Skips.unique {other : Nat} (one : Skips block data stop start finish)
    (two : Skips block data stop start other) (stuck : ∀ next, ¬ Skip block data stop finish next)
    (otherStuck : ∀ next, ¬ Skip block data stop other next) : finish = other := by
  rcases one.total_of_right_unique skip_rightUnique two with ahead | behind
  · rcases ahead.cases_head with same | ⟨next, skip, -⟩
    · exact same
    · exact absurd skip (stuck next)
  · rcases behind.cases_head with same | ⟨next, skip, -⟩
    · exact same.symm
    · exact absurd skip (otherStuck next)

/-- Advancing past a whole slot does not wrap. -/
theorem Whole.toNat_advance {front : UInt64} {committed : UInt64}
    (whole : Whole block data committed.toNat front.toNat) :
    (front + (headerAt block data front.toNat).slotSize.toUInt64).toNat =
      front.toNat + (headerAt block data front.toNat).slotSize.toNat := by
  have within := whole.within
  have limit := committed.toNat_lt
  rw [toNat_add, UInt32.toNat_toUInt64]
  rw [UInt32.toNat_toUInt64]
  omega

section Steps

/-- The call returns without its handler, at a position with no whole slot. -/
theorem scanPc_finishEmpty {current : ReadCall} {position : UInt64}
    (looking : Looking block entry call state.readPos state.log.reads current position)
    (none : ¬ Whole block entry.data entry.commitPos.toNat state.readPos.toNat) :
    ScanPc block entry call admitted state.finishEmpty.readPos state.finishEmpty.log.reads
      state.finishEmpty.readerPc := by
  refine ⟨.empty, ?_, .empty looking.skipped none⟩
  rw [← looking.unread]
  rfl

section Tests

variable {answer : Bool} {current : ReadCall} {position used : UInt64}
variable (scanning : Scanning block entry call admitted state)
variable (taken : readerStep block answer state = some after)
include scanning taken

/-- The load of `commit_pos` finds something published, or the call returns. -/
theorem scanPc_loadCommit (here : state.readerPc = .loadCommit current position) :
    ScanPc block entry call admitted after.readPos after.log.reads after.readerPc := by
  have pc := scanning.pc
  have committed : state.commitPos = entry.commitPos := scanning.frame.commitPos
  simp only [ScanPc, here] at pc
  obtain ⟨rfl, rfl, unread, skipped⟩ := pc
  simp only [readerStep, here, committed, ← UInt64.toNat_inj, used_eq, UInt64.toNat_zero] at taken
  split at taken
  · rename_i drained
    cases taken
    refine scanPc_finishEmpty ⟨rfl, rfl, unread, skipped⟩ fun whole => ?_
    have sized := whole.sized
    have within := whole.within
    omega
  · cases taken
    exact ⟨⟨rfl, rfl, unread, skipped⟩, used_eq⟩

/-- A slot size of zero marks a slot that is not published yet. -/
theorem scanPc_checkPublished (here : state.readerPc = .checkPublished current position used) :
    ScanPc block entry call admitted after.readPos after.log.reads after.readerPc := by
  have pc := scanning.pc
  have bytes : state.data = entry.data := scanning.frame.data
  simp only [ScanPc, here] at pc
  obtain ⟨⟨rfl, rfl, unread, skipped⟩, size⟩ := pc
  simp only [readerStep, here, bytes, headerAt_eq] at taken
  split at taken
  · rename_i zero
    cases taken
    refine scanPc_finishEmpty ⟨rfl, rfl, unread, skipped⟩ fun whole => ?_
    have sized := whole.sized
    rw [zero] at sized
    exact absurd sized (by decide)
  · rename_i sized
    cases taken
    exact ⟨⟨rfl, rfl, unread, skipped⟩, size, sized⟩

/-- A slot that passes both tests is whole. -/
theorem scanPc_checkWhole (here : state.readerPc = .checkWhole current position used) :
    ScanPc block entry call admitted after.readPos after.log.reads after.readerPc := by
  have pc := scanning.pc
  have bytes : state.data = entry.data := scanning.frame.data
  simp only [ScanPc, here] at pc
  obtain ⟨⟨rfl, rfl, unread, skipped⟩, size, sized⟩ := pc
  simp only [readerStep, here, bytes, headerAt_eq, UInt64.lt_iff_toNat_lt, UInt32.toNat_toUInt64,
    size] at taken
  split at taken
  · rename_i beyond
    cases taken
    refine scanPc_finishEmpty ⟨rfl, rfl, unread, skipped⟩ fun whole => ?_
    have within := whole.within
    omega
  · rename_i within
    cases taken
    have positive : 0 < (headerAt block entry.data state.readPos.toNat).slotSize.toNat :=
      Nat.pos_of_ne_zero fun zero => sized (UInt32.toNat_inj.mp zero)
    have whole : Whole block entry.data entry.commitPos.toNat state.readPos.toNat :=
      ⟨positive, by omega⟩
    exact ⟨⟨rfl, rfl, unread, skipped⟩, whole⟩

end Tests

/-- The one verdict of the call is what it returns. -/
theorem Scanning.told_step {answer : Bool} (scanning : Scanning block entry call admitted state)
    (taken : readerStep block answer state = some after) (outcome : ReadOutcome)
    (recorded : after.log.reads = entry.log.reads ++ [outcome]) : after.result = some outcome := by
  rcases readerStep_verdict taken with ⟨result, reads⟩ | ⟨given, result, reads⟩
  · rw [result]
    exact scanning.told outcome (reads ▸ recorded)
  · obtain ⟨-, same⟩ := List.append_inj' (reads.symm.trans recorded) rfl
    cases same
    exact result

/-- Every step of the call is one the bytes at its position ask for. -/
theorem scanning_step {answer : Bool} (scanning : Scanning block entry call admitted state)
    (allow : admitted answer) (taken : readerStep block answer state = some after) :
    Scanning block entry call admitted after := by
  have frame := scanning.frame.trans (readerStep_frame taken)
  have pc := scanning.pc
  have bytes : state.data = entry.data := scanning.frame.data
  refine ⟨frame, scanning.told_step taken, ?_⟩
  cases here : state.readerPc with
  | idle => simp [readerStep, here] at taken
  | loadRead current =>
    simp only [ScanPc, here] at pc
    simp only [readerStep, here] at taken
    cases taken
    exact pc
  | loadCommit current position => exact scanPc_loadCommit scanning taken here
  | checkPublished current position used => exact scanPc_checkPublished scanning taken here
  | checkWhole current position used => exact scanPc_checkWhole scanning taken here
  | checkPadding current position =>
    simp only [ScanPc, here] at pc
    obtain ⟨⟨rfl, rfl, unread, skipped⟩, whole⟩ := pc
    simp only [readerStep, here, bytes, headerAt_eq] at taken
    split at taken
    · rename_i empty
      cases taken
      exact ⟨⟨rfl, rfl, unread, skipped⟩, whole, empty⟩
    · rename_i payload
      cases taken
      exact ⟨⟨rfl, rfl, unread, skipped⟩, whole, payload⟩
  | skipSize current position =>
    simp only [ScanPc, here] at pc
    obtain ⟨⟨rfl, rfl, unread, skipped⟩, whole, empty⟩ := pc
    simp only [readerStep, here, bytes, headerAt_eq] at taken
    cases taken
    exact ⟨⟨rfl, rfl, unread, skipped⟩, whole, empty, rfl⟩
  | skipStore current position slotSize =>
    simp only [ScanPc, here] at pc
    obtain ⟨⟨rfl, rfl, unread, skipped⟩, whole, empty, rfl⟩ := pc
    simp only [readerStep, here] at taken
    cases taken
    exact ⟨rfl, rfl, unread, skipped.tail ⟨whole, empty, whole.toNat_advance⟩⟩
  | skipBump current =>
    simp only [ScanPc, here] at pc
    simp only [readerStep, here] at taken
    cases taken
    exact pc
  | takeSize current position =>
    simp only [ScanPc, here] at pc
    obtain ⟨⟨rfl, rfl, unread, skipped⟩, found⟩ := pc
    simp only [readerStep, here, bytes, headerAt_eq] at taken
    cases taken
    exact ⟨⟨rfl, rfl, unread, skipped⟩, found, rfl⟩
  | takeMeta current position payloadSize =>
    simp only [ScanPc, here] at pc
    obtain ⟨⟨rfl, rfl, unread, skipped⟩, found, rfl⟩ := pc
    simp only [readerStep, here, bytes, headerAt_eq] at taken
    cases taken
    exact ⟨⟨rfl, rfl, unread, skipped⟩, found, rfl, rfl⟩
  | handle current position payloadSize messageMeta =>
    simp only [ScanPc, here] at pc
    obtain ⟨⟨rfl, rfl, unread, skipped⟩, found, rfl, rfl⟩ := pc
    simp only [readerStep, here, bytes] at taken
    split at taken
    · rename_i accepts
      cases taken
      exact ⟨rfl, by rw [← unread]; rfl, skipped, found, answer, allow, accepts⟩
    · rename_i refuses
      cases taken
      have declines := Bool.eq_false_of_not_eq_true refuses
      exact ⟨_, by rw [← unread]; rfl, .declined skipped found ⟨answer, allow, declines⟩⟩
  | consumeSize position =>
    simp only [ScanPc, here] at pc
    obtain ⟨rfl, reads, skipped, found, verdict⟩ := pc
    simp only [readerStep, here, bytes, headerAt_eq] at taken
    cases taken
    exact ⟨⟨rfl, reads, skipped, found, verdict⟩, rfl⟩
  | consumeStore position slotSize =>
    simp only [ScanPc, here] at pc
    obtain ⟨⟨rfl, reads, skipped, found, verdict⟩, rfl⟩ := pc
    simp only [readerStep, here] at taken
    cases taken
    exact ⟨_, reads, .accepted skipped found verdict found.whole.toNat_advance⟩
  | consumeBump =>
    simp only [ScanPc, here] at pc
    simp only [readerStep, here] at taken
    cases taken
    exact pc

end Steps

section Termination

/-- Steps to the next store of `read_pos` or to the return, counted from above. -/
def ReaderPc.rank : ReaderPc → Nat
  | .idle => 0
  | .skipStore _ _ _ | .consumeBump => 1
  | .skipSize _ _ | .consumeStore _ _ => 2
  | .consumeSize _ => 3
  | .handle _ _ _ _ => 4
  | .takeMeta _ _ _ => 5
  | .takeSize _ _ => 6
  | .checkPadding _ _ => 7
  | .checkWhole _ _ _ => 8
  | .checkPublished _ _ _ => 9
  | .loadCommit _ _ => 10
  | .loadRead _ => 11
  | .skipBump _ => 12

theorem ReaderPc.rank_eq_zero_iff (pc : ReaderPc) : pc.rank = 0 ↔ pc = .idle := by
  cases pc <;> simp [rank]

/-- What a call has left to do: the published bytes ahead of it count for more
than a whole pass of its loop. -/
def State.scanLeft (state : State) : Nat :=
  16 * (state.commitPos.toNat - state.readPos.toNat) + state.readerPc.rank

theorem scanLeft_step {answer : Bool} (scanning : Scanning block entry call admitted state)
    (taken : readerStep block answer state = some after) : after.scanLeft < state.scanLeft := by
  have pc := scanning.pc
  have committed : state.commitPos = entry.commitPos := scanning.frame.commitPos
  cases here : state.readerPc with
  | idle => simp [readerStep, here] at taken
  | loadCommit _ _ =>
    simp only [readerStep, here, State.finishEmpty, State.finishRead] at taken
    split at taken
    · split at taken <;> cases taken <;> simp [State.scanLeft, here, ReaderPc.rank]
    · cases taken
      simp [State.scanLeft, here, ReaderPc.rank]
  | checkPublished _ _ _ | checkWhole _ _ _ | checkPadding _ _ | handle _ _ _ _ =>
    simp only [readerStep, here, State.finishEmpty, State.finishRead] at taken
    split at taken <;> cases taken <;> simp [State.scanLeft, here, ReaderPc.rank]
  | skipStore current position slotSize =>
    simp only [ScanPc, here] at pc
    obtain ⟨⟨rfl, rfl, -, -⟩, whole, -, rfl⟩ := pc
    have sized := whole.sized
    have within := whole.within
    have moved := whole.toNat_advance
    simp only [readerStep, here] at taken
    cases taken
    simp only [State.scanLeft, here, ReaderPc.rank, moved, committed]
    omega
  | consumeStore position slotSize =>
    simp only [ScanPc, here] at pc
    obtain ⟨⟨rfl, -, -, found, -⟩, rfl⟩ := pc
    have moved := found.whole.toNat_advance
    simp only [readerStep, here] at taken
    cases taken
    simp only [State.scanLeft, here, ReaderPc.rank, moved, committed]
    omega
  | loadRead _ | skipSize _ _ | skipBump _ | takeSize _ _ | takeMeta _ _ _ | consumeSize _
  | consumeBump =>
    simp only [readerStep, here] at taken
    cases taken
    simp [State.scanLeft, here, ReaderPc.rank]

/-- Only a call that has returned has no next step. -/
theorem idle_of_stuck {answer : Bool} (stuck : readerStep block answer state = none) :
    state.readerPc = .idle := by
  cases here : state.readerPc with
  | idle => rfl
  | loadCommit _ _ =>
    simp only [readerStep, here] at stuck
    split at stuck
    · split at stuck <;> cases stuck
    · cases stuck
  | checkPublished _ _ _ | checkWhole _ _ _ | checkPadding _ _ | handle _ _ _ _ =>
    simp only [readerStep, here] at stuck
    split at stuck <;> cases stuck
  | loadRead _ | skipSize _ _ | skipStore _ _ _ | skipBump _ | takeSize _ _ | takeMeta _ _ _
  | consumeSize _ | consumeStore _ _ | consumeBump =>
    simp [readerStep, here] at stuck

end Termination

section Calls

/-- The steps of one call of `read`, its handler giving admitted answers. -/
def ReaderOnly (admitted : Bool → Prop) (_ : State) (action : Action) (_ : State) : Prop :=
  ∃ answer, admitted answer ∧ action = .reader answer

variable (block) (idle : entry.readerPc = .idle) (call)
include idle

/-- The call as it begins. -/
theorem run_read_entry : (machine block).Run Machine.Always entry [.read call]
    { entry with readerPc := .loadRead call } := by
  apply Machine.replay_run
  simp [Machine.replay, Machine.Always, machine, step, idle]

omit idle in
theorem scanning_entry (entry : State) (call : ReadCall) (admitted : Bool → Prop) :
    Scanning block entry call admitted { entry with readerPc := .loadRead call } :=
  ⟨.of_consumer entry _ _ _ _ _, by simp, rfl, rfl, rfl, .refl⟩

theorem scanning_run {answers : List Bool} (allow : ∀ answer ∈ answers, admitted answer)
    (run : (machine block).Run Machine.Always entry (.read call :: answers.map .reader) after) :
    Scanning block entry call admitted after := by
  cases run with
  | next taken _ rest =>
    simp only [machine, step, idle, Option.some.injEq] at taken
    subst taken
    have steps : (machine block).Run (ReaderOnly admitted) { entry with readerPc := .loadRead call }
        (answers.map .reader) after := by
      refine rest.mono fun action member _ _ _ => ?_
      obtain ⟨answer, given, rfl⟩ := List.mem_map.mp member
      exact ⟨answer, allow answer given, rfl⟩
    refine steps.preserves _ ?_ (scanning_entry block entry call admitted)
    rintro before action after scanning ⟨answer, allow, rfl⟩ taken
    exact scanning_step scanning allow taken

/-- Whatever the bytes and the handler's answers, the call returns. -/
theorem read_returns (answers : Nat → Bool) : ∃ count after,
    (machine block).Run Machine.Always entry
      (.read call :: (List.range count).map fun index => .reader (answers index)) after ∧
    after.readerPc = .idle := by
  obtain ⟨count, after, run, stuck⟩ := (machine block).exists_stuck (ReaderOnly fun _ => True)
    State.scanLeft (Scanning block entry call fun _ => True)
    (by
      rintro before action after scanning ⟨answer, allow, rfl⟩ taken
      exact scanning_step scanning allow taken)
    (by
      rintro before action after scanning ⟨answer, -, rfl⟩ taken
      exact scanLeft_step scanning taken)
    (fun index => .reader (answers index)) (fun index _ _ => ⟨answers index, trivial, rfl⟩)
    (scanning_entry block entry call _)
  exact ⟨count, after, (run_read_entry block call idle).append (run.mono fun _ _ _ _ _ => trivial),
    idle_of_stuck stuck⟩

end Calls

/-- What holds wherever a call of `read` is, whatever the bytes it found: one verdict at
most, a front between where the call found it and the published bytes, and no store that
wraps. A call that has returned has left the front behind the slots it skipped, at bytes
that are no whole slot or at the message its handler declined; only past a message that
was accepted has it gone on. -/
structure ScanSafe (block : ControlBlock) (entry : State) (call : ReadCall) (state : State) : Prop where
  once : ∃ outcomes, state.log.reads = entry.log.reads ++ outcomes ∧ outcomes.length ≤ 1
  forward : entry.readPos ≤ state.readPos
  bounded : state.readPos.toNat ≤ max entry.readPos.toNat entry.commitPos.toNat
  stores : ∀ call position slotSize, state.readerPc = .skipStore call position slotSize ∨
    state.readerPc = .consumeStore position slotSize → position.toNat + slotSize.toNat < 2 ^ 64
  returned : state.readerPc = .idle → ∃ outcome, state.result = some outcome ∧
    state.log.reads = entry.log.reads ++ [outcome] ∧
    ReadEnds block entry call (fun _ => True) state.readPos outcome

theorem ReadEnds.bounds {front : UInt64} {outcome : ReadOutcome}
    (ends : ReadEnds block entry call admitted front outcome) :
    entry.readPos.toNat ≤ front.toNat ∧
      front.toNat ≤ max entry.readPos.toNat entry.commitPos.toNat := by
  cases ends with
  | empty skipped _ => exact ⟨skipped.le, skipped.bounded⟩
  | declined skipped _ _ => exact ⟨skipped.le, skipped.bounded⟩
  | accepted skipped found _ moved =>
    have forward := skipped.le
    have within := found.whole.within
    omega

theorem Scanning.once (scanning : Scanning block entry call admitted state) :
    ∃ outcomes, state.log.reads = entry.log.reads ++ outcomes ∧ outcomes.length ≤ 1 := by
  have pc := scanning.pc
  have none (unread : state.log.reads = entry.log.reads) :
      ∃ outcomes, state.log.reads = entry.log.reads ++ outcomes ∧ outcomes.length ≤ 1 :=
    ⟨[], by simpa using unread, Nat.zero_le _⟩
  cases here : state.readerPc with
  | loadRead _ | skipBump _ | loadCommit _ _ =>
    simp only [ScanPc, here] at pc
    exact none pc.unread
  | checkPublished _ _ _ | checkWhole _ _ _ | checkPadding _ _ | skipSize _ _ | skipStore _ _ _
  | takeSize _ _ | takeMeta _ _ _ | handle _ _ _ _ =>
    simp only [ScanPc, here] at pc
    exact none pc.1.unread
  | consumeSize _ =>
    simp only [ScanPc, here] at pc
    exact ⟨_, pc.reads, Nat.le_refl _⟩
  | consumeStore _ _ =>
    simp only [ScanPc, here] at pc
    exact ⟨_, pc.1.reads, Nat.le_refl _⟩
  | consumeBump | idle =>
    simp only [ScanPc, here] at pc
    obtain ⟨outcome, reads, -⟩ := pc
    exact ⟨_, reads, Nat.le_refl _⟩

theorem Scanning.bounds (scanning : Scanning block entry call admitted state) :
    entry.readPos.toNat ≤ state.readPos.toNat ∧
      state.readPos.toNat ≤ max entry.readPos.toNat entry.commitPos.toNat := by
  have pc := scanning.pc
  cases here : state.readerPc with
  | loadRead _ | skipBump _ | loadCommit _ _ =>
    simp only [ScanPc, here] at pc
    exact ⟨pc.skipped.le, pc.skipped.bounded⟩
  | checkPublished _ _ _ | checkWhole _ _ _ | checkPadding _ _ | skipSize _ _ | skipStore _ _ _
  | takeSize _ _ | takeMeta _ _ _ | handle _ _ _ _ =>
    simp only [ScanPc, here] at pc
    exact ⟨pc.1.skipped.le, pc.1.skipped.bounded⟩
  | consumeSize _ =>
    simp only [ScanPc, here] at pc
    exact ⟨pc.skipped.le, pc.skipped.bounded⟩
  | consumeStore _ _ =>
    simp only [ScanPc, here] at pc
    exact ⟨pc.1.skipped.le, pc.1.skipped.bounded⟩
  | consumeBump | idle =>
    simp only [ScanPc, here] at pc
    obtain ⟨outcome, -, ends⟩ := pc
    exact ends.bounds

theorem Scanning.returned (scanning : Scanning block entry call admitted state)
    (idle : state.readerPc = .idle) : ∃ outcome, state.log.reads = entry.log.reads ++ [outcome] ∧
      ReadEnds block entry call admitted state.readPos outcome := by
  have pc := scanning.pc
  simp only [ScanPc, idle] at pc
  exact pc

/-- A call whose handler always gives one answer, with how it ends. -/
theorem read_ends (block : ControlBlock) (call : ReadCall) (idle : entry.readerPc = .idle)
    (answer : Bool) : ∃ count after outcome,
    (machine block).Run Machine.Always entry
      (.read call :: (List.replicate count answer).map .reader) after ∧ after.readerPc = .idle ∧
      ConsumerFrame entry after ∧ after.log.reads = entry.log.reads ++ [outcome] ∧
      ReadEnds block entry call (· = answer) after.readPos outcome := by
  obtain ⟨count, after, run, returned⟩ := read_returns block call idle fun _ => answer
  have same : ((List.range count).map fun _ => Action.reader answer) =
      (List.replicate count answer).map .reader := by
    simp
  rw [same] at run
  have scanning : Scanning block entry call (· = answer) after :=
    scanning_run block call idle (fun _ given => (List.mem_replicate.mp given).2) run
  obtain ⟨outcome, reads, ends⟩ := scanning.returned returned
  exact ⟨count, after, outcome, run, returned, scanning.frame, reads, ends⟩

theorem Scanning.safe (scanning : Scanning block entry call (fun _ => True) state) :
    ScanSafe block entry call state where
  once := scanning.once
  forward := UInt64.le_iff_toNat_le.mpr scanning.bounds.1
  bounded := scanning.bounds.2
  stores := by
    have pc := scanning.pc
    have limit := entry.commitPos.toNat_lt
    rintro current position slotSize (here | here)
    · simp only [ScanPc, here] at pc
      obtain ⟨⟨-, rfl, -, -⟩, whole, -, rfl⟩ := pc
      exact Nat.lt_of_le_of_lt whole.within limit
    · simp only [ScanPc, here] at pc
      obtain ⟨⟨rfl, -, -, found, -⟩, rfl⟩ := pc
      exact Nat.lt_of_le_of_lt found.whole.within limit
  returned := by
    intro idle
    obtain ⟨outcome, reads, ends⟩ := scanning.returned idle
    exact ⟨outcome, scanning.told outcome reads, reads, ends⟩

/-- No step of the call takes `read_pos` back. -/
theorem Scanning.forward_step {answer : Bool} (scanning : Scanning block entry call admitted state)
    (taken : readerStep block answer state = some after) : state.readPos ≤ after.readPos := by
  have pc := scanning.pc
  cases here : state.readerPc with
  | idle => simp [readerStep, here] at taken
  | loadCommit _ _ =>
    simp only [readerStep, here] at taken
    split at taken <;> split at taken <;> cases taken <;> exact UInt64.le_refl _
  | checkPublished _ _ _ | checkWhole _ _ _ | checkPadding _ _ | handle _ _ _ _ =>
    simp only [readerStep, here] at taken
    split at taken <;> cases taken <;> exact UInt64.le_refl _
  | skipStore current position slotSize =>
    simp only [ScanPc, here] at pc
    obtain ⟨⟨rfl, rfl, -, -⟩, whole, -, rfl⟩ := pc
    simp only [readerStep, here] at taken
    cases taken
    rw [UInt64.le_iff_toNat_le, whole.toNat_advance]
    exact Nat.le_add_right _ _
  | consumeStore position slotSize =>
    simp only [ScanPc, here] at pc
    obtain ⟨⟨rfl, -, -, found, -⟩, rfl⟩ := pc
    simp only [readerStep, here] at taken
    cases taken
    rw [UInt64.le_iff_toNat_le, found.whole.toNat_advance]
    exact Nat.le_add_right _ _
  | loadRead _ | skipSize _ _ | skipBump _ | takeSize _ _ | takeMeta _ _ _ | consumeSize _
  | consumeBump =>
    simp only [readerStep, here] at taken
    cases taken
    exact UInt64.le_refl _

theorem Scanning.forward_run {answers : List Bool}
    (scanning : Scanning block entry call (fun _ => True) state)
    (run : (machine block).Run Machine.Always state (answers.map .reader) after) :
    state.readPos ≤ after.readPos := by
  induction answers generalizing state with
  | nil =>
    cases run
    exact UInt64.le_refl _
  | cons answer answers ih =>
    cases run with
    | next taken _ rest =>
      exact UInt64.le_trans (scanning.forward_step taken)
        (ih (scanning_step scanning trivial taken) rest)

/-- On any bytes, any fronts and any capacity, with any handler: one call of
`read` returns, every state it passes through is safe, and from one of them to a later one
`read_pos` never decreases. -/
theorem read_scans_safely (block : ControlBlock) {entry : State} (idle : entry.readerPc = .idle)
    (call : ReadCall) :
    (∀ answers : Nat → Bool, ∃ count after, (machine block).Run Machine.Always entry
        (.read call :: (List.range count).map fun index => .reader (answers index)) after ∧
      after.readerPc = .idle) ∧
    ∀ (answers : List Bool) after, (machine block).Run Machine.Always entry
      (.read call :: answers.map .reader) after → ScanSafe block entry call after ∧
        ∀ (more : List Bool) later,
          (machine block).Run Machine.Always after (more.map .reader) later →
            after.readPos ≤ later.readPos := by
  refine ⟨read_returns block call idle, fun answers after run => ?_⟩
  have scanning : Scanning block entry call (fun _ => True) after :=
    scanning_run block call idle (fun _ _ => trivial) run
  exact ⟨scanning.safe, fun _ _ more => scanning.forward_run more⟩

/-- Stale bytes: a 16-byte slot without a payload, then a header whose size
reaches beyond the 48 published bytes. -/
def staleState : State where
  commitPos := 48
  data := fun address => if address = 0 then 16 else if address = 16 then 200 else 0

theorem read_scans_safely_stale : ∃ after,
    (machine sampleBlock).Run Machine.Always staleState
      (.read .handler :: (List.replicate 12 true).map .reader) after ∧
      after.readerPc = .idle ∧ after.readPos = 16 ∧
      ScanSafe sampleBlock staleState .handler after := by
  obtain ⟨after, run, passed⟩ := (machine sampleBlock).run_of_replay Machine.Always staleState
    (.read .handler :: (List.replicate 12 true).map .reader)
    (fun after => after.readerPc.rank == 0 && after.readPos == 16) (by decide +kernel)
  simp only [Bool.and_eq_true, beq_iff_eq, ReaderPc.rank_eq_zero_iff] at passed
  exact ⟨after, run, passed.1, passed.2,
    ((read_scans_safely sampleBlock rfl .handler).2 _ after run).1⟩

end SpscRing.Varlen
