import SpscRing.Varlen.Scan

/-! `next_payload_size` beside `read`: the peek looks at one header, the read
goes on past every slot without a payload. -/

namespace SpscRing.Varlen

open SpscRing.Foundation

section Definitions

variable (block : ControlBlock) (state : State)

def nextPayloadSize : UInt64 :=
  if state.commitPos ≤ state.readPos then 0
  else (loadHeader state.data (indexOf block state.readPos)).payloadSize.toUInt64

/-- A peeked size is the one the handler was given, and 0 if there was no handler call. -/
structure SizeAgrees (size : UInt64) (outcome : ReadOutcome) : Prop where
  offered : ∀ offer, outcome.offer = some offer → size.toNat = offer.message.payload.length
  none : size = 0 ↔ outcome.offer = none

/-- The peek agrees with a `read` that follows at once, whatever its handler answers. -/
def PeekAgrees : Prop :=
  ∀ call (answers : List Bool) after outcome,
    (machine block).Run Machine.Always state (.read call :: answers.map .reader) after →
      after.readerPc = .idle → after.log.reads = state.log.reads ++ [outcome] →
        SizeAgrees (nextPayloadSize block state) outcome

/-- Nothing is published, or the slot in front has a payload, or neither it nor
any slot that `read` would come to behind it has one. -/
def PeekSound : Prop :=
  state.commitPos ≤ state.readPos ∨
    Found block state.data state.commitPos.toNat state.readPos.toNat ∨
    ((headerAt block state.data state.readPos.toNat).payloadSize = 0 ∧
      ∀ position, Skips block state.data state.commitPos.toNat state.readPos.toNat position →
        ¬ Found block state.data state.commitPos.toNat position)

end Definitions

variable {block : ControlBlock} {entry state : State} {call : ReadCall} {admitted : Bool → Prop}
variable {data : Memory} {stop position : Nat} {front : UInt64} {outcome : ReadOutcome}

theorem Found.stuck (found : Found block data stop position) (next : Nat) :
    ¬ Skip block data stop position next :=
  fun skip => found.payload skip.empty

/-- Behind the published front there is no slot, and none to be skipped to. -/
theorem Whole.lt (whole : Whole block data stop position) : position < stop := by
  have sized := whole.sized
  have within := whole.within
  omega

/-- The only slot with a payload that a call can come to is the one it hands out. -/
theorem ReadEnds.offer_of_found {target : Nat} (ends : ReadEnds block entry call admitted front outcome)
    (skipped : Skips block entry.data entry.commitPos.toNat entry.readPos.toNat target)
    (found : Found block entry.data entry.commitPos.toNat target) :
    ∃ offer, outcome.offer = some offer ∧
      offer.message.payload.length = (headerAt block entry.data target).payloadSize.toNat := by
  cases ends with
  | empty other none =>
    have same := skipped.unique other found.stuck fun _ skip => none skip.whole
    exact absurd (same ▸ found.whole) none
  | declined other again _ | accepted other again _ _ =>
    have same := skipped.unique other found.stuck again.stuck
    exact ⟨_, rfl, by simp [offerAt, same]⟩

theorem ReadEnds.found_of_offer {offer : Offer} (ends : ReadEnds block entry call admitted front outcome)
    (offered : outcome.offer = some offer) :
    ∃ target, Skips block entry.data entry.commitPos.toNat entry.readPos.toNat target ∧
      Found block entry.data entry.commitPos.toNat target := by
  cases ends with
  | empty _ _ => cases offered
  | declined skipped found _ | accepted skipped found _ _ => exact ⟨_, skipped, found⟩

theorem ReadEnds.agrees (ends : ReadEnds block entry call admitted front outcome)
    (sound : PeekSound block entry) : SizeAgrees (nextPayloadSize block entry) outcome := by
  unfold nextPayloadSize
  rw [headerAt_eq]
  have unoffered (size : UInt64) (zero : size = 0)
      (none : ∀ target, Skips block entry.data entry.commitPos.toNat entry.readPos.toNat target →
        ¬ Found block entry.data entry.commitPos.toNat target) : SizeAgrees size outcome := by
    have silent : outcome.offer = Option.none := by
      cases offered : outcome.offer with
      | none => rfl
      | some offer =>
        obtain ⟨target, skipped, found⟩ := ends.found_of_offer offered
        exact absurd found (none target skipped)
    exact ⟨by simp [silent], by simp [zero, silent]⟩
  rcases sound with drained | found | ⟨empty, none⟩
  · rw [if_pos drained]
    refine unoffered 0 rfl fun target skipped found => ?_
    have ahead := found.whole.lt
    have start := skipped.le
    have passed := UInt64.le_iff_toNat_le.mp drained
    omega
  · have ahead := found.whole.lt
    rw [if_neg (by rw [UInt64.le_iff_toNat_le]; omega)]
    obtain ⟨offer, offered, length⟩ := ends.offer_of_found .refl found
    constructor
    · intro other same
      rw [offered] at same
      cases same
      rw [length, UInt32.toNat_toUInt64]
    · simp [offered, toUInt64_eq_zero_iff, found.payload]
  · refine unoffered _ ?_ none
    rw [empty]
    split <;> rfl

theorem ReadEnds.sound (ends : ReadEnds block entry call admitted front outcome)
    (agrees : SizeAgrees (nextPayloadSize block entry) outcome) : PeekSound block entry := by
  by_cases drained : entry.commitPos ≤ entry.readPos
  · exact .inl drained
  have peeked : nextPayloadSize block entry =
      (headerAt block entry.data entry.readPos.toNat).payloadSize.toUInt64 := by
    rw [nextPayloadSize, if_neg drained, headerAt_eq]
  have zero : nextPayloadSize block entry = 0 ↔
      (headerAt block entry.data entry.readPos.toNat).payloadSize = 0 := by
    rw [peeked]
    exact toUInt64_eq_zero_iff
  by_cases empty : (headerAt block entry.data entry.readPos.toNat).payloadSize = 0
  · refine .inr (.inr ⟨empty, fun target skipped found => ?_⟩)
    obtain ⟨offer, offered, -⟩ := ends.offer_of_found skipped found
    rw [agrees.none.mp (zero.mpr empty)] at offered
    cases offered
  · have called : outcome.offer ≠ none := fun none => empty (zero.mp (agrees.none.mpr none))
    obtain ⟨offer, offered⟩ := Option.ne_none_iff_exists'.mp called
    obtain ⟨target, skipped, found⟩ := ends.found_of_offer offered
    -- the slot in front has a payload, so the call did not skip it
    rcases skipped.cases_head with same | ⟨next, skip, -⟩
    · exact .inr (.inl (same ▸ found))
    · exact absurd skip.empty empty

/-- The peek agrees with `read` precisely when the slot in front decides alone
what `read` will find. -/
theorem peek_agrees_iff (block : ControlBlock) {state : State} (idle : state.readerPc = .idle) :
    PeekAgrees block state ↔ PeekSound block state := by
  constructor
  · intro agrees
    obtain ⟨count, after, outcome, run, returned, -, reads, ends⟩ :=
      read_ends block .handler idle true
    exact ends.sound (agrees .handler _ after outcome run returned reads)
  · intro sound call answers after outcome run returned reads
    have scanning : Scanning block state call (fun _ => True) after :=
      scanning_run block call idle (fun _ _ => trivial) run
    obtain ⟨other, again, ends⟩ := scanning.returned returned
    rw [reads] at again
    have same : outcome = other := by simpa using again
    subst same
    exact ends.agrees sound

/-- A ring of 128 bytes with the default alignment. -/
def largeBlock : ControlBlock := { sampleBlock with dataCapacity := 128 }

/-- A one-byte message in front. -/
theorem peek_agrees_iff_message : ∃ state,
    (machine largeBlock).Reachable (SingleSession largeBlock) (initial largeBlock fun _ => 0) state ∧
      nextPayloadSize largeBlock state = 1 ∧ PeekAgrees largeBlock state := by
  obtain ⟨state, run, passed⟩ := (machine largeBlock).run_of_replay (SingleSession largeBlock)
    (initial largeBlock fun _ => 0) (.call (write 1 none) :: List.replicate 7 .writer)
    (fun state => state.readerPc.rank == 0 && nextPayloadSize largeBlock state == 1 &&
      decide (0 < (headerAt largeBlock state.data state.readPos.toNat).slotSize.toNat) &&
      decide (state.readPos.toNat + (headerAt largeBlock state.data state.readPos.toNat).slotSize.toNat ≤
        state.commitPos.toNat) &&
      decide ((headerAt largeBlock state.data state.readPos.toNat).payloadSize ≠ 0)) (by decide +kernel)
  simp only [Bool.and_eq_true, beq_iff_eq, decide_eq_true_eq, ReaderPc.rank_eq_zero_iff] at passed
  obtain ⟨⟨⟨⟨idle, peeked⟩, sized⟩, within⟩, payload⟩ := passed
  exact ⟨state, ⟨_, run⟩, peeked,
    (peek_agrees_iff largeBlock idle).mpr (.inr (.inl ⟨⟨sized, within⟩, payload⟩))⟩

/-- A 96-byte slot, written and read, then a one-byte message: its padding of 32
bytes is in front, the peek says 0, and `read` hands out the message behind it. -/
theorem padding_hides_message : ∃ state,
    (machine largeBlock).Reachable (SingleSession largeBlock) (initial largeBlock fun _ => 0) state ∧
      state.readerPc = .idle ∧ nextPayloadSize largeBlock state = 0 ∧ ¬ PeekAgrees largeBlock state := by
  obtain ⟨state, run, passed⟩ := (machine largeBlock).run_of_replay (SingleSession largeBlock)
    (initial largeBlock fun _ => 0)
    (.call (write 64 none) :: List.replicate 7 .writer ++
      .read .handler :: List.replicate 11 (.reader true) ++
      .call (write 1 none) :: List.replicate 12 .writer)
    (fun state => state.readerPc.rank == 0 && nextPayloadSize largeBlock state == 0 &&
      ((machine largeBlock).replay Machine.Always state
        (.read .handler :: (List.replicate 19 true).map .reader)).any fun after =>
          after.readerPc.rank == 0 && after.log.reads == state.log.reads ++
            [.accepted ⟨128, ⟨[0], {}⟩⟩]) (by decide +kernel)
  simp only [Bool.and_eq_true, beq_iff_eq, ReaderPc.rank_eq_zero_iff] at passed
  obtain ⟨⟨idle, peeked⟩, offered⟩ := passed
  refine ⟨state, ⟨_, run⟩, idle, peeked, fun agrees => ?_⟩
  obtain ⟨after, reading, passed⟩ := (machine largeBlock).run_of_replay Machine.Always state _ _ offered
  simp only [Bool.and_eq_true, beq_iff_eq, ReaderPc.rank_eq_zero_iff] at passed
  have silent := (agrees .handler _ after _ reading passed.1 passed.2).none.mp peeked
  cases silent

end SpscRing.Varlen
