import SpscRing.Fixed.WriteCall

/-! Which bytes the copies of `write` and `read` touch. Neither compares its
`size` with the item size, so a copy keeps to its slot only when the caller's
size does. -/

namespace SpscRing.Fixed

open SpscRing.Foundation

section Definitions

variable (block : ControlBlock)

/-- The call holds one slot, inside the data region; every byte outside the slot
is what it was, those of the published and unread slots among them. -/
structure WithinSlot (entry state : State) : Prop where
  claimed : Claimed block entry state
  inside : indexOf block entry.writePos + (itemSize block).toNat ≤ block.dataCapacity.toNat
  confined : state.data.Confined entry.data (indexOf block entry.writePos) (itemSize block).toNat
  unread : ∀ position : UInt64, (itemSize block).toNat ∣ position.toNat →
    state.readPos ≤ position → position < entry.commitPos →
    state.data.Agree entry.data (indexOf block position) (itemSize block).toNat

/-- What a call of `write` has done to the ring since it was made in the state
`entry`; a call that returned false has touched nothing. -/
structure WriteConfined (entry state : State) : Prop where
  confined : Untouched entry state ∨ WithinSlot block entry state
  refused : state.writerPc = .idle → state.reserved = none → Untouched entry state

/-- What the copy of `read` hands out is the beginning of the oldest published slot. -/
structure ReadConfined (before after : State) : Prop where
  published : before.readPos.toNat + (itemSize block).toNat ≤ before.commitPos.toNat
  inside : indexOf block before.readPos + (itemSize block).toNat ≤ block.dataCapacity.toNat
  copied : after.out <+: before.data.read (indexOf block before.readPos) (itemSize block).toNat

/-- Calls with the given size keep to one slot, in every reachable state and
whatever the other side does meanwhile. -/
structure CopiesConfined (data : Memory) (size : UInt32) : Prop where
  write : ∀ entry called source actions state,
    (machine block).Reachable (Disciplined block) (initial block data) entry →
    step block entry (.call (.write source size)) = some called →
    (machine block).Run (During block) called actions state → WriteConfined block entry state
  read : ∀ before read after,
    (machine block).Reachable (Disciplined block) (initial block data) before →
    before.readerPc = .copyOut size read → readerStep block before = some after →
    ReadConfined block before after

end Definitions

variable {block : ControlBlock} {entry state before after : State} {source : Source}
variable {data : Memory} {size : UInt32}

/-- A source of at most one slot stays within the slot it is copied to. -/
theorem copied_confined {position : UInt64} (fits : source.size.toNat ≤ (itemSize block).toNat) :
    (copied block data position source).Confined data (indexOf block position)
      (itemSize block).toNat :=
  Memory.confined_write (Nat.le_refl _) (by simpa using fits)

theorem Claimed.withinSlot (geometry : FixedGeometry block) (occupancy : Occupancy block entry)
    (claimed : Claimed block entry state)
    (confined : state.data.Confined entry.data (indexOf block entry.writePos)
      (itemSize block).toNat) : WithinSlot block entry state := by
  have fronts := occupancy.fronts
  refine ⟨claimed, slot_inside geometry fronts.writeWhole, confined, ?_⟩
  intro position whole unread published
  have behind : position < entry.writePos :=
    UInt64.lt_of_lt_of_le published (UInt64.le_iff_toNat_le.mpr fronts.published)
  exact confined.agree (slot_apart whole fronts.writeWhole claimed.room unread behind)

theorem WriteCall.writeConfined (geometry : FixedGeometry block) (occupancy : Occupancy block entry)
    (fits : source.size.toNat ≤ (itemSize block).toNat) (call : WriteCall block entry source state) :
    WriteConfined block entry state := by
  have written (same : state.data = copied block entry.data entry.writePos source) :
      state.data.Confined entry.data (indexOf block entry.writePos) (itemSize block).toNat :=
    same ▸ copied_confined fits
  cases here : state.writerPc with
  | loadWrite _ | loadRead _ _ | storeWrite _ _ =>
    simp only [WriteCall, here] at call
    exact ⟨.inl call.2, fun idle => absurd idle (by simp [here])⟩
  | copy _ _ =>
    simp only [WriteCall, here] at call
    obtain ⟨-, -, claimed, same, -⟩ := call
    exact ⟨.inr (claimed.withinSlot geometry occupancy fun _ _ => congrFun same _),
      fun idle => absurd idle (by simp [here])⟩
  | storeCommit | bumpCommit =>
    simp only [WriteCall, here] at call
    exact ⟨.inr (call.1.withinSlot geometry occupancy (written call.2.1)),
      fun idle => absurd idle (by simp [here])⟩
  | idle =>
    simp only [WriteCall, here] at call
    rcases call with ⟨-, untouched⟩ | ⟨claimed, same, -⟩
    · exact ⟨.inl untouched, fun _ _ => untouched⟩
    · exact ⟨.inr (claimed.withinSlot geometry occupancy (written same)),
        fun _ refused => absurd refused (by simp [claimed.reserved])⟩

theorem readConfined_of_fits {read : UInt64} (geometry : FixedGeometry block)
    (occupancy : Occupancy block before) (fits : size.toNat ≤ (itemSize block).toNat)
    (here : before.readerPc = .copyOut size read) (taken : readerStep block before = some after) :
    ReadConfined block before after := by
  have reader := occupancy.reader
  simp only [ReaderOk, here] at reader
  obtain ⟨rfl, published⟩ := reader
  simp only [readerStep, here] at taken
  cases taken
  exact ⟨published, slot_inside geometry occupancy.fronts.readWhole, Memory.read_shorter _ _ fits⟩

/-- A source of more than one slot changes a byte behind the first slot of a fresh ring. -/
theorem oversized_not_confined (fresh : Meta.SameFronts {} block.rbMeta)
    (oversized : (itemSize block).toNat < size.toNat) : ¬ CopiesConfined block data size := by
  intro confined
  -- Every byte of the source differs from the byte it is copied over.
  let source : Source := ⟨fun address => data address + 1, size⟩
  have front : (initial block data).writePos = 0 := fresh.writePos
  have sized : (itemSize block).toNat = block.fixedItemSize.toNat := UInt32.toNat_toUInt64 _
  have limit := block.fixedItemSize.toNat_lt
  obtain ⟨called, actions, after, taken, run, -, -, written, -⟩ :=
    write_alone block (initial block data) source rfl rfl (by rw [front]; simp)
      (by rw [front, UInt64.toNat_zero]; omega)
  have start : indexOf block (initial block data).writePos = 0 := by
    rw [front, indexOf_eq, UInt64.toNat_zero, Nat.zero_mod]
  have same : after.data (itemSize block).toNat = data (itemSize block).toNat := by
    rcases (confined.write _ _ _ _ _ (.refl _) taken run).confined with untouched | within
    · exact congrFun untouched.data _
    · exact within.confined _ (.inr (by rw [start, Nat.zero_add]))
  have changed : after.data (itemSize block).toNat = data (itemSize block).toNat + 1 := by
    rw [written, copied, start]
    have inside : (itemSize block).toNat < (source.data.read 0 source.size.toNat).length := by
      rw [Memory.length_read]
      exact oversized
    have hit : data.write 0 (source.data.read 0 source.size.toNat) (0 + (itemSize block).toNat) =
        (source.data.read 0 source.size.toNat)[(itemSize block).toNat] := Memory.write_inside inside
    rw [Memory.getElem_read, Nat.zero_add] at hit
    exact hit
  rw [same] at changed
  exact absurd changed (by simp)

/-- The copies of `write` and `read` keep to one slot exactly for the sizes up
to the item size. -/
theorem copies_confined_iff (valid : isValidFixedRing block = true)
    (fresh : Meta.SameFronts {} block.rbMeta) :
    CopiesConfined block data size ↔ size ≤ block.fixedItemSize := by
  have geometry := fixedGeometry_of_valid valid
  have sized : (itemSize block).toNat = block.fixedItemSize.toNat := UInt32.toNat_toUInt64 _
  rw [UInt32.le_iff_toNat_le, ← sized]
  constructor
  · intro confined
    by_contra oversized
    exact oversized_not_confined fresh (Nat.not_le.mp oversized) confined
  · intro fits
    refine ⟨?_, ?_⟩
    · intro entry called source actions state reached taken run
      have occupancy := reachable_occupancy geometry fresh reached
      have call := (writeCall_run ⟨source, size⟩ geometry occupancy taken run).1
      exact call.writeConfined geometry occupancy fits
    · intro before read after reached here taken
      exact readConfined_of_fits geometry (reachable_occupancy geometry fresh reached) fits here taken

/-- Messages of exactly one item on the ring of two slots. -/
theorem copies_confined_iff_item : CopiesConfined sampleBlock (fun _ => 0) 16 :=
  (copies_confined_iff (by decide) ⟨rfl, rfl, rfl⟩).mpr (by decide)

/-- A call of `write` with 17 bytes overwrites the first byte of the second of
two slots of 16 bytes. -/
theorem write_spills_over : isValidFixedRing sampleBlock = true ∧
    ∃ source called actions state,
      step sampleBlock (initial sampleBlock fun _ => 0) (.call (.write source 17)) = some called ∧
      (machine sampleBlock).Run (During sampleBlock) called actions state ∧
      state.data 16 = 7 ∧ ¬ WriteConfined sampleBlock (initial sampleBlock fun _ => 0) state := by
  obtain ⟨called, actions, state, taken, run, -, -, written, -⟩ :=
    write_alone sampleBlock (initial sampleBlock fun _ => 0) ⟨fun _ => 7, 17⟩ rfl rfl (by decide)
      (by decide)
  have spilled : state.data 16 = 7 := by
    rw [written]
    decide
  refine ⟨by decide, _, called, actions, state, taken, run, spilled, fun confined => ?_⟩
  rcases confined.confined with untouched | within
  · exact absurd (congrFun untouched.data 16) (by rw [spilled]; decide)
  · exact absurd (within.confined 16 (.inr (by decide))) (by rw [spilled]; decide)

end SpscRing.Fixed
