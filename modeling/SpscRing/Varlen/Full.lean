import SpscRing.Varlen.Alone

/-! When `try_reserve` reports a full ring: the free bytes, the tail before the
ring end and the slot size decide it together. -/

namespace SpscRing.Varlen

open SpscRing.Foundation

section Definitions

variable (block : ControlBlock) (state : State)

/-- Bytes that are neither reserved nor unread. -/
def freeBytes : Nat := block.dataCapacity.toNat - (state.writePos.toNat - state.readPos.toNat)

/-- Contiguous bytes from the reservation front to the ring end. -/
def tailBytes : Nat := block.dataCapacity.toNat - state.writePos.toNat % block.dataCapacity.toNat

/-- `try_reserve`, with no consumer step in between, returns, and reports a full ring only
for lack of free bytes. -/
def FullExact (payloadSize : UInt32) (messageMeta : MessageMeta) : Prop :=
  (∃ result after, TryReserves block state payloadSize messageMeta result after) ∧
    ∀ result after, TryReserves block state payloadSize messageMeta result after →
      result.status = .full → freeBytes block state < exactSlotSize block payloadSize

end Definitions

variable {block : ControlBlock} {state : State} {slots : List Slot} {payloadSize : UInt32}
variable {messageMeta : MessageMeta}

section Decision

variable (inv : Inv block state slots) (small : NoWrap block state)
variable (fits : (neededFor block payloadSize).toNat ≤ block.dataCapacity.toNat)
include inv small fits

/-- The first free-space check of a call, in free bytes. -/
theorem crowded_iff : Crowded block state payloadSize ↔
    freeBytes block state < (neededFor block payloadSize).toNat := by
  have ordered := Nat.le_trans inv.front_le inv.committed
  have bounded := inv.bounded
  unfold NoWrap at small
  rw [Crowded, ← not_iff_not, room_iff ordered (by omega), freeBytes]
  omega

variable (shape : Shape block)
include shape

/-- The second check, after the padding has used up the tail. -/
theorem crowded_padded_iff (roomy : ¬ Crowded block state payloadSize)
    (padded : tailBytes block state < (neededFor block payloadSize).toNat) :
    Crowded block (state.padded block) payloadSize ↔
      freeBytes block state < (neededFor block payloadSize).toNat + tailBytes block state := by
  have ordered := Nat.le_trans inv.front_le inv.committed
  have bounded := inv.bounded
  have moved := toNat_padded shape small.inRange
  have tail : (wrapPadding block state.writePos).toNat = tailBytes block state :=
    toNat_wrapPadding shape _
  have still : (state.padded block).readPos = state.readPos := rfl
  rw [crowded_iff inv small fits] at roomy
  unfold NoWrap at small
  unfold freeBytes at roomy ⊢
  rw [Crowded, ← not_iff_not, still, room_iff (by omega) (by omega)]
  omega

end Decision

/-- The outcome of a call by the producer alone, from what it finds. -/
theorem alone_status (shape : Shape block) (inv : Inv block state slots)
    (small : NoWrap block state) (idle : state.writerPc = .idle) (free : state.pending = false)
    (fits : (neededFor block payloadSize).toNat ≤ block.dataCapacity.toNat)
    (messageMeta : MessageMeta) :
    ∃ result after, TryReserves block state payloadSize messageMeta result after ∧
      (result.status = .full ↔ freeBytes block state < (neededFor block payloadSize).toNat ∨
        (tailBytes block state < (neededFor block payloadSize).toNat ∧
          freeBytes block state < (neededFor block payloadSize).toNat + tailBytes block state)) := by
  obtain ⟨result, alone⟩ := tryReserves_alone shape small.inRange idle free fits messageMeta
  refine ⟨result, _, alone, ?_⟩
  have tail : Short block state payloadSize ↔
      tailBytes block state < (neededFor block payloadSize).toNat :=
    wrapPadding_lt_iff shape
  have crowded := crowded_iff inv small fits
  rw [(reserveAlone_status alone.choose_spec.2.2).2, tail, ← crowded]
  by_cases roomy : Crowded block state payloadSize
  · simp [roomy]
  · by_cases short : tailBytes block state < (neededFor block payloadSize).toNat
    · rw [crowded_padded_iff inv small fits shape roomy short]
    · simp [short]

/-- `full` is exact precisely when the call does not have to pad its way into
a shortage: the free bytes fall short anyway, the slot fits before the ring
end, or the free bytes cover the tail and the slot. -/
theorem full_exact_iff {header : ControlBlock} {capacity : UInt64} {alignment itemSize : UInt32}
    {data : Memory}
    (accepted : initControlBlock header capacity .varlen alignment itemSize = some block)
    (reached : (machine block).Reachable (SingleSession block) (initial block data) state)
    (unwrapped : NoWrap block state) (idle : state.writerPc = .idle) (free : state.pending = false)
    (limit : payloadSize.toNat ≤ payloadLimit)
    (fits : exactSlotSize block payloadSize ≤ block.dataCapacity.toNat) :
    FullExact block state payloadSize messageMeta ↔
      freeBytes block state < exactSlotSize block payloadSize ∨
      exactSlotSize block payloadSize ≤ tailBytes block state ∨
      exactSlotSize block payloadSize + tailBytes block state ≤ freeBytes block state := by
  obtain ⟨⟨shape, -⟩, slots, inv⟩ := single_inv accepted reached
  have exact : (neededFor block payloadSize).toNat = exactSlotSize block payloadSize :=
    toNat_neededFor_exact shape _ (unwrapped_of_limit shape limit)
  obtain ⟨result, after, alone, status⟩ :=
    alone_status shape inv unwrapped idle free (exact ▸ fits) messageMeta
  rw [exact] at status
  constructor
  · intro property
    by_cases full : result.status = .full
    · exact .inl (property.2 result after alone full)
    · rw [status] at full
      omega
  · intro condition
    refine ⟨⟨result, after, alone⟩, ?_⟩
    intro other last again full
    rw [(again.unique alone).2, status] at full
    omega

theorem full_exact_iff_fresh :
    FullExact sampleBlock (initial sampleBlock fun _ => 0) 32 {} :=
  (full_exact_iff sampleBlock_accepted (Machine.Reachable.refl _) (by decide) rfl rfl (by decide)
    (by decide)).mpr (by decide)

/-- A drained ring of 64 bytes, its fronts at index 40, refuses a slot of 64
bytes: the padding takes the 24 bytes of the tail, and 40 are left. -/
theorem drained_ring_refuses : ∃ state,
    (machine sampleBlock).Reachable (SingleSession sampleBlock) (initial sampleBlock fun _ => 0) state ∧
      NoWrap sampleBlock state ∧ state.writerPc = .idle ∧ state.pending = false ∧
      state.readPos = state.writePos ∧
      exactSlotSize sampleBlock 32 ≤ sampleBlock.dataCapacity.toNat ∧
      (∃ after, TryReserves sampleBlock state 32 {} { status := .full } after) ∧
      ¬ freeBytes sampleBlock state < exactSlotSize sampleBlock 32 := by
  obtain ⟨state, run, passed⟩ := (machine sampleBlock).run_of_replay (SingleSession sampleBlock)
    (initial sampleBlock fun _ => 0)
    (.call (write 8 none) :: List.replicate 7 .writer ++
      .read .handler :: List.replicate 11 (.reader true))
    (fun state => state.writerPc.isIdle && !state.pending && state.readPos == 40 &&
      state.writePos == 40 &&
      ((machine sampleBlock).replay Machine.Always state
        (.call (tryReserve 32) :: List.replicate 7 .writer)).any fun after =>
          after.writerPc.isIdle && after.returned == some { status := .full }) (by decide +kernel)
  simp only [Bool.and_eq_true, Bool.not_eq_true', beq_iff_eq] at passed
  obtain ⟨⟨⟨⟨idle, free⟩, read⟩, written⟩, alone⟩ := passed
  obtain ⟨after, again, returned⟩ := (machine sampleBlock).run_of_replay Machine.Always state _ _ alone
  simp only [Bool.and_eq_true, beq_iff_eq, WriterPc.isIdle_iff] at returned
  refine ⟨state, ⟨_, run⟩, ?_, (WriterPc.isIdle_iff _).mp idle, free, read.trans written.symm,
    by decide, ⟨after, 7, again, returned⟩, ?_⟩
  · simp only [NoWrap, written]
    decide
  · simp only [freeBytes, read, written]
    decide

end SpscRing.Varlen
