import SpscRing.Varlen.Alone

/-! The size arithmetic of `try_reserve` over all 32-bit payload sizes: the slot
size is computed modulo `2^32` before it is compared with the capacity. -/

namespace SpscRing.Varlen

open SpscRing.Foundation

/-- What may happen while a call of the producer is under way. -/
def Action.BesideCall : Action → Prop
  | .writer | .read _ | .reader _ => True
  | .call _ | .fill _ _ | .restart => False

instance Action.decidableBesideCall (action : Action) : Decidable action.BesideCall :=
  match action with
  | .writer | .read _ | .reader _ => .isTrue trivial
  | .call _ | .fill _ _ | .restart => .isFalse id

/-- A step of the producer. -/
def Action.isWriter : Action → Bool
  | .writer => true
  | .call _ | .fill _ _ | .restart | .read _ | .reader _ => false

section Definitions

variable (block : ControlBlock)

/-- A call of `try_reserve` in a state runs to its return, the consumer alongside. -/
def Returns (state : State) (payloadSize : UInt32) (messageMeta : MessageMeta) (after : State) : Prop :=
  ∃ actions, (∀ action ∈ actions, action.BesideCall) ∧
    (machine block).Run Machine.Always state (.call (tryReserve payloadSize messageMeta) :: actions) after ∧
    after.writerPc = .idle

/-- A reserved slot is large enough for its payload, fits the ring, and is what
the reservation front moved by. -/
structure SlotExact (payloadSize : UInt32) (state : State) (position : UInt64)
    (slotSize : UInt32) : Prop where
  roomy : 32 + payloadSize.toNat ≤ slotSize.toNat
  bounded : slotSize.toNat ≤ block.dataCapacity.toNat
  moved : state.writePos = position + slotSize.toUInt64

/-- The state a call returns in agrees with the mathematical slot size. -/
structure SizeExact (payloadSize : UInt32) (after : State) : Prop where
  tooLarge : (∃ result, after.returned = some result ∧ result.status = .messageTooLarge) ↔
    block.dataCapacity.toNat < exactSlotSize block payloadSize
  reserved : ∀ result, after.returned = some result → result.status = .ok →
    SlotExact block payloadSize after result.position
      (loadHeader after.data (indexOf block result.position)).slotSize

/-- Where a plain call of `try_reserve` that passed its size check can be, and
what it has returned once it is done. -/
def Calling (call : ReserveCall) (state : State) : Prop :=
  match state.writerPc with
  | .loadHead current | .loadRead current _ | .casPad current _ | .writePad current _
  | .publishPad current _ | .bumpPad current _ | .casSlot current _ => current = call
  | .writeSlot current head =>
    current = call ∧ state.writePos = head + (neededFor block call.payloadSize).toUInt64
  | .idle => ∃ result, state.returned = some result ∧ (result.status = .full ∨
      (result.status = .ok ∧
        (loadHeader state.data (indexOf block result.position)).slotSize =
          neededFor block call.payloadSize ∧
        state.writePos = result.position + (neededFor block call.payloadSize).toUInt64))
  | .copyPayload _ _ _ | .readSlotSize _ | .publishSlot _ _ | .bumpSlot => False

end Definitions

variable {block : ControlBlock} {before state after : State} {call : ReserveCall}
variable {payloadSize : UInt32} {messageMeta : MessageMeta}

theorem calling_writerStep (source : call.source = none) (commits : call.commits = false)
    (calling : Calling block call before) (taken : writerStep block before = some after) :
    Calling block call after := by
  cases here : before.writerPc with
  | idle => simp [writerStep, here] at taken
  | loadRead current head =>
    simp only [Calling, here] at calling
    simp only [writerStep, here] at taken
    split at taken
    · cases taken
      exact ⟨_, rfl, .inl rfl⟩
    · split at taken <;> cases taken <;> exact calling
  | casPad current head =>
    simp only [Calling, here] at calling
    simp only [writerStep, here] at taken
    split at taken <;> cases taken <;> exact calling
  | casSlot current head =>
    simp only [Calling, here] at calling
    simp only [writerStep, here] at taken
    split at taken
    · cases taken
      exact ⟨calling, by rw [calling]⟩
    · cases taken
      exact calling
  | writeSlot current head =>
    simp only [Calling, here] at calling
    obtain ⟨rfl, moved⟩ := calling
    simp only [writerStep, here, afterReserve_plain _ _ source commits] at taken
    cases taken
    refine ⟨_, rfl, .inr ⟨rfl, ?_, moved⟩⟩
    simp only [State.writeSlot, loadHeader_storeHeader]
  | loadHead _ | writePad _ _ | publishPad _ _ | bumpPad _ _ =>
    simp only [Calling, here] at calling
    simp only [writerStep, here] at taken
    cases taken
    exact calling
  | copyPayload _ _ _ | readSlotSize _ | publishSlot _ _ | bumpSlot =>
    simp [Calling, here] at calling

/-- The consumer does not disturb a call. -/
theorem calling_frame (calling : Calling block call before) (frame : ConsumerFrame before after) :
    Calling block call after := by
  simp only [Calling, frame.writerPc, frame.writePos, frame.data, frame.returned] at calling ⊢
  exact calling

/-- An action beside a call is a step of the writer or leaves everything of the
producer alone. -/
theorem frame_of_beside {action : Action} (beside : action.BesideCall)
    (taken : step block before action = some after) :
    (action = .writer ∧ writerStep block before = some after) ∨
    (action.isWriter = false ∧ ConsumerFrame before after) := by
  cases action with
  | writer => exact .inl ⟨rfl, taken⟩
  | reader answer => exact .inr ⟨rfl, readerStep_frame taken⟩
  | read call =>
    simp only [step] at taken
    split at taken
    · cases taken
      exact .inr ⟨rfl, .of_consumer before _ _ _ _ _⟩
    · cases taken
  | call _ | fill _ _ | restart => exact beside.elim

/-- A call either fails its size check at once or goes on to reserve. -/
theorem returns_cases (idle : state.writerPc = .idle) (free : state.pending = false)
    (returns : Returns block state payloadSize messageMeta after) :
    (block.dataCapacity.toNat < (neededFor block payloadSize).toNat ∧
      after.returned = some { status := .messageTooLarge }) ∨
    ((neededFor block payloadSize).toNat ≤ block.dataCapacity.toNat ∧
      Calling block { payloadSize, messageMeta } after) := by
  obtain ⟨actions, beside, run, -⟩ := returns
  cases run with
  | next taken _ rest =>
    have alongside : (machine block).Run (fun _ action _ => action.BesideCall) _ actions after :=
      rest.mono fun action member _ _ _ => beside action member
    simp only [machine, step, idle, tryReserve, State.beginReserve, free, gt_iff_lt,
      UInt64.lt_iff_toNat_lt, UInt32.toNat_toUInt64] at taken
    by_cases large : block.dataCapacity.toNat < (neededFor block payloadSize).toNat
    · simp only [large, if_true, Bool.false_eq_true, if_false] at taken
      cases taken
      refine .inl ⟨large, (alongside.preserves (fun state => state.writerPc = .idle ∧
        state.returned = some { status := .messageTooLarge }) ?_ ⟨rfl, rfl⟩).2⟩
      rintro before action later ⟨resting, returned⟩ admitted taken
      rcases frame_of_beside admitted taken with ⟨-, step⟩ | ⟨-, frame⟩
      · simp [writerStep, resting] at step
      · exact ⟨frame.writerPc.trans resting, frame.returned.trans returned⟩
    · simp only [large, Bool.false_eq_true, if_false] at taken
      cases taken
      refine .inr ⟨Nat.not_lt.mp large, alongside.preserves (Calling block _) ?_ rfl⟩
      intro before action later calling admitted taken
      rcases frame_of_beside admitted taken with ⟨-, step⟩ | ⟨-, frame⟩
      · exact calling_writerStep rfl rfl calling step
      · exact calling_frame calling frame

/-- A call returns when the producer runs, whatever state it starts in. -/
theorem returns_exists (shape : Shape block) (idle : state.writerPc = .idle)
    (free : state.pending = false) (payloadSize : UInt32) (messageMeta : MessageMeta) :
    ∃ after, Returns block state payloadSize messageMeta after := by
  by_cases fits : (neededFor block payloadSize).toNat ≤ block.dataCapacity.toNat
  · have entry := run_entry state { payloadSize, messageMeta } idle free fits
    obtain ⟨count, after, rest, returned⟩ := reserve_returns shape
      { state with writerPc := .loadRead { payloadSize, messageMeta } state.writePos }
      { payloadSize, messageMeta } rfl rfl fits rfl
    refine ⟨after, List.replicate (count + 1) .writer, ?_, entry.append rest, returned⟩
    intro action member
    rw [(List.mem_replicate.mp member).2]
    trivial
  · refine ⟨state.finishReserve { status := .messageTooLarge }, [], by simp, ?_, rfl⟩
    have large : (neededFor block payloadSize).toUInt64 > block.dataCapacity := by
      rw [gt_iff_lt, UInt64.lt_iff_toNat_lt, UInt32.toNat_toUInt64]
      omega
    apply Machine.replay_run
    simp [Machine.replay, Machine.Always, machine, step, idle, tryReserve, State.beginReserve, free,
      large]

section Wrap

variable (shape : Shape block)
include shape

/-- The slot size of a payload whose sum wraps: the excess over `2^32`, rounded down. -/
theorem toNat_neededFor_wrapped
    (wrapped : 2 ^ 32 ≤ 32 + payloadSize.toNat + block.dataAlignment.toNat - 1) :
    (neededFor block payloadSize).toNat =
      (32 + payloadSize.toNat + block.dataAlignment.toNat - 1 - 2 ^ 32) / block.dataAlignment.toNat *
        block.dataAlignment.toNat := by
  have limit := payloadSize.toNat_lt
  have bounded := shape.alignment_le
  have excess : (32 + payloadSize.toNat + block.dataAlignment.toNat - 1) % 2 ^ 32 =
      32 + payloadSize.toNat + block.dataAlignment.toNat - 1 - 2 ^ 32 := by omega
  rw [toNat_neededFor shape, excess]

/-- The 32-bit computation never exceeds the mathematical slot size. -/
theorem neededFor_le_exact : (neededFor block payloadSize).toNat ≤ exactSlotSize block payloadSize := by
  rw [toNat_neededFor shape, exactSlotSize]
  exact Nat.mul_le_mul_right _ (Nat.div_le_div_right (Nat.mod_le _ _))

theorem wrapped_short
    (wrapped : 2 ^ 32 ≤ 32 + payloadSize.toNat + block.dataAlignment.toNat - 1) :
    (neededFor block payloadSize).toNat < 32 + payloadSize.toNat := by
  have bounded := shape.alignment_le
  have rounded := Nat.div_mul_le_self
    (32 + payloadSize.toNat + block.dataAlignment.toNat - 1 - 2 ^ 32) block.dataAlignment.toNat
  rw [toNat_neededFor_wrapped shape wrapped]
  omega

/-- A call whose size check is not fooled by a wrap returns exact sizes. -/
theorem sizeExact_of_returns (idle : state.writerPc = .idle) (free : state.pending = false)
    (sound : 32 + payloadSize.toNat + block.dataAlignment.toNat - 1 < 2 ^ 32 ∨
      block.dataCapacity.toNat < (neededFor block payloadSize).toNat)
    (returns : Returns block state payloadSize messageMeta after) :
    SizeExact block payloadSize after := by
  have resting := returns.choose_spec.2.2
  have below : (neededFor block payloadSize).toNat ≤ exactSlotSize block payloadSize :=
    neededFor_le_exact shape
  rcases returns_cases idle free returns with ⟨large, returned⟩ | ⟨fits, calling⟩
  · constructor
    · exact ⟨fun _ => by omega, fun _ => ⟨_, returned, rfl⟩⟩
    · intro result same ok
      rw [returned] at same
      cases same
      cases ok
  · have unwrapped : 32 + payloadSize.toNat + block.dataAlignment.toNat - 1 < 2 ^ 32 := by omega
    have exact := toNat_neededFor_exact shape payloadSize unwrapped
    have enough := exactSlotSize_ge shape payloadSize
    simp only [Calling, resting] at calling
    obtain ⟨result, returned, outcome⟩ := calling
    constructor
    · constructor
      · rintro ⟨other, same, large⟩
        rw [returned] at same
        cases same
        rcases outcome with full | ⟨ok, -⟩
        · rw [full] at large
          cases large
        · rw [ok] at large
          cases large
      · intro large
        omega
    · intro other same ok
      rw [returned] at same
      cases same
      rcases outcome with full | ⟨-, size, moved⟩
      · rw [full] at ok
        cases ok
      · rw [size]
        exact ⟨by omega, fits, moved⟩

end Wrap

/-- The same call as one that returns, and what it leaves in memory: the header of the slot
holds the size the 32-bit computation gave, which need not be the exact one. -/
theorem fresh_returns (shape : Shape block) (fresh : block.rbMeta = {}) (data : Memory)
    (fits : (neededFor block payloadSize).toNat ≤ block.dataCapacity.toNat) :
    ∃ after result, Returns block (initial block data) payloadSize {} after ∧
      after.returned = some result ∧ result.status = .ok ∧
      (loadHeader after.data (indexOf block result.position)).slotSize =
        neededFor block payloadSize := by
  obtain ⟨count, run, idle, returned⟩ := fresh_reserves shape (.of_eq fresh) data fits {}
  have written : (initial block data).writePos = 0 := by
    simp [initial, fresh]
  refine ⟨_, _, ⟨_, ?_, run, idle⟩, returned, rfl, ?_⟩
  · intro action member
    rw [(List.mem_replicate.mp member).2]
    trivial
  · simp only [State.reserved, State.writeSlot, written, loadHeader_storeHeader]

/-- In every reachable state without a pending reservation, `try_reserve`
returns and its size arithmetic is exact. -/
def SizesExact (block : ControlBlock) (data : Memory) (payloadSize : UInt32) : Prop :=
  ∀ state, (machine block).Reachable Machine.Always (initial block data) state →
    state.writerPc = .idle → state.pending = false → ∀ messageMeta,
      (∃ after, Returns block state payloadSize messageMeta after) ∧
      ∀ after, Returns block state payloadSize messageMeta after → SizeExact block payloadSize after

/-- Sizes are exact precisely for the payloads whose rounded sum stays below
`2^32` or wraps to a size the ring refuses anyway. -/
theorem slot_size_exact_iff {header : ControlBlock} {capacity : UInt64}
    {alignment itemSize : UInt32} {data : Memory}
    (accepted : initControlBlock header capacity .varlen alignment itemSize = some block) :
    SizesExact block data payloadSize ↔
      32 + payloadSize.toNat + alignment.toNat - 1 < 2 ^ 32 ∨
        capacity.toNat < (32 + payloadSize.toNat + alignment.toNat - 1 - 2 ^ 32) / alignment.toNat *
          alignment.toNat := by
  obtain ⟨⟨shape, -⟩, fresh, rfl, rfl, -⟩ := initControlBlock_accepted accepted
  constructor
  · intro property
    by_contra unsound
    rw [not_or, Nat.not_lt, Nat.not_lt] at unsound
    obtain ⟨wrapped, small⟩ := unsound
    rw [← toNat_neededFor_wrapped shape wrapped] at small
    obtain ⟨after, result, returns, returned, ok, size⟩ := fresh_returns shape fresh data small
    have exact := (property _ (Machine.Reachable.refl _) rfl rfl {}).2 after returns
    have roomy := (exact.reserved result returned ok).roomy
    have short := wrapped_short shape wrapped
    rw [size] at roomy
    omega
  · intro sound state reached idle free messageMeta
    refine ⟨returns_exists shape idle free payloadSize messageMeta, fun after returns => ?_⟩
    refine sizeExact_of_returns shape idle free ?_ returns
    by_cases wrapped : 2 ^ 32 ≤ 32 + payloadSize.toNat + block.dataAlignment.toNat - 1
    · rw [toNat_neededFor_wrapped shape wrapped]
      exact sound
    · exact .inl (Nat.not_le.mp wrapped)

/-- The 100-byte payload of an ordinary caller. -/
theorem slot_size_exact_iff_ordinary : SizesExact sampleBlock (fun _ => 0) 100 :=
  (slot_size_exact_iff sampleBlock_accepted).mpr (.inl (by decide))

/-- A payload of `2^32 - 32` bytes gets a slot of size zero in a ring of 64 bytes. -/
theorem huge_payload_accepted : ¬ SizesExact sampleBlock (fun _ => 0) 0xFFFFFFE0 := by
  intro sound
  obtain ⟨after, run, passed⟩ := (machine sampleBlock).run_of_replay Machine.Always
    (initial sampleBlock fun _ => 0)
    (.call (tryReserve 0xFFFFFFE0) :: List.replicate 4 .writer)
    (fun after => after.writerPc.isIdle &&
      after.returned == some { status := .ok, payload := some 32, position := 0 }) (by decide +kernel)
  simp only [Bool.and_eq_true, beq_iff_eq, WriterPc.isIdle_iff] at passed
  have returns : Returns sampleBlock (initial sampleBlock fun _ => 0) 0xFFFFFFE0 {} after := by
    refine ⟨List.replicate 4 .writer, ?_, run, passed.1⟩
    intro action member
    rw [(List.mem_replicate.mp member).2]
    trivial
  have exact := (sound _ (Machine.Reachable.refl _) rfl rfl {}).2 after returns
  obtain ⟨result, returned, large⟩ := exact.tooLarge.mpr (by decide)
  rw [passed.2] at returned
  cases returned
  cases large

end SpscRing.Varlen
