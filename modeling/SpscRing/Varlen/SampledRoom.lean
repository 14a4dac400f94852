import SpscRing.RingView
import SpscRing.Varlen.Passes
import SpscRing.Varlen.Representation

/-! A producer that looks at `available_bytes()` before it reserves: the room it has seen
is still there when its call looks again. -/

namespace SpscRing.Varlen

open SpscRing.Foundation

section Definitions

variable (block : ControlBlock)

/-- The bytes a reservation takes from the front on: its slot, with the padding in
front of it when the slot does not fit before the ring end. -/
def reserveBytes (front : UInt64) (payloadSize : UInt32) : Nat :=
  if wrapPadding block front < (neededFor block payloadSize).toUInt64 then
    (wrapPadding block front).toNat + (neededFor block payloadSize).toNat
  else (neededFor block payloadSize).toNat

/-- How far a call has come that has the room it needs. -/
def Granted (call : ReserveCall) (state : State) : Prop :=
  match state.writerPc with
  | .loadHead given => given = call ∧ Roomy block state.toMeta state.writePos
      (reserveBytes block state.writePos call.payloadSize)
  | .loadRead given head | .casPad given head | .writePad given head | .publishPad given head
  | .bumpPad given head => given = call ∧ Roomy block state.toMeta head
      (reserveBytes block head call.payloadSize)
  | .casSlot _ _ | .writeSlot _ _ => True
  | _ => ∃ result, state.returned = some result ∧ result.status = .ok

/-- What a call does that has the room it needs: it takes at most 13 steps, can always
take the next one, and returns with a slot. -/
structure Reserves (actions : List Action) (state : State) : Prop where
  steps : actions.countP Action.isWriter ≤ 13
  enabled : state.writerPc ≠ .idle → ∃ next, step block state .writer = some next
  returns : state.writerPc = .idle → ∃ result, state.returned = some result ∧ result.status = .ok

end Definitions

variable {block : ControlBlock} {state before after entry : State} {call : ReserveCall}
variable {front head : UInt64} {payloadSize : UInt32} {slots : List Slot}

theorem needed_le_reserveBytes :
    (neededFor block payloadSize).toNat ≤ reserveBytes block front payloadSize := by
  unfold reserveBytes
  split
  · exact Nat.le_add_left _ _
  · exact Nat.le_refl _

/-- Behind a padding the slot fits before the ring end. -/
theorem reserveBytes_padded (shape : Shape block)
    (small : head.toNat + (wrapPadding block head).toNat < 2 ^ 64)
    (fits : (neededFor block payloadSize).toNat ≤ block.dataCapacity.toNat) :
    reserveBytes block (head + wrapPadding block head) payloadSize =
      (neededFor block payloadSize).toNat := by
  have start := index_padEnd shape small
  rw [indexOf_eq] at start
  rw [reserveBytes, if_neg]
  rw [wrapPadding_lt_iff shape, start]
  omega

theorem Granted.frame (granted : Granted block call before) (frame : ConsumerFrame before after)
    (forward : before.readPos ≤ after.readPos) : Granted block call after := by
  unfold Granted at granted ⊢
  rw [frame.writerPc, frame.writePos, frame.returned]
  cases here : before.writerPc <;> simp only [here] at granted ⊢
  case loadHead | loadRead | casPad | writePad | publishPad | bumpPad =>
    exact ⟨granted.1, granted.2.mono forward⟩
  all_goals exact granted

/-- Once the slot is reserved, the call keeps what it is going to return. -/
theorem granted_past {pc : WriterPc} (past : pc.PastReserve)
    (reserved : ∃ result, state.returned = some result ∧ result.status = .ok) :
    Granted block call { state with writerPc := pc } := by
  cases pc with
  | idle | copyPayload _ _ _ | readSlotSize _ | publishSlot _ _ | bumpSlot => exact reserved
  | loadHead _ | loadRead _ _ | casPad _ _ | writePad _ _ | publishPad _ _ | bumpPad _ _
  | casSlot _ _ | writeSlot _ _ => exact past.elim

theorem granted_loadRead (shape : Shape block) (inv : Inv block before slots)
    (inRange : InRange block before) (here : before.writerPc = .loadRead call head)
    (roomy : Roomy block before.toMeta head (reserveBytes block head call.payloadSize))
    (taken : writerStep block before = some after) : Granted block call after := by
  have exactly := inv.passExact shape inRange here
  have least : (neededFor block call.payloadSize).toNat ≤
      reserveBytes block head call.payloadSize := needed_le_reserveBytes
  have room : ¬ head - before.readPos + (neededFor block call.payloadSize).toUInt64 >
      block.dataCapacity := by
    unfold Roomy at roomy
    exact (room_iff exactly.ordered exactly.used).mpr (by omega)
  simp only [writerStep, here, if_neg room] at taken
  split at taken <;> cases taken
  · exact ⟨rfl, roomy⟩
  · trivial

theorem granted_writerStep (shape : Shape block) (inv : Inv block before slots)
    (inRange : InRange block before) (granted : Granted block call before)
    (taken : writerStep block before = some after) : Granted block call after := by
  have writer := inv.writer
  cases here : before.writerPc with
  | idle => simp [writerStep, here] at taken
  | loadHead given =>
    simp only [Granted, here] at granted
    obtain ⟨rfl, roomy⟩ := granted
    simp only [writerStep, here, Option.some.injEq] at taken
    subst taken
    exact ⟨rfl, roomy⟩
  | loadRead given head =>
    simp only [Granted, here] at granted
    obtain ⟨rfl, roomy⟩ := granted
    exact granted_loadRead shape inv inRange here roomy taken
  | casPad given head =>
    simp only [Granted, here] at granted
    simp only [writerStep, here, if_pos (inv.casPad_head here), Option.some.injEq] at taken
    subst taken
    exact granted
  | writePad given head =>
    simp only [Granted, here] at granted
    simp only [writerStep, here, Option.some.injEq] at taken
    subst taken
    exact granted
  | publishPad given head =>
    simp only [Granted, here] at granted
    obtain ⟨rfl, roomy⟩ := granted
    simp only [WriterOk, here] at writer
    obtain ⟨padding, -⟩ := writer
    have small : head.toNat + (wrapPadding block head).toNat < 2 ^ 64 := by
      rw [← padding.reserved]
      exact before.writePos.toNat_lt
    simp only [writerStep, here, Option.some.injEq] at taken
    subst taken
    refine ⟨rfl, ?_⟩
    have short : wrapPadding block head < (neededFor block given.payloadSize).toUInt64 := by
      rw [UInt64.lt_iff_toNat_lt, UInt32.toNat_toUInt64]
      exact padding.short
    unfold Roomy at roomy ⊢
    rw [reserveBytes_padded shape small padding.fits.room, toNat_add small]
    rw [reserveBytes, if_pos short] at roomy
    dsimp only
    omega
  | bumpPad given head =>
    simp only [Granted, here] at granted
    simp only [writerStep, here, Option.some.injEq] at taken
    subst taken
    exact granted
  | casSlot given head =>
    simp only [writerStep, here, if_pos (inv.casSlot_head here), Option.some.injEq] at taken
    subst taken
    trivial
  | writeSlot given head =>
    obtain ⟨pc, moved, past⟩ := afterReserve_eq (before.writeSlot block given head) given head
    simp only [writerStep, here, moved, Option.some.injEq] at taken
    subst taken
    exact granted_past past ⟨_, rfl, rfl⟩
  | copyPayload given head source =>
    simp only [Granted, here] at granted
    obtain ⟨pc, moved, past⟩ := afterCopy_eq { before with
      data := before.data.write (indexOf block head + 32) (source.read 0 given.payloadSize.toNat)
      log := before.log.fill 0 (source.read 0 given.payloadSize.toNat) } given head
    rw [here] at moved
    simp only [writerStep, here, moved, Option.some.injEq] at taken
    subst taken
    exact granted_past past granted
  | readSlotSize position | publishSlot position slotSize | bumpSlot =>
    simp only [Granted, here] at granted
    simp only [writerStep, here, Option.some.injEq] at taken
    subst taken
    exact granted

theorem Action.BesideCall.orderly {action : Action} (beside : action.BesideCall)
    (inRange : InRange block before) : Orderly block before action after := by
  refine ⟨beside.sizeSound, inRange, ?_⟩
  rintro rfl
  exact beside.elim

/-- While the producer is between two calls, only the consumer moves, and forward. -/
theorem resting_run (shape : Shape block) {actions : List Action}
    (initially : ∃ slots, Inv block before slots) (resting : before.writerPc = .idle)
    (inRange : InRange block before)
    (run : (machine block).Run (fun _ action _ => action.BesideCall) before actions after) :
    (∃ slots, Inv block after slots) ∧ ConsumerFrame before after ∧
      before.readPos ≤ after.readPos := by
  have framed := run.framed
    (fun first second => ConsumerFrame first second ∧ first.readPos ≤ second.readPos)
    (fun state => (∃ slots, Inv block state slots) ∧ state.writerPc = .idle ∧ InRange block state)
    (fun state => ⟨.refl state, UInt64.le_refl _⟩)
    (fun first second => ⟨first.1.trans second.1, UInt64.le_trans first.2 second.2⟩) (by
      rintro state action next ⟨⟨slots, inv⟩, idle, inRange⟩ beside taken
      have orderly : Orderly block state action next := beside.orderly inRange
      obtain ⟨more, kept, -⟩ := inv_step shape inv orderly taken
      obtain ⟨-, stepped⟩ | ⟨-, frame⟩ := frame_of_beside beside taken
      · simp [writerStep, idle] at stepped
      · refine ⟨⟨⟨more, kept⟩, frame.writerPc.trans idle, ?_⟩, frame,
          (step_advanced shape inv orderly taken).readPos⟩
        unfold InRange
        rw [frame.writePos]
        exact inRange) ⟨initially, resting, inRange⟩
  exact ⟨framed.1.1, framed.2⟩

/-- The producer, between two calls, has seen in `available_bytes()` what its next
reservation takes. Whatever the consumer does while it looks, until it calls and during
the call, the call returns with a slot. -/
theorem varlen_sampled_room_reserves {header : ControlBlock} {capacity : UInt64}
    {alignment itemSize : UInt32} {data : Memory} {first second called : State}
    {sampling waiting actions : List Action}
    (accepted : initControlBlock header capacity .varlen alignment itemSize = some block)
    (reached : (machine block).Reachable (SingleSession block) (initial block data) first)
    (resting : first.writerPc = .idle) (free : first.pending = false) (small : NoWrap block first)
    (sampled : (machine block).Run (fun _ action _ => action.BesideCall) first sampling second)
    (room : reserveBytes block first.writePos call.payloadSize ≤
      (availableBytes block first.writePos second.readPos).toNat)
    (waited : (machine block).Run (fun _ action _ => action.BesideCall) second waiting entry)
    (limit : call.payloadSize.toNat ≤ payloadLimit)
    (begun : step block entry (.call (.reserve call)) = some called)
    (run : (machine block).Run (fun _ action _ => action.BesideCall) called actions state) :
    Reserves block actions state := by
  obtain ⟨geometry, initially⟩ := single_inv accepted reached
  have shape := geometry.toShape
  obtain ⟨sound, frame, forward⟩ := resting_run shape initially resting small.inRange sampled
  obtain ⟨before, inv⟩ := initially
  obtain ⟨between, kept⟩ := sound
  have roomy := roomy_of_available inv.bounded (Nat.le_trans kept.front_le kept.committed)
    frame.writePos forward room
  have inRange : InRange block second := by
    unfold InRange
    rw [frame.writePos]
    exact small.inRange
  obtain ⟨⟨slots, inv⟩, onward, later⟩ := resting_run shape ⟨between, kept⟩
    (frame.writerPc.trans resting) inRange waited
  have whole := frame.trans onward
  have entrySmall : NoWrap block entry := by
    unfold NoWrap
    rw [whole.writePos]
    exact small
  obtain ⟨idle, rfl⟩ := step_reserve begun
  have passing := passing_begin shape inv idle limit
  have granted : Granted block call (entry.beginReserve block call) := by
    have least : (neededFor block call.payloadSize).toNat ≤
        reserveBytes block first.writePos call.payloadSize := needed_le_reserveBytes
    have fits : ¬ (neededFor block call.payloadSize).toUInt64 > block.dataCapacity := by
      rw [gt_iff_lt, UInt64.lt_iff_toNat_lt, UInt32.toNat_toUInt64]
      have used : usedBytes block first.writePos second.readPos ≤ block.dataCapacity :=
        usedBytes_le _ _
      have most := UInt64.le_iff_toNat_le.mp (UInt64.sub_le used)
      unfold availableBytes at room
      omega
    simp only [State.beginReserve, whole.pending, free, Bool.false_eq_true, if_false, if_neg fits]
    refine ⟨rfl, ?_⟩
    show Roomy block _ entry.writePos (reserveBytes block entry.writePos call.payloadSize)
    rw [whole.writePos]
    exact roomy.mono later
  have ended := run.preserves (fun state => Passing block entry state ∧ Granted block call state) (by
    rintro before action after ⟨passing, granted⟩ beside taken
    have next := passing_step shape entrySmall passing beside taken
    obtain ⟨slots, inv⟩ := passing.inv
    have within := passing.inRange entrySmall
    refine ⟨next, ?_⟩
    obtain ⟨-, stepped⟩ | ⟨-, frame⟩ := frame_of_beside beside taken
    · exact granted_writerStep shape inv within granted stepped
    · have orderly : Orderly block before action after := beside.orderly within
      exact granted.frame frame (step_advanced shape inv orderly taken).readPos) ⟨passing, granted⟩
  have steps := passing_steps shape entrySmall passing run
  have most := beginReserve_stepsLeft block entry call
  refine ⟨by omega, writer_enabled, fun returned => ?_⟩
  have result := ended.2
  simpa only [Granted, returned] using result

/-- The consumer frees the ring while the producer looks; the reservation then needs a
padding and the whole ring. -/
theorem varlen_sampled_room_reserves_padded : ∃ first second called state actions,
    (machine sampleBlock).Reachable (SingleSession sampleBlock) (initial sampleBlock fun _ => 0)
      first ∧
    availableBytes sampleBlock first.writePos second.readPos = 64 ∧
    step sampleBlock second (.call (tryReserve 8)) = some called ∧
    (machine sampleBlock).Run (fun _ action _ => action.BesideCall) called actions state ∧
    state.writerPc = .idle ∧ Reserves sampleBlock actions state := by
  let sampling : List Action := .read .handler :: List.replicate 11 (.reader true)
  let actions : List Action := List.replicate 9 .writer
  obtain ⟨first, earlier, passed⟩ := (machine sampleBlock).run_of_replay (SingleSession sampleBlock)
    (initial sampleBlock fun _ => 0) (.call (write 8 (some fun _ => 9)) :: List.replicate 8 .writer)
    (fun first => first.writerPc.isIdle && !first.pending && decide (NoWrap sampleBlock first) &&
      ((machine sampleBlock).replay (fun _ action _ => action.BesideCall) first sampling).any
        fun second => decide (reserveBytes sampleBlock first.writePos 8 = 64) &&
          decide (availableBytes sampleBlock first.writePos second.readPos = 64) &&
          (step sampleBlock second (.call (tryReserve 8))).any fun called =>
            ((machine sampleBlock).replay (fun _ action _ => action.BesideCall) called actions).any
              fun state => state.writerPc.isIdle) (by decide +kernel)
  simp only [Bool.and_eq_true, Bool.not_eq_true', decide_eq_true_eq, Option.any_eq_true,
    WriterPc.isIdle_iff] at passed
  obtain ⟨⟨⟨resting, free⟩, small⟩, second, replayed, ⟨needs, available⟩, called, begun, state, ended,
    idle⟩ := passed
  have run := Machine.replay_run ended
  have room : reserveBytes sampleBlock first.writePos 8 ≤
      (availableBytes sampleBlock first.writePos second.readPos).toNat := by
    rw [needs, available]
    decide
  refine ⟨first, second, called, state, actions, ⟨_, earlier⟩, available, begun, run, idle, ?_⟩
  refine varlen_sampled_room_reserves sampleBlock_accepted ⟨_, earlier⟩ resting free small
    (Machine.replay_run replayed) ?_ (.done _) ?_ begun run
  · exact room
  · decide

end SpscRing.Varlen
