import SpscRing.Varlen.Footprint
import SpscRing.Varlen.ReserveRun

/-! Which rings keep the producer's writes inside the data region: the padding
path compares the tail with the message, never with the dummy header. -/

namespace SpscRing.Varlen

open SpscRing.Foundation

/-- The header the writer is about to store, and the payload area a reservation
is about to hand out, lie inside the data region. -/
structure InRegion (block : ControlBlock) (state : State) : Prop where
  header : ∀ call head, state.writerPc = .writePad call head ∨ state.writerPc = .writeSlot call head →
    indexOf block head + 32 ≤ block.dataCapacity.toNat
  payload : ∀ call head after result payload, state.writerPc = .writeSlot call head →
    writerStep block state = some after → after.returned = some result → result.status = .ok →
      result.payload = some payload →
        payload + call.payloadSize.toNat ≤ block.dataCapacity.toNat

/-- Payload sizes keep to the limit; nothing else is asked of a run. -/
def LimitedPayloads (_ : State) (action : Action) (_ : State) : Prop := action.WithinLimit

instance (before : State) (action : Action) (after : State) :
    Decidable (LimitedPayloads before action after) :=
  action.decidableWithinLimit

/-- Every front is a multiple of `unit`, as long as any call is admitted at all. -/
structure Granular (block : ControlBlock) (unit : Nat) (admits : ReserveCall → Prop) : Prop where
  word : unit ∣ 2 ^ 64
  slot : ∀ call, admits call → unit ∣ (neededFor block call.payloadSize).toNat ∧
    unit ∣ block.dataCapacity.toNat

/-- The writer's locals on a granular ring. -/
def GranularPc (block : ControlBlock) (unit : Nat) (admits : ReserveCall → Prop) : WriterPc → Prop
  | .loadHead call => admits call
  | .loadRead call head | .casPad call head | .writePad call head | .publishPad call head
  | .bumpPad call head => admits call ∧ unit ∣ head.toNat
  | .casSlot call head | .writeSlot call head => admits call ∧ unit ∣ head.toNat ∧
    (neededFor block call.payloadSize).toNat ≤ (wrapPadding block head).toNat
  | .idle | .copyPayload _ _ _ | .readSlotSize _ | .publishSlot _ _ | .bumpSlot => True

/-- What a call hands out is the byte behind a header at a multiple of `unit`. -/
def GranularResult (unit : Nat) (returned : Option ReserveResult) : Prop :=
  ∀ result payload, returned = some result → result.payload = some payload →
    ∃ index, payload = index + 32 ∧ unit ∣ index

structure GranularState (block : ControlBlock) (unit : Nat) (admits : ReserveCall → Prop)
    (state : State) : Prop where
  front : unit ∣ state.writePos.toNat
  pc : GranularPc block unit admits state.writerPc
  returned : GranularResult unit state.returned

variable {block : ControlBlock} {unit : Nat} {admits : ReserveCall → Prop}
variable {before state after : State}

theorem GranularResult.none {result : ReserveResult} (none : result.payload = .none) :
    GranularResult unit (some result) := by
  intro other payload same handed
  cases same
  rw [none] at handed
  cases handed

/-- Before its first call a writer has handed out nothing. -/
theorem GranularResult.unused : GranularResult unit .none := by
  intro result payload handed
  cases handed

theorem GranularPc.of_past {pc : WriterPc} (past : pc.PastReserve) :
    GranularPc block unit admits pc := by
  cases pc with
  | idle | copyPayload _ _ _ | readSlotSize _ | publishSlot _ _ | bumpSlot => trivial
  | loadHead _ | loadRead _ _ | casPad _ _ | writePad _ _ | publishPad _ _ | bumpPad _ _
  | casSlot _ _ | writeSlot _ _ => exact past.elim

theorem Granular.add (granular : Granular block unit admits) {first second : UInt64}
    (left : unit ∣ first.toNat) (right : unit ∣ second.toNat) : unit ∣ (first + second).toNat := by
  rw [UInt64.toNat_add, Nat.dvd_mod_iff granular.word]
  exact Nat.dvd_add left right

theorem Granular.wrapPadding (granular : Granular block unit admits) (shape : Shape block)
    {call : ReserveCall} {head : UInt64} (admitted : admits call) (aligned : unit ∣ head.toNat) :
    unit ∣ (wrapPadding block head).toNat := by
  have whole := (granular.slot call admitted).2
  rw [toNat_wrapPadding shape]
  exact Nat.dvd_sub whole ((Nat.dvd_mod_iff whole).mpr aligned)

theorem granular_writerStep (granular : Granular block unit admits) (shape : Shape block)
    (kept : GranularState block unit admits before) (taken : writerStep block before = some after) :
    GranularState block unit admits after := by
  obtain ⟨front, pc, returned⟩ := kept
  cases here : before.writerPc with
  | idle => simp [writerStep, here] at taken
  | loadHead call =>
    simp only [GranularPc, here] at pc
    simp only [writerStep, here] at taken
    cases taken
    exact ⟨front, ⟨pc, front⟩, returned⟩
  | loadRead call head =>
    simp only [GranularPc, here] at pc
    simp only [writerStep, here] at taken
    split at taken
    · cases taken
      exact ⟨front, trivial, .none rfl⟩
    · split at taken
      · cases taken
        exact ⟨front, pc, returned⟩
      · rename_i contiguous
        cases taken
        refine ⟨front, ⟨pc.1, pc.2, ?_⟩, returned⟩
        simpa [UInt64.lt_iff_toNat_lt] using contiguous
  | casPad call head =>
    simp only [GranularPc, here] at pc
    simp only [writerStep, here] at taken
    split at taken
    · cases taken
      exact ⟨granular.add pc.2 (granular.wrapPadding shape pc.1 pc.2), pc, returned⟩
    · cases taken
      exact ⟨front, pc.1, returned⟩
  | writePad call head =>
    simp only [GranularPc, here] at pc
    simp only [writerStep, here] at taken
    cases taken
    exact ⟨front, pc, returned⟩
  | publishPad call head =>
    simp only [GranularPc, here] at pc
    simp only [writerStep, here] at taken
    cases taken
    exact ⟨front, ⟨pc.1, granular.add pc.2 (granular.wrapPadding shape pc.1 pc.2)⟩, returned⟩
  | bumpPad call head =>
    simp only [GranularPc, here] at pc
    simp only [writerStep, here] at taken
    cases taken
    exact ⟨front, pc, returned⟩
  | casSlot call head =>
    simp only [GranularPc, here] at pc
    simp only [writerStep, here] at taken
    split at taken
    · cases taken
      refine ⟨granular.add pc.2.1 ?_, pc, returned⟩
      rw [UInt32.toNat_toUInt64]
      exact (granular.slot call pc.1).1
    · cases taken
      exact ⟨front, ⟨pc.1, front⟩, returned⟩
  | writeSlot call head =>
    simp only [GranularPc, here] at pc
    simp only [writerStep, here] at taken
    cases taken
    obtain ⟨next, quiet, past⟩ := afterReserve_eq (before.writeSlot block call head) call head
    rw [quiet]
    refine ⟨front, .of_past past, ?_⟩
    intro result payload same handed
    cases same
    cases handed
    refine ⟨_, rfl, ?_⟩
    rw [indexOf_eq]
    exact (Nat.dvd_mod_iff (granular.slot call pc.1).2).mpr pc.2.1
  | copyPayload call head source =>
    simp only [writerStep, here] at taken
    cases taken
    obtain ⟨pc, quiet, past⟩ := afterCopy_eq _ call head
    rw [quiet]
    exact ⟨front, .of_past past, returned⟩
  | readSlotSize _ | publishSlot _ _ | bumpSlot =>
    simp only [writerStep, here] at taken
    cases taken
    exact ⟨front, trivial, returned⟩

theorem granular_step (granular : Granular block unit admits) (shape : Shape block) {action : Action}
    (kept : GranularState block unit admits before)
    (entry : ∀ call, action = .call (.reserve call) →
      (neededFor block call.payloadSize).toNat ≤ block.dataCapacity.toNat → admits call)
    (taken : step block before action = some after) : GranularState block unit admits after := by
  cases action with
  | call call =>
    simp only [step] at taken
    split at taken
    · rename_i call _
      cases taken
      unfold State.beginReserve
      split
      · exact ⟨kept.front, trivial, .none rfl⟩
      · split
        · exact ⟨kept.front, trivial, .none rfl⟩
        · rename_i small
          refine ⟨kept.front, entry call rfl ?_, kept.returned⟩
          simpa [UInt64.lt_iff_toNat_lt] using small
    · cases taken
      obtain ⟨pc, quiet, past⟩ := beginCommit_eq before _
      rw [quiet]
      exact ⟨kept.front, .of_past past, kept.returned⟩
    · cases taken
  | fill offset bytes =>
    simp only [step] at taken
    split at taken
    · split at taken
      · cases taken
        exact ⟨kept.front, kept.pc, kept.returned⟩
      · cases taken
    · cases taken
  | writer => exact granular_writerStep granular shape kept taken
  | restart =>
    cases taken
    exact ⟨kept.front, trivial, .unused⟩
  | read call =>
    simp only [step] at taken
    split at taken
    · cases taken
      exact ⟨kept.front, kept.pc, kept.returned⟩
    · cases taken
  | reader answer =>
    have frame := readerStep_frame taken
    exact ⟨frame.writePos ▸ kept.front, frame.writerPc ▸ kept.pc, frame.returned ▸ kept.returned⟩

theorem granular_initial (data : Memory) (fresh : block.rbMeta = {}) :
    GranularState block unit admits (initial block data) :=
  ⟨by simp [initial, fresh], trivial, .unused⟩

/-- On a granular ring the tail is a whole unit, so the dummy header fits it. -/
theorem GranularState.inRegion (granular : Granular block unit (Fits block)) (shape : Shape block)
    (header : ∀ call, Fits block call → 32 ≤ unit)
    (kept : GranularState block unit (Fits block) state) : InRegion block state := by
  have pc := kept.pc
  constructor
  · rintro call head (here | here)
    · simp only [GranularPc, here] at pc
      have unitLe := header call pc.1
      have tail := granular.wrapPadding shape pc.1 pc.2
      have positive := wrapPadding_pos shape head
      have edge := index_add_wrapPadding shape head
      have whole := Nat.le_of_dvd positive tail
      rw [indexOf_eq]
      omega
    · simp only [GranularPc, here] at pc
      have inside := pc.1.area_inside shape pc.2.2
      omega
  · intro call head after result payload here taken returned ok area
    simp only [GranularPc, here] at pc
    simp only [writerStep, here] at taken
    cases taken
    obtain ⟨next, quiet, -⟩ := afterReserve_eq (state.writeSlot block call head) call head
    rw [quiet] at returned
    cases returned
    cases area
    exact pc.1.area_inside shape pc.2.2

/-- The payload areas that the producer may still write to lie inside the data region. -/
structure AreaInside (block : ControlBlock) (state : State) : Prop where
  outstanding : state.pending = true →
    indexOf block state.lastPosition + 32 + state.requested.toNat ≤ block.dataCapacity.toNat
  copying : ∀ call head source, state.writerPc = .copyPayload call head source →
    indexOf block head + 32 + call.payloadSize.toNat ≤ block.dataCapacity.toNat

/-- What the program counter says once a reservation or a copy is done. -/
theorem beginCommit_notCopying {position head : UInt64} {call : ReserveCall} {source : Memory} :
    (state.beginCommit position).writerPc ≠ .copyPayload call head source := by
  unfold State.beginCommit
  split <;> simp

theorem afterCopy_notCopying {position head : UInt64} {call copied : ReserveCall} {source : Memory} :
    (state.afterCopy copied position).writerPc ≠ .copyPayload call head source := by
  unfold State.afterCopy
  split
  · exact beginCommit_notCopying
  · simp

theorem afterReserve_copying {position head : UInt64} {call reserved : ReserveCall} {source : Memory}
    (copies : (state.afterReserve reserved position).writerPc = .copyPayload call head source) :
    call = reserved ∧ head = position := by
  unfold State.afterReserve at copies
  split at copies
  · split at copies
    · cases copies
      exact ⟨rfl, rfl⟩
    · exact absurd copies afterCopy_notCopying
  · exact absurd copies afterCopy_notCopying

theorem areaInside_writerStep (shape : Shape block)
    (kept : GranularState block unit (Fits block) before) (inside : AreaInside block before)
    (taken : writerStep block before = some after) : AreaInside block after := by
  have pc := kept.pc
  cases here : before.writerPc with
  | idle => simp [writerStep, here] at taken
  | loadRead call head =>
    simp only [writerStep, here] at taken
    split at taken
    · cases taken
      exact ⟨inside.outstanding, by simp [State.finishReserve]⟩
    · split at taken <;> cases taken <;> exact ⟨inside.outstanding, by simp⟩
  | casPad call head | casSlot call head =>
    simp only [writerStep, here] at taken
    split at taken <;> cases taken <;> exact ⟨inside.outstanding, by simp⟩
  | writeSlot call head =>
    simp only [GranularPc, here] at pc
    have area := pc.1.area_inside shape pc.2.2
    simp only [writerStep, here] at taken
    cases taken
    constructor
    · intro _
      obtain ⟨next, quiet, -⟩ := afterReserve_eq (before.writeSlot block call head) call head
      rw [quiet]
      exact area
    · intro other position source copies
      obtain ⟨rfl, rfl⟩ := afterReserve_copying copies
      exact area
  | copyPayload call head source =>
    simp only [writerStep, here] at taken
    cases taken
    constructor
    · obtain ⟨next, quiet, -⟩ := afterCopy_eq { before with
        data := before.data.write (indexOf block head + 32) (source.read 0 call.payloadSize.toNat)
        log := before.log.fill 0 (source.read 0 call.payloadSize.toNat) } call head
      rw [here] at quiet
      rw [quiet]
      exact inside.outstanding
    · intro other position again copies
      exact absurd copies afterCopy_notCopying
  | publishSlot position slotSize =>
    simp only [writerStep, here] at taken
    cases taken
    exact ⟨by simp, by simp⟩
  | loadHead _ | writePad _ _ | publishPad _ _ | bumpPad _ _ | readSlotSize _ | bumpSlot =>
    simp only [writerStep, here] at taken
    cases taken
    exact ⟨inside.outstanding, by simp⟩

theorem areaInside_step (shape : Shape block) {action : Action}
    (kept : GranularState block unit (Fits block) before) (inside : AreaInside block before)
    (taken : step block before action = some after) : AreaInside block after := by
  cases action with
  | call call =>
    simp only [step] at taken
    split at taken
    · cases taken
      unfold State.beginReserve
      split
      · exact ⟨inside.outstanding, by simp [State.finishReserve]⟩
      · split <;> exact ⟨inside.outstanding, by simp [State.finishReserve]⟩
    · rename_i position _
      cases taken
      constructor
      · obtain ⟨pc, quiet, -⟩ := beginCommit_eq before position
        rw [quiet]
        exact inside.outstanding
      · intro call head source copies
        exact absurd copies beginCommit_notCopying
    · cases taken
  | fill offset bytes =>
    simp only [step] at taken
    split at taken
    · split at taken
      · cases taken
        exact ⟨inside.outstanding, inside.copying⟩
      · cases taken
    · cases taken
  | writer => exact areaInside_writerStep shape kept inside taken
  | restart =>
    cases taken
    exact ⟨by simp [State.restart], by simp [State.restart]⟩
  | read call =>
    simp only [step] at taken
    split at taken
    · cases taken
      exact ⟨inside.outstanding, inside.copying⟩
    · cases taken
  | reader answer =>
    have frame := readerStep_frame taken
    refine ⟨?_, ?_⟩
    · rw [frame.pending, frame.lastPosition, frame.requested]
      exact inside.outstanding
    · rw [frame.writerPc]
      exact inside.copying

/-- Only three of the writer's steps store to the data, each where the region has room. -/
theorem outside_writerStep {address : Nat} (region : InRegion block before)
    (inside : AreaInside block before) (taken : writerStep block before = some after)
    (beyond : block.dataCapacity.toNat ≤ address) : after.data address = before.data address := by
  cases here : before.writerPc with
  | idle => simp [writerStep, here] at taken
  | loadRead _ _ =>
    simp only [writerStep, here] at taken
    split at taken
    · cases taken
      rfl
    · split at taken <;> cases taken <;> rfl
  | casPad _ _ | casSlot _ _ =>
    simp only [writerStep, here] at taken
    split at taken <;> cases taken <;> rfl
  | writePad call head =>
    have header := region.header call head (.inl here)
    simp only [writerStep, here] at taken
    cases taken
    apply Memory.write_apart
    rw [length_encode]
    omega
  | writeSlot call head =>
    have header := region.header call head (.inr here)
    simp only [writerStep, here] at taken
    cases taken
    obtain ⟨pc, quiet, -⟩ := afterReserve_eq (before.writeSlot block call head) call head
    rw [quiet]
    apply Memory.write_apart
    rw [length_encode]
    omega
  | copyPayload call head source =>
    have area := inside.copying call head source here
    simp only [writerStep, here] at taken
    cases taken
    obtain ⟨pc, quiet, -⟩ := afterCopy_eq _ call head
    rw [quiet]
    apply Memory.write_apart
    rw [Memory.length_read]
    omega
  | loadHead _ | publishPad _ _ | bumpPad _ _ | readSlotSize _ | publishSlot _ _ | bumpSlot =>
    simp only [writerStep, here] at taken
    cases taken
    rfl

/-- Where headers and payload areas lie inside the region, no step reaches beyond it. -/
theorem outside_step {action : Action} {address : Nat} (region : InRegion block before)
    (inside : AreaInside block before) (taken : step block before action = some after)
    (beyond : block.dataCapacity.toNat ≤ address) : after.data address = before.data address := by
  cases action with
  | call call =>
    simp only [step] at taken
    split at taken
    · cases taken
      obtain ⟨pc, returned, quiet⟩ := @beginReserve_eq block before _
      rw [quiet]
    · cases taken
      obtain ⟨pc, quiet, -⟩ := beginCommit_eq before _
      rw [quiet]
    · cases taken
  | fill offset bytes =>
    simp only [step] at taken
    split at taken
    · split at taken
      · rename_i reserved
        cases taken
        have area := inside.outstanding reserved.1
        apply Memory.write_apart
        omega
      · cases taken
    · cases taken
  | writer => exact outside_writerStep region inside taken beyond
  | restart =>
    cases taken
    rfl
  | read call =>
    simp only [step] at taken
    split at taken
    · cases taken
      rfl
    · cases taken
  | reader answer => rw [(readerStep_frame taken).data]

/-- The invariant of a granular ring in every run with limited payloads. -/
theorem reachable_granular (granular : Granular block unit (Fits block)) (shape : Shape block)
    (fresh : block.rbMeta = {}) {data : Memory}
    (reached : (machine block).Reachable LimitedPayloads (initial block data) state) :
    GranularState block unit (Fits block) state ∧ AreaInside block state := by
  refine reached.invariant
    (fun state => GranularState block unit (Fits block) state ∧ AreaInside block state)
    ⟨granular_initial data fresh, by simp [initial], by simp [initial]⟩ ?_
  rintro before action after ⟨kept, inside⟩ limited taken
  refine ⟨granular_step granular shape kept ?_ taken, areaInside_step shape kept inside taken⟩
  rintro call rfl room
  exact ⟨unwrapped_of_limit shape limited, room⟩

/-- Slot sizes are multiples of the alignment, wrapped or not. -/
theorem granular_alignment (geometry : Geometry block) (admits : ReserveCall → Prop) :
    Granular block block.dataAlignment.toNat admits where
  word := geometry.toShape.alignment_dvd (by decide)
  slot := by
    intro call _
    refine ⟨?_, geometry.divides⟩
    rw [toNat_neededFor geometry.toShape]
    exact Nat.dvd_mul_left _ _

/-- A ring of at most a header's length holds one empty slot or none. -/
theorem granular_of_tiny (shape : Shape block) (tiny : block.dataCapacity.toNat ≤ 32) :
    Granular block 32 (Fits block) where
  word := by decide
  slot := by
    intro call fits
    have large := fits.needed_ge shape
    have room := fits.room
    refine ⟨?_, ?_⟩
    · exact ⟨1, by omega⟩
    · exact ⟨1, by omega⟩

end SpscRing.Varlen
