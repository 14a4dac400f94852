import SpscRing.Varlen.Alone
import SpscRing.Varlen.Region

/-! Where payloads start: slots are aligned to the data alignment, payloads lie
32 bytes behind the start of their slot. -/

namespace SpscRing.Varlen

open SpscRing.Foundation

/-- The payload offsets that `try_reserve` returns and that `read` passes to its
handler are multiples of the alignment, in every state of every run: of any run
for the producer, of a run with clean sessions for the consumer, who follows the
headers he finds. -/
structure PayloadsAligned (block : ControlBlock) (data : Memory) : Prop where
  reserved : ∀ state, (machine block).Reachable Machine.Always (initial block data) state →
    ∀ result payload, state.returned = some result → result.status = .ok →
      result.payload = some payload → block.dataAlignment.toNat ∣ payload
  offered : ∀ state, (machine block).Reachable (CleanSessions block) (initial block data) state →
    ∀ call readPos payloadSize messageMeta,
      state.readerPc = .handle call readPos payloadSize messageMeta →
        block.dataAlignment.toNat ∣ indexOf block readPos + 32

variable {header block : ControlBlock} {capacity : UInt64} {alignment itemSize : UInt32}
variable {data : Memory} {state : State} {slots : List Slot}

/-- Every slot a call hands out is aligned, wrapped sizes and fronts included. -/
theorem granular_reachable (geometry : Geometry block) (fresh : block.rbMeta = {})
    (reached : (machine block).Reachable Machine.Always (initial block data) state) :
    GranularState block block.dataAlignment.toNat (fun _ => True) state := by
  refine reached.invariant (GranularState block block.dataAlignment.toNat fun _ => True)
    (granular_initial data fresh) ?_
  intro before action after kept _ taken
  exact granular_step (granular_alignment geometry _) geometry.toShape kept
    (fun _ _ _ => trivial) taken

theorem Inv.index_aligned (geometry : Geometry block) (inv : Inv block state slots) {call : ReadCall}
    {readPos : UInt64} {payloadSize : UInt32} {messageMeta : MessageMeta}
    (here : state.readerPc = .handle call readPos payloadSize messageMeta) :
    block.dataAlignment.toNat ∣ indexOf block readPos := by
  have reader := inv.reader
  simp only [ReaderOk, here] at reader
  obtain ⟨-, first, rest, -, -, placed, -⟩ := inv.front_slot reader
  rw [indexOf_eq, ← geometry.granule_eq]
  exact granule_dvd_index placed.aligned

/-- Payloads keep the alignment of their slots precisely when it is at most the
header's length. -/
theorem payloads_aligned_iff
    (accepted : initControlBlock header capacity .varlen alignment itemSize = some block) :
    PayloadsAligned block data ↔ alignment.toNat ≤ 32 := by
  obtain ⟨geometry, fresh, rfl, rfl, -⟩ := initControlBlock_accepted accepted
  have shape := geometry.toShape
  constructor
  · intro aligned
    by_contra wide
    have bounded := shape.alignment_le
    have room := Nat.le_of_dvd shape.positive geometry.divides
    have one : (32 + (0 : UInt32).toNat + block.dataAlignment.toNat - 1) / block.dataAlignment.toNat = 1 := by
      rw [UInt32.toNat_zero]
      apply Nat.div_eq_of_lt_le <;> omega
    have size : (neededFor block 0).toNat = block.dataAlignment.toNat := by
      rw [toNat_neededFor_exact shape 0 (by rw [UInt32.toNat_zero]; omega), exactSlotSize, one,
        Nat.one_mul]
    obtain ⟨count, run, -, returned⟩ :=
      fresh_reserves shape (.of_eq fresh) data (size.trans_le room) {}
    have divides := aligned.reserved _ ⟨_, run⟩ _ 32 returned rfl rfl
    exact wide (Nat.le_of_dvd (by decide) divides)
  · intro narrow
    have divides := shape.alignment_dvd_header narrow
    constructor
    · intro state reached result payload returned ok handed
      obtain ⟨index, rfl, aligned⟩ :=
        (granular_reachable geometry fresh reached).returned result payload returned handed
      exact Nat.dvd_add aligned divides
    · intro state reached call readPos payloadSize messageMeta here
      obtain ⟨slots, inv⟩ := reachable_inv shape ⟨[], inv_initial data (.of_eq fresh)⟩
        (reached.mono fun _ _ _ => CleanSessions.orderly)
      exact Nat.dvd_add (inv.index_aligned geometry here) divides

/-- The sample ring with an alignment of a cache line. -/
def lineBlock : ControlBlock := { sampleBlock with dataAlignment := 64 }

theorem payloads_aligned_iff_default : PayloadsAligned sampleBlock fun _ => 0 :=
  (payloads_aligned_iff sampleBlock_accepted).mpr (by decide)

/-- With an alignment of 64 the first payload starts at byte 32. -/
theorem line_payload_misaligned : initControlBlock {} 64 .varlen 64 0 = some lineBlock ∧
    ¬ PayloadsAligned lineBlock fun _ => 0 := by
  refine ⟨by decide, fun aligned => ?_⟩
  obtain ⟨state, run, returned⟩ := (machine lineBlock).run_of_replay Machine.Always
    (initial lineBlock fun _ => 0) (.call (tryReserve 0) :: List.replicate 4 .writer)
    (fun state => state.returned == some { status := .ok, payload := some 32, position := 0 })
    (by decide +kernel)
  have divides := aligned.reserved state ⟨_, run⟩ _ 32 (by simpa using returned) rfl rfl
  exact absurd divides (by decide)

end SpscRing.Varlen
