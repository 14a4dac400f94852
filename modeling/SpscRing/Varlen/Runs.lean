import SpscRing.Varlen.ReaderSteps

/-! Runs of the variable-length ring: the disciplines they are asked to keep,
and the invariant in every state they reach. -/

namespace SpscRing.Varlen

open SpscRing.Foundation

/-- The longest payload whose slot size cannot wrap, for every alignment. -/
def payloadLimit : Nat := 2 ^ 32 - 96

def Action.WithinLimit : Action → Prop
  | .call (.reserve reservation) => reservation.payloadSize.toNat ≤ payloadLimit
  | _ => True

variable (block : ControlBlock)

/-- A reservation is not accepted on a wrapped slot size. -/
def Action.SizeSound : Action → Prop
  | .call (.reserve reservation) => Varlen.SizeSound block reservation.payloadSize
  | _ => True

/-- What the invariant asks of a step: no accepted slot size and no front wraps,
and a new producer session starts only when everything reserved has been
published. -/
structure Orderly (before : State) (action : Action) (after : State) : Prop where
  sound : action.SizeSound block
  inRange : InRange block before
  clean : action = .restart → before.writePos = before.commitPos

/-- The same with the fronts in the lower half of their range. -/
structure CleanSessions (before : State) (action : Action) (after : State) : Prop where
  sound : action.SizeSound block
  unwrapped : NoWrap block before
  clean : action = .restart → before.writePos = before.commitPos

/-- One producer session throughout, payloads within the limit. -/
structure SingleSession (before : State) (action : Action) (after : State) : Prop where
  limit : action.WithinLimit
  unwrapped : NoWrap block before
  single : action ≠ .restart

instance Action.decidableWithinLimit (action : Action) : Decidable action.WithinLimit :=
  match action with
  | .call (.reserve reservation) =>
    inferInstanceAs (Decidable (reservation.payloadSize.toNat ≤ payloadLimit))
  | .call (.commit _) | .fill _ _ | .writer | .restart | .read _ | .reader _ => .isTrue trivial

instance Action.decidableSizeSound (action : Action) : Decidable (action.SizeSound block) :=
  match action with
  | .call (.reserve reservation) =>
    inferInstanceAs (Decidable (Varlen.SizeSound block reservation.payloadSize))
  | .call (.commit _) | .fill _ _ | .writer | .restart | .read _ | .reader _ => .isTrue trivial

instance Action.decidableRestart (action : Action) : Decidable (action = .restart) :=
  match action with
  | .restart => .isTrue rfl
  | .call _ | .fill _ _ | .writer | .read _ | .reader _ => .isFalse nofun

instance (state : State) : Decidable (NoWrap block state) :=
  inferInstanceAs (Decidable (state.writePos.toNat + block.dataCapacity.toNat < 2 ^ 63))

instance (before : State) (action : Action) (after : State) :
    Decidable (SingleSession block before action after) :=
  decidable_of_iff (action.WithinLimit ∧ NoWrap block before ∧ action ≠ .restart)
    ⟨fun ⟨limit, unwrapped, single⟩ => ⟨limit, unwrapped, single⟩,
      fun ⟨limit, unwrapped, single⟩ => ⟨limit, unwrapped, single⟩⟩

instance (before : State) (action : Action) (after : State) :
    Decidable (CleanSessions block before action after) :=
  decidable_of_iff (action.SizeSound block ∧ NoWrap block before ∧
      (action = .restart → before.writePos = before.commitPos))
    ⟨fun ⟨sound, unwrapped, clean⟩ => ⟨sound, unwrapped, clean⟩,
      fun ⟨sound, unwrapped, clean⟩ => ⟨sound, unwrapped, clean⟩⟩

/-- A ring of 64 bytes with the default alignment. -/
def sampleBlock : ControlBlock where
  magic := expectedMagic
  versionMajor := versionMajor
  versionMinor := versionMinor
  headerSize := controlBlockSize
  layoutType := LayoutType.varlen.toUInt32
  dataCapacity := 64
  dataAlignment := 8

theorem sampleBlock_accepted : initControlBlock {} 64 .varlen 8 0 = some sampleBlock := by
  decide

variable {block} {before after : State} {action : Action} {slots : List Slot}

theorem unwrapped_of_limit (shape : Shape block) {payloadSize : UInt32}
    (limit : payloadSize.toNat ≤ payloadLimit) : Unwrapped block payloadSize := by
  have bounded := shape.alignment_le
  unfold payloadLimit at limit
  unfold Unwrapped
  omega

theorem Action.WithinLimit.sizeSound (shape : Shape block) (limit : action.WithinLimit) :
    action.SizeSound block := by
  cases action with
  | call call =>
    cases call with
    | reserve _ => exact .inl (unwrapped_of_limit shape limit)
    | commit _ => trivial
  | fill _ _ | writer | restart | read _ | reader _ => trivial

theorem NoWrap.inRange (small : NoWrap block before) : InRange block before := by
  unfold NoWrap at small
  unfold InRange
  omega

theorem CleanSessions.orderly (clean : CleanSessions block before action after) :
    Orderly block before action after :=
  ⟨clean.sound, clean.unwrapped.inRange, clean.clean⟩

theorem SingleSession.orderly (shape : Shape block)
    (single : SingleSession block before action after) : Orderly block before action after :=
  ⟨single.limit.sizeSound shape, single.unwrapped.inRange,
    fun restart => absurd restart single.single⟩

theorem inv_initial (data : Memory) (fresh : Meta.SameFronts {} block.rbMeta) :
    Inv block (initial block data) [] := by
  have read : (initial block data).readPos = 0 := fresh.readPos
  have committed : (initial block data).commitPos = 0 := fresh.commitPos
  have written : (initial block data).writePos = 0 := fresh.writePos
  refine ⟨?_, ?_, ?_, ?_, ?_, .inl ⟨rfl, written.trans committed.symm⟩, trivial, ?_⟩
  · rw [read, committed]
    rfl
  · rw [committed, written]
  · rw [written]
    exact Nat.zero_le _
  · rw [committed]
    exact ⟨0, rfl⟩
  · rw [written]
    exact ⟨0, rfl⟩
  · exact ⟨rfl, .nil, by simp [initial], by simp [initial]⟩

/-- A session that starts with nothing outstanding finds a settled ring. -/
theorem inv_restart (inv : Inv block before slots) (clean : before.writePos = before.commitPos) :
    Inv block before.restart slots :=
  { inv with
    tiled := Live.mono inv.tiled (List.Subset.refl _) (List.Subset.refl _)
    writer := .inl ⟨rfl, clean⟩
    delivery := inv.delivery.mono rfl rfl (List.Subset.refl _) (List.Subset.refl _) }

theorem Inv.resting (inv : Inv block before slots) (idle : before.writerPc = .idle) :
    Inv block { before with writerPc := .idle } slots := by
  rw [← idle]
  exact inv

/-- Every admitted step keeps the invariant, and until the consumer moves its
front the slots in the ring only become more. -/
theorem inv_step (shape : Shape block) (inv : Inv block before slots)
    (admitted : Orderly block before action after)
    (taken : step block before action = some after) :
    ∃ next, Inv block after next ∧ (after.readPos = before.readPos → slots <+: next) := by
  have same (kept : Inv block after slots) :
      ∃ next, Inv block after next ∧ (after.readPos = before.readPos → slots <+: next) :=
    ⟨slots, kept, fun _ => List.prefix_rfl⟩
  cases action with
  | call call =>
    simp only [step] at taken
    split at taken
    · rename_i idle
      cases taken
      exact same (inv_beginReserve inv idle admitted.sound)
    · rename_i idle
      cases taken
      exact same (inv_beginCommit (inv.resting idle))
    · cases taken
  | fill offset bytes =>
    simp only [step] at taken
    split at taken
    · rename_i idle
      split at taken
      · rename_i reserved
        cases taken
        obtain ⟨header, outstanding⟩ := inv.outstanding idle reserved.1
        have size := congrArg UInt32.toNat outstanding.size
        have filled := inv_fill shape (inv.resting idle) outstanding offset bytes
          (Nat.le_trans reserved.2 (Nat.le_of_eq size.symm))
        exact same (by simpa [State.fill, idle] using filled)
      · cases taken
    · cases taken
  | writer =>
    obtain ⟨more, kept⟩ := inv_writerStep shape inv admitted.inRange taken
    exact ⟨slots ++ more, kept, fun _ => List.prefix_append _ _⟩
  | restart =>
    cases taken
    exact same (inv_restart inv (admitted.clean rfl))
  | read call =>
    simp only [step] at taken
    split at taken
    · rename_i idle
      cases taken
      exact same (inv.look (.loadRead call) trivial (by simp [idle, ReaderPc.consuming]))
    · cases taken
  | reader answer =>
    obtain ⟨rest, kept, still⟩ := inv_readerStep inv taken
    exact ⟨rest, kept, fun unmoved => still unmoved ▸ List.prefix_rfl⟩

/-- The representation invariant in every state an orderly run reaches. -/
theorem reachable_inv (shape : Shape block) {start state : State}
    (initially : ∃ slots, Inv block start slots)
    (reached : (machine block).Reachable (Orderly block) start state) :
    ∃ slots, Inv block state slots := by
  refine reached.invariant (fun state => ∃ slots, Inv block state slots) initially ?_
  rintro before action after ⟨slots, inv⟩ admitted taken
  obtain ⟨next, kept, -⟩ := inv_step shape inv admitted taken
  exact ⟨next, kept⟩

/-- What a run of one producer session starts from and ends in. -/
theorem single_inv {header : ControlBlock} {capacity : UInt64} {alignment itemSize : UInt32}
    {data : Memory} {state : State}
    (accepted : initControlBlock header capacity .varlen alignment itemSize = some block)
    (reached : (machine block).Reachable (SingleSession block) (initial block data) state) :
    Geometry block ∧ ∃ slots, Inv block state slots := by
  obtain ⟨geometry, fresh, -⟩ := initControlBlock_accepted accepted
  have shape := geometry.toShape
  refine ⟨geometry, reachable_inv shape ⟨[], inv_initial data (.of_eq fresh)⟩ ?_⟩
  exact reached.mono fun _ _ _ => SingleSession.orderly shape

/-- Every slot offered to a handler was committed by the session that reserved it. -/
def OwnDeliveries (state : State) : Prop :=
  ∀ outcome ∈ state.log.reads, ∀ offer, outcome.offer = some offer →
    state.log.OwnCommit offer.position

theorem ownDeliveries_of_clean (shape : Shape block) (fresh : block.rbMeta = {})
    {data : Memory} {state : State}
    (reached : (machine block).Reachable (CleanSessions block) (initial block data) state) :
    OwnDeliveries state := by
  obtain ⟨slots, inv⟩ := reachable_inv shape ⟨[], inv_initial data (.of_eq fresh)⟩
    (reached.mono fun _ _ _ => CleanSessions.orderly)
  exact inv.delivery.owned

end SpscRing.Varlen
