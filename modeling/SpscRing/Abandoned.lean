import SpscRing.Fixed.Sessions
import SpscRing.Varlen.Runs

/-! Abandoned reservations: the guard of a writer lives in the object, the
reservation front in the segment, and a new session sees only the latter. -/

namespace SpscRing

open SpscRing.Foundation

/-- Both layouts: in every run whose sessions start with nothing reserved but
unpublished, every slot delivered was committed by the session that reserved it. -/
theorem delivered_slots_own_commit {header block : ControlBlock} {capacity : UInt64}
    {layout : LayoutType} {alignment itemSize : UInt32} (data : Memory)
    (accepted : initControlBlock header capacity layout alignment itemSize = some block) :
    (layout = .fixed → Fixed.attachesFixedWriter block = true → ∀ state,
      (Fixed.machine block).Reachable (Fixed.CleanSessions block) (Fixed.initial block data) state →
        Fixed.OwnDeliveries state) ∧
    (layout = .varlen → ∀ state,
      (Varlen.machine block).Reachable (Varlen.CleanSessions block) (Varlen.initial block data) state →
        Varlen.OwnDeliveries state) := by
  obtain ⟨geometry, fresh, -⟩ := initControlBlock_accepted accepted
  constructor
  · intro _ attaches state reached
    exact Fixed.ownDeliveries_of_clean geometry attaches fresh reached
  · intro _ state reached
    exact Varlen.ownDeliveries_of_clean geometry.toShape fresh reached

/-- Two clean sessions on each layout, the first message delivered. -/
theorem delivered_slots_own_commit_sessions :
    (∃ state, (Fixed.machine Fixed.sampleBlock).Reachable (Fixed.CleanSessions Fixed.sampleBlock)
        (Fixed.initial Fixed.sampleBlock fun _ => 0) state ∧
      state.log.views = [0] ∧ Fixed.OwnDeliveries state) ∧
    ∃ state, (Varlen.machine Varlen.sampleBlock).Reachable (Varlen.CleanSessions Varlen.sampleBlock)
        (Varlen.initial Varlen.sampleBlock fun _ => 0) state ∧
      state.log.reads = [.accepted ⟨0, [0], {}⟩] ∧ Varlen.OwnDeliveries state := by
  constructor
  · obtain ⟨state, run, viewed⟩ := (Fixed.machine Fixed.sampleBlock).run_of_replay
      (Fixed.CleanSessions Fixed.sampleBlock) (Fixed.initial Fixed.sampleBlock fun _ => 0)
      (.call (.write (fun _ => 9) 16) :: List.replicate 6 .writer ++
        [.restart, .read .tryRead, .reader, .reader])
      (fun state => state.log.views == [0]) (by decide +kernel)
    exact ⟨state, ⟨_, run⟩, by simpa using viewed,
      (delivered_slots_own_commit _ Fixed.sampleBlock_accepted).1 rfl (by decide) state ⟨_, run⟩⟩
  · obtain ⟨state, run, offered⟩ := (Varlen.machine Varlen.sampleBlock).run_of_replay
      (Varlen.CleanSessions Varlen.sampleBlock) (Varlen.initial Varlen.sampleBlock fun _ => 0)
      (.call (Varlen.write 1 none) :: List.replicate 7 .writer ++
        .restart :: .read .handler :: List.replicate 8 (.reader true))
      (fun state => state.log.reads == [.accepted ⟨0, [0], {}⟩]) (by decide +kernel)
    exact ⟨state, ⟨_, run⟩, by simpa using offered,
      (delivered_slots_own_commit _ Varlen.sampleBlock_accepted).2 rfl state ⟨_, run⟩⟩

/-- A ring for two slots of 40 bytes. -/
def roomyBlock : ControlBlock := { Varlen.sampleBlock with dataCapacity := 128 }

theorem roomyBlock_accepted : initControlBlock {} 128 .varlen 8 0 = some roomyBlock := by
  decide

/-- A session reserves a slot and ends; the next writes one, and the consumer looks. -/
def abandonFixed : List Fixed.Action :=
  .call .tryReserve :: List.replicate 3 .writer ++
    .restart :: .call (.write (fun _ => 9) 16) :: List.replicate 6 .writer ++
    [.read .tryRead, .reader, .reader]

/-- The same history on a variable-length ring. -/
def abandonVarlen : List Varlen.Action :=
  .call (Varlen.tryReserve 1) :: List.replicate 4 .writer ++
    .restart :: .call (Varlen.write 1 none) :: List.replicate 7 .writer ++
    .read .handler :: List.replicate 8 (.reader true)

/-- The commit of the second session moves the published front past the slot
the first one abandoned, and the consumer is handed it. -/
theorem abandoned_slot_delivered :
    (initControlBlock {} 32 .fixed 16 16 = some Fixed.sampleBlock ∧
      ∃ state, (Fixed.machine Fixed.sampleBlock).Run Machine.Always
          (Fixed.initial Fixed.sampleBlock fun _ => 0) abandonFixed state ∧
        ¬ Fixed.OwnDeliveries state) ∧
    initControlBlock {} 128 .varlen 8 0 = some roomyBlock ∧
      ∃ state, (Varlen.machine roomyBlock).Run Machine.Always
          (Varlen.initial roomyBlock fun _ => 0) abandonVarlen state ∧
        ¬ Varlen.OwnDeliveries state := by
  constructor
  · obtain ⟨state, run, passed⟩ := (Fixed.machine Fixed.sampleBlock).run_of_replay Machine.Always
      (Fixed.initial Fixed.sampleBlock fun _ => 0) abandonFixed
      (fun state => state.log.views == [0] && state.log.commits == [⟨1, 16⟩]) (by decide +kernel)
    simp only [Bool.and_eq_true, beq_iff_eq] at passed
    refine ⟨Fixed.sampleBlock_accepted, state, run, fun own => ?_⟩
    obtain ⟨session, -, committed⟩ := own 0 (by simp [passed.1])
    simp [passed.2] at committed
  · obtain ⟨state, run, passed⟩ := (Varlen.machine roomyBlock).run_of_replay Machine.Always
      (Varlen.initial roomyBlock fun _ => 0) abandonVarlen
      (fun state => state.log.reads == [.accepted ⟨0, [0], {}⟩] && state.log.commits == [⟨1, 40⟩])
      (by decide +kernel)
    simp only [Bool.and_eq_true, beq_iff_eq] at passed
    refine ⟨roomyBlock_accepted, state, run, fun own => ?_⟩
    obtain ⟨session, -, committed⟩ :=
      own (.accepted ⟨0, [0], {}⟩) (by simp [passed.1]) ⟨0, [0], {}⟩ rfl
    simp [passed.2] at committed

end SpscRing
