import SpscRing.Fixed.Occupancy
import SpscRing.RingView
import SpscRing.Varlen.Representation

/-! `used_bytes()` and `available_bytes()` seen from any thread: a report takes two loads,
and the ring goes on between them. -/

namespace SpscRing

open SpscRing.Foundation

/-- Both layouts, any number of producer sessions: whenever a report is taken, and however
far the ring runs between its loads, it is within the capacity, bounds the occupancy of
every moment in between from below, and is exact when only one side moved. -/
theorem occupancy_report_bounds {header block : ControlBlock} {capacity : UInt64}
    {layout : LayoutType} {alignment itemSize : UInt32} (data : Memory)
    (accepted : initControlBlock header capacity layout alignment itemSize = some block) :
    (layout = .fixed → isValidFixedRing block = true →
      ∀ {first between second actions more},
        (Fixed.machine block).Reachable (Fixed.Disciplined block) (Fixed.initial block data) first →
        (Fixed.machine block).Run (Fixed.Disciplined block) first actions between →
        (Fixed.machine block).Run (Fixed.Disciplined block) between more second →
          Reported block first.toMeta between.toMeta second.toMeta) ∧
    (layout = .varlen →
      ∀ {first between second actions more},
        (Varlen.machine block).Reachable (Varlen.Orderly block) (Varlen.initial block data) first →
        (Varlen.machine block).Run (Varlen.Orderly block) first actions between →
        (Varlen.machine block).Run (Varlen.Orderly block) between more second →
          Reported block first.toMeta between.toMeta second.toMeta) := by
  constructor
  · intro _ valid first between second actions more reached run rest
    have geometry := Fixed.fixedGeometry_of_valid valid
    obtain ⟨-, fresh, -⟩ := initControlBlock_accepted accepted
    have initially := Fixed.reachable_occupancy geometry (.of_eq fresh) reached
    obtain ⟨later, atWrite⟩ := Fixed.run_advanced geometry run initially
    have atRead := (Fixed.run_advanced geometry rest later).2
    exact reported_of_advanced atWrite atRead initially.fronts.bounded
  · intro varlen first between second actions more reached run rest
    subst varlen
    obtain ⟨geometry, fresh, -⟩ := initControlBlock_accepted accepted
    have shape := geometry.toShape
    have initially := Varlen.reachable_inv shape ⟨[], Varlen.inv_initial data (.of_eq fresh)⟩ reached
    obtain ⟨later, atWrite⟩ := Varlen.run_advanced shape run initially
    have atRead := (Varlen.run_advanced shape rest later).2
    obtain ⟨slots, inv⟩ := initially
    exact reported_of_advanced atWrite atRead inv.bounded

/-- On each layout a message is in the ring at the first load and consumed before the
second, by when another producer session has begun: the report counts nothing. -/
theorem occupancy_report_bounds_consumed :
    (∃ first second : Fixed.State, first.toMeta.occupied = 16 ∧
      usedBytes Fixed.sampleBlock first.writePos second.readPos = 0 ∧
      Reported Fixed.sampleBlock first.toMeta first.toMeta second.toMeta) ∧
    ∃ first second : Varlen.State, first.toMeta.occupied = 40 ∧
      usedBytes Varlen.sampleBlock first.writePos second.readPos = 0 ∧
      Reported Varlen.sampleBlock first.toMeta first.toMeta second.toMeta := by
  constructor
  · obtain ⟨first, run, passed⟩ := (Fixed.machine Fixed.sampleBlock).run_of_replay
      (Fixed.Disciplined Fixed.sampleBlock) (Fixed.initial Fixed.sampleBlock fun _ => 0)
      (.call (.write (fun _ => 9) 16) :: List.replicate 6 .writer)
      (fun first => decide (first.toMeta.occupied = 16) &&
        ((Fixed.machine Fixed.sampleBlock).replay (Fixed.Disciplined Fixed.sampleBlock) first
          (.restart :: .read (.read 16) :: List.replicate 4 .reader)).any fun second =>
            decide (usedBytes Fixed.sampleBlock first.writePos second.readPos = 0))
      (by decide +kernel)
    simp only [Bool.and_eq_true, decide_eq_true_eq, Option.any_eq_true] at passed
    obtain ⟨occupied, second, rest, used⟩ := passed
    exact ⟨first, second, occupied, used,
      (occupancy_report_bounds _ Fixed.sampleBlock_accepted).1 rfl (by decide) ⟨_, run⟩ (.done _)
        (Machine.replay_run rest)⟩
  · obtain ⟨first, run, passed⟩ := (Varlen.machine Varlen.sampleBlock).run_of_replay
      (Varlen.CleanSessions Varlen.sampleBlock) (Varlen.initial Varlen.sampleBlock fun _ => 0)
      (.call (Varlen.write 8 none) :: List.replicate 7 .writer)
      (fun first => decide (first.toMeta.occupied = 40) &&
        ((Varlen.machine Varlen.sampleBlock).replay (Varlen.CleanSessions Varlen.sampleBlock) first
          (.restart :: .read .handler :: List.replicate 11 (.reader true))).any fun second =>
            decide (usedBytes Varlen.sampleBlock first.writePos second.readPos = 0))
      (by decide +kernel)
    simp only [Bool.and_eq_true, decide_eq_true_eq, Option.any_eq_true] at passed
    obtain ⟨occupied, second, rest, used⟩ := passed
    have orderly := run.mono fun _ _ _ _ => Varlen.CleanSessions.orderly
    have onward := (Machine.replay_run rest).mono fun _ _ _ _ => Varlen.CleanSessions.orderly
    exact ⟨first, second, occupied, used,
      (occupancy_report_bounds _ Varlen.sampleBlock_accepted).2 rfl ⟨_, orderly⟩ (.done _) onward⟩

end SpscRing
