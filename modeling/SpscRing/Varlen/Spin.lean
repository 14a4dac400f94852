import SpscRing.Channel.Varlen

/-! `spin_until_read` of the variable-length reader: `read` again and again, with a pause of
the backoff after each call that returned false, until a handler accepts. -/

namespace SpscRing.Varlen

open SpscRing.Foundation

inductive SpinPc where
  | enter
  | reading
  | returned
  deriving DecidableEq

/-- The ring and the consumer inside `spin_until_read`, with the caller's backoff. -/
structure Spin where
  ring : State
  backoff : AtomicBackoff := {}
  pc : SpinPc := .enter

/-- The producer goes on, or the consumer takes its next step; `answer` is what its
handler returns when that step is the handler's call. -/
inductive SpinAction where
  | producer (action : Action)
  | spin (answer : Bool)

/-- The last call of `read` returned true. -/
def acceptedLast (ring : State) : Bool :=
  match ring.result with
  | some (.accepted _) => true
  | _ => false

section Definitions

variable (block : ControlBlock)

/-- The consumer's next step. -/
def spinStep (spin : Spin) (answer : Bool) : Option Spin :=
  match spin.pc with
  | .enter => (step block spin.ring (.read .handler)).map fun ring =>
      { spin with ring, pc := .reading }
  | .reading =>
    if spin.ring.readerPc.isIdle then
      if acceptedLast spin.ring then some { spin with pc := .returned }
      else some { spin with backoff := spin.backoff.pause, pc := .enter }
    else (step block spin.ring (.reader answer)).map fun ring => { spin with ring }
  | .returned => none

def spinMachine : Machine Spin SpinAction where
  step spin action :=
    match action with
    | .producer action =>
      if action.actor = .producer then
        (step block spin.ring action).map fun ring => { spin with ring }
      else none
    | .spin answer => spinStep block spin answer

/-- One producer session with the fronts clear of the end of their range. -/
def Beside (before : Spin) : SpinAction → Spin → Prop
  | .producer action, after => SingleSession block before.ring action after.ring
  | .spin _, _ => NoWrap block before.ring

instance (before : Spin) (action : SpinAction) (after : Spin) :
    Decidable (Beside block before action after) :=
  match action with
  | .producer action => inferInstanceAs (Decidable (SingleSession block before.ring action after.ring))
  | .spin _ => inferInstanceAs (Decidable (NoWrap block before.ring))

end Definitions

/-- The handler has accepted, and `read` is on its way out. -/
def ReaderPc.accepted : ReaderPc → Bool
  | .consumeSize _ | .consumeStore _ _ | .consumeBump => true
  | _ => false

/-- What a step of `read` does to the record of its calls. -/
inductive ReadStep (before after : State) : Prop where
  | inside (undecided : before.readerPc.accepted = false) (still : after.readerPc.accepted = false)
      (busy : after.readerPc ≠ .idle) (same : after.log.reads = before.log.reads)
  | refuse (outcome : ReadOutcome) (undecided : before.readerPc.accepted = false)
      (refused : outcome.acceptedMessage = none) (idle : after.readerPc = .idle)
      (recorded : after.log.reads = before.log.reads ++ [outcome])
  | accept (offer : Offer) (undecided : before.readerPc.accepted = false)
      (taken : after.readerPc.accepted = true)
      (recorded : after.log.reads = before.log.reads ++ [.accepted offer])
  | leave (taken : before.readerPc.accepted = true)
      (onward : after.readerPc.accepted = true ∨ after.readerPc = .idle)
      (same : after.log.reads = before.log.reads)

/-- The record of the calls of `read` that one call of `spin_until_read` has made so far:
those that failed, each followed by a pause, and the one it is in or has just made. -/
structure Tried (entry : Spin) (spin : Spin) (failed last : List ReadOutcome) : Prop where
  reads : spin.ring.log.reads = entry.ring.log.reads ++ failed ++ last
  refused : ∀ outcome ∈ failed, outcome.acceptedMessage = none
  pauses : spin.backoff.pauseCount.toNat =
    (entry.backoff.pauseCount.toNat + failed.length) % 2 ^ 32

/-- What the call is about to make of its last `read`. -/
def Trying (spin : Spin) (last : List ReadOutcome) : Prop :=
  match spin.pc with
  | .enter => spin.ring.readerPc = .idle ∧ last = []
  | .reading =>
    if spin.ring.readerPc.accepted then ∃ offer, last = [.accepted offer]
    else if spin.ring.readerPc.isIdle then ∃ outcome, last = [outcome]
    else last = []
  | .returned => ∃ offer, last = [.accepted offer]

/-- The invariant of one call of `spin_until_read`. -/
structure Spins (block : ControlBlock) (entry spin : Spin) : Prop where
  inv : ∃ slots, Inv block spin.ring slots
  recorded : Recorded spin.ring
  tried : ∃ failed last, Tried entry spin failed last ∧ Trying spin last

/-- The calls of `read` that a returned `spin_until_read` has made: some that found the
ring empty, some whose handler declined one message, and one whose handler took it. -/
def OneMessage (entry after : Spin) : Prop :=
  ∃ empties declines offer, after.ring.log.reads = entry.ring.log.reads ++
      (List.replicate empties .empty ++ List.replicate declines (.declined offer) ++
        [.accepted offer]) ∧
    after.backoff.pauseCount.toNat =
      (entry.backoff.pauseCount.toNat + empties + declines) % 2 ^ 32

variable {block : ControlBlock} {before after ring : State} {answer : Bool}

theorem readStep_of_readerStep (taken : readerStep block answer before = some after) :
    ReadStep before after := by
  cases here : before.readerPc with
  | idle => simp [readerStep, here] at taken
  | loadCommit call readPos =>
    simp only [readerStep, here] at taken
    split at taken <;> split at taken <;> cases taken
    all_goals first
      | exact .refuse .empty (by simp [here, ReaderPc.accepted]) rfl rfl rfl
      | exact .inside (by simp [here, ReaderPc.accepted]) rfl (by simp) rfl
  | checkPublished call readPos used | checkWhole call readPos used =>
    simp only [readerStep, here] at taken
    split at taken <;> cases taken
    · exact .refuse .empty (by simp [here, ReaderPc.accepted]) rfl rfl rfl
    · exact .inside (by simp [here, ReaderPc.accepted]) rfl (by simp) rfl
  | checkPadding call readPos =>
    simp only [readerStep, here] at taken
    split at taken <;> cases taken <;>
      exact .inside (by simp [here, ReaderPc.accepted]) rfl (by simp) rfl
  | handle call readPos payloadSize messageMeta =>
    simp only [readerStep, here] at taken
    split at taken <;> cases taken
    · exact .accept _ (by simp [here, ReaderPc.accepted]) rfl rfl
    · exact .refuse _ (by simp [here, ReaderPc.accepted]) rfl rfl rfl
  | loadRead _ | skipSize _ _ | skipStore _ _ _ | skipBump _ | takeSize _ _ | takeMeta _ _ _ =>
    simp only [readerStep, here] at taken
    cases taken
    exact .inside (by simp [here, ReaderPc.accepted]) rfl (by simp) rfl
  | consumeSize _ | consumeStore _ _ =>
    simp only [readerStep, here] at taken
    cases taken
    exact .leave (by simp [here, ReaderPc.accepted]) (.inl rfl) rfl
  | consumeBump =>
    simp only [readerStep, here] at taken
    cases taken
    exact .leave (by simp [here, ReaderPc.accepted]) (.inr rfl) rfl

/-- A message once declined is the only one offered until it is accepted. -/
theorem offers_of_chain {failed : List ReadOutcome} {offer : Offer}
    (chain : (failed ++ [ReadOutcome.accepted offer]).IsChain Reoffers)
    (refused : ∀ outcome ∈ failed, outcome.acceptedMessage = none) :
    ∃ empties declines, failed =
      List.replicate empties .empty ++ List.replicate declines (.declined offer) := by
  induction failed with
  | nil => exact ⟨0, 0, rfl⟩
  | cons first rest ih =>
    rw [List.cons_append] at chain
    obtain ⟨empties, declines, rfl⟩ := ih chain.tail
      fun outcome present => refused outcome (List.mem_cons_of_mem _ present)
    cases first with
    | empty => exact ⟨empties + 1, declines, rfl⟩
    | accepted given => simpa [ReadOutcome.acceptedMessage] using refused _ (List.mem_cons_self)
    | declined given =>
      cases empties with
      | zero =>
        cases declines with
        | zero =>
          obtain ⟨reoffered, -⟩ := List.isChain_cons_cons.mp chain
          rcases reoffered given rfl with no | same
          · cases no
          · cases same
            exact ⟨0, 1, rfl⟩
        | succ declines =>
          obtain ⟨reoffered, -⟩ := List.isChain_cons_cons.mp chain
          rcases reoffered given rfl with same | no
          · cases same
            exact ⟨0, declines + 2, rfl⟩
          · cases no
      | succ empties =>
        obtain ⟨reoffered, -⟩ := List.isChain_cons_cons.mp chain
        rcases reoffered given rfl with no | no <;> cases no

section Steps

variable {entry spin next : Spin} (shape : Shape block) (spins : Spins block entry spin)
include shape spins

theorem spins_producer {action : Action} (acts : action.actor = .producer)
    (admitted : SingleSession block spin.ring action ring)
    (taken : step block spin.ring action = some ring) : Spins block entry { spin with ring } := by
  obtain ⟨⟨slots, inv⟩, recorded, failed, last, tried, trying⟩ := spins
  obtain ⟨more, kept, -⟩ := inv_step shape inv (admitted.orderly shape) taken
  have frame : ProducerFrame spin.ring ring := by
    rcases ends_step admitted.single taken with ⟨-, -, frame⟩ | ⟨other, -⟩
    · exact frame
    · rw [acts] at other
      cases other
  refine ⟨⟨more, kept⟩, recorded_step recorded taken, failed, last,
    ⟨?_, tried.refused, tried.pauses⟩, ?_⟩
  · rw [frame.reads]
    exact tried.reads
  · unfold Trying at trying ⊢
    rw [frame.readerPc]
    exact trying

theorem spins_read (small : NoWrap block spin.ring) (here : spin.pc = .reading)
    (taken : step block spin.ring (.reader answer) = some ring) :
    Spins block entry { spin with ring, pc := .reading } := by
  obtain ⟨⟨slots, inv⟩, recorded, failed, last, tried, trying⟩ := spins
  have orderly : Orderly block spin.ring (.reader answer) ring :=
    SingleSession.orderly shape ⟨trivial, small, by simp⟩
  obtain ⟨more, kept, -⟩ := inv_step shape inv orderly taken
  refine ⟨⟨more, kept⟩, recorded_step recorded taken, ?_⟩
  simp only [Trying, here] at trying
  have busy : spin.ring.readerPc.isIdle = false := by
    cases idle : spin.ring.readerPc <;> simp [step, readerStep, idle, ReaderPc.isIdle] at taken ⊢
  cases readStep_of_readerStep taken with
  | inside undecided still working same =>
    have empty : last = [] := by simpa [undecided, busy] using trying
    have awake : ring.readerPc.isIdle = false := by
      rw [← Bool.not_eq_true, ReaderPc.isIdle_iff]
      exact working
    exact ⟨failed, last, { tried with reads := same.trans tried.reads }, by
      simp [Trying, still, awake, empty]⟩
  | refuse outcome undecided refused idle recorded =>
    have empty : last = [] := by simpa [undecided, busy] using trying
    subst empty
    refine ⟨failed, [outcome], { tried with reads := ?_ }, ?_⟩
    · rw [recorded, tried.reads, List.append_nil]
    · simp [Trying, idle, ReaderPc.accepted, ReaderPc.isIdle]
  | accept offer undecided consuming recorded =>
    have empty : last = [] := by simpa [undecided, busy] using trying
    subst empty
    refine ⟨failed, [.accepted offer], { tried with reads := ?_ }, ?_⟩
    · rw [recorded, tried.reads, List.append_nil]
    · simp [Trying, consuming]
  | leave consuming onward same =>
    rw [if_pos consuming] at trying
    obtain ⟨offer, rfl⟩ := trying
    refine ⟨failed, [.accepted offer], { tried with reads := same.trans tried.reads }, ?_⟩
    rcases onward with still | idle
    · simp [Trying, still]
    · simp [Trying, idle, ReaderPc.accepted, ReaderPc.isIdle]

theorem spins_spin (small : NoWrap block spin.ring) (taken : spinStep block spin answer = some next) :
    Spins block entry next := by
  cases here : spin.pc with
  | enter =>
    obtain ⟨⟨slots, inv⟩, recorded, failed, last, tried, trying⟩ := spins
    simp only [Trying, here] at trying
    obtain ⟨idle, rfl⟩ := trying
    simp only [spinStep, here] at taken
    obtain ⟨ring, moved, rfl⟩ := Option.map_eq_some_iff.mp taken
    have orderly : Orderly block spin.ring (.read .handler) ring :=
      SingleSession.orderly shape ⟨trivial, small, by simp⟩
    obtain ⟨more, kept, -⟩ := inv_step shape inv orderly moved
    have told := recorded_step recorded moved
    simp only [step, idle, Option.some.injEq] at moved
    subst moved
    exact ⟨⟨more, kept⟩, told, failed, [], { tried with }, rfl⟩
  | reading =>
    simp only [spinStep, here] at taken
    split at taken
    · rename_i idle
      obtain ⟨inv, recorded, failed, last, tried, trying⟩ := spins
      have resting := ReaderPc.isIdle_iff.mp idle
      simp only [Trying, here, resting, ReaderPc.accepted, ReaderPc.isIdle, Bool.false_eq_true,
        if_false, if_true] at trying
      obtain ⟨outcome, rfl⟩ := trying
      have final : spin.ring.result = some outcome := by
        rw [← recorded, tried.reads]
        simp
      split at taken <;> cases taken
      · rename_i accepted
        refine ⟨inv, recorded, failed, [outcome], { tried with }, ?_⟩
        cases outcome <;> simp_all [acceptedLast, Trying]
      · rename_i refused
        refine ⟨inv, recorded, failed ++ [outcome], [], ⟨?_, ?_, ?_⟩, resting, rfl⟩
        · simpa using tried.reads
        · intro given present
          rcases List.mem_append.mp present with earlier | this
          · exact tried.refused given earlier
          · rw [List.mem_singleton.mp this]
            cases outcome <;> simp_all [acceptedLast, ReadOutcome.acceptedMessage]
        · have pauses := tried.pauses
          simp only [AtomicBackoff.pause, UInt32.toNat_add, UInt32.toNat_one, List.length_append,
            List.length_singleton]
          omega
    · obtain ⟨ring, moved, rfl⟩ := Option.map_eq_some_iff.mp taken
      exact spins_read shape spins small here moved
  | returned => simp [spinStep, here] at taken

end Steps

/-- Over every interleaving with the producer: a call of `spin_until_read` that returns has
shown its handler one message only, which the handler took in the end; before that it
paused once for each time the ring was empty or the handler declined. -/
theorem spin_until_read_one_message {header : ControlBlock} {capacity : UInt64}
    {alignment itemSize : UInt32} {data : Memory} {backoff : AtomicBackoff} {after : Spin}
    {actions : List SpinAction}
    (accepted : initControlBlock header capacity .varlen alignment itemSize = some block)
    (reached : (machine block).Reachable (SingleSession block) (initial block data) ring)
    (idle : ring.readerPc = .idle)
    (run : (spinMachine block).Run (Beside block) { ring, backoff } actions after)
    (returned : after.pc = .returned) : OneMessage { ring, backoff } after := by
  obtain ⟨geometry, initially⟩ := single_inv accepted reached
  have shape := geometry.toShape
  have spins := run.preserves (Spins block { ring, backoff }) ?_ ?_
  · obtain ⟨⟨slots, inv⟩, -, failed, last, tried, trying⟩ := spins
    simp only [Trying, returned] at trying
    obtain ⟨offer, rfl⟩ := trying
    have chain := inv.delivery.reoffered
    rw [tried.reads, List.append_assoc] at chain
    obtain ⟨empties, declines, rfl⟩ := offers_of_chain (List.isChain_append.mp chain).2.1
      tried.refused
    refine ⟨empties, declines, offer, ?_, ?_⟩
    · rw [tried.reads, List.append_assoc]
    · have pauses := tried.pauses
      simpa [Nat.add_assoc] using pauses
  · intro before action next spins admitted taken
    cases action with
    | producer action =>
      simp only [spinMachine, Option.ite_none_right_eq_some, Option.map_eq_some_iff] at taken
      obtain ⟨acts, ring, moved, rfl⟩ := taken
      exact spins_producer shape spins acts admitted moved
    | spin answer => exact spins_spin shape spins admitted taken
  · refine ⟨initially, recorded_of_reachable reached, [], [], ⟨by simp, by simp, ?_⟩, idle, rfl⟩
    have small := backoff.pauseCount.toNat_lt
    simp [Nat.mod_eq_of_lt small]

/-- The ring is empty at first, and the handler declines the message once. -/
theorem spin_until_read_one_message_declined : ∃ after actions,
    (spinMachine sampleBlock).Run (Beside sampleBlock) { ring := initial sampleBlock fun _ => 0 }
      actions after ∧
    after.pc = .returned ∧ after.ring.log.reads.length = 3 ∧
    OneMessage { ring := initial sampleBlock fun _ => 0 } after := by
  obtain ⟨after, run, passed⟩ := (spinMachine sampleBlock).run_of_replay (Beside sampleBlock)
    { ring := initial sampleBlock fun _ => 0 }
    (List.replicate 4 (.spin true) ++ .producer (.call (write 4 (some fun _ => 7))) ::
      List.replicate 8 (.producer .writer) ++ List.replicate 10 (.spin false) ++
      List.replicate 13 (.spin true))
    (fun after => decide (after.pc = .returned) && decide (after.ring.log.reads.length = 3))
    (by decide +kernel)
  simp only [Bool.and_eq_true, decide_eq_true_eq] at passed
  refine ⟨after, _, run, passed.1, passed.2, ?_⟩
  exact spin_until_read_one_message sampleBlock_accepted (.refl _) rfl run passed.1

end SpscRing.Varlen
