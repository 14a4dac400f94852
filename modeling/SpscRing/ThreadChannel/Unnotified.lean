import SpscRing.ThreadChannel.Outcomes

/-! The wake calls of `run_fixed_channel`. Its backoffs block on the notify words without
registering as waiters, so only the wake sequence itself can raise the waiter flag. -/

namespace SpscRing.FixedChannel

open SpscRing.Foundation SpscRing.Fixed
open SpscRing.NotifyWord (bumpNotifyWord hasWaiter_iff toNat_bump)
open SpscRing.Channel (Role Ends Acts)

section Tally

variable {Ring Act Arg : Type} (ends : Ends Ring Act Arg)

/-- The word of an end once the bump it still owes is made. -/
def tally (role : Role) (ring : Ring) : UInt32 :=
  ends.word role ring + (ends.publishing role ring).toUInt32

variable {ends} {role : Role} {before after : Ring}

/-- Only the store of a front moves the tally. -/
theorem tally_acts (acts : Acts ends role before after) :
    (ends.front role after = ends.front role before ∧
      tally ends role after = tally ends role before) ∨
    (ends.publishing role before = false ∧ ends.publishing role after = true ∧
      tally ends role after = tally ends role before + 1) := by
  cases acts with
  | quiet same => exact .inl ⟨same.front, by rw [tally, same.word, same.publishing, tally]⟩
  | bump raised resting front word =>
    refine .inl ⟨front, ?_⟩
    simp [tally, raised, resting, word, Bool.toUInt32]
  | publish resting raised word =>
    refine .inr ⟨resting, raised, ?_⟩
    simp [tally, raised, resting, word, Bool.toUInt32]

end Tally

variable {block : ControlBlock} {messages : UInt64} {ring next : Fixed.State} {action : Action}

/-- An end that does not act is left as it was. -/
theorem acts_step (role : Role) (single : action ≠ .restart)
    (taken : step block ring action = some next) : Acts (ends block) role ring next := by
  rcases ends_step single taken with ⟨-, acts, kept⟩ | ⟨-, acts, kept⟩
  · cases role with
    | producer => exact acts
    | consumer =>
      exact .quiet ⟨kept.readPos, kept.readWakeSeq, congrArg ReaderPc.bumping kept.readerPc⟩
  · cases role with
    | producer =>
      exact .quiet ⟨kept.commitPos, kept.commitSeq, congrArg WriterPc.bumping kept.writerPc⟩
    | consumer => exact acts

/-- A producer that comes to owe a bump has stored the end of its slot. -/
theorem commit_moves (inv : Inv block ring) (taken : step block ring action = some next)
    (resting : ring.writerPc.bumping = false) (raised : next.writerPc.bumping = true) :
    next.commitPos.toNat = ring.commitPos.toNat + (itemSize block).toNat := by
  cases action with
  | call call =>
    simp only [step] at taken
    split at taken <;> cases taken
    · simp [bumping_beginReserve] at raised
    · simp [bumping_beginReserve] at raised
    · simp [bumping_beginCommit] at raised
  | fill offset bytes =>
    simp only [step] at taken
    split at taken
    · split at taken <;> cases taken
      exact absurd (resting.symm.trans raised) (by decide)
    · cases taken
  | writer =>
    have writer := inv.writer
    simp only [step] at taken
    cases here : ring.writerPc <;> simp only [WriterOk, writerStep, here] at taken writer
    case storeCommit =>
      cases taken
      show ring.reservedEnd.toNat = _
      rw [writer.stop, writer.reserved]
    case bumpCommit => simp [here, WriterPc.bumping] at resting
    case loadRead => split at taken <;> cases taken <;> cases raised
    case storeWrite | copy =>
      cases taken
      simp [bumping_afterReserve, bumping_beginCommit] at raised
    all_goals cases taken <;> cases raised
  | restart =>
    cases taken
    cases raised
  | read call =>
    have kept := producerKept_of_actor rfl taken
    exact absurd (resting.symm.trans (kept.writerPc ▸ raised)) (by decide)
  | reader =>
    have kept := producerKept_of_actor rfl taken
    exact absurd (resting.symm.trans (kept.writerPc ▸ raised)) (by decide)

/-- A consumer that comes to owe a bump has passed the slots it was told to. -/
theorem advance_moves (inv : Inv block ring) (taken : step block ring action = some next)
    (single : ∀ count, ring.readerPc = .fetchAdd count → count = 1)
    (resting : ring.readerPc.bumping = false) (raised : next.readerPc.bumping = true) :
    next.readPos.toNat = ring.readPos.toNat + (itemSize block).toNat := by
  cases action with
  | read call =>
    simp only [step] at taken
    split at taken <;> cases taken <;> cases raised
  | reader =>
    have reader := inv.reader
    simp only [step] at taken
    cases here : ring.readerPc <;> simp only [ReaderOk, readerStep, here] at taken reader
    case fetchAdd count =>
      cases taken
      obtain rfl := single count here
      have below := ring.commitPos.toNat_lt
      rw [UInt64.toNat_one, Nat.one_mul] at reader
      show (ring.readPos + 1 * itemSize block).toNat = _
      rw [UInt64.one_mul, toNat_add (by omega)]
    case bumpRead => simp [here, ReaderPc.bumping] at resting
    case loadCommit size read =>
      split at taken
      · cases taken
        cases raised
      · split at taken <;> cases taken <;> cases raised
    all_goals cases taken <;> cases raised
  | call call =>
    have kept := consumerKept_of_actor rfl taken
    exact absurd (resting.symm.trans (kept.readerPc ▸ raised)) (by decide)
  | fill offset bytes =>
    have kept := consumerKept_of_actor rfl taken
    exact absurd (resting.symm.trans (kept.readerPc ▸ raised)) (by decide)
  | writer =>
    have kept := consumerKept_of_actor rfl taken
    exact absurd (resting.symm.trans (kept.readerPc ▸ raised)) (by decide)
  | restart =>
    cases taken
    exact absurd (resting.symm.trans raised) (by decide)

variable {channel after : Channel} {thread : Thread}

/-- The ring moves by its own steps, and never by a restart. -/
theorem ring_step (taken : channelStep block messages channel thread = some after) :
    after.ring = channel.ring ∨
      ∃ action, action ≠ .restart ∧ step block channel.ring action = some after.ring := by
  have moves {action : Action} {follow : Fixed.State → Channel} (single : action ≠ .restart)
      (same : ∀ ring, (follow ring).ring = ring)
      (taken : (step block channel.ring action).map follow = some after) :
      ∃ action, action ≠ .restart ∧ step block channel.ring action = some after.ring := by
    obtain ⟨ring, moved, rfl⟩ := Option.map_eq_some_iff.mp taken
    exact ⟨action, single, (same ring).symm ▸ moved⟩
  cases thread with
  | producer =>
    simp only [channelStep, producerStep] at taken
    cases here : channel.producer <;> simp only [here] at taken
    case test =>
      split at taken
      · exact .inr (moves (by simp) (fun _ => rfl) taken)
      · cases taken
        exact .inl rfl
    case reserving =>
      split at taken
      · split at taken <;> cases taken <;> exact .inl rfl
      · exact .inr (moves (by simp) (fun _ => rfl) taken)
    case committing =>
      split at taken
      · cases taken
        exact .inl rfl
      · exact .inr (moves (by simp) (fun _ => rfl) taken)
    case fill | commit => exact .inr (moves (by simp) (fun _ => rfl) taken)
    case loadWake | waitWake | storeDone =>
      cases taken
      exact .inl rfl
    case join => cases taken
  | consumer =>
    simp only [channelStep, consumerStep] at taken
    cases here : channel.consumer <;> simp only [here] at taken
    case reading =>
      split at taken
      · split at taken <;> cases taken <;> exact .inl rfl
      · exact .inr (moves (by simp) (fun _ => rfl) taken)
    case advancing =>
      split at taken
      · cases taken
        exact .inl rfl
      · exact .inr (moves (by simp) (fun _ => rfl) taken)
    case testDone => split at taken <;> cases taken <;> exact .inl rfl
    case tryRead | advance => exact .inr (moves (by simp) (fun _ => rfl) taken)
    case loadSeq | waitCommit =>
      cases taken
      exact .inl rfl
    case left => cases taken

/-- The frames that have passed the front of an end. -/
def Channel.frames (channel : Channel) : Role → Nat
  | .producer => channel.published
  | .consumer => channel.consumed

/-- Each notify word counts the frames that passed the front it goes with. -/
def Counted (block : ControlBlock) (channel : Channel) : Prop :=
  ∀ role, tally (ends block) role channel.ring = UInt32.ofNat (channel.frames role)

section Counting

variable (streaming : Streaming block messages channel)
include streaming

theorem Streaming.front (role : Role) :
    ((ends block).front role channel.ring).toNat =
      (itemSize block).toNat * channel.frames role := by
  cases role with
  | producer => exact streaming.commitPos
  | consumer => exact streaming.readPos

/-- The consumer advances by one slot at a time. -/
theorem Streaming.fetches_one (count : UInt64) (here : channel.ring.readerPc = .fetchAdd count) :
    count = 1 := by
  have kind := streaming.consumer
  cases at' : channel.consumer <;> simp [ConsumerOk, Reading, Advancing, here, at'] at kind
  case advancing => exact kind.2

theorem Streaming.moves (role : Role) {action : Action}
    (taken : step block channel.ring action = some next)
    (resting : (ends block).publishing role channel.ring = false)
    (raised : (ends block).publishing role next = true) :
    ((ends block).front role next).toNat =
      ((ends block).front role channel.ring).toNat + (itemSize block).toNat := by
  cases role with
  | producer => exact commit_moves streaming.inv taken resting raised
  | consumer => exact advance_moves streaming.inv taken streaming.fetches_one resting raised

theorem counted_step (fitting : Fitting block messages) (counted : Counted block channel)
    (taken : channelStep block messages channel thread = some after) : Counted block after := by
  intro role
  have later := (carries_step fitting streaming taken).streaming
  have positive := fitting.geometry.positive
  have start := streaming.front role
  have stop := later.front role
  rcases ring_step taken with same | ⟨action, single, moved⟩
  · have frames : after.frames role = channel.frames role := by
      rw [same, start] at stop
      exact (Nat.eq_of_mul_eq_mul_left positive stop).symm
    rw [same, counted role, frames]
  · rcases tally_acts (acts_step role single moved) with ⟨front, still⟩ | ⟨resting, raised, counts⟩
    · have frames : after.frames role = channel.frames role := by
        rw [front, start] at stop
        exact (Nat.eq_of_mul_eq_mul_left positive stop).symm
      rw [still, counted role, frames]
    · have frames : after.frames role = channel.frames role + 1 := by
        rw [streaming.moves role moved resting raised, start, ← Nat.mul_succ] at stop
        exact (Nat.eq_of_mul_eq_mul_left positive stop).symm
      rw [counts, counted role, frames, UInt32.ofNat_add]
      rfl

/-- An end that owes a bump has moved its front at least once. -/
theorem Streaming.frames_pos {role : Role}
    (raised : (ends block).publishing role channel.ring = true) : 0 < channel.frames role := by
  cases role with
  | producer =>
    have here : channel.ring.writerPc = .bumpCommit := by
      cases pc : channel.ring.writerPc <;> simp [ends, pc, WriterPc.bumping] at raised ⊢
    have kind := streaming.producer
    cases pc : channel.producer <;> simp [ProducerOk, Reserving, Committing, here, pc] at kind
    case committing => simp [Channel.frames, Channel.published, pc, kind.2]
  | consumer =>
    have here : channel.ring.readerPc = .bumpRead := by
      cases pc : channel.ring.readerPc <;> simp [ends, pc, ReaderPc.bumping] at raised ⊢
    have kind := streaming.consumer
    cases pc : channel.consumer <;> simp [ConsumerOk, Reading, Advancing, here, pc] at kind
    case advancing => simp [Channel.frames, Channel.consumed, pc, here, fetching, kind]

theorem Streaming.frames_le (geometry : FixedGeometry block) (role : Role) :
    channel.frames role ≤ messages.toNat := by
  cases role with
  | producer => exact streaming.published_le
  | consumer => exact Nat.le_trans (streaming.consumed_le geometry) streaming.published_le

end Counting

theorem reachable_counted (fitting : Fitting block messages) {data : Memory}
    (fresh : block.rbMeta = {})
    (reached : (machine block messages).Reachable Machine.Always (initial block data) channel) :
    Counted block channel := by
  have both : Streaming block messages channel ∧ Counted block channel := by
    refine reached.invariant (fun channel => Streaming block messages channel ∧ Counted block channel)
      ⟨streaming_initial data fresh, ?_⟩ ?_
    · intro role
      cases role <;> simp [tally, ends, initial, Fixed.initial, fresh, Channel.frames,
        Channel.published, Channel.consumed, WriterPc.bumping, ReaderPc.bumping, Bool.toUInt32]
    · intro before thread after held _ taken
      exact ⟨(carries_step fitting held.1 taken).streaming, counted_step held.1 fitting held.2 taken⟩
  exact both.2

/-- The next access of an end is a bump that asks for `atomic_notify_all`. -/
def Notifies (block : ControlBlock) (ring : Fixed.State) (role : Role) : Prop :=
  (ends block).publishing role ring = true ∧ (bumpNotifyWord ((ends block).word role ring)).2 = true

/-- While nobody notifies, a word does not get past the flag. -/
theorem word_step {role : Role} (single : action ≠ .restart)
    (taken : step block ring action = some next) (silent : ¬ Notifies block ring role)
    (below : ((ends block).word role ring).toNat ≤ 2 ^ 31) :
    ((ends block).word role next).toNat ≤ 2 ^ 31 := by
  cases acts_step role single taken with
  | quiet same =>
    rw [same.word]
    exact below
  | publish _ _ same =>
    rw [same]
    exact below
  | bump raised _ _ counts =>
    have unflagged : ((ends block).word role ring).toNat < 2 ^ 31 :=
      Nat.lt_of_not_le fun flagged => silent ⟨raised, hasWaiter_iff.mpr flagged⟩
    rw [counts, toNat_bump]
    omega

theorem reachable_low {data : Memory} {role : Role} (fresh : block.rbMeta = {})
    (silent : ¬ ∃ channel,
      (machine block messages).Reachable Machine.Always (initial block data) channel ∧
        Notifies block channel.ring role)
    (reached : (machine block messages).Reachable Machine.Always (initial block data) channel) :
    ((ends block).word role channel.ring).toNat ≤ 2 ^ 31 := by
  have both : (machine block messages).Reachable Machine.Always (initial block data) channel ∧
      ((ends block).word role channel.ring).toNat ≤ 2 ^ 31 := by
    refine reached.invariant (fun channel =>
      (machine block messages).Reachable Machine.Always (initial block data) channel ∧
        ((ends block).word role channel.ring).toNat ≤ 2 ^ 31) ⟨.refl _, ?_⟩ ?_
    · cases role <;> simp [ends, initial, Fixed.initial, fresh]
    · rintro before thread after ⟨reached, low⟩ _ taken
      refine ⟨reached.run (.next taken trivial (.done _)), ?_⟩
      rcases ring_step taken with same | ⟨action, single, moved⟩
      · rw [same]
        exact low
      · exact word_step single moved (fun notifies => silent ⟨before, reached, notifies⟩) low
  exact both.2

section Resting

variable {stream : Drain.Stream} (rests : Rests block messages channel stream) (role : Role)
include rests

/-- Between its calls an end owes no bump. -/
theorem Rests.tally_eq : tally (ends block) role channel.ring = (ends block).word role channel.ring := by
  cases role with
  | producer => simp [tally, ends, rests.producer_idle, WriterPc.bumping, Bool.toUInt32]
  | consumer => simp [tally, ends, rests.consumer_idle, ReaderPc.bumping, Bool.toUInt32]

theorem Rests.frames_eq {count : Nat} (sent : stream.sent = count) (taken : stream.taken = count) :
    channel.frames role = count := by
  cases role with
  | producer => exact rests.published.trans (rests.sent.trans sent)
  | consumer => exact rests.consumed.trans (rests.drained.trans taken)

end Resting

/-- In `run_fixed_channel` either thread makes a wake call in some interleaving exactly
when more than `2 ^ 31` messages are sent: until then every bump finds the flag down,
whoever is blocked on the word. -/
theorem fixed_channel_notifies_iff (block : ControlBlock) (data : Memory) (messages : UInt64)
    (role : Role) (valid : isValidFixedRing block = true) (fresh : block.rbMeta = {})
    (tagged : 8 ≤ block.fixedItemSize.toNat)
    (small : block.fixedItemSize.toNat * messages.toNat + block.dataCapacity.toNat < 2 ^ 63) :
    (∃ channel, (machine block messages).Reachable Machine.Always (initial block data) channel ∧
      Notifies block channel.ring role) ↔ 2 ^ 31 < messages.toNat := by
  have fitting : Fitting block messages := fitting_of_valid valid tagged small
  constructor
  · rintro ⟨channel, reached, raised, flagged⟩
    have streaming := reachable_streaming fitting fresh reached
    have counted := reachable_counted fitting fresh reached role
    have first := streaming.frames_pos raised
    have last := streaming.frames_le fitting.geometry role
    have high : 2 ^ 31 ≤ ((ends block).word role channel.ring).toNat := hasWaiter_iff.mp flagged
    rw [tally, raised] at counted
    have value := congrArg UInt32.toNat counted
    rw [UInt32.toNat_ofNat'] at value
    have sum : ((ends block).word role channel.ring + true.toUInt32).toNat =
        (((ends block).word role channel.ring).toNat + 1) % 2 ^ 32 := toNat_bump _
    have width := ((ends block).word role channel.ring).toNat_lt
    omega
  · intro many
    by_contra never
    -- One frame more than the flag allows, passed through the ring one by one.
    have initially : Rests block messages (initial block data) {} :=
      ⟨streaming_initial data fresh, rfl, rfl, rfl, rfl, rfl⟩
    obtain ⟨channel, reached, rests⟩ : ∃ channel,
        (machine block messages).Reachable Machine.Always (initial block data) channel ∧
          Rests block messages channel { sent := 2 ^ 31 + 1, taken := 2 ^ 31 + 1 } :=
      (Drain.run_passing (itemCount_pos fitting.geometry) many).realised (Rests block messages)
        (fun _ _ _ _ rests _ taken => Rests.matched rests fitting taken) initially
    have low := reachable_low fresh never reached
    have counted := reachable_counted fitting fresh reached role
    rw [rests.tally_eq, rests.frames_eq role rfl rfl] at counted
    rw [counted] at low
    exact absurd low (by decide)

/-- With its own constants the example never makes a wake call; it would with as many
messages as fill the sequence and one more. -/
theorem fixed_channel_notifies_iff_example :
    (¬ ∃ channel,
      (machine exampleBlock 200000).Reachable Machine.Always (initial exampleBlock fun _ => 0)
        channel ∧ Notifies exampleBlock channel.ring .producer) ∧
    ∃ channel,
      (machine exampleBlock 2147483649).Reachable Machine.Always (initial exampleBlock fun _ => 0)
        channel ∧ Notifies exampleBlock channel.ring .producer := by
  refine ⟨fun notified => ?_, ?_⟩
  · have many := (fixed_channel_notifies_iff exampleBlock (fun _ => 0) 200000 .producer (by decide)
      rfl (by decide) (by decide)).mp notified
    exact absurd many (by decide)
  · exact (fixed_channel_notifies_iff exampleBlock (fun _ => 0) 2147483649 .producer (by decide)
      rfl (by decide) (by decide)).mpr (by decide)

end SpscRing.FixedChannel
