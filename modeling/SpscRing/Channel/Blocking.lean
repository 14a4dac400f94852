import SpscRing.Channel.Ends
import SpscRing.Foundation.Refinement

/-! What blocking on the notify words guarantees of any ring: the waits of each end
are runs of the wait/notify protocol, so a thread sleeps only while it has to, or
while the other thread is still on its way from the publication to the notify. -/

namespace SpscRing.Channel

open SpscRing.Foundation SpscRing.NotifyWord

variable {Ring Act Arg : Type}

/-- A step does nothing that the waits of the other end could see. -/
structure Quiet (ends : Ends Ring Act Arg) (role : Role) (before after : Ring) : Prop where
  front : ends.front role after = ends.front role before
  word : ends.word role after = ends.word role before
  publishing : ends.publishing role after = ends.publishing role before

/-- What a step of an end does to its own front and word. -/
inductive Acts (ends : Ends Ring Act Arg) (role : Role) (before after : Ring) : Prop where
  | quiet (same : Quiet ends role before after)
  | publish (resting : ends.publishing role before = false)
      (raised : ends.publishing role after = true)
      (word : ends.word role after = ends.word role before)
  | bump (raised : ends.publishing role before = true)
      (resting : ends.publishing role after = false)
      (front : ends.front role after = ends.front role before)
      (word : ends.word role after = ends.word role before + 1)

/-- The laws of the ends of a ring, for ring states that satisfy `sound` and steps
that satisfy `allowed`. -/
structure Lawful (ends : Ends Ring Act Arg) (allowed : Ring → Act → Ring → Prop)
    (sound : Ring → Prop) : Prop where
  word_setWord : ∀ role ring word, ends.word role (ends.setWord role ring word) = word
  peer_setWord : ∀ role ring word, Quiet ends role.peer ring (ends.setWord role ring word)
  front_setWord : ∀ role ring word,
    ends.front role (ends.setWord role ring word) = ends.front role ring
  publishing_setWord : ∀ role ring word,
    ends.publishing role (ends.setWord role ring word) = ends.publishing role ring
  parks_setWord : ∀ self role arg ring word,
    ends.parks self arg (ends.setWord role ring word) = ends.parks self arg ring
  mustWait_setWord : ∀ self role arg ring word,
    ends.mustWait self arg (ends.setWord role ring word) = ends.mustWait self arg ring
  sound_setWord : ∀ role ring word, sound ring → sound (ends.setWord role ring word)
  sound_step : ∀ before action after, sound before → allowed before action after →
    ends.step before action = some after → sound after
  acts : ∀ before action after, allowed before action after →
    ends.step before action = some after → Acts ends (ends.actor action) before after
  leaves : ∀ before action after, allowed before action after →
    ends.step before action = some after → Quiet ends (ends.actor action).peer before after
  parks_peer : ∀ before action after arg, allowed before action after →
    ends.step before action = some after →
      ends.parks (ends.actor action).peer arg after = ends.parks (ends.actor action).peer arg before
  mustWait_peer : ∀ before action after arg, allowed before action after →
    ends.step before action = some after →
      ends.mustWait (ends.actor action).peer arg after =
        ends.mustWait (ends.actor action).peer arg before
  parked : ∀ role arg ring, ends.parks role arg ring = true → ends.publishing role ring = false

/-- The steps of the ring are allowed; those of the waits are free. -/
def Admitted (allowed : Ring → Act → Ring → Prop)
    (before : State Ring) : Action Act Arg → State Ring → Prop
  | .ring action, after => allowed before.ring action after.ring
  | .notify _, _ | .wait _ _ _, _ | .waiter _ _, _ | .wake _, _ => True

/-- Fewer than `2^31` bumps of the word a thread waits on fall between its `fetch_or` and
the platform compare after it. -/
def FewBumpsPerWait (ends : Ends Ring Act Arg) (before : State Ring) :
    Action Act Arg → State Ring → Prop
  | .waiter self expired, after =>
    FewBumps (before.view ends self) (.waiter () expired) (after.view ends self)
  | .ring _, _ | .notify _, _ | .wait _ _ _, _ | .wake _, _ => True

instance (allowed : Ring → Act → Ring → Prop)
    [∀ before action after, Decidable (allowed before action after)] (before after : State Ring)
    (action : Action Act Arg) : Decidable (Admitted allowed before action after) :=
  match action with
  | .ring action => inferInstanceAs (Decidable (allowed before.ring action after.ring))
  | .notify _ | .wait _ _ _ | .waiter _ _ | .wake _ => .isTrue trivial

instance (ends : Ends Ring Act Arg) (before after : State Ring) (action : Action Act Arg) :
    Decidable (FewBumpsPerWait ends before action after) :=
  match action with
  | .waiter self expired => inferInstanceAs (Decidable
      (FewBumps (before.view ends self) (.waiter () expired) (after.view ends self)))
  | .ring _ | .notify _ | .wait _ _ _ | .wake _ => .isTrue trivial

variable {ends : Ends Ring Act Arg} {allowed : Ring → Act → Ring → Prop} {sound : Ring → Prop}
variable {before after state : State Ring} {self role : Role} {action : Action Act Arg}

@[simp]
theorem put_ring (thread : Thread) : (state.put self thread).ring = state.ring := rfl

@[simp]
theorem put_self (thread : Thread) : (state.put self thread).thread self = thread := by
  simp [State.put]

theorem put_other (thread : Thread) (different : role ≠ self) :
    (state.put self thread).thread role = state.thread role := by
  simp [State.put, different]

@[simp]
theorem put_peer (thread : Thread) :
    (state.put self thread).thread self.peer = state.thread self.peer :=
  put_other thread self.peer_ne

@[simp]
theorem put_of_peer (thread : Thread) :
    (state.put self.peer thread).thread self = state.thread self :=
  put_other thread self.ne_peer

theorem NotifyWord.State.ext_unit {left right : NotifyWord.State Unit UInt64}
    (word : left.word = right.word) (shared : left.shared = right.shared)
    (bumper : left.bumper = right.bumper) (waiter : left.waiter () = right.waiter ())
    (bumps : left.bumps () = right.bumps ()) (marks : left.marks () = right.marks ())
    (carried : left.carried () = right.carried ()) : left = right := by
  cases left
  cases right
  simp only [NotifyWord.State.mk.injEq]
  exact ⟨word, shared, bumper, funext fun _ => waiter, funext fun _ => bumps,
    funext fun _ => marks, funext fun _ => carried⟩

theorem asleep_woken (pc : WaiterPc UInt64) : pc.woken.blockedCall = none := by
  cases pc <;> rfl

theorem asleep_notify (state : State Ring) (self : Role) :
    ((state.notify self.peer).thread self).asleep = false := by
  simp [State.notify, Thread.asleep, State.put, asleep_woken]

theorem advance_ring (state : State Ring) (self : Role) (ring : Ring) :
    (state.advance ends self ring).ring = ring := by
  unfold State.advance
  split <;> rfl

/-- The view of an end depends on the ring through what its peer shows, and on the
threads through its own call and the notify its peer owes. -/
theorem view_congr (same : Quiet ends self.peer state.ring after.ring)
    (thread : after.thread self = { state.thread self with owes := (after.thread self).owes })
    (owes : (after.thread self.peer).owes = (state.thread self.peer).owes) :
    after.view ends self = state.view ends self := by
  apply NotifyWord.State.ext_unit
  · exact same.word
  · exact same.front
  · simp only [State.view, owes, same.publishing]
  all_goals
    simp only [State.view]
    rw [thread]

/-- To the waits of the other end, a step on the ring is nothing, a publication or a
bump of the protocol. -/
theorem view_advance_peer {ring : Ring} (acts : Acts ends self state.ring ring)
    (free : (state.thread self).owes = false) :
    (state.advance ends self ring).view ends self.peer = state.view ends self.peer ∨
      ∃ event, NotifyWord.step (state.view ends self.peer) event =
          some ((state.advance ends self ring).view ends self.peer) ∧
        ∀ expired, event ≠ .waiter () expired := by
  cases acts with
  | quiet same =>
    left
    have still : (ends.publishing self state.ring && !ends.publishing self ring) = false := by
      simp [same.publishing]
    rw [State.advance, still]
    exact view_congr (by simpa using same) rfl rfl
  | publish resting raised word =>
    refine .inr ⟨.publish (ends.front self ring), ?_, by simp⟩
    simp only [NotifyWord.step, State.advance, State.view, Role.peer_peer, free, resting, raised,
      word, Bool.false_and, Bool.false_eq_true, if_false, if_true]
  | bump raised resting front word =>
    refine .inr ⟨.bump, ?_, by simp⟩
    simp only [NotifyWord.step, State.advance, State.bump, State.view, Role.peer_peer, free, resting,
      raised, front, word, bumpNotifyWord, put_ring, put_self, put_of_peer, Bool.not_false,
      Bool.and_true, Bool.false_eq_true, if_false, if_true]

/-- Where a thread is when it waits or owes a notify: outside the ring, its own front
published and bumped, and inside the call its end makes. -/
structure Parked (ends : Ends Ring Act Arg) (state : State Ring) (role : Role) : Prop where
  settled : (state.thread role).owes = true → ends.publishing role state.ring = false
  waits : ∀ call, (state.thread role).pc.call = some call → (state.thread role).owes = false ∧
    ∃ arg, ends.parks role arg state.ring = true ∧
      ∀ front word, call.pred front word = ends.mustWait role arg state.ring front

theorem view_notify (owes : (state.thread self).owes = true) (parked : Parked ends state self) :
    NotifyWord.step (state.view ends self.peer) .notify =
      some ((state.notify self).view ends self.peer) := by
  simp [NotifyWord.step, State.view, State.notify, owes, parked.settled owes]

theorem view_startWait {arg : Arg} {timeoutMs : Option Int} (free : (state.thread self).free = true) :
    NotifyWord.step (state.view ends self) (.call () (waitCall ends self arg state.ring timeoutMs)) =
      some ((state.startWait ends self arg timeoutMs).view ends self) := by
  have idle : (state.thread self).pc = .idle := by
    simp only [Thread.free, Bool.and_eq_true] at free
    exact WaiterPc.isIdle_iff.mp free.1
  have begun : NotifyWord.step (state.view ends self)
      (.call () (waitCall ends self arg state.ring timeoutMs)) =
      some { (state.view ends self).goto ()
          (.check (waitCall ends self arg state.ring timeoutMs) false) with
        marks := Function.update (state.view ends self).marks () false } := by
    simp [NotifyWord.step, State.view, idle]
  rw [begun, Option.some.injEq]
  apply NotifyWord.State.ext_unit
  · rfl
  · rfl
  · have owes : ((state.startWait ends self arg timeoutMs).thread self.peer).owes =
        (state.thread self.peer).owes := by simp [State.startWait]
    simp only [State.view, NotifyWord.State.goto, owes]
    rfl
  all_goals simp [State.view, NotifyWord.State.goto, State.startWait]

section Views

variable (lawful : Lawful ends allowed sound)
include lawful

theorem view_store {protocol : NotifyWord.State Unit UInt64}
    (shared : protocol.shared = (state.view ends self).shared)
    (bumper : protocol.bumper = (state.view ends self).bumper) :
    (state.store ends self protocol).view ends self = protocol := by
  apply NotifyWord.State.ext_unit
  · exact lawful.word_setWord _ _ _
  · rw [shared]
    exact lawful.front_setWord _ _ _
  · rw [bumper]
    simp only [State.view, State.store, put_ring, put_peer, lawful.publishing_setWord]
  all_goals simp [State.view, State.store]

theorem view_store_peer (protocol : NotifyWord.State Unit UInt64) :
    (state.store ends self protocol).view ends self.peer = state.view ends self.peer := by
  apply view_congr
  · exact lawful.peer_setWord _ _ _
  · simp [State.store]
  · simp [State.store]

/-- The steps an end takes on the ring are invisible to its own waits. -/
theorem view_advance_self {act : Act} {ring : Ring} (admitted : allowed state.ring act ring)
    (taken : ends.step state.ring act = some ring) :
    (state.advance ends (ends.actor act) ring).view ends (ends.actor act) =
      state.view ends (ends.actor act) := by
  have leaves := lawful.leaves _ _ _ admitted taken
  unfold State.advance
  split
  · exact view_congr leaves (by simp [State.bump]) (by simp [State.bump])
  · exact view_congr leaves rfl rfl

/-- Every step of the channel is, to the waits of either end, no step at all or one
step of the wait/notify protocol. -/
theorem view_step (parked : ∀ role, Parked ends before role)
    (admitted : Admitted allowed before action after)
    (few : FewBumpsPerWait ends before action after)
    (taken : step ends before action = some after) (role : Role) :
    after.view ends role = before.view ends role ∨
      ∃ event, NotifyWord.step (before.view ends role) event = some (after.view ends role) ∧
        FewBumps (before.view ends role) event (after.view ends role) := by
  cases action with
  | ring act =>
    simp only [step, Option.ite_none_right_eq_some, Option.map_eq_some_iff] at taken
    obtain ⟨free, ring, moved, rfl⟩ := taken
    have ran : allowed before.ring act ring := advance_ring before (ends.actor act) ring ▸ admitted
    rcases role.eq_or_eq_peer (ends.actor act) with rfl | rfl
    · exact .inl (view_advance_self lawful ran moved)
    · have paid : (before.thread (ends.actor act)).owes = false := by
        simpa [Thread.free] using ((Bool.and_eq_true _ _).mp free).2
      rcases view_advance_peer (lawful.acts _ _ _ ran moved) paid with same | ⟨event, seen, other⟩
      · exact .inl same
      · refine .inr ⟨event, seen, ?_⟩
        cases event <;> simp_all [FewBumps, fewBumps]
  | notify self =>
    simp only [step, Option.ite_none_right_eq_some, Option.some.injEq] at taken
    obtain ⟨owes, rfl⟩ := taken
    rcases role.eq_or_eq_peer self with rfl | rfl
    · exact .inl (view_congr ⟨rfl, rfl, rfl⟩ (by simp [State.notify]) (by simp [State.notify]))
    · exact .inr ⟨.notify, view_notify owes (parked self), rfl⟩
  | wait self arg timeoutMs =>
    simp only [step, Option.ite_none_right_eq_some, Option.some.injEq, Bool.and_eq_true] at taken
    obtain ⟨⟨free, -⟩, rfl⟩ := taken
    rcases role.eq_or_eq_peer self with rfl | rfl
    · exact .inr ⟨_, view_startWait free, rfl⟩
    · exact .inl (view_congr ⟨rfl, rfl, rfl⟩ (by simp [State.startWait]) (by simp [State.startWait]))
  | waiter self expired =>
    simp only [step, Option.map_eq_some_iff] at taken
    obtain ⟨protocol, moved, rfl⟩ := taken
    rcases role.eq_or_eq_peer self with rfl | rfl
    · obtain ⟨shared, bumper, -⟩ := waiterStep_frame moved
      have seen := view_store lawful shared bumper
      exact .inr ⟨.waiter () expired, by rw [seen]; exact moved, few⟩
    · exact .inl (view_store_peer lawful protocol)
  | wake self =>
    simp only [step, Option.map_eq_some_iff] at taken
    obtain ⟨protocol, moved, rfl⟩ := taken
    rcases role.eq_or_eq_peer self with rfl | rfl
    · have kept : protocol.shared = (before.view ends role).shared ∧
          protocol.bumper = (before.view ends role).bumper := by
        simp only [NotifyWord.step] at moved
        split at moved <;> cases moved
        exact ⟨rfl, rfl⟩
      have seen := view_store lawful kept.1 kept.2
      exact .inr ⟨.wake (), by rw [seen]; exact moved, rfl⟩
    · exact .inl (view_store_peer lawful protocol)

end Views

theorem Parked.congr (parked : Parked ends before role)
    (owes : (after.thread role).owes = (before.thread role).owes)
    (publishing : ends.publishing role after.ring = ends.publishing role before.ring)
    (call : (after.thread role).pc.call = (before.thread role).pc.call ∨
      (after.thread role).pc.call = none)
    (parks : ∀ arg, ends.parks role arg after.ring = ends.parks role arg before.ring)
    (mustWait : ∀ arg, ends.mustWait role arg after.ring = ends.mustWait role arg before.ring) :
    Parked ends after role where
  settled := by
    rw [owes, publishing]
    exact parked.settled
  waits given inside := by
    rcases call with same | none
    · obtain ⟨paid, arg, resting, pred⟩ := parked.waits given (same ▸ inside)
      refine ⟨owes.trans paid, arg, (parks arg).trans resting, ?_⟩
      rw [mustWait]
      exact pred
    · simp [none] at inside

section Steps

variable (lawful : Lawful ends allowed sound)
include lawful

theorem parked_store {protocol : NotifyWord.State Unit UInt64}
    (parked : ∀ role, Parked ends before role)
    (call : (protocol.waiter ()).call = (before.thread self).pc.call ∨
      (protocol.waiter ()).call = none) (role : Role) :
    Parked ends (before.store ends self protocol) role := by
  have parks (role : Role) (arg : Arg) := lawful.parks_setWord role self.peer arg before.ring
    protocol.word
  have mustWait (role : Role) (arg : Arg) := lawful.mustWait_setWord role self.peer arg before.ring
    protocol.word
  rcases role.eq_or_eq_peer self with rfl | rfl
  · refine (parked role).congr (by simp [State.store]) ?_ (by simpa [State.store] using call)
      (parks role) (mustWait role)
    simpa [State.store] using (lawful.peer_setWord role.peer before.ring protocol.word).publishing
  · exact (parked self.peer).congr (by simp [State.store])
      (lawful.publishing_setWord _ _ _) (.inl (by simp [State.store])) (parks _) (mustWait _)

theorem parked_advance {act : Act} {ring : Ring} (admitted : allowed before.ring act ring)
    (moved : ends.step before.ring act = some ring)
    (free : (before.thread (ends.actor act)).free = true)
    (parked : ∀ role, Parked ends before role) (role : Role) :
    Parked ends (before.advance ends (ends.actor act) ring) role := by
  simp only [Thread.free, Bool.and_eq_true, WaiterPc.isIdle_iff, Bool.not_eq_true'] at free
  obtain ⟨idle, paid⟩ := free
  rcases role.eq_or_eq_peer (ends.actor act) with rfl | rfl
  · -- the acting thread is not waiting, and owes a notify only right after its bump
    unfold State.advance
    split
    · rename_i bumping
      simp only [Bool.and_eq_true, Bool.not_eq_true'] at bumping
      exact ⟨fun _ => bumping.2, by simp [State.bump, idle, WaiterPc.call]⟩
    · exact ⟨by simp [paid], by simp [idle, WaiterPc.call]⟩
  · have quiet := lawful.leaves _ _ _ admitted moved
    have parks (arg : Arg) := lawful.parks_peer _ _ _ arg admitted moved
    have mustWait (arg : Arg) := lawful.mustWait_peer _ _ _ arg admitted moved
    unfold State.advance
    split
    · exact (parked _).congr (by simp [State.bump]) quiet.publishing (.inl (by simp [State.bump]))
        parks mustWait
    · exact (parked _).congr rfl quiet.publishing (.inl rfl) parks mustWait

theorem parked_step (parked : ∀ role, Parked ends before role)
    (admitted : Admitted allowed before action after)
    (taken : step ends before action = some after) (role : Role) : Parked ends after role := by
  cases action with
  | ring act =>
    simp only [step, Option.ite_none_right_eq_some, Option.map_eq_some_iff] at taken
    obtain ⟨free, ring, moved, rfl⟩ := taken
    exact parked_advance lawful (advance_ring before (ends.actor act) ring ▸ admitted) moved free
      parked role
  | notify self =>
    simp only [step, Option.ite_none_right_eq_some, Option.some.injEq] at taken
    obtain ⟨owes, rfl⟩ := taken
    rcases role.eq_or_eq_peer self with rfl | rfl
    · refine ⟨by simp [State.notify], fun call inside => ?_⟩
      exact absurd ((parked role).waits call (by simpa [State.notify] using inside)).1 (by simp [owes])
    · refine (parked self.peer).congr (by simp [State.notify]) rfl (.inl ?_) (fun _ => rfl)
        fun _ => rfl
      simp [State.notify, call_woken]
  | wait self arg timeoutMs =>
    simp only [step, Option.ite_none_right_eq_some, Option.some.injEq, Bool.and_eq_true] at taken
    obtain ⟨⟨free, parks⟩, rfl⟩ := taken
    rcases role.eq_or_eq_peer self with rfl | rfl
    · have paid : (before.thread role).owes = false := by
        simpa [Thread.free] using ((Bool.and_eq_true _ _).mp free).2
      refine ⟨by simp [State.startWait, paid], ?_⟩
      simp only [State.startWait, put_self, put_ring, WaiterPc.call, Option.some.injEq]
      rintro call rfl
      exact ⟨paid, arg, parks, fun _ _ => rfl⟩
    · exact (parked self.peer).congr (by simp [State.startWait]) rfl
        (.inl (by simp [State.startWait])) (fun _ => rfl) fun _ => rfl
  | waiter self expired =>
    simp only [step, Option.map_eq_some_iff] at taken
    obtain ⟨protocol, moved, rfl⟩ := taken
    exact parked_store lawful parked (waiterStep_call moved) role
  | wake self =>
    simp only [step, Option.map_eq_some_iff] at taken
    obtain ⟨protocol, moved, rfl⟩ := taken
    refine parked_store lawful parked (.inl ?_) role
    simp only [NotifyWord.step, State.view] at moved
    split at moved <;> cases moved
    rename_i asleep
    simp [NotifyWord.State.goto, asleep, WaiterPc.call]

theorem sound_step (valid : sound before.ring)
    (admitted : Admitted allowed before action after)
    (taken : step ends before action = some after) : sound after.ring := by
  cases action with
  | ring act =>
    simp only [step, Option.ite_none_right_eq_some, Option.map_eq_some_iff] at taken
    obtain ⟨-, ring, moved, rfl⟩ := taken
    have ran : allowed before.ring act ring := advance_ring before (ends.actor act) ring ▸ admitted
    rw [advance_ring]
    exact lawful.sound_step _ _ _ valid ran moved
  | notify self =>
    simp only [step, Option.ite_none_right_eq_some, Option.some.injEq] at taken
    obtain ⟨-, rfl⟩ := taken
    exact valid
  | wait self arg timeoutMs =>
    simp only [step, Option.ite_none_right_eq_some, Option.some.injEq] at taken
    obtain ⟨-, rfl⟩ := taken
    exact valid
  | waiter self _ | wake self =>
    simp only [step, Option.map_eq_some_iff] at taken
    obtain ⟨protocol, -, rfl⟩ := taken
    exact lawful.sound_setWord _ _ _ valid

end Steps

/-- Nothing is under way: the ring is sound and neither end is about to bump. -/
structure Fresh (ends : Ends Ring Act Arg) (sound : Ring → Prop) (ring : Ring) : Prop where
  sound : sound ring
  resting : ∀ role, ends.publishing role ring = false

/-- There is nothing left to wait for: a call the thread is in has its predicate false. -/
def Ready (ends : Ends Ring Act Arg) (state : State Ring) (role : Role) : Prop :=
  ∀ call, (state.thread role).pc.call = some call →
    call.pred (ends.front role.peer state.ring) (ends.word role.peer state.ring) = false

/-- The next steps of its peer, taken alone, wake the thread: the bump, if that is
still to come, and the notify. -/
def WakesSoon (ends : Ends Ring Act Arg) (next : Role → Act) (state : State Ring) (role : Role) :
    Prop :=
  ∃ actions after, actions <:+ [.ring (next role.peer), .notify role.peer] ∧
    (machine ends).Run Machine.Always state actions after ∧ (after.thread role).asleep = false

section Runs

variable (lawful : Lawful ends allowed sound) {ring : Ring} (fresh : Fresh ends sound ring)
include lawful fresh

theorem reachable_parked
    (reached : (machine ends).Reachable (Admitted allowed) (initial ring) state) :
    sound state.ring ∧ ∀ role, Parked ends state role := by
  refine reached.invariant (fun state => sound state.ring ∧ ∀ role, Parked ends state role) ?_ ?_
  · exact ⟨fresh.sound, fun role => ⟨by simp [initial], by simp [initial, WaiterPc.call]⟩⟩
  · intro before action after held admitted taken
    exact ⟨sound_step lawful held.1 admitted taken, parked_step lawful held.2 admitted taken⟩

variable (reached : (machine ends).Reachable
    (Machine.Both (Admitted allowed) (FewBumpsPerWait ends)) (initial ring) state)
include reached

/-- The waits of an end are a run of the wait/notify protocol, whatever the two
threads do on the ring meanwhile. -/
theorem view_reachable (role : Role) :
    (NotifyWord.machine Unit UInt64).Reachable FewBumps
      (NotifyWord.initial (ends.word role.peer ring) (ends.front role.peer ring))
      (state.view ends role) := by
  have start : (initial ring).view ends role =
      NotifyWord.initial (ends.word role.peer ring) (ends.front role.peer ring) := by
    simp [State.view, initial, NotifyWord.initial, fresh.resting role.peer]
  rw [← start]
  refine reached.simulates (NotifyWord.machine Unit UInt64) FewBumps
    (fun state => state.view ends role) (fun state => ∀ role, Parked ends state role) ?_ ?_ ?_
  · exact fun role => ⟨by simp [initial], by simp [initial, WaiterPc.call]⟩
  · exact fun before action after parked both taken => parked_step lawful parked both.1 taken
  · exact fun before action after parked both taken =>
      view_step lawful parked both.1 both.2 taken role

theorem reachable_covered (role : Role) : Covered (state.view ends role) () := by
  refine (view_reachable lawful fresh reached role).invariant
    (fun view => ∀ waiter, Covered view waiter) (initial_covered _ _) ?_ ()
  intro before action after covered few taken
  refine covered_step covered few (fun self expired _ => ⟨?_, ?_⟩) taken
  · exact fun _ other different => absurd rfl different
  · exact fun other different => absurd rfl different

/-- A thread that sleeps has to, or its peer is about to wake it: either the notify
is all that is left to do, or the bump is, which will find the flag up. -/
theorem asleep_cases (asleep : (state.thread role).asleep = true) :
    (∃ call, (state.thread role).pc.call = some call ∧
      call.pred (ends.front role.peer state.ring) (ends.word role.peer state.ring) = true) ∨
    (hasWaiter (ends.word role.peer state.ring) = true ∧
      ends.publishing role.peer state.ring = true) ∨
    (state.thread role.peer).owes = true := by
  obtain ⟨call, sleeping⟩ := Option.isSome_iff_exists.mp asleep
  obtain ⟨registered, marked, blocked⟩ := WaiterPc.blockedCall_eq_some.mp sleeping
  have covered := reachable_covered lawful fresh reached role
  simp only [Covered, Awaits, State.view, blocked] at covered
  by_cases owes : (state.thread role.peer).owes = true
  · exact .inr (.inr owes)
  · by_cases publishing : ends.publishing role.peer state.ring = true
    · simp only [owes, publishing, if_true, if_false, reduceCtorEq, false_or] at covered
      exact .inr (.inl ⟨covered.1, publishing⟩)
    · simp only [owes, publishing, if_false, reduceCtorEq, false_or, or_false] at covered
      exact .inl ⟨call, by simp [blocked, WaiterPc.call], covered.2⟩

/-- A thread asleep without a reason is woken by its peer's next steps alone. -/
theorem woken_by_peer (next : Role → Act)
    (proceeds : ∀ role ring, ends.publishing role ring = true → ends.actor (next role) = role ∧
      ∃ after, ends.step ring (next role) = some after ∧ ends.publishing role after = false)
    (asleep : (state.thread role).asleep = true) (ready : Ready ends state role) :
    WakesSoon ends next state role := by
  have admitted := reached.mono fun _ _ _ both => both.1
  have parked := (reachable_parked lawful fresh admitted).2 role.peer
  rcases asleep_cases lawful fresh reached asleep with ⟨call, inside, waiting⟩ | ⟨flag, raised⟩ | owes
  · simp [ready call inside] at waiting
  · obtain ⟨actor, after, moved, bumped⟩ := proceeds role.peer state.ring raised
    have free : (state.thread role.peer).free = true := by
      have paid : (state.thread role.peer).owes = false := by
        by_contra owes
        simp [parked.settled (by simpa using owes)] at raised
      have outside : (state.thread role.peer).pc = .idle := by
        cases inside : (state.thread role.peer).pc.call with
        | none => cases pc : (state.thread role.peer).pc <;> simp_all [WaiterPc.call]
        | some call =>
          obtain ⟨-, arg, parks, -⟩ := parked.waits call inside
          simp [lawful.parked _ _ _ parks] at raised
      simp [Thread.free, paid, outside, WaiterPc.isIdle]
    have first : step ends state (.ring (next role.peer)) =
        some (state.bump ends role.peer after) := by
      simp [step, actor, free, moved, State.advance, raised, bumped]
    have second : step ends (state.bump ends role.peer after) (.notify role.peer) =
        some ((state.bump ends role.peer after).notify role.peer) := by
      have owes : ((state.bump ends role.peer after).thread role.peer).owes = true := by
        simpa [State.bump, bumpNotifyWord] using flag
      simp [step, owes]
    refine ⟨_, _, List.suffix_refl _, .next first trivial (.next second trivial (.done _)), ?_⟩
    exact asleep_notify _ _
  · refine ⟨[.notify role.peer], state.notify role.peer, List.suffix_cons _ _,
      .next ?_ trivial (.done _), ?_⟩
    · simp [machine, step, owes]
    · exact asleep_notify _ _

/-- The two threads are never asleep at once, if never both have to wait. -/
theorem not_both_asleep
    (apart : ∀ arg other ring, sound ring → ends.parks .producer arg ring = true →
      ends.mustWait .producer arg ring (ends.front .consumer ring) = true →
      ends.mustWait .consumer other ring (ends.front .producer ring) = false) :
    ¬ ((state.thread .producer).asleep = true ∧ (state.thread .consumer).asleep = true) := by
  rintro ⟨asleep, peerAsleep⟩
  have admitted := reached.mono fun _ _ _ both => both.1
  obtain ⟨valid, parked⟩ := reachable_parked lawful fresh admitted
  -- a sleeping peer is between its calls, so nobody is about to wake the thread
  have justified (role : Role) (asleep : (state.thread role).asleep = true)
      (peerAsleep : (state.thread role.peer).asleep = true) :
      ∃ arg, ends.parks role arg state.ring = true ∧
        ends.mustWait role arg state.ring (ends.front role.peer state.ring) = true := by
    obtain ⟨call, sleeping⟩ := Option.isSome_iff_exists.mp peerAsleep
    obtain ⟨registered, marked, blocked⟩ := WaiterPc.blockedCall_eq_some.mp sleeping
    obtain ⟨paid, arg, parks, -⟩ := (parked role.peer).waits call (by simp [blocked, WaiterPc.call])
    rcases asleep_cases lawful fresh reached asleep with ⟨given, inside, waiting⟩ | ⟨-, raised⟩ | owes
    · obtain ⟨-, own, ownParks, pred⟩ := (parked role).waits given inside
      exact ⟨own, ownParks, (pred _ _).symm.trans waiting⟩
    · simp [lawful.parked _ _ _ parks] at raised
    · simp [paid] at owes
  obtain ⟨arg, parks, waiting⟩ := justified .producer asleep peerAsleep
  obtain ⟨other, -, otherWaiting⟩ := justified .consumer peerAsleep asleep
  have ready := apart arg other state.ring valid parks waiting
  exact absurd (otherWaiting.symm.trans ready) (by simp)

end Runs

end SpscRing.Channel
