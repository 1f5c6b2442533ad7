/-
What holds of the transport's queues in every interleaving of its calls.

A call that closes the transport stores the state first and takes the queue
afterwards, and `queue_event` reads the state under the queue's lock.  So an event
that gets past the check is in the queue before it is taken, and the first
terminal state is the last.
-/
import RdmaIo.Message.CloseRace

namespace RdmaIo.Message

open RaceOp
open List

namespace RaceOp

/-- The call holds the lock of the event queue. -/
def holdsEvents : RaceOp → Bool
  | drain (.pushEvent _) | drain (.skipEvent _) => true
  | _ => false

/-- The call is about to push an event that passed the check. -/
def pushes : RaceOp → Bool
  | drain (.pushEvent _) => true
  | _ => false

/-- The call has still to take the event queue. -/
def takes : RaceOp → Bool
  | drain (.takeEvents _) | close (.closeReady _) => true
  | _ => false

/-- The call has still to close the port. -/
def shuts : RaceOp → Bool
  | drain (.takeEvents closeIo) | drain (.drainPort closeIo) => closeIo
  | _ => false

/-- The number of the event that the call has in hand. -/
def tickets : RaceOp → List Nat
  | drain (.disposeTerminalEvent ticket _) => ticket.toList
  | process (.processEvent ticket _) => [ticket]
  | _ => []

/-- A compare-exchange expects a state that is not terminal. -/
def expects : RaceOp → Bool
  | close (.casFailed current _ _) | close (.casStopped current) => !current.isTerminal
  | _ => true

/-- The operation has no part in the queues. -/
def idle (op : RaceOp) : Bool :=
  !op.holdsEvents && !op.takes && !op.shuts && op.tickets.isEmpty

def quiet (op : RaceOp) : Bool :=
  op.idle && op.expects

end RaceOp

/-- What the operations see and change of the two queues and the state. -/
structure Queues where
  state : TransportState
  locked : Bool
  events : List EngineMessageEvent
  port : IoEventPort
  accepted : List EngineMessageEvent
  removed : Nat
  fates : List (Nat × EventFate)

def RaceShared.queues (s : RaceShared) : Queues where
  state := s.msg.state
  locked := s.eventsLocked
  events := s.msg.events
  port := s.msg.port
  accepted := s.accepted
  removed := s.removed
  fates := s.fates

open DrainOp CloseOp ProcessOp IoOp DriveOp in
/-- What one operation does to the queues, and what its call goes on with. -/
inductive QueueStep (q : Queues) : RaceOp → Queues → List RaceOp → Prop
  | quiet {op : RaceOp} {more : List RaceOp} (hop : op.idle = true)
      (hmore : more.all quiet = true) : QueueStep q op q more
  | accept {event : EngineMessageEvent} (hlock : q.locked = false)
      (hlive : q.state.isClosing = false) :
      QueueStep q (queueEvent event) { q with locked := true } [↑(pushEvent event)]
  | refuse {event : EngineMessageEvent} (hlock : q.locked = false) :
      QueueStep q (queueEvent event) { q with locked := true } [↑(skipEvent event)]
  | push {event : EngineMessageEvent} :
      QueueStep q (pushEvent event)
        { q with
          locked := false
          events := q.events ++ [event]
          accepted := q.accepted ++ [event] } []
  | skip {event : EngineMessageEvent} {more : List RaceOp}
      (hmore : more.all quiet = true) :
      QueueStep q (skipEvent event) { q with locked := false } more
  | fate {op : RaceOp} {more : List RaceOp} (fate : EventFate)
      (hop : op.holdsEvents = false ∧ op.takes = false ∧ op.shuts = false)
      (hmore : more.all quiet = true) :
      QueueStep q op { q with fates := q.fates ++ op.tickets.map (·, fate) } more
  | take {closeIo : Bool} (hlock : q.locked = false) :
      QueueStep q (takeEvents closeIo)
        { q with events := [], removed := q.removed + q.events.length }
        (chain [disposeAll q.removed q.events,
          [closeAdmission, discardAdmission, drainPort closeIo]])
  | pop {event : EngineMessageEvent} {events : List EngineMessageEvent}
      (hlock : q.locked = false) (hevents : q.events = event :: events) :
      QueueStep q popEvent { q with events, removed := q.removed + 1 }
        [↑(processEvent q.removed event)]
  | shut {more : List RaceOp} (hmore : more.all quiet = true) :
      QueueStep q (drainPort true) { q with port := { isOpen := false, events := [] } } more
  | drain {more : List RaceOp} (hmore : more.all quiet = true) :
      QueueStep q (drainPort false) { q with port := { q.port with events := [] } } more
  | deliver {event : IoEvent} :
      QueueStep q (deliver event) { q with port := q.port.send [event] } []
  | popIo {event : IoEvent} {events : List IoEvent} (hevents : q.port.events = event :: events) :
      QueueStep q popIo { q with port := { q.port with events } } [↑(processIoEvent event)]
  | ready (hstate : q.state = .created) : QueueStep q casReady { q with state := .ready } []
  | attempt {op next : RaceOp} (hop : op.idle = true) (hnext : next.holdsEvents = false)
      (htickets : next.tickets = []) (hexpects : next.expects = true) :
      QueueStep q op q [next]
  | failed {error : Error} {closeConnection : Bool} :
      QueueStep q (casFailed q.state error closeConnection) { q with state := .failed }
        (failing error closeConnection)
  | closeCreated (hstate : q.state = .created) :
      QueueStep q closeCreated { q with state := .closing } [↑(closeReady true)]
  | closeReady {created : Bool} (hstate : q.state = .ready) :
      QueueStep q (closeReady created) { q with state := .closing } (closing true)
  | closeLate {created : Bool} :
      QueueStep q (closeReady created) q (closing created)
  | stopped : QueueStep q (casStopped q.state) { q with state := .stopped } stopping
  | stop {op : RaceOp} (hop : op.idle = true) : QueueStep q op q stopping

namespace RaceShared

variable {s s' : RaceShared} {msg : EngineMessageState} {ops more : List RaceOp}

theorem proceed_eq_some (h : s.proceed ops = some (s', more)) : s = s' ∧ ops = more := by
  obtain ⟨rfl, rfl⟩ := Prod.mk.inj (Option.some.inj h)
  exact ⟨rfl, rfl⟩

theorem update_eq_some (h : s.update msg ops = some (s', more)) :
    s.setMsg msg = s' ∧ ops = more := by
  obtain ⟨rfl, rfl⟩ := Prod.mk.inj (Option.some.inj h)
  exact ⟨rfl, rfl⟩

theorem queues_of_withoutSends (h : msg.withoutSends = s.msg.withoutSends) :
    (s.setMsg msg).queues = s.queues := by
  have hstate : msg.state = s.msg.state := congrArg (·.state) h
  have hevents : msg.events = s.msg.events := congrArg (·.events) h
  have hport : msg.port = s.msg.port := congrArg (·.port) h
  simp [queues, setMsg, hstate, hevents, hport]

theorem start_queues {request : Nat} {action : EngineSendRequestAction}
    (h : s.start request = (s', action)) : s'.queues = s.queues := by
  have hkeep := s.msg.withoutSends_startRequest request
  unfold start at h
  rcases hstart : s.msg.startRequest request with ⟨msg, taken⟩
  rw [hstart] at h hkeep
  have hqueues := queues_of_withoutSends hkeep
  cases taken <;> obtain ⟨rfl, rfl⟩ := Prod.mk.inj h <;> exact hqueues

end RaceShared

namespace RaceOp

variable {op : RaceOp} {ops : List RaceOp}

theorem idle_iff : op.idle = true ↔
    op.holdsEvents = false ∧ op.takes = false ∧ op.shuts = false ∧ op.tickets = [] := by
  simp [idle, and_assoc]

theorem pushes_of_holdsEvents_eq_false (h : op.holdsEvents = false) : op.pushes = false := by
  cases op with
  | drain op => cases op <;> first | rfl | cases h
  | close | process | io | drive => rfl

theorem countP_holdsEvents_of_quiet (h : ops.all quiet = true) : ops.countP holdsEvents = 0 := by
  rw [countP_eq_zero]
  intro op hop
  have hquiet := all_eq_true.mp h op hop
  rw [quiet, Bool.and_eq_true, idle_iff] at hquiet
  simp [hquiet.1.1]

theorem tickets_of_quiet (h : ops.all quiet = true) : ops.flatMap tickets = [] := by
  rw [flatMap_eq_nil_iff]
  intro op hop
  have hquiet := all_eq_true.mp h op hop
  rw [quiet, Bool.and_eq_true, idle_iff] at hquiet
  exact hquiet.1.2.2.2

theorem expects_of_quiet (h : ops.all quiet = true) : ∀ op ∈ ops, op.expects = true := by
  intro op hop
  have hquiet := all_eq_true.mp h op hop
  rw [quiet, Bool.and_eq_true] at hquiet
  exact hquiet.2

theorem tickets_disposeAll (first : Nat) (events : List EngineMessageEvent) :
    (disposeAll first events).flatMap tickets = List.range' first events.length := by
  induction events generalizing first with
  | nil => rfl
  | cons _ _ ih =>
    rw [disposeAll, flatMap_cons, ih, length_cons, List.range'_succ]
    rfl

theorem disposeAll_holds (first : Nat) (events : List EngineMessageEvent) :
    (disposeAll first events).countP holdsEvents = 0 ∧
      ∀ op ∈ disposeAll first events, op.expects = true := by
  induction events generalizing first with
  | nil => exact ⟨rfl, forall_mem_nil _⟩
  | cons _ _ ih =>
    obtain ⟨hcount, hexpects⟩ := ih (first + 1)
    exact ⟨by rw [disposeAll, countP_cons, hcount]; rfl, forall_mem_cons.mpr ⟨rfl, hexpects⟩⟩

end RaceOp

open RaceOp (idle_iff pushes_of_holdsEvents_eq_false pushes countP_holdsEvents_of_quiet
  chain quiet disposeAll_holds tickets_of_quiet)

section Steps

variable {q q' : Queues} {op : RaceOp} {more : List RaceOp}

section

variable (h : QueueStep q op q' more)

include h

/-- The lock is taken and given back by the calls that hold it. -/
theorem QueueStep.lock (hop : op.holdsEvents = true → q.locked = true) :
    more.countP holdsEvents + q.locked.toNat =
      q'.locked.toNat + op.holdsEvents.toNat := by
  cases h with
  | quiet hidle hmore =>
    rw [countP_holdsEvents_of_quiet hmore, (idle_iff.mp hidle).1]
    exact add_comm _ _
  | accept hlock => rw [hlock]; rfl
  | refuse hlock => rw [hlock]; rfl
  | push => rw [hop rfl]; rfl
  | skip hmore => rw [countP_holdsEvents_of_quiet hmore, hop rfl]; rfl
  | fate _ hnone hmore =>
    rw [countP_holdsEvents_of_quiet hmore, hnone.1]
    exact add_comm _ _
  | take =>
    have hdispose := (disposeAll_holds q.removed q.events).1
    simp only [chain, flatten_cons, flatten_nil, append_nil, countP_append, hdispose]
    exact add_comm _ _
  | shut hmore | drain hmore =>
    rw [countP_holdsEvents_of_quiet hmore]
    exact add_comm _ _
  | attempt hidle hnext =>
    rw [countP_cons, hnext, (idle_iff.mp hidle).1]
    exact add_comm _ _
  | closeLate =>
    rename_i created
    cases created <;> exact add_comm _ _
  | stop hidle =>
    rw [(idle_iff.mp hidle).1]
    exact add_comm _ _
  | failed =>
    rename_i error closeConnection
    cases closeConnection <;> exact add_comm _ _
  | pop | deliver | popIo | ready | closeCreated | closeReady | stopped =>
    exact add_comm _ _

theorem QueueStep.expects : ∀ next ∈ more, next.expects = true := by
  cases h with
  | quiet _ hmore | skip hmore | fate _ _ hmore | shut hmore | drain hmore =>
    exact expects_of_quiet hmore
  | take =>
    intro next hnext
    simp only [chain, flatten_cons, flatten_nil, append_nil, mem_append] at hnext
    rcases hnext with hnext | hnext
    · exact (disposeAll_holds q.removed q.events).2 next hnext
    · revert next
      exact all_eq_true.mp rfl
  | attempt _ _ _ hexpects => simpa using hexpects
  | failed =>
    rename_i error closeConnection
    cases closeConnection <;> exact all_eq_true.mp rfl
  | closeLate =>
    rename_i created
    cases created <;> exact all_eq_true.mp rfl
  | accept | refuse | push | pop | deliver | popIo | ready | closeCreated | closeReady
  | stopped | stop => exact all_eq_true.mp rfl

/-- A terminal state is the last. -/
theorem QueueStep.terminal (hop : op.expects = true)
    (hterminal : q.state.isTerminal = true) : q'.state = q.state := by
  cases h with
  | failed | stopped =>
    change (!q.state.isTerminal) = true at hop
    rw [hterminal] at hop
    cases hop
  | ready hstate | closeCreated hstate | closeReady hstate =>
    rw [hstate] at hterminal
    cases hterminal
  | _ => rfl

theorem QueueStep.closing (hclosing : q.state.isClosing = true) : q'.state.isClosing = true := by
  cases h with
  | ready hstate =>
    rw [hstate] at hclosing
    cases hclosing
  | failed | stopped | closeCreated | closeReady => rfl
  | _ => exact hclosing

/-- A call that has the queue to take still has it, or has taken it while no other
call was about to push. -/
theorem QueueStep.takes (hop : op.takes = true) : more.any RaceOp.takes = true ∨
      (q.locked = false ∧ q'.events = [] ∧ more.any pushes = false) := by
  cases h with
  | take hlock =>
    have hdispose : (disposeAll q.removed q.events).any pushes = false := by
      rw [any_eq_false]
      intro next hnext
      have hholds := countP_eq_zero.mp (disposeAll_holds q.removed q.events).1 next hnext
      rw [pushes_of_holdsEvents_eq_false (by simpa using hholds)]
      nofun
    refine .inr ⟨hlock, rfl, ?_⟩
    simp only [chain, flatten_cons, any_append, hdispose]
    rfl
  | closeReady => exact .inl rfl
  | closeLate =>
    rename_i created
    cases created <;> exact .inl rfl
  | quiet hidle | attempt hidle | stop hidle =>
    rw [(idle_iff.mp hidle).2.1] at hop; cases hop
  | fate _ hnone => rw [hnone.2.1] at hop; cases hop
  | _ => cases hop

/-- The step that starts to close leaves the queue to be taken. -/
theorem QueueStep.takes_of_closing (hlive : q.state.isClosing = false)
    (hclosing : q'.state.isClosing = true) : more.any RaceOp.takes = true := by
  cases h with
  | failed => rfl
  | closeCreated | closeReady | stopped => rfl
  | ready => cases hclosing
  | _ =>
    rw [hlive] at hclosing
    cases hclosing

end

theorem any_pushes_of_quiet {ops : List RaceOp} (h : ops.all quiet = true) :
    ops.any pushes = false := by
  rw [any_eq_false]
  intro next hnext
  have hholds := countP_eq_zero.mp (countP_holdsEvents_of_quiet h) next hnext
  rw [pushes_of_holdsEvents_eq_false (by simpa using hholds)]
  nofun

section

variable (h : QueueStep q op q' more)

include h

/-- Nothing enters the queue of a closing transport except by a push that passed
the check before. -/
theorem QueueStep.drained (hclosing : q.state.isClosing = true) (hop : op.pushes = false)
    (hevents : q.events = []) :
    q'.events = [] ∧ q'.accepted = q.accepted ∧ more.any pushes = false := by
  cases h with
  | accept _ hlive =>
    rw [hclosing] at hlive
    cases hlive
  | push => cases hop
  | quiet _ hmore | skip hmore | fate _ _ hmore | shut hmore | drain hmore =>
    exact ⟨hevents, rfl, any_pushes_of_quiet hmore⟩
  | take =>
    rw [hevents]
    exact ⟨rfl, rfl, rfl⟩
  | pop _ hpop => cases hevents.symm.trans hpop
  | attempt _ hnext =>
    refine ⟨hevents, rfl, ?_⟩
    rw [any_cons, pushes_of_holdsEvents_eq_false hnext]
    rfl
  | failed =>
    rename_i error closeConnection
    cases closeConnection <;> exact ⟨hevents, rfl, rfl⟩
  | closeLate =>
    rename_i created
    cases created <;> exact ⟨hevents, rfl, rfl⟩
  | refuse | deliver | popIo | ready | closeCreated | closeReady | stopped | stop =>
    exact ⟨hevents, rfl, rfl⟩

theorem QueueStep.shuts (hop : op.shuts = true) :
    more.any RaceOp.shuts = true ∨ q'.port = { isOpen := false, events := [] } := by
  cases h with
  | take hlock =>
    rename_i closeIo
    obtain rfl : closeIo = true := hop
    refine .inl ?_
    simp only [chain, flatten_cons, any_append]
    exact Bool.or_true _
  | shut => exact .inr rfl
  | quiet hidle | attempt hidle | stop hidle =>
    rw [(idle_iff.mp hidle).2.2.1] at hop; cases hop
  | fate _ hnone => rw [hnone.2.2] at hop; cases hop
  | _ => cases hop

theorem QueueStep.shuts_of_terminal (hlive : q.state.isTerminal = false)
    (hterminal : q'.state.isTerminal = true) : more.any RaceOp.shuts = true := by
  cases h with
  | failed | stopped => rfl
  | ready | closeCreated | closeReady => cases hterminal
  | _ =>
    rw [hlive] at hterminal
    cases hterminal

/-- A closed port stays closed and empty. -/
theorem QueueStep.port (hport : q.port = { isOpen := false, events := [] }) :
    q'.port = { isOpen := false, events := [] } := by
  cases h with
  | popIo hevents =>
    rw [hport] at hevents
    cases hevents
  | deliver =>
    rw [hport]
    rfl
  | shut => rfl
  | drain =>
    rw [hport]
  | _ => exact hport

/-- Events leave the queue in the order in which they were accepted. -/
theorem QueueStep.fifo (hle : q.removed ≤ q.accepted.length)
    (hfifo : q.accepted.drop q.removed = q.events) :
    q'.removed ≤ q'.accepted.length ∧ q'.accepted.drop q'.removed = q'.events := by
  have hlength : q.accepted.length - q.removed = q.events.length := by
    rw [← hfifo, length_drop]
  cases h with
  | push =>
    refine ⟨by simp; omega, ?_⟩
    rw [drop_append_of_le_length hle, hfifo]
  | take =>
    refine ⟨by simp only; omega, ?_⟩
    exact drop_eq_nil_of_le (by simp only; omega)
  | pop _ hevents =>
    rw [hevents] at hfifo hlength
    refine ⟨by simp only [length_cons] at hlength ⊢; omega, ?_⟩
    change q.accepted.drop (q.removed + 1) = _
    rw [← drop_drop, hfifo]
    rfl
  | _ => exact ⟨hle, hfifo⟩

end

theorem count_range' (first n t : Nat) :
    (List.range' first n).count t = if first ≤ t ∧ t < first + n then 1 else 0 := by
  rw [(nodup_range' (s := first) (n := n)).count]
  simp only [mem_range'_1]

/-- An event that leaves the queue is in hand, and then done with. -/
theorem QueueStep.tickets (h : QueueStep q op q' more) (t : Nat) :
    (more.flatMap tickets).count t + (q'.fates.map Prod.fst).count t =
      op.tickets.count t + (q.fates.map Prod.fst).count t +
        (if q.removed ≤ t ∧ t < q'.removed then 1 else 0) ∧ q.removed ≤ q'.removed := by
  have hnone : ¬(q.removed ≤ t ∧ t < q.removed) := by omega
  cases h with
  | quiet hidle hmore =>
    rw [tickets_of_quiet hmore, (idle_iff.mp hidle).2.2.2, if_neg hnone]
    exact ⟨rfl, le_rfl⟩
  | skip hmore | shut hmore | drain hmore =>
    rw [tickets_of_quiet hmore, if_neg hnone]
    exact ⟨rfl, le_rfl⟩
  | fate _ _ hmore =>
    rw [tickets_of_quiet hmore, if_neg hnone]
    refine ⟨?_, le_rfl⟩
    simp only [map_append, map_map, count_append, count_nil]
    change 0 + (_ + (op.tickets.map id).count t) = _
    rw [map_id]
    omega
  | take =>
    refine ⟨?_, Nat.le_add_right _ _⟩
    simp only [chain, flatten_cons, flatten_nil, append_nil,
      flatMap_append, count_append, tickets_disposeAll, count_range']
    change _ + 0 + _ = 0 + _ + _
    omega
  | pop =>
    refine ⟨?_, Nat.le_succ _⟩
    change [q.removed].count t + _ = 0 + _ + _
    rw [count_singleton]
    simp only [beq_iff_eq]
    split <;> split <;> omega
  | attempt hidle _ htickets =>
    rw [flatMap_singleton, htickets, (idle_iff.mp hidle).2.2.2, if_neg hnone]
    exact ⟨rfl, le_rfl⟩
  | stop hidle =>
    rw [(idle_iff.mp hidle).2.2.2, if_neg hnone]
    exact ⟨rfl, le_rfl⟩
  | failed =>
    rename_i error closeConnection
    rw [if_neg hnone]
    cases closeConnection <;> exact ⟨rfl, le_rfl⟩
  | closeLate =>
    rename_i created
    rw [if_neg hnone]
    cases created <;> exact ⟨rfl, le_rfl⟩
  | accept | refuse | push | deliver | popIo | ready | closeCreated | closeReady | stopped =>
    rw [if_neg hnone]
    exact ⟨rfl, le_rfl⟩

end Steps

/-- The queues and what the calls in progress still have to do with them. -/
structure Queues.Sound (q : Queues) (ops : List RaceOp) : Prop where
  lock : ops.countP holdsEvents = q.locked.toNat
  expects : ∀ op ∈ ops, op.expects = true
  drained : q.state.isClosing = true →
    (q.events = [] ∧ ops.any pushes = false) ∨ ops.any RaceOp.takes = true
  shut : q.state.isTerminal = true →
    q.port = { isOpen := false, events := [] } ∨ ops.any RaceOp.shuts = true
  le : q.removed ≤ q.accepted.length
  fifo : q.accepted.drop q.removed = q.events
  tickets : ∀ t, (ops.flatMap tickets).count t + (q.fates.map Prod.fst).count t =
    if t < q.removed then 1 else 0

section Sound

variable {q q' : Queues} {op : RaceOp} {more before after : List RaceOp}

theorem Queues.Sound.locked_of_holdsEvents (h : q.Sound (before ++ op :: after))
    (hop : op.holdsEvents = true) : q.locked = true := by
  have hlock := h.lock
  rw [countP_append, countP_cons, if_pos hop] at hlock
  cases hq : q.locked with
  | true => rfl
  | false =>
    rw [hq] at hlock
    simp at hlock

variable {ops : List RaceOp}

/-- While no call holds the lock, none is about to push. -/
theorem Queues.Sound.any_pushes (h : q.Sound ops) (hlock : q.locked = false) :
    ops.any pushes = false := by
  have hcount := h.lock
  rw [hlock, Bool.toNat_false, countP_eq_zero] at hcount
  rw [any_eq_false]
  intro next hnext
  rw [pushes_of_holdsEvents_eq_false (by simpa using hcount next hnext)]
  nofun

section

variable (h : q.Sound (before ++ op :: after)) (hstep : QueueStep q op q' more)

include h hstep

theorem Queues.Sound.drained_step (hclosing : q'.state.isClosing = true) :
    (q'.events = [] ∧ (before ++ (more ++ after)).any pushes = false) ∨
      (before ++ (more ++ after)).any RaceOp.takes = true := by
  simp only [any_append]
  by_cases hbefore : q.state.isClosing = true
  · rcases h.drained hbefore with ⟨hevents, hpushes⟩ | htakes
    · simp only [any_append, any_cons, Bool.or_eq_false_iff] at hpushes
      obtain ⟨hnone, -, hmore⟩ := hstep.drained hbefore hpushes.2.1 hevents
      exact .inl ⟨hnone, by rw [hpushes.1, hmore, hpushes.2.2]; rfl⟩
    · simp only [any_append, any_cons, Bool.or_eq_true] at htakes
      rcases htakes with htakes | htakes | htakes
      · exact .inr (by rw [htakes]; rfl)
      · rcases hstep.takes htakes with hmore | ⟨hlock, hevents, hmore⟩
        · exact .inr (by rw [hmore]; simp)
        · have hpushes := h.any_pushes hlock
          simp only [any_append, any_cons, Bool.or_eq_false_iff] at hpushes
          exact .inl ⟨hevents, by rw [hpushes.1, hmore, hpushes.2.2]; rfl⟩
      · exact .inr (by rw [htakes]; simp)
  · have hmore := hstep.takes_of_closing (eq_false_of_ne_true hbefore) hclosing
    exact .inr (by rw [hmore]; simp)

theorem Queues.Sound.shut_step (hterminal : q'.state.isTerminal = true) :
    q'.port = { isOpen := false, events := [] } ∨
      (before ++ (more ++ after)).any RaceOp.shuts = true := by
  simp only [any_append]
  by_cases hbefore : q.state.isTerminal = true
  · rcases h.shut hbefore with hport | hshuts
    · exact .inl (hstep.port hport)
    · simp only [any_append, any_cons, Bool.or_eq_true] at hshuts
      rcases hshuts with hshuts | hshuts | hshuts
      · exact .inr (by rw [hshuts]; rfl)
      · rcases hstep.shuts hshuts with hmore | hport
        · exact .inr (by rw [hmore]; simp)
        · exact .inl hport
      · exact .inr (by rw [hshuts]; simp)
  · have hmore := hstep.shuts_of_terminal (eq_false_of_ne_true hbefore) hterminal
    exact .inr (by rw [hmore]; simp)

theorem Queues.Sound.step : q'.Sound (before ++ (more ++ after)) where
  lock := by
    have hcount := h.lock
    have hlock := hstep.lock h.locked_of_holdsEvents
    have hop : (if op.holdsEvents = true then 1 else 0) = op.holdsEvents.toNat := by
      cases op.holdsEvents <;> rfl
    rw [countP_append, countP_cons, hop] at hcount
    rw [countP_append, countP_append]
    omega
  expects := by
    intro next hnext
    rcases mem_append.mp hnext with hnext | hnext
    · exact h.expects next (mem_append_left _ hnext)
    rcases mem_append.mp hnext with hnext | hnext
    · exact hstep.expects next hnext
    · exact h.expects next (mem_append_right _ (mem_cons_of_mem _ hnext))
  drained := h.drained_step hstep
  shut := h.shut_step hstep
  le := (hstep.fifo h.le h.fifo).1
  fifo := (hstep.fifo h.le h.fifo).2
  tickets := by
    intro t
    have hcount := h.tickets t
    obtain ⟨hstep, _⟩ := hstep.tickets t
    simp only [flatMap_append, flatMap_cons, count_append] at hcount ⊢
    by_cases hold : t < q.removed
    · rw [if_pos hold] at hcount
      rw [if_neg (by omega)] at hstep
      rw [if_pos (by omega)]
      omega
    · rw [if_neg hold] at hcount
      by_cases hnew : t < q'.removed
      · rw [if_pos (by omega)] at hstep
        rw [if_pos hnew]
        omega
      · rw [if_neg (by omega)] at hstep
        rw [if_neg hnew]
        omega

end

/-- A call begins with an operation that has no part in the queues. -/
theorem Queues.Sound.insert (h : q.Sound (before ++ after)) (hop : op.quiet = true) :
    q.Sound (before ++ op :: after) := by
  rw [quiet, Bool.and_eq_true, idle_iff] at hop
  obtain ⟨⟨hholds, htakes, hshuts, htickets⟩, hexpects⟩ := hop
  have hpushes := pushes_of_holdsEvents_eq_false hholds
  refine ⟨?_, fun next hnext => ?_, ?_, ?_, h.le, h.fifo, ?_⟩
  · have hlock := h.lock
    rw [countP_append] at hlock
    rw [countP_append, countP_cons, hholds]
    exact hlock
  · rcases mem_append.mp hnext with hnext | hnext
    · exact h.expects next (mem_append_left _ hnext)
    rcases mem_cons.mp hnext with rfl | hnext
    · exact hexpects
    · exact h.expects next (mem_append_right _ hnext)
  · have hdrained := h.drained
    simp only [any_append, any_cons, hpushes, htakes, Bool.false_or] at hdrained ⊢
    exact hdrained
  · have hshut := h.shut
    simp only [any_append, any_cons, hshuts, Bool.false_or] at hshut ⊢
    exact hshut
  · have hcount := h.tickets
    simp only [flatMap_append, flatMap_cons, htickets, nil_append] at hcount ⊢
    exact hcount

theorem Queues.Sound.send (h : q.Sound ops) (events : List IoEvent) :
    Queues.Sound { q with port := q.port.send events } ops := by
  refine { h with shut := fun hterminal => ?_ }
  refine (h.shut hterminal).imp_left fun hport => ?_
  change q.port.send events = _
  rw [hport]
  rfl

end Sound

/-- What a step of the calls does: one operation of one call, a call that begins,
or events that the engine sends. -/
inductive CallStep : Queues × List RaceOp → Queues × List RaceOp → Prop
  | exec {q q' : Queues} {op : RaceOp} {more before after : List RaceOp}
      (hstep : QueueStep q op q' more) :
      CallStep (q, before ++ op :: after) (q', before ++ (more ++ after))
  | begin {q : Queues} {op : RaceOp} {ops : List RaceOp} (hop : op.quiet = true) :
      CallStep (q, ops) (q, ops ++ [op])
  | drive {q : Queues} {op : RaceOp} {ops : List RaceOp} (hop : op.quiet = true) :
      CallStep (q, ops) (q, op :: ops)
  | send {q : Queues} {ops : List RaceOp} (events : List IoEvent) :
      CallStep (q, ops) ({ q with port := q.port.send events }, ops)
  | same {q : Queues} {ops : List RaceOp} : CallStep (q, ops) (q, ops)

variable {q q' : Queues} {ops ops' : List RaceOp}

theorem CallStep.sound (h : CallStep (q, ops) (q', ops')) (hsound : q.Sound ops) :
    q'.Sound ops' := by
  cases h with
  | exec hstep => exact hsound.step hstep
  | begin hop =>
    apply Queues.Sound.insert ?_ hop
    rw [append_nil]
    exact hsound
  | drive hop => exact @Queues.Sound.insert q _ [] ops hsound hop
  | send events => exact hsound.send events
  | same => exact hsound

theorem CallStep.terminal (h : CallStep (q, ops) (q', ops')) (hsound : q.Sound ops)
    (hterminal : q.state.isTerminal = true) : q'.state = q.state := by
  cases h with
  | exec hstep =>
    exact hstep.terminal (hsound.expects _ (mem_append_right _ mem_cons_self)) hterminal
  | begin | drive | send | same => rfl

/-- The queue of a closing transport has been taken, and no call is about to push. -/
def Queues.Drained (q : Queues) (ops : List RaceOp) : Prop :=
  q.state.isClosing = true ∧ q.events = [] ∧ ops.any pushes = false

theorem CallStep.drained (h : CallStep (q, ops) (q', ops')) (hdrained : q.Drained ops) :
    q'.Drained ops' ∧ q'.accepted = q.accepted := by
  obtain ⟨hclosing, hevents, hpushes⟩ := hdrained
  cases h with
  | exec hstep =>
    simp only [any_append, any_cons, Bool.or_eq_false_iff] at hpushes
    obtain ⟨hnone, haccepted, hmore⟩ := hstep.drained hclosing hpushes.2.1 hevents
    refine ⟨⟨hstep.closing hclosing, hnone, ?_⟩, haccepted⟩
    rw [any_append, any_append, hpushes.1, hmore, hpushes.2.2]
    rfl
  | begin hop =>
    rw [quiet, Bool.and_eq_true, idle_iff] at hop
    have hnot := pushes_of_holdsEvents_eq_false hop.1.1
    refine ⟨⟨hclosing, hevents, ?_⟩, rfl⟩
    rw [any_append, any_cons, hpushes, hnot]
    rfl
  | drive hop =>
    rw [quiet, Bool.and_eq_true, idle_iff] at hop
    have hnot := pushes_of_holdsEvents_eq_false hop.1.1
    refine ⟨⟨hclosing, hevents, ?_⟩, rfl⟩
    rw [any_cons, hnot, hpushes]
    rfl
  | send | same => exact ⟨⟨hclosing, hevents, hpushes⟩, rfl⟩

theorem CallStep.port (h : CallStep (q, ops) (q', ops'))
    (hport : q.port = { isOpen := false, events := [] }) :
    q'.port = { isOpen := false, events := [] } := by
  cases h with
  | exec hstep => exact hstep.port hport
  | begin | drive | same => exact hport
  | send events =>
    change q.port.send events = _
    rw [hport]
    rfl

namespace RaceState

variable {c : RaceState}

theorem pending_begin (c : RaceState) (op : RaceOp) : (c.begin op).pending = c.pending ++ [op] := by
  simp [pending, RaceState.begin]

theorem pending_beginDriver (h : c.driverIdle = true) (op : RaceOp) :
    (c.beginDriver op).pending = op :: c.pending := by
  rw [driverIdle, Bool.and_eq_true, beq_iff_eq] at h
  unfold pending beginDriver
  cases hcalls : c.calls with
  | nil => simp [hcalls] at h
  | cons =>
    rw [hcalls, List.getElem?_cons_zero, Option.some.injEq] at h
    simp [h.2]

/-- The invariant of the queues in a state of the calls. -/
def Sound (c : RaceState) : Prop :=
  c.shared.queues.Sound c.pending

theorem sound_start (msg : EngineMessageState) (receives : List Mr)
    (hlive : msg.state.isClosing = false) : (start msg receives).Sound where
  lock := rfl
  expects := forall_mem_nil _
  drained hclosing := by
    change msg.state.isClosing = true at hclosing
    rw [hlive] at hclosing
    cases hclosing
  shut hterminal := by
    change msg.state.isTerminal = true at hterminal
    cases hstate : msg.state <;> simp_all [TransportState.isTerminal, TransportState.isClosing]
  le := Nat.zero_le _
  fifo := rfl
  tickets t := by
    change 0 + 0 = if t < 0 then 1 else 0
    simp

end RaceState

end RdmaIo.Message
