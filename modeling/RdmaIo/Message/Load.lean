/-
Conservation along the way of a command.

A command waits for admission and then in the reactor's queue; when it is served
it leaves a receipt, a completion, or both, on their way to the transport.  A
load gives each command and each event on its way a weight.  If serving a command
keeps the weight, up to what the queue pair takes and gives, then so does every
step outside the transport, in any order.
-/
import RdmaIo.Message.Exchange

namespace RdmaIo.Message

open List

def ProtocolQueueEntry.commands : ProtocolQueueEntry → List ProtocolCommand
  | command queued => [queued]
  | publication _ => []

open ProtocolQueueEntry (published)

namespace NodeView

variable (v : NodeView)

/-- The commands that wait. -/
def commands : List ProtocolCommand :=
  v.queue.flatMap ProtocolQueueEntry.commands ++ v.transport.admission

/-- The events that commands have left, on their way to the transport. -/
def notices : List IoEvent :=
  v.transport.port ++ v.turn ++ v.queue.flatMap ProtocolQueueEntry.published

/-- The endpoint after an action of its transport. -/
def acted (out : Option ProtocolCommand) (t : TransportView) : NodeView :=
  { v with
    transport := t
    queue := v.queue ++ (out.map ProtocolQueueEntry.command).toList }

theorem acted_none (t : TransportView) : v.acted none t = { v with transport := t } := by
  simp [acted]

theorem commands_appendBounded (events : List IoEvent) (room : Nat) :
    (v.appendBounded events room).commands = v.commands := by
  simp only [commands, appendBounded]
  split <;> simp [ProtocolQueueEntry.commands]

end NodeView

structure Load where
  command : ProtocolCommand → Nat
  event : IoEvent → Nat
  /-- What a send takes with it when it is posted. -/
  sent : PostedSend → Nat
  /-- What a buffer takes with it when it is posted. -/
  freed : Mr → Nat
  /-- What a buffer adds when it is posted. -/
  gained : Mr → Nat
  completion : ∀ c : IoCompletionEvent, c.provenUnaccepted = false → event (.completion c) = 0
  terminal : ∀ e, event (.terminal e) = 0

namespace Load

variable {L : Load} {v v' : NodeView}

def of (L : Load) (v : NodeView) : Nat :=
  (v.commands.map L.command).sum + (v.notices.map L.event).sum

theorem of_congr {L' : Load} (hcommand : L.command = L'.command)
    (hevents : ∀ e ∈ v.notices, L.event e = L'.event e) : L.of v = L'.of v := by
  rw [of, hcommand, map_congr_left hevents, of]

/-- Serving the command keeps the weight. -/
structure Lawful (L : Load) (c : ProtocolCommand) : Prop where
  reject : ∀ error, L.event (c.unaccepted error) +
    L.event (.submission c.id (.fullyUnaccepted 1 error)) = L.command c
  cancel : L.event c.cancelled +
    L.event (.submission c.id (.fullyUnaccepted 1 .driverShutdown)) = L.command c
  post : ∀ d : IoSubmissionDisposition, d.potentiallyAccepted = true →
    L.event (.submission c.id d) + (c.batch.posts.map L.sent).sum +
      (c.batch.receives.map L.freed).sum =
      L.command c + (c.batch.receives.map L.gained).sum

variable {c : ProtocolCommand}

theorem Lawful.cancelledEvents (h : L.Lawful c) :
    (c.cancelledEvents.map L.event).sum = L.command c := by
  simpa [ProtocolCommand.cancelledEvents] using h.cancel

theorem Lawful.rejectedEvents (h : L.Lawful c) (error : Error) :
    ((c.rejectedEvents error).map L.event).sum = L.command c := by
  simpa [ProtocolCommand.rejectedEvents] using h.reject error

theorem of_appendBounded (L : Load) (v : NodeView) (events : List IoEvent) (room : Nat) :
    L.of (v.appendBounded events room) = L.of v + (events.map L.event).sum := by
  have hsplit : (events.map L.event).sum =
      ((events.take room).map L.event).sum + ((events.drop room).map L.event).sum := by
    rw [← sum_append, ← map_append, take_append_drop]
  have hpublished : (((v.appendBounded events room).queue.flatMap published).map L.event).sum =
      ((events.drop room).map L.event).sum +
        ((v.queue.flatMap published).map L.event).sum := by
    simp only [NodeView.appendBounded]
    split
    next hnil => simp [isEmpty_iff.mp hnil]
    next => simp [published]
  have hnotices : (((v.appendBounded events room).notices).map L.event).sum =
      (v.transport.port.map L.event).sum + (v.turn.map L.event).sum +
        ((events.take room).map L.event).sum + (((v.appendBounded events room).queue.flatMap
          published).map L.event).sum := by
    simp [NodeView.notices, NodeView.appendBounded, add_assoc]
  rw [of, of, v.commands_appendBounded, hnotices, hpublished, hsplit]
  simp only [NodeView.notices, map_append, sum_append]
  omega

variable {queue : List ProtocolQueueEntry} {events : List IoEvent} {t : TransportView}
  {rest : List ProtocolCommand}

theorem of_command (hqueue : v.queue = .command c :: queue) :
    L.of v = L.command c + L.of { v with queue } := by
  simp [of, NodeView.commands, NodeView.notices, hqueue, ProtocolQueueEntry.commands,
    published, add_assoc]

theorem of_publication (hqueue : v.queue = .publication events :: queue) :
    L.of v = (events.map L.event).sum + L.of { v with queue } := by
  simp only [of, NodeView.commands, NodeView.notices, hqueue, flatMap_cons,
    ProtocolQueueEntry.commands, published, nil_append, map_append, sum_append]
  omega

/-- The part of the load that is in the transport. -/
def transport (L : Load) (t : TransportView) : Nat :=
  (t.admission.map L.command).sum + (t.port.map L.event).sum

theorem transport_pop {e : IoEvent} {port : List IoEvent} (hport : t.port = e :: port) :
    L.transport t = L.event e + L.transport { t with port } := by
  simp only [transport, hport, map_cons, sum_cons]
  omega

theorem transport_admission (hadmission : t.admission = c :: rest) :
    L.transport t = L.command c + L.transport { t with admission := rest } := by
  simp [transport, hadmission, add_assoc]

theorem transport_append (L : Load) (t : TransportView) (events : List IoEvent) :
    L.transport { t with port := t.port ++ events } =
      L.transport t + (events.map L.event).sum := by
  simp [transport, add_assoc]

/-- The oldest command that waits is served in the transport. -/
theorem transport_served (hadmission : t.admission = c :: rest)
    (hevents : (events.map L.event).sum = L.command c) :
    L.transport { t with admission := rest, port := t.port ++ events } = L.transport t := by
  rw [L.transport_append { t with admission := rest }, hevents,
    transport_admission hadmission, add_comm]

theorem transport_submitted (L : Load) {w : TransportView} {batch : ProtocolBatch}
    {transition : PendingProtocolTransition} (h : TransportView.Submitted t batch transition w) :
    L.transport w = L.transport t + L.command ⟨t.next, batch⟩ ∧ w.owing = t.owing ∨
      (∃ error, L.transport w = L.transport t +
        L.event (ProtocolCommand.unaccepted ⟨t.next, batch⟩ error)) ∧
        w.owing = t.owing + transition.restored t.state := by
  cases h with
  | admitted =>
    refine .inl ⟨?_, rfl⟩
    simp only [transport, map_append, sum_append, map_singleton, sum_singleton]
    omega
  | refused error =>
    refine .inr ⟨⟨error, ?_⟩, rfl⟩
    simp [transport, add_assoc]

/-- An action of the transport moves the load within the transport, and the
command that it hands over to the queue. -/
theorem of_act (L : Load) (v : NodeView) (t : TransportView) (out : Option ProtocolCommand) :
    L.of (v.acted out t) + L.transport v.transport =
      L.of v + (L.transport t + (out.toList.map L.command).sum) := by
  have hcommands : (out.map ProtocolQueueEntry.command).toList.flatMap
      ProtocolQueueEntry.commands = out.toList := by
    cases out <;> simp [ProtocolQueueEntry.commands]
  have hpublished : (out.map ProtocolQueueEntry.command).toList.flatMap published = [] := by
    cases out <;> simp [published]
  simp only [of, transport, NodeView.commands, NodeView.notices, NodeView.acted,
    flatMap_append, hcommands, hpublished, append_nil, map_append, sum_append]
  omega

theorem transport_le (L : Load) (v : NodeView) : L.transport v.transport ≤ L.of v := by
  simp only [transport, of, NodeView.commands, NodeView.notices, map_append, sum_append]
  omega

/-- What a step posts is taken from the load, and what it gains is added. -/
def Balanced (L : Load) (v v' : NodeView) : Prop :=
  L.of v' + ((v'.sq.drop v.sq.length).map L.sent).sum + ((v'.rq.drop v.rq.length).map L.freed).sum =
    L.of v + ((v'.rq.drop v.rq.length).map L.gained).sum

theorem Balanced.of_same (h : L.of v' = L.of v) (hsq : v'.sq = v.sq)
    (hrq : v'.rq.length ≤ v.rq.length) : L.Balanced v v' := by
  simp [Balanced, h, hsq, drop_eq_nil_of_le hrq]

end Load

namespace NodeView

variable {v v' : NodeView}

/-- A step outside the transport. -/
structure Moves (v v' : NodeView) : Prop where
  transport : ∃ port, v'.transport = { v.transport with port }
  acquired : v'.acquired = v.acquired
  held : v'.held = v.held
  load : ∀ L : Load, (∀ c ∈ v.commands, L.Lawful c) → L.Balanced v v'
  commands : v'.commands <+ v.commands
  receipts : ∀ id d, .submission id d ∈ v'.notices →
    .submission id d ∈ v.notices ∨ ∃ c ∈ v.commands, c.id = id
  accepted : ∀ c ∈ v'.completions, c.provenUnaccepted = false

/-- Nothing reaches or leaves the queues of commands and notices. -/
theorem Moves.of_keep (htransport : v'.transport = v.transport)
    (hacquired : v'.acquired = v.acquired) (hheld : v'.held = v.held) (hqueue : v'.queue = v.queue)
    (hturn : v'.turn = v.turn) (hsq : v'.sq = v.sq) (hrq : v'.rq.length ≤ v.rq.length)
    (haccepted : ∀ c ∈ v'.completions, c.provenUnaccepted = false) : Moves v v' := by
  have hcommands : v'.commands = v.commands := by
    rw [NodeView.commands, NodeView.commands, hqueue, htransport]
  have hnotices : v'.notices = v.notices := by
    rw [notices, notices, hqueue, htransport, hturn]
  refine ⟨⟨v.transport.port, htransport⟩, hacquired, hheld, fun L _ => ?_,
    hcommands ▸ Sublist.refl _, fun id d he => .inl (hnotices ▸ he), haccepted⟩
  refine .of_same ?_ hsq hrq
  rw [Load.of, Load.of, hcommands, hnotices]

variable {events : List IoEvent} {c : ProtocolCommand} {queue : List ProtocolQueueEntry}

theorem mem_notices_appendBounded {room : Nat} {e : IoEvent}
    (h : e ∈ (v.appendBounded events room).notices) : e ∈ v.notices ∨ e ∈ events := by
  simp only [notices, appendBounded, mem_append] at h ⊢
  rcases h with (h | h | h) | h
  · exact .inl (.inl (.inl h))
  · exact .inl (.inl (.inr h))
  · exact .inr (mem_of_mem_take h)
  · split at h
    · exact .inl (.inr h)
    · rcases mem_append.mp h with h | h
      · exact .inr (mem_of_mem_drop h)
      · exact .inl (.inr h)

/-- The oldest command is served without being posted. -/
theorem Moves.of_serve (hqueue : v.queue = .command c :: queue) (room : Nat)
    (haccepted : ∀ c ∈ v.completions, c.provenUnaccepted = false)
    (hload : ∀ L : Load, L.Lawful c → (events.map L.event).sum = L.command c)
    (hreceipts : ∀ id d, .submission id d ∈ events → id = c.id) :
    Moves v ({ v with queue }.appendBounded events room) := by
  have hcommands : v.commands = c :: { v with queue }.commands := by
    simp [NodeView.commands, hqueue, ProtocolQueueEntry.commands]
  have hnotices : { v with queue }.notices = v.notices := by
    simp [notices, hqueue, published]
  refine ⟨⟨v.transport.port, rfl⟩, rfl, rfl, fun L hlawful => ?_, ?_, ?_, haccepted⟩
  · refine .of_same ?_ rfl (le_refl _)
    have hc : L.Lawful c := hlawful c (hcommands ▸ mem_cons_self)
    rw [Load.of_appendBounded, hload L hc, Load.of_command hqueue, add_comm]
  · rw [commands_appendBounded, hcommands]
    exact sublist_cons_self _ _
  · intro id d he
    rcases mem_notices_appendBounded he with he | he
    · exact .inl (hnotices ▸ he)
    · exact .inr ⟨c, hcommands ▸ mem_cons_self, (hreceipts id d he).symm⟩

theorem Moves.of_post (hqueue : v.queue = .command c :: queue) {d : IoSubmissionDisposition}
    (hd : d.potentiallyAccepted = true) (room : Nat)
    (haccepted : ∀ c ∈ v.completions, c.provenUnaccepted = false) :
    Moves v (({ v with queue }.post c).appendBounded [.submission c.id d] room) := by
  have hcommands : v.commands = c :: ({ v with queue }.post c).commands := by
    simp [NodeView.commands, hqueue, ProtocolQueueEntry.commands, post]
  have hnotices : ({ v with queue }.post c).notices = v.notices := by
    simp [notices, hqueue, published, post]
  refine ⟨⟨v.transport.port, rfl⟩, rfl, rfl, fun L hlawful => ?_, ?_, ?_, haccepted⟩
  · have hpost := (hlawful c (hcommands ▸ mem_cons_self)).post d hd
    have hsq : (({ v with queue }.post c).appendBounded [.submission c.id d] room).sq.drop
        v.sq.length = c.batch.posts := drop_left
    have hrq : (({ v with queue }.post c).appendBounded [.submission c.id d] room).rq.drop
        v.rq.length = c.batch.receives := drop_left
    have hof : L.of v = L.command c + L.of ({ v with queue }.post c) := by
      rw [Load.of_command hqueue]
      rfl
    rw [Load.Balanced, hsq, hrq, Load.of_appendBounded, hof, map_singleton, sum_singleton]
    omega
  · rw [commands_appendBounded, hcommands]
    exact sublist_cons_self _ _
  · intro id d' he
    rcases mem_notices_appendBounded he with he | he
    · exact .inl (hnotices ▸ he)
    · obtain ⟨rfl, rfl⟩ := IoEvent.submission.inj (mem_singleton.mp he)
      exact .inr ⟨c, hcommands ▸ mem_cons_self, rfl⟩

/-- Events without weight that name no command join the turn. -/
theorem Moves.of_turn (e : IoEvent) (hload : ∀ L : Load, L.event e = 0)
    (he : e.receipt = none) {completions : List IoCompletionEvent}
    (haccepted : ∀ c ∈ completions, c.provenUnaccepted = false) :
    Moves v { v with turn := v.turn ++ [e], completions } := by
  refine ⟨⟨v.transport.port, rfl⟩, rfl, rfl, fun L _ => ?_, Sublist.refl _, ?_, haccepted⟩
  · refine .of_same ?_ rfl (le_refl _)
    simp [Load.of, NodeView.commands, notices, hload L]
  · intro id d hmem
    simp only [notices, mem_append, mem_singleton] at hmem ⊢
    rcases hmem with (hmem | hmem | rfl) | hmem
    · exact .inl (.inl (.inl hmem))
    · exact .inl (.inl (.inr hmem))
    · cases he
    · exact .inl (.inr hmem)

/-- Every piece of work outside the transport keeps the loads. -/
theorem Work.moves (h : v.Work v')
    (haccepted : ∀ c ∈ v.completions, c.provenUnaccepted = false) : Moves v v' := by
  have hbring {c : IoCompletionEvent} (hc : c.provenUnaccepted = false) :
      ∀ c' ∈ v.completions ++ [c], c'.provenUnaccepted = false :=
    forall_mem_append.mpr ⟨haccepted, forall_mem_singleton.mpr hc⟩
  cases h with
  | keep => exact .of_keep rfl rfl rfl rfl rfl rfl (le_refl _) haccepted
  | @republish _ _ hqueue =>
    refine ⟨⟨v.transport.port, rfl⟩, rfl, rfl, fun L _ => ?_, ?_, ?_, haccepted⟩
    · refine .of_same ?_ rfl (le_refl _)
      rw [Load.of_appendBounded, Load.of_publication hqueue, add_comm]
    · rw [commands_appendBounded]
      simp [NodeView.commands, hqueue, ProtocolQueueEntry.commands]
    · intro id d he
      refine .inl ?_
      simp only [notices, hqueue, flatMap_cons, published]
      rcases mem_notices_appendBounded he with he | he
      · simp only [notices, mem_append] at he ⊢
        exact he.imp_right .inr
      · exact mem_append_right _ (mem_append_left _ he)
  | @cancel _ _ _ hqueue _ room =>
    refine .of_serve hqueue room haccepted (fun L hlawful => hlawful.cancelledEvents) ?_
    intro id d he
    simp [ProtocolCommand.cancelledEvents, ProtocolCommand.cancelled] at he
    exact he.1
  | @reject _ _ hqueue error room =>
    refine .of_serve hqueue room haccepted (fun L hlawful => hlawful.rejectedEvents error) ?_
    intro id d he
    simp [ProtocolCommand.rejectedEvents, ProtocolCommand.unaccepted] at he
    exact he.1
  | post hqueue hd room => exact .of_post hqueue hd room haccepted
  | publish =>
    refine ⟨⟨_, rfl⟩, rfl, rfl, fun L _ => ?_, Sublist.refl _, ?_, haccepted⟩
    · refine .of_same ?_ rfl (le_refl _)
      simp [Load.of, NodeView.commands, notices]
    · intro id d he
      exact .inl (by simpa [notices] using he)
  | @fault _ _ hrq =>
    refine .of_keep rfl rfl rfl rfl rfl rfl ?_ (hbring rfl)
    rw [hrq]
    exact Nat.le_succ _
  | complete =>
    exact .of_keep rfl rfl rfl rfl rfl rfl (le_refl _) (hbring rfl)
  | @dispatch completion _ hcompletions =>
    rw [hcompletions, forall_mem_cons] at haccepted
    exact .of_turn _ (fun L => L.completion completion haccepted.1) rfl haccepted.2
  | terminate event => exact .of_turn _ (fun L => L.terminal event) rfl haccepted

end NodeView

end RdmaIo.Message
