/-
The ledger of a live endpoint: every account balances in every step.

What an endpoint has posted, reposted and taken from the wire is known from
outside.  The ledger says how these amounts are accounted for inside: by what the
transport keeps and by the commands and events on their way.
-/
import RdmaIo.Message.Account

namespace RdmaIo.Message

open EngineMessageEvent
open List

open PendingProtocolTransition (Matches)
open TransportView (Action Submitted)

namespace NodeView

variable {peer : Nat} {log : List PendingProtocolTransition} {v v' : NodeView}

/-- What an endpoint may rely on: the frames inside it are its peer's, which
announces `peer`, and the oldest receipt is of the oldest transition. -/
structure Orderly (peer : Nat) (v : NodeView) : Prop where
  accepted : ∀ c, .completion c ∈ v.frames → c.provenUnaccepted = false
  hello : ∀ c mr len header hello, .completion c ∈ v.frames → c.result = .ok len → c.mr = some mr →
    parseHeader mr.content len = .ok header → header.frameType = frameHello →
    parseHello (payloadOf mr.content header) = .ok hello → hello.dataRecvCapacity = peer
  order : ∀ id d port p rest, v.transport.port = .submission id d :: port →
    v.transport.transitions = p :: rest → p.1 = id
  credit : ∀ (request : Nat) (r : RequestView) (mr : Mr),
    v.transport.requests[request]? = some r → r.mr = some mr → r.credit = true
  published : ∀ e ∈ v.queue.flatMap ProtocolQueueEntry.published, e.isFrame = false
  unacked : ∀ send ∈ v.unacked, send.context ≠ .receive

/-- What the transport has recorded about its commands; `log` has the transition
of each command by its number. -/
structure Records (peer : Nat) (log : List PendingProtocolTransition) (v : NodeView) : Prop where
  accepted : ∀ c ∈ v.completions, c.provenUnaccepted = false
  length : log.length = v.transport.next
  transitions : ∀ p ∈ v.transport.transitions, log[p.1]? = some p.2
  commands : ∀ c ∈ v.commands, ∃ t, log[c.id]? = some t ∧ Matches t c.batch
  receipts : ∀ id d, .submission id d ∈ v.notices → id < log.length
  control : ∀ k, .controlSend k ∈ log → v.transport.state = .ready
  heard : ∀ capacity, .helloReceiveRepost capacity ∈ log → capacity = peer

/-- Commands, transitions and events may go; a receipt comes from its command. -/
theorem Records.of_less (h : Records peer log v)
    (haccepted : ∀ c ∈ v'.completions, c.provenUnaccepted = false)
    (hnext : v'.transport.next = v.transport.next)
    (htransitions : v'.transport.transitions ⊆ v.transport.transitions)
    (hcommands : v'.commands ⊆ v.commands) (hreceipts : ∀ id d, .submission id d ∈ v'.notices →
      .submission id d ∈ v.notices ∨ ∃ c ∈ v.commands, c.id = id)
    (hready : v.transport.state = .ready → v'.transport.state = .ready) :
    Records peer log v' := by
  refine ⟨haccepted, hnext ▸ h.length, fun p hp => h.transitions p (htransitions hp),
    fun c hc => h.commands c (hcommands hc), ?_, fun k hk => hready (h.control k hk), h.heard⟩
  intro id d he
  rcases hreceipts id d he with he | ⟨c, hc, rfl⟩
  · exact h.receipts id d he
  · obtain ⟨t, hlog, -⟩ := h.commands c hc
    exact (List.getElem?_eq_some_iff.mp hlog).1

theorem Records.work (h : Records peer log v) (hwork : v.Work v') : Records peer log v' := by
  have hmoves := hwork.moves h.accepted
  obtain ⟨_, htransport⟩ := hmoves.transport
  refine h.of_less hmoves.accepted ?_ ?_ hmoves.commands.subset hmoves.receipts ?_
  · rw [htransport]
  · rw [htransport]
    exact List.Subset.refl _
  · rw [htransport]
    exact id

/-- A submission records its transition under the next number. -/
theorem Records.submit (h : Records peer log v) {batch : ProtocolBatch}
    {transition : PendingProtocolTransition} {w : TransportView}
    (hsubmit : Submitted v.transport batch transition w) (hmatches : Matches transition batch)
    (hcontrol : ∀ k, transition = .controlSend k → v.transport.state = .ready)
    (hheard : ∀ capacity, transition = .helloReceiveRepost capacity → capacity = peer) :
    Records peer (log ++ [transition]) { v with transport := w } ∧
      ∀ id d, .submission id d ∈ { v with transport := w }.notices → id < log.length := by
  have hold {id : Nat} {t : PendingProtocolTransition} (hlog : log[id]? = some t) :
      (log ++ [transition])[id]? = some t := by
    rw [List.getElem?_append_left (List.getElem?_eq_some_iff.mp hlog).1]
    exact hlog
  have hnew : (log ++ [transition])[v.transport.next]? = some transition := by
    rw [← h.length]
    exact List.getElem?_concat_length
  have hlength : (log ++ [transition]).length = v.transport.next + 1 := by
    rw [length_append, length_singleton, h.length]
  have hcontrol' : ∀ k, .controlSend k ∈ log ++ [transition] → v.transport.state = .ready := by
    intro k hk
    rcases mem_append.mp hk with hk | hk
    · exact h.control k hk
    · exact hcontrol k (mem_singleton.mp hk).symm
  have hheard' : ∀ capacity, .helloReceiveRepost capacity ∈ log ++ [transition] →
      capacity = peer := by
    intro capacity hk
    rcases mem_append.mp hk with hk | hk
    · exact h.heard capacity hk
    · exact hheard capacity (mem_singleton.mp hk).symm
  have hless (id : Nat) (hid : id < log.length) : id < (log ++ [transition]).length := by
    rw [length_append]
    exact Nat.lt_add_right _ hid
  cases hsubmit with
  | admitted =>
    refine ⟨⟨h.accepted, hlength, ?_, ?_, fun id d he => hless id (h.receipts id d he),
      hcontrol', hheard'⟩, h.receipts⟩
    · exact forall_mem_append.mpr
        ⟨fun p hp => hold (h.transitions p hp), forall_mem_singleton.mpr hnew⟩
    · rw [NodeView.commands, ← append_assoc]
      refine forall_mem_append.mpr ⟨fun c hc => ?_,
        forall_mem_singleton.mpr ⟨transition, hnew, hmatches⟩⟩
      obtain ⟨t, hlog, ht⟩ := h.commands c hc
      exact ⟨t, hold hlog, ht⟩
  | refused error =>
    have hreceipts : ∀ id d, .submission id d ∈ { v with transport := { v.transport with
        port := v.transport.port ++
          [ProtocolCommand.unaccepted { id := v.transport.next, batch } error] } }.notices →
        id < log.length := by
      intro id d he
      apply h.receipts id d
      simp only [notices, mem_append, mem_singleton] at he ⊢
      rcases he with ((he | he) | he) | he
      · exact .inl (.inl he)
      · cases he
      · exact .inl (.inr he)
      · exact .inr he
    refine ⟨⟨h.accepted, hlength, fun p hp => hold (h.transitions p hp), ?_,
      fun id d he => hless id (hreceipts id d he), hcontrol', hheard'⟩, hreceipts⟩
    intro c hc
    obtain ⟨t, hlog, ht⟩ := h.commands c hc
    exact ⟨t, hold hlog, ht⟩

theorem mem_frames_head {c : IoCompletionEvent} {len : Nat} {port : List IoEvent}
    (hport : v.transport.port = .completion c :: port) (hcontext : c.context = .receive)
    (hresult : c.result = .ok len) : .completion c ∈ v.frames := by
  rw [v.frames_eq, TransportView.frames_pop_frame hport hcontext hresult]
  exact mem_cons_self

theorem opened_eq (state : TransportState) (confirmed granted : Bool) :
    TransportView.opened state confirmed granted = state ∨
      TransportView.opened state confirmed granted = .ready ∧ granted = true := by
  unfold TransportView.opened
  split
  next hopen => exact .inr ⟨rfl, by simp_all⟩
  next => exact .inl rfl

/-- An action that submits nothing. -/
theorem Records.quiet (h : Records peer log v) {t : TransportView}
    (hnext : t.next = v.transport.next) (htransitions : t.transitions ⊆ v.transport.transitions)
    (hadmission : t.admission ⊆ v.transport.admission) (hport : ∀ id d, .submission id d ∈ t.port →
      .submission id d ∈ v.transport.port ∨ ∃ c ∈ v.transport.admission, c.id = id)
    (hready : v.transport.state = .ready → t.state = .ready) :
    Records peer log { v with transport := t } := by
  refine h.of_less h.accepted hnext htransitions ?_ ?_ hready
  · exact append_subset.mpr ⟨subset_append_left _ _, fun c hc => mem_append_right _ (hadmission hc)⟩
  · intro id d he
    simp only [notices, mem_append] at he ⊢
    rcases he with (he | he) | he
    · rcases hport id d he with he | ⟨c, hc, hid⟩
      · exact .inl (.inl (.inl he))
      · exact .inr ⟨c, mem_append_right _ hc, hid⟩
    · exact .inl (.inl (.inr he))
    · exact .inl (.inr he)

theorem Records.act (h : Records peer log v) (horderly : Orderly peer v)
    (hreposts : ∀ mr, .repost mr ∈ v.transport.events → mr.holds frameData = true)
    {out : Option ProtocolCommand} {t : TransportView} (haction : Action v.transport out t) :
    ∃ more, Records peer (log ++ more) (v.acted out t) ∧
      ∀ id d, .submission id d ∈ (v.acted out t).notices → id < log.length := by
  have hkeep {w : NodeView} (hw : Records peer log w) : ∃ more, Records peer (log ++ more) w ∧
        ∀ id d, .submission id d ∈ w.notices → id < log.length :=
    ⟨[], by rwa [append_nil], hw.receipts⟩
  have hsubmitted {u w : TransportView} {batch : ProtocolBatch}
      {transition : PendingProtocolTransition} (hsubmit : Submitted u batch transition w)
      (hu : Records peer log { v with transport := u }) (hmatches : Matches transition batch)
      (hcontrol : ∀ k, transition = .controlSend k → u.state = .ready)
      (hheard : ∀ capacity, transition = .helloReceiveRepost capacity → capacity = peer) :
      ∃ more, Records peer (log ++ more) (v.acted none w) ∧
        ∀ id d, .submission id d ∈ (v.acted none w).notices → id < log.length := by
    rw [acted_none]
    exact ⟨[transition], hu.submit hsubmit hmatches hcontrol hheard⟩
  have hpop {e : IoEvent} {port : List IoEvent} (hport : v.transport.port = e :: port)
      (id : Nat) (d : IoSubmissionDisposition) (he : .submission id d ∈ port) :
      .submission id d ∈ v.transport.port ∨ ∃ c ∈ v.transport.admission, c.id = id :=
    .inl (hport ▸ mem_cons_of_mem _ he)
  have hadmitted {c : ProtocolCommand} {rest : List ProtocolCommand}
      (hadmission : v.transport.admission = c :: rest) : rest ⊆ v.transport.admission :=
    hadmission ▸ subset_cons_self _ _
  have hrefl : v.transport.transitions ⊆ v.transport.transitions := List.Subset.refl _
  have hall : v.transport.admission ⊆ v.transport.admission := List.Subset.refl _
  cases haction with
  | skip | release =>
    rw [acted_none]
    exact hkeep (h.quiet rfl hrefl hall (fun _ _ => .inl) id)
  | send _ _ _ _ hsubmit =>
    exact hsubmitted hsubmit (h.quiet rfl hrefl hall (fun _ _ => .inl) id) .send (by simp) (by simp)
  | @repost mr _ _ hevents _ hsubmit =>
    have hmr := hreposts mr (hevents ▸ mem_cons_self)
    exact hsubmitted hsubmit (h.quiet rfl hrefl hall (fun _ _ => .inl) id) (.data hmr)
      (by simp) (by simp)
  | announce _ _ hsubmit =>
    exact hsubmitted hsubmit (h.quiet rfl hrefl hall (fun _ _ => .inl) id) .announce
      (by simp) (by simp)
  | flush hready _ hsubmit =>
    exact hsubmitted hsubmit (h.quiet rfl hrefl hall (fun _ _ => .inl) id)
      (TransportView.matches_creditFrame _ _) (fun _ _ => hready) (by simp)
  | @handOver _ _ hadmission =>
    refine hkeep (h.of_less h.accepted rfl hrefl ?_ ?_ id)
    · simp [acted, NodeView.commands, hadmission, ProtocolQueueEntry.commands]
    · intro id d he
      exact .inl (by simpa [acted, notices, ProtocolQueueEntry.published] using he)
  | @cancel command _ _ hadmission =>
    rw [acted_none]
    refine hkeep (h.quiet rfl hrefl (hadmitted hadmission) (fun id d he => ?_) id)
    refine (mem_append.mp he).imp_right fun he => ?_
    simp only [ProtocolCommand.cancelledEvents, ProtocolCommand.cancelled, mem_cons,
      reduceCtorEq, IoEvent.submission.injEq, not_mem_nil, or_false, false_or] at he
    exact ⟨command, hadmission ▸ mem_cons_self, he.1.symm⟩
  | @reject command _ hadmission =>
    rw [acted_none]
    refine hkeep (h.quiet rfl hrefl (hadmitted hadmission) (fun id d he => ?_) id)
    refine (mem_append.mp he).imp_right fun he => ?_
    simp only [ProtocolCommand.rejectedEvents, ProtocolCommand.unaccepted, mem_cons,
      reduceCtorEq, IoEvent.submission.injEq, not_mem_nil, or_false, false_or] at he
    exact ⟨command, hadmission ▸ mem_cons_self, he.1.symm⟩
  | @receipt _ _ _ _ _ _ hport htransitions =>
    rw [acted_none]
    refine hkeep (h.quiet rfl ?_ hall (hpop hport) id)
    rw [htransitions]
    exact subset_cons_self _ _
  | @grant _ _ _ _ _ _ hport htransitions =>
    rw [acted_none]
    refine hkeep (h.quiet rfl ?_ hall (hpop hport) ?_)
    · rw [htransitions]
      exact subset_cons_self _ _
    · intro hready
      rcases opened_eq v.transport.state v.transport.confirmed true with heq | ⟨heq, -⟩
      · exact heq.trans hready
      · exact heq
  | confirm hport =>
    rw [acted_none]
    refine hkeep (h.quiet rfl hrefl hall (hpop hport) ?_)
    intro hready
    rcases opened_eq v.transport.state true v.transport.granted with heq | ⟨heq, -⟩
    · exact heq.trans hready
    · exact heq
  | message hport | returned hport =>
    rw [acted_none]
    exact hkeep (h.quiet rfl hrefl hall (hpop hport) id)
  | credit hport _ _ _ _ hheader htype _ _ hsubmit =>
    exact hsubmitted hsubmit (h.quiet rfl hrefl hall (hpop hport) id)
      (.credit (htype ▸ holds_of_parseHeader hheader)) (by simp) (by simp)
  | hear hport hcontext hresult hmr _ _ hheader htype hparse hsubmit =>
    refine hsubmitted hsubmit (h.quiet rfl hrefl hall (hpop hport) id)
      (.hello (htype ▸ holds_of_parseHeader hheader)) (by simp) ?_
    rintro _ ⟨rfl⟩
    exact horderly.hello _ _ _ _ _ (mem_frames_head hport hcontext hresult) hresult hmr
      hheader htype hparse
  | @sent _ request port hport =>
    rw [acted_none]
    refine hkeep ?_
    split
    · obtain ⟨_, _, _, hrolled, -⟩ :=
        { v.transport with port }.rollback_eq request
      rw [hrolled]
      exact h.quiet rfl hrefl hall (hpop hport) id
    · exact h.quiet rfl hrefl hall (hpop hport) id

/-- The messages and buffers of an endpoint hold data, and there are none before
the transport is ready. -/
structure Holdings (v : NodeView) : Prop where
  state : v.transport.state = .created ∨ v.transport.state = .ready ∧ v.transport.granted = true
  fresh : v.transport.state = .created →
    v.transport.received = [] ∧ v.held = [] ∧ ∀ e ∈ v.transport.events, e.isRepost = false
  messages : ∀ m ∈ v.transport.received ++ v.held, m.mr.holds frameData = true
  reposts : ∀ mr, .repost mr ∈ v.transport.events → mr.holds frameData = true

theorem Holdings.keep (h : Holdings v) (hstate : v'.transport.state = v.transport.state)
    (hgranted : v'.transport.granted = v.transport.granted)
    (hreceived : v'.transport.received = v.transport.received) (hheld : v'.held = v.held)
    (hevents : v'.transport.events ⊆ v.transport.events) : Holdings v' := by
  refine ⟨?_, ?_, ?_, fun mr hmr => h.reposts mr (hevents hmr)⟩
  · rw [hstate, hgranted]
    exact h.state
  · rw [hstate, hreceived, hheld]
    exact fun hcreated => ⟨(h.fresh hcreated).1, (h.fresh hcreated).2.1,
      fun e he => (h.fresh hcreated).2.2 e (hevents he)⟩
  · rw [hreceived, hheld]
    exact h.messages

theorem Holdings.work (h : Holdings v) (hwork : v.Work v') : Holdings v' := by
  cases hwork <;> exact { h with }

/-- The handshake ends with a grant. -/
theorem Holdings.open (h : Holdings v) {confirmed granted : Bool} {t : TransportView}
    (hstate : t.state = TransportView.opened v.transport.state confirmed granted)
    (hgranted : t.granted = granted) (hkept : v.transport.granted = true → granted = true)
    (hreceived : t.received = v.transport.received)
    (hevents : t.events = v.transport.events) : Holdings { v with transport := t } := by
  rcases opened_eq v.transport.state confirmed granted with heq | ⟨heq, hopen⟩
  · refine ⟨?_, ?_, hreceived ▸ h.messages, hevents ▸ h.reposts⟩
    · simp only [hstate, heq, hgranted]
      exact h.state.imp_right fun ⟨hready, hold⟩ => ⟨hready, hkept hold⟩
    · simp only [hstate, heq, hreceived, hevents]
      exact h.fresh
  · refine ⟨?_, ?_, hreceived ▸ h.messages, hevents ▸ h.reposts⟩
    · exact .inr ⟨hstate.trans heq, hgranted.trans hopen⟩
    · simp only [hstate, heq, reduceCtorEq, false_implies]

theorem Holdings.act (h : Holdings v) {out : Option ProtocolCommand} {t : TransportView}
    (haction : Action v.transport out t) : Holdings (v.acted out t) := by
  have hpopped {event : EngineMessageEvent} {events : List EngineMessageEvent}
      (hevents : v.transport.events = event :: events) : events ⊆ v.transport.events :=
    hevents ▸ subset_cons_self _ _
  have hsubmitted {u w : TransportView} {batch : ProtocolBatch}
      {transition : PendingProtocolTransition} (hsubmit : Submitted u batch transition w)
      (hu : Holdings { v with transport := u }) : Holdings (v.acted none w) := by
    rw [acted_none]
    refine hu.keep ?_ hsubmit.total.2 hsubmit.takes.2 rfl ?_
    · cases hsubmit <;> rfl
    · exact hsubmit.frame.2.2.2 ▸ List.Subset.refl _
  have hrefl : v.transport.events ⊆ v.transport.events := List.Subset.refl _
  cases haction with
  | skip hevents | release hevents => exact h.keep rfl rfl rfl rfl (hpopped hevents)
  | send hevents _ _ _ hsubmit | repost hevents _ hsubmit | announce hevents _ hsubmit =>
    exact hsubmitted hsubmit (h.keep rfl rfl rfl rfl (hpopped hevents))
  | flush _ _ hsubmit => exact hsubmitted hsubmit (h.keep rfl rfl rfl rfl hrefl)
  | handOver | cancel | reject | receipt | returned => exact h.keep rfl rfl rfl rfl hrefl
  | credit _ _ _ _ _ _ _ _ _ hsubmit | hear _ _ _ _ _ _ _ _ _ hsubmit =>
    exact hsubmitted hsubmit (h.keep rfl rfl rfl rfl hrefl)
  | grant =>
    rw [acted_none]
    exact h.open rfl rfl (fun _ => rfl) rfl rfl
  | confirm =>
    rw [acted_none]
    exact h.open rfl rfl id rfl rfl
  | @sent _ request port =>
    split
    · obtain ⟨_, _, _, hrolled, -⟩ :=
        { v.transport with port }.rollback_eq request
      rw [hrolled]
      exact h.keep rfl rfl rfl rfl hrefl
    · exact h.keep rfl rfl rfl rfl hrefl
  | @message _ _ _ _ _ _ _ _ _ hready hheader htype =>
    have hdata := htype ▸ holds_of_parseHeader hheader
    refine ⟨h.state, fun hcreated => ?_, ?_, h.reposts⟩
    · cases hready.symm.trans hcreated
    · intro m hm
      have hmessages := h.messages m
      simp only [acted, mem_append, mem_singleton] at hm hmessages
      rcases hm with (hm | rfl) | hm
      · exact hmessages (.inl hm)
      · exact hdata
      · exact hmessages (.inr hm)

theorem Holdings.call (h : Holdings v) {data : List (List UInt8)} (hcall : v.Call data v') :
    Holdings v' := by
  cases hcall with
  | act haction => exact h.act haction
  | acquire | abandon => exact { h with }
  | enqueue _ mr =>
    refine ⟨h.state, fun hcreated => ?_, h.messages, fun mr hmr => h.reposts mr ?_⟩
    · obtain ⟨hreceived, hheld, hnone⟩ := h.fresh hcreated
      exact ⟨hreceived, hheld, forall_mem_append.mpr ⟨hnone, forall_mem_singleton.mpr rfl⟩⟩
    · simpa using hmr
  | @recv _ _ hreceived =>
    refine ⟨h.state, fun hcreated => ?_, fun m hm => h.messages m ?_, h.reposts⟩
    · cases (h.fresh hcreated).1.symm.trans hreceived
    · rw [hreceived]
      simp only [mem_append, mem_cons, not_mem_nil, or_false] at hm ⊢
      rcases hm with hm | hm | hm
      · exact .inl (.inr hm)
      · exact .inr hm
      · exact .inl (.inl hm)
  | @drop _ message hheld =>
    have hmem : message ∈ v.held := mem_of_getElem? hheld
    refine ⟨h.state, fun hcreated => ?_, fun m hm => h.messages m ?_, fun mr hmr => ?_⟩
    · rw [(h.fresh hcreated).2.1] at hmem
      cases hmem
    · rcases mem_append.mp hm with hm | hm
      · exact mem_append_left _ hm
      · exact mem_append_right _ (mem_of_mem_eraseIdx hm)
    · rcases mem_append.mp hmr with hmr | hmr
      · exact h.reposts mr hmr
      · cases mem_singleton.mp hmr
        exact h.messages message (mem_append_right _ hmem)

/-- The buffers inside the endpoint that hold a kind of frame. -/
def buffers (kind : Nat) (v : NodeView) : Nat :=
  (if kind = frameData then
    v.transport.received.length + v.held.length + v.transport.events.countP (·.isRepost)
    else 0) +
    v.frames.countP (·.carries kind) + (bufferLoad kind).of v

variable (find : Nat → Option PendingProtocolTransition)

/-- The credits that the endpoint will return. -/
def returns (v : NodeView) : Nat :=
  v.transport.owing + (creditLoad find).of v

def grants (v : NodeView) : Nat :=
  v.transport.granted.toNat + (grantLoad find).of v

/-- The credits in frames that the transport has not looked at. -/
def credited (v : NodeView) : Nat :=
  (v.frames.map IoEvent.credits).sum

section

variable (v : NodeView) (out : Option ProtocolCommand) (t : TransportView)

theorem buffers_acted (kind : Nat) : (v.acted out t).buffers kind + v.transport.buffers kind =
      v.buffers kind + (t.buffers kind + (out.toList.map (bufferLoad kind).command).sum) := by
  have hload := (bufferLoad kind).of_act v t out
  have hframes : (v.acted out t).frames = t.frames ++
      (v.turn ++ v.completions.map IoEvent.completion).filter IoEvent.isFrame :=
    (v.acted out t).frames_eq
  simp only [buffers, TransportView.buffers, v.frames_eq, hframes, countP_append]
  change (if kind = frameData then
      t.received.length + v.held.length + t.events.countP (·.isRepost) else 0) + _ + _ + _ = _
  split_ifs <;> omega

variable (find : Nat → Option PendingProtocolTransition)

theorem returns_acted : (v.acted out t).returns find + v.transport.returns find =
      v.returns find + (t.returns find + (out.toList.map (creditLoad find).command).sum) := by
  have hload := (creditLoad find).of_act v t out
  simp only [returns, TransportView.returns]
  change t.owing + _ + _ = _
  omega

theorem grants_acted : (v.acted out t).grants find + v.transport.grants find =
      v.grants find + t.grants find := by
  have hload := (grantLoad find).of_act v t out
  have hout : (out.toList.map (grantLoad find).command).sum = 0 := by
    cases out <;> rfl
  simp only [grants, TransportView.grants]
  change t.granted.toNat + _ + _ = _
  omega

theorem credited_acted :
    (v.acted out t).credited + v.transport.credited = v.credited + t.credited := by
  have hframes : (v.acted out t).frames = t.frames ++
      (v.turn ++ v.completions.map IoEvent.completion).filter IoEvent.isFrame :=
    (v.acted out t).frames_eq
  simp only [credited, TransportView.credited, v.frames_eq, hframes, map_append, sum_append]
  omega

end

/-- A request is on its way once at most, and has spent its credit then. -/
structure Requests (v : NodeView) : Prop where
  once : ∀ request, (sendLoad (· == .send request)).of v +
    v.transport.events.count (.sendRequest request) ≤ 1
  committed : ∀ request, 0 < (sendLoad (· == .send request)).of v →
    v.transport.committed request = true
  bound : ∀ request, .sendRequest request ∈ v.transport.events →
    request < v.transport.requests.length

/-- What the endpoint has posted, reposted and taken from the wire, accounted
for. -/
structure Ledger (peer : Nat) (log : List PendingProtocolTransition) (posted : List PostedSend)
    (reposted : List Mr) (arrived : List PostedSend) (v : NodeView) : Prop where
  records : Records peer log v
  holdings : Holdings v
  requests : Requests v
  buffers : ∀ kind, v.buffers kind + reposted.countP (·.holds kind) =
    arrived.countP (·.context.carries kind)
  returns : v.returns (log[·]?) + (posted.map PostedSend.credits).sum =
    reposted.countP (·.holds frameData)
  grants : v.grants (log[·]?) = reposted.countP (·.holds frameHello)
  flight : v.transport.inFlight + (arrived.map PostedSend.credits).sum =
    (sendLoad (·.carries frameData)).of v +
      posted.countP (·.context.carries frameData) + v.credited
  announced : (sendLoad (·.carries frameHello)).of v +
    posted.countP (·.context.carries frameHello) = v.transport.announced.toNat
  opened : 0 < (sendLoad (·.carries frameData)).of v +
    posted.countP (·.context.carries frameData) → v.transport.granted = true
  balance : v.transport.total + v.acquired = if v.transport.granted then peer else 0

variable {posted : List PostedSend} {reposted : List Mr} {arrived : List PostedSend}

namespace Records

variable (h : Records peer log v)

include h

theorem send_lawful {p : MessageIoContext → Bool} (hp : p .receive = false) :
    ∀ c ∈ v.commands, (sendLoad p).Lawful c := by
  intro c hc
  obtain ⟨t, -, hmatches⟩ := h.commands c hc
  exact sendLoad_lawful hp hmatches

theorem buffer_lawful (kind : Nat) : ∀ c ∈ v.commands, (bufferLoad kind).Lawful c := by
  intro c hc
  obtain ⟨t, -, hmatches⟩ := h.commands c hc
  exact bufferLoad_lawful kind hmatches

theorem credit_lawful : ∀ c ∈ v.commands, (creditLoad (log[·]?)).Lawful c := by
  intro c hc
  obtain ⟨t, hlog, hmatches⟩ := h.commands c hc
  exact creditLoad_lawful hlog hmatches

theorem grant_lawful : ∀ c ∈ v.commands, (grantLoad (log[·]?)).Lawful c := by
  intro c hc
  obtain ⟨t, hlog, hmatches⟩ := h.commands c hc
  exact grantLoad_lawful hlog hmatches

end Records

/-- Sends and events may go. -/
theorem Requests.of_le (h : Requests v) (hload : ∀ request, (sendLoad (· == .send request)).of v' ≤
      (sendLoad (· == .send request)).of v)
    (hevents : v'.transport.events <+ v.transport.events)
    (hcommitted : ∀ request, v'.transport.committed request = v.transport.committed request)
    (hlength : v'.transport.requests.length = v.transport.requests.length) : Requests v' := by
  refine ⟨fun request => ?_, fun request hpos => ?_, fun request hmem => ?_⟩
  · exact le_trans (add_le_add (hload request) (hevents.count_le _)) (h.once request)
  · rw [hcommitted]
    exact h.committed request (lt_of_lt_of_le hpos (hload request))
  · rw [hlength]
    exact h.bound request (hevents.subset hmem)

theorem Requests.work (h : Requests v) (hmoves : Moves v v')
    (hlawful : ∀ p : MessageIoContext → Bool, p .receive = false →
      ∀ c ∈ v.commands, (sendLoad p).Lawful c) : Requests v' := by
  obtain ⟨_, htransport⟩ := hmoves.transport
  refine h.of_le (fun request => ?_) ?_ (fun request => ?_) ?_
  · have hbalanced := sendLoad_balanced (hmoves.load _ (hlawful (· == .send request) rfl))
    omega
  · rw [htransport]
  · rw [htransport]
    rfl
  · rw [htransport]

theorem Requests.act (h : Requests v) {out : Option ProtocolCommand} {t : TransportView}
    (hsending : v.transport.Sending out t) : Requests (v.acted out t) := by
  have hload (request : Nat) := (sendLoad (· == .send request)).of_act v t out
  cases hsending with
  | keep hkept _ _ hcommitted hlength hevents =>
    refine h.of_le (fun request => ?_) hevents hcommitted hlength
    have hkept' := hkept (· == .send request) rfl rfl
    have hload' := hload request
    omega
  | announce hout hadded _ _ _ _ hrequests hevents =>
    subst hout
    refine h.of_le (fun request => ?_) hevents (fun request => ?_) (congrArg _ hrequests)
    · have hadded' := hadded (· == .send request) rfl rfl
      have hload' := hload request
      change _ = _ + 0 at hadded'
      change _ = _ + (_ + 0) at hload'
      omega
    · exact congrArg (fun requests => (requests[request]?).any (·.committed)) hrequests
  | send request hout hadded _ _ _ hcommitted hlength hevents =>
    subst hout
    have hsum (other : Nat) : (sendLoad (· == .send other)).of (v.acted none t) =
        (sendLoad (· == .send other)).of v + if request = other then 1 else 0 := by
      have hadded' := hadded (· == .send other) rfl rfl
      have hload' := hload other
      have hequal : (MessageIoContext.send request == .send other).toNat =
          if request = other then 1 else 0 := by
        split <;> simp_all
      rw [hequal] at hadded'
      change _ = _ + (_ + 0) at hload'
      omega
    have hcount (other : Nat) : v.transport.events.count (.sendRequest other) =
        t.events.count (.sendRequest other) + if request = other then 1 else 0 := by
      rw [hevents, count_cons]
      simp
    refine ⟨fun other => ?_, fun other hpos => ?_, fun other hmem => ?_⟩
    · have honce := h.once other
      rw [hcount] at honce
      rw [hsum]
      change _ + _ + t.events.count _ ≤ 1
      omega
    · rw [hsum] at hpos
      refine (hcommitted other).trans ?_
      by_cases heq : request = other
      · simp [heq]
      · rw [if_neg heq, add_zero] at hpos
        simp [h.committed other hpos]
    · refine hlength ▸ h.bound other ?_
      rw [hevents]
      exact mem_cons_of_mem _ hmem
  | fail request hout htaken _ _ _ hcommitted hlength hevents =>
    subst hout
    have hsum (other : Nat) : (sendLoad (· == .send other)).of v =
        (sendLoad (· == .send other)).of (v.acted none t) +
          if request = other then 1 else 0 := by
      have htaken' := htaken (· == .send other) rfl rfl
      have hload' := hload other
      have hequal : (MessageIoContext.send request == .send other).toNat =
          if request = other then 1 else 0 := by
        split <;> simp_all
      rw [hequal] at htaken'
      change _ = _ + (_ + 0) at hload'
      omega
    refine ⟨fun other => ?_, fun other hpos => ?_, fun other hmem => ?_⟩
    · have honce := h.once other
      rw [hsum, ← hevents] at honce
      change _ + t.events.count _ ≤ 1
      omega
    · have honce := h.once other
      have hsum' := hsum other
      by_cases heq : request = other
      · rw [if_pos heq] at hsum'
        omega
      · refine (hcommitted other).trans ?_
        rw [h.committed other (by omega)]
        simp [Ne.symm heq]
    · exact hlength ▸ h.bound other (hevents ▸ hmem)

/-- The reactor and the queue pair keep the ledger. -/
theorem Ledger.work (h : Ledger peer log posted reposted arrived v) (horderly : Orderly peer v)
    (hwork : v.Work v') :
    Ledger peer log (posted ++ v'.sq.drop v.sq.length) (reposted ++ v'.rq.drop v.rq.length)
      arrived v' := by
  have hmoves := hwork.moves h.records.accepted
  have hframes := (hwork.frames horderly.published horderly.unacked).1
  obtain ⟨_, htransport⟩ := hmoves.transport
  have hcredited : v'.credited = v.credited := by rw [credited, hframes, credited]
  have hdata := sendLoad_balanced
    (hmoves.load _ (h.records.send_lawful (p := (·.carries frameData)) rfl))
  have hhello := sendLoad_balanced
    (hmoves.load _ (h.records.send_lawful (p := (·.carries frameHello)) rfl))
  have hreturned := creditLoad_balanced (hmoves.load _ h.records.credit_lawful)
  have hgranted := grantLoad_balanced (hmoves.load _ h.records.grant_lawful)
  refine ⟨h.records.work hwork, h.holdings.work hwork,
    h.requests.work hmoves fun p hp => h.records.send_lawful hp, fun kind => ?_, ?_, ?_, ?_, ?_,
    ?_, ?_⟩
  · have hbuffers := bufferLoad_balanced (hmoves.load _ (h.records.buffer_lawful kind))
    have hold := h.buffers kind
    rw [countP_append, NodeView.buffers, htransport, hmoves.held, hframes]
    rw [NodeView.buffers] at hold
    change (if kind = frameData then v.transport.received.length + v.held.length +
      v.transport.events.countP _ else 0) + _ + _ + _ = _
    omega
  · have hold := h.returns
    rw [countP_append, map_append, sum_append, NodeView.returns, htransport]
    rw [NodeView.returns] at hold
    change v.transport.owing + _ + _ = _
    omega
  · have hold := h.grants
    rw [countP_append, NodeView.grants, htransport]
    rw [NodeView.grants] at hold
    change v.transport.granted.toNat + _ = _
    omega
  · have hold := h.flight
    rw [countP_append, hcredited, htransport]
    change v.transport.inFlight + _ = _
    omega
  · have hold := h.announced
    rw [countP_append, htransport]
    change _ = v.transport.announced.toNat
    omega
  · intro hpos
    rw [htransport]
    apply h.opened
    rw [countP_append] at hpos
    omega
  · rw [htransport, hmoves.acquired]
    exact h.balance

theorem Requests.enqueue (h : Requests v) (r : RequestView) {acquired : Nat} : Requests { v with
      transport := { v.transport with
        requests := v.transport.requests ++ [r]
        events := v.transport.events ++ [.sendRequest v.transport.requests.length] }
      acquired } := by
  have hcommitted (request : Nat) (hold : v.transport.committed request = true) :
      request < v.transport.requests.length := by
    by_contra hge
    rw [TransportView.committed, List.getElem?_eq_none (Nat.le_of_not_lt hge)] at hold
    cases hold
  have hload (request : Nat) : (sendLoad (· == .send request)).of { v with
      transport := { v.transport with
        requests := v.transport.requests ++ [r]
        events := v.transport.events ++ [.sendRequest v.transport.requests.length] }
      acquired } = (sendLoad (· == .send request)).of v := rfl
  refine ⟨fun request => ?_, fun request hpos => ?_, fun request hmem => ?_⟩
  · have honce := h.once request
    rw [hload, count_append, count_singleton]
    by_cases heq : v.transport.requests.length = request
    · have hnone : ¬ 0 < (sendLoad (· == .send request)).of v := fun hpos =>
        absurd (hcommitted request (h.committed request hpos)) (by omega)
      have hfresh : v.transport.events.count (.sendRequest request) = 0 :=
        count_eq_zero.mpr fun hmem => absurd (h.bound request hmem) (by omega)
      rw [hfresh]
      simp only [heq, beq_self_eq_true, if_true]
      omega
    · simp only [beq_iff_eq, sendRequest.injEq, heq, if_false]
      omega
  · rw [hload] at hpos
    have hold := h.committed request hpos
    rw [TransportView.committed, List.getElem?_append_left (hcommitted request hold)]
    exact hold
  · rw [length_append, length_singleton]
    rcases mem_append.mp hmem with hmem | hmem
    · exact Nat.lt_succ_of_lt (h.bound request hmem)
    · cases mem_singleton.mp hmem
      exact Nat.lt_succ_self _

variable {out : Option ProtocolCommand} {t : TransportView}
  (h : Ledger peer log posted reposted arrived v)

include h

/-- A send that failed takes back a credit that was spent on it. -/
theorem Ledger.flight_act (hcovered : (arrived.map PostedSend.credits).sum ≤
      posted.countP (·.context.carries frameData)) (hsending : v.transport.Sending out t) :
    t.inFlight + (arrived.map PostedSend.credits).sum =
      (sendLoad (·.carries frameData)).of (v.acted out t) +
        posted.countP (·.context.carries frameData) + (v.acted out t).credited := by
  have hflight := h.flight
  have hcredited' := v.credited_acted out t
  have hload := (sendLoad (·.carries frameData)).of_act v t out
  cases hsending with
  | keep hkept =>
    have hkept' := hkept (·.carries frameData) rfl rfl
    omega
  | send _ hout hadded =>
    subst hout
    have hadded' := hadded (·.carries frameData) rfl rfl
    change _ = _ + 1 at hadded'
    change _ = _ + (_ + 0) at hload
    omega
  | announce hout hadded =>
    subst hout
    have hadded' := hadded (·.carries frameData) rfl rfl
    change _ = _ + 0 at hadded'
    change _ = _ + (_ + 0) at hload
    omega
  | fail request hout htaken hinFlight =>
    subst hout
    have htaken' := htaken (·.carries frameData) rfl rfl
    have hown := htaken (· == .send request) rfl rfl
    have hpart := (sendLoad (·.carries frameData)).transport_le v
    have hpart' := (sendLoad (· == .send request)).transport_le v
    have hspent := hinFlight (h.requests.committed request (by simp at hown; omega))
    change _ = _ + 1 at htaken'
    change _ = _ + (_ + 0) at hload
    omega

theorem Ledger.announced_act (hsending : v.transport.Sending out t) :
    (sendLoad (·.carries frameHello)).of (v.acted out t) +
      posted.countP (·.context.carries frameHello) = t.announced.toNat := by
  have hannounced := h.announced
  have hload := (sendLoad (·.carries frameHello)).of_act v t out
  cases hsending with
  | keep hkept _ hkeep =>
    have hkept' := hkept (·.carries frameHello) rfl rfl
    rw [hkeep]
    omega
  | send _ hout hadded _ _ hkeep =>
    subst hout
    have hadded' := hadded (·.carries frameHello) rfl rfl
    rw [hkeep]
    change _ = _ + 0 at hadded'
    change _ = _ + (_ + 0) at hload
    omega
  | announce hout hadded _ _ hfirst hnow =>
    subst hout
    have hadded' := hadded (·.carries frameHello) rfl rfl
    rw [hnow]
    rw [hfirst] at hannounced
    change _ = _ + 1 at hadded'
    change _ = _ + (_ + 0) at hload
    change _ = 0 at hannounced
    change _ = 1
    omega
  | fail _ hout htaken _ _ hkeep =>
    subst hout
    have htaken' := htaken (·.carries frameHello) rfl rfl
    rw [hkeep]
    change _ = _ + 0 at htaken'
    change _ = _ + (_ + 0) at hload
    omega

/-- Only a ready transport takes up a request. -/
theorem Ledger.opened_act (hsending : v.transport.Sending out t)
    (hgranted : v.transport.granted = true → t.granted = true)
    (hpos : 0 < (sendLoad (·.carries frameData)).of (v.acted out t) +
      posted.countP (·.context.carries frameData)) : t.granted = true := by
  have hload := (sendLoad (·.carries frameData)).of_act v t out
  apply hgranted
  cases hsending with
  | keep hkept =>
    have hkept' := hkept (·.carries frameData) rfl rfl
    exact h.opened (by omega)
  | send _ _ _ _ _ _ _ _ _ hready =>
    rcases h.holdings.state with hcreated | ⟨-, hopen⟩
    · cases hready.symm.trans hcreated
    · exact hopen
  | announce hout hadded =>
    subst hout
    have hadded' := hadded (·.carries frameData) rfl rfl
    change _ = _ + 0 at hadded'
    change _ = _ + (_ + 0) at hload
    exact h.opened (by omega)
  | fail _ hout htaken =>
    subst hout
    have htaken' := htaken (·.carries frameData) rfl rfl
    change _ = _ + 1 at htaken'
    change _ = _ + (_ + 0) at hload
    exact h.opened (by omega)

/-- The peer's capacity is granted once. -/
theorem Ledger.balance_act
    (hfind : ∀ id d port p rest, v.transport.port = .submission id d :: port →
      v.transport.transitions = p :: rest → log[id]? = some p.2)
    (honce : v.transport.grants (log[·]?) ≤ 1) (haction : Action v.transport out t) :
    t.total + v.acquired = if t.granted then peer else 0 := by
  have hbalance := h.balance
  rcases haction.total with ⟨htotal, hgranted⟩ |
    ⟨id, recorded, d, capacity, port, rest, hport, htransitions, haccepted, htotal, hgranted⟩
  · rw [htotal, hgranted]
    exact hbalance
  · have hid := hfind id d port _ rest hport htransitions
    have hcapacity := h.records.heard capacity (mem_of_getElem? hid)
    have hweight : (grantLoad (log[·]?)).event (.submission id d) = 1 := by
      simp [grantLoad, hid, PendingProtocolTransition.granting,
        IoSubmissionDisposition.possible, haccepted]
    have hfirst : v.transport.granted = false := by
      rw [TransportView.grants_pop hport, hweight] at honce
      cases hold : v.transport.granted with
      | false => rfl
      | true => simp [TransportView.grants, hold] at honce
    rw [hfirst] at hbalance
    rw [htotal, hgranted, hcapacity]
    simp only [Bool.false_eq_true, if_false, if_true] at hbalance ⊢
    omega

variable (horderly : Orderly peer v)
  (hcovered : (arrived.map PostedSend.credits).sum ≤ posted.countP (·.context.carries frameData))
  (honce : arrived.countP (·.context.carries frameHello) ≤ 1)

include horderly hcovered honce

/-- An action keeps the ledger, if no more credits have come back than frames were
posted and the peer has announced itself once. -/
theorem Ledger.act (haction : Action v.transport out t) :
    ∃ more, Ledger peer (log ++ more) posted reposted arrived (v.acted out t) := by
  obtain ⟨more, hrecords, hreceipts⟩ := h.records.act horderly h.holdings.reposts haction
  have hwaiting : ∀ c ∈ v.transport.admission, c ∈ v.commands :=
    fun c hc => mem_append_right _ hc
  have haccepted : ∀ c, .completion c ∈ v.transport.frames → c.provenUnaccepted = false := by
    intro c hc
    apply horderly.accepted
    rw [v.frames_eq]
    exact mem_append_left _ hc
  have hfind : ∀ id d port p rest, v.transport.port = .submission id d :: port →
      v.transport.transitions = p :: rest → log[id]? = some p.2 := by
    intro id d port p rest hport htransitions
    rw [← horderly.order id d port p rest hport htransitions]
    exact h.records.transitions p (htransitions ▸ mem_cons_self)
  have hlog : ∀ id d, .submission id d ∈ (v.acted out t).notices → (log ++ more)[id]? = log[id]? :=
    fun id d he => List.getElem?_append_left (hreceipts id d he)
  have hsending := haction.sending
    (fun c hc => (h.records.commands c (hwaiting c hc)).imp fun _ => And.right) haccepted
    h.holdings.reposts horderly.credit
  have hgrants : v.transport.grants (log[·]?) ≤ 1 := by
    have hpart := (grantLoad (log[·]?)).transport_le v
    have hbuffers := h.buffers frameHello
    have hold := h.grants
    rw [NodeView.grants] at hold
    rw [TransportView.grants]
    omega
  have hgranted : v.transport.granted = true → t.granted = true := by
    rcases haction.total with ⟨-, hsame⟩ | ⟨_, _, _, _, _, _, -, -, -, -, hnow⟩
    · exact fun hold => hsame.trans hold
    · exact fun _ => hnow
  refine ⟨more, hrecords, h.holdings.act haction, h.requests.act hsending, fun kind => ?_, ?_, ?_,
    h.flight_act hcovered hsending, h.announced_act hsending, h.opened_act hsending hgranted,
    h.balance_act hfind hgrants haction⟩
  · have hbuffers := haction.buffers
      (fun c hc => h.records.buffer_lawful kind c (hwaiting c hc)) haccepted
      (fun hcreated => (h.holdings.fresh hcreated).2.2) h.holdings.reposts
    have hacted := v.buffers_acted out t kind
    have hold := h.buffers kind
    omega
  · have hreturns := haction.returns (fun c hc => h.records.credit_lawful c (hwaiting c hc)) hfind
      (fun id credits hid => h.records.control credits (mem_of_getElem? hid))
    have hacted := v.returns_acted out t (log[·]?)
    have hold := h.returns
    have hcongr : (v.acted out t).returns ((log ++ more)[·]?) =
        (v.acted out t).returns (log[·]?) := by
      rw [NodeView.returns, creditLoad_congr hlog, NodeView.returns]
    omega
  · have hkept := haction.grants
      (fun c hc => h.records.grant_lawful c (hwaiting c hc)) hfind hgrants
    have hacted := v.grants_acted out t (log[·]?)
    have hold := h.grants
    have hcongr : (v.acted out t).grants ((log ++ more)[·]?) =
        (v.acted out t).grants (log[·]?) := by
      rw [NodeView.grants, grantLoad_congr hlog, NodeView.grants]
    omega

theorem Ledger.call {data : List (List UInt8)} (hcall : v.Call data v') :
    ∃ more, Ledger peer (log ++ more) posted reposted arrived v' := by
  have hholdings := h.holdings.call hcall
  have hbuffers {w : NodeView} (hstored : w.transport.received.length + w.held.length +
          w.transport.events.countP (·.isRepost) =
        v.transport.received.length + v.held.length + v.transport.events.countP (·.isRepost))
      (hframes : w.frames = v.frames)
      (hload : ∀ kind, (bufferLoad kind).of w = (bufferLoad kind).of v) (kind : Nat) :
      w.buffers kind + reposted.countP (·.holds kind) =
        arrived.countP (·.context.carries kind) := by
    rw [NodeView.buffers, hstored, hframes, hload kind]
    exact h.buffers kind
  cases hcall with
  | act haction => exact h.act horderly hcovered honce haction
  | acquire =>
    refine ⟨[], ?_⟩
    rw [append_nil]
    refine { h with
      holdings := hholdings, records := { h.records with }
      requests := { h.requests with }, balance := Eq.trans ?_ h.balance }
    change v.transport.available - 1 + v.transport.requests.countP _ + v.transport.inFlight +
      (v.acquired + 1) = v.transport.available + v.transport.requests.countP _ +
        v.transport.inFlight + v.acquired
    omega
  | abandon =>
    refine ⟨[], ?_⟩
    rw [append_nil]
    refine { h with
      holdings := hholdings, records := { h.records with }
      requests := { h.requests with }, balance := Eq.trans ?_ h.balance }
    change v.transport.available + 1 + v.transport.requests.countP _ + v.transport.inFlight +
      (v.acquired - 1) = v.transport.available + v.transport.requests.countP _ +
        v.transport.inFlight + v.acquired
    omega
  | enqueue =>
    refine ⟨[], ?_⟩
    rw [append_nil]
    refine { h with
      holdings := hholdings, records := { h.records with }
      requests := h.requests.enqueue _, balance := Eq.trans ?_ h.balance
      buffers := hbuffers ?_ rfl fun _ => rfl }
    · simp [isRepost]
    · change v.transport.available + (v.transport.requests ++ [_]).countP _ +
        v.transport.inFlight + (v.acquired - 1) = v.transport.available +
          v.transport.requests.countP _ + v.transport.inFlight + v.acquired
      rw [countP_append, countP_singleton, if_pos rfl]
      omega
  | @recv _ _ hreceived =>
    refine ⟨[], ?_⟩
    rw [append_nil]
    refine { h with
      holdings := hholdings, records := { h.records with }
      requests := { h.requests with }
      buffers := hbuffers ?_ rfl fun _ => rfl }
    simp only [hreceived, length_append, length_cons, length_nil]
    omega
  | @drop index message hheld =>
    have hlength : (v.held.eraseIdx index).length + 1 = v.held.length := by
      have hindex := (List.getElem?_eq_some_iff.mp hheld).1
      rw [length_eraseIdx, if_pos hindex]
      omega
    refine ⟨[], ?_⟩
    rw [append_nil]
    refine { h with
      holdings := hholdings, records := { h.records with }
      requests := ⟨fun request => ?_, h.requests.committed, fun request hmem => ?_⟩
      buffers := hbuffers ?_ rfl fun _ => rfl }
    · have hcount : (v.transport.events ++ [repost message.mr]).count (sendRequest request) =
          v.transport.events.count (.sendRequest request) := by simp
      rw [hcount]
      exact h.requests.once request
    · exact h.requests.bound request (by simpa using hmem)
    · simp only [countP_append, countP_singleton, isRepost_repost, if_true]
      omega

/-- A step keeps the ledger. -/
theorem Ledger.step {data : List (List UInt8)} (hstep : v.Step data v') :
    ∃ more, Ledger peer (log ++ more) (posted ++ v'.sq.drop v.sq.length)
      (reposted ++ v'.rq.drop v.rq.length) arrived v' := by
  cases hstep with
  | work hwork =>
    refine ⟨[], ?_⟩
    rw [append_nil]
    exact h.work horderly hwork
  | call hcall =>
    have hqueues : v'.sq = v.sq ∧ v'.rq = v.rq := by
      cases hcall <;> exact ⟨rfl, rfl⟩
    rw [hqueues.1, hqueues.2, drop_length, drop_length, append_nil, append_nil]
    exact h.call horderly hcovered honce hcall

end NodeView

end RdmaIo.Message
