/-
The coalesced control queues of the command ingress.  A frontend that asks for a close, a
cancellation or listener work first looks whether its identity is still there and then
pushes its token, in two steps that the reactor may come between.  Each queue has room for
as many tokens as its identities have slots, so it can only overflow through a token
whose slot was freed.
-/
import RdmaIo.Lib.Run
import RdmaIo.Lib.SlotRegistry

namespace RdmaIo.Engine

open Function
open SlotRegistry

/-- `members` of the source is the set of the tokens in `queue`. -/
structure CoalescedQueue where
  queue : List Token
  capacity : Nat
deriving Repr, DecidableEq

namespace CoalescedQueue

/-- False if the token is queued already; none is the live-identity assertion. -/
def push (q : CoalescedQueue) (token : Token) : Option (Bool × CoalescedQueue) :=
  if token ∈ q.queue then some (false, q)
  else if q.queue.length < q.capacity then
    some (true, { q with queue := q.queue ++ [token] })
  else none

def pop (q : CoalescedQueue) : Option (Token × CoalescedQueue) :=
  match q.queue with
  | [] => none
  | token :: rest => some (token, { q with queue := rest })

/-- A push puts at most its own token into the queue, and keeps the tokens distinct. -/
theorem push_eq_some {q q' : CoalescedQueue} {token : Token} {inserted : Bool}
    (h : q.push token = some (inserted, q')) :
    q'.capacity = q.capacity ∧ (q.queue.Nodup → q'.queue.Nodup) ∧
      ∀ t ∈ q'.queue, t ∈ q.queue ∨ t = token := by
  unfold push at h
  split at h
  · cases h
    exact ⟨rfl, id, fun t ht => .inl ht⟩
  next hnew =>
    split at h
    · cases h
      refine ⟨rfl, fun hnodup => ?_, fun t ht => by simpa using ht⟩
      rw [List.nodup_append]
      refine ⟨hnodup, List.nodup_singleton token, ?_⟩
      intro t ht t' ht' heq
      rw [List.mem_singleton] at ht'
      exact hnew (ht' ▸ heq ▸ ht)
    · cases h

theorem pop_eq_some {q q' : CoalescedQueue} {token : Token} (h : q.pop = some (token, q')) :
    q'.capacity = q.capacity ∧ q.queue = token :: q'.queue := by
  unfold pop at h
  split at h
  · cases h
  next hqueue =>
    cases h
    exact ⟨rfl, hqueue⟩

end CoalescedQueue

inductive IdentityKind where
  | connection
  | listener
  | operation
deriving Repr, DecidableEq

inductive ControlKind where
  | connectionClose
  | listenerClose
  | listenerWork
  | operationCancel
deriving Repr, DecidableEq

instance : Fintype ControlKind where
  elems := {.connectionClose, .listenerClose, .listenerWork, .operationCancel}
  complete kind := by cases kind <;> simp

/-- What the tokens of a control queue name. -/
def ControlKind.identity : ControlKind → IdentityKind
  | .connectionClose => .connection
  | .listenerClose | .listenerWork => .listener
  | .operationCancel => .operation

/-- Close requests look at the admission under its lock; the others do not. -/
def ControlKind.needsAdmission : ControlKind → Bool
  | .connectionClose | .listenerClose => true
  | .listenerWork | .operationCancel => false

/-- `unpublished` are the identities whose slot is free while the leaf that tells their
frontends so is still in the turn's batch, `calls` the tokens of frontends that have found
their identity alive and have not pushed yet. -/
structure Controls where
  registry : IdentityKind → Registry Unit
  unpublished : IdentityKind → List Token
  queues : ControlKind → CoalescedQueue
  calls : ControlKind → List Token
  closed : Bool
  overflowed : Bool

namespace Controls

variable (connectionCapacity operationCapacity : Nat)

def capacityOf : IdentityKind → Nat
  | .connection | .listener => connectionCapacity
  | .operation => operationCapacity

def new : Controls where
  registry kind := .new (capacityOf connectionCapacity operationCapacity kind)
  unpublished _ := []
  queues kind := ⟨[], capacityOf connectionCapacity operationCapacity kind.identity⟩
  calls _ := []
  closed := false
  overflowed := false

inductive Label where
  | acquire (kind : IdentityKind) (pageAvailable : Bool)
  | release (kind : IdentityKind) (token : Token) (completed : Bool)
  | publish (kind : IdentityKind) (token : Token)
  | check (kind : ControlKind) (token : Token)
  | push (kind : ControlKind) (token : Token)
  | pop (kind : ControlKind)
  | closeAdmission
deriving Repr, DecidableEq

variable (c : Controls)

/-- The frontends of an identity still take it for alive. -/
def seemsAlive (kind : IdentityKind) (token : Token) : Bool :=
  ((c.registry kind).get? token).isSome || (c.unpublished kind).contains token

def endCall (kind : ControlKind) (token : Token) : Controls :=
  { c with calls := Function.update c.calls kind ((c.calls kind).erase token) }

/-- The push of a call that found its identity alive. -/
def finishCall (kind : ControlKind) (token : Token) : Controls :=
  if kind.needsAdmission && c.closed then c.endCall kind token
  else
    match (c.queues kind).push token with
    | some (_, q) => { c.endCall kind token with queues := Function.update c.queues kind q }
    | none => { c with overflowed := true }

/-- The reactor releases and pops when it likes: a turn without budget skips a pop. -/
def act : Label → Option Controls
  | .acquire kind pageAvailable =>
    match (c.registry kind).allocate pageAvailable fun _ => () with
    | .ok (_, r) => some { c with registry := Function.update c.registry kind r }
    | .error _ => none
  | .release kind token completed =>
    ((c.registry kind).release token completed).map fun released =>
      { c with
        registry := Function.update c.registry kind released.2
        unpublished :=
          Function.update c.unpublished kind (token :: c.unpublished kind) }
  | .publish kind token =>
    some { c with unpublished :=
      Function.update c.unpublished kind ((c.unpublished kind).filter (· ≠ token)) }
  | .check kind token =>
    if c.seemsAlive kind.identity token then
      some { c with calls := Function.update c.calls kind (token :: c.calls kind) }
    else none
  | .push kind token =>
    if token ∈ c.calls kind then some (c.finishCall kind token) else none
  | .pop kind =>
    (c.queues kind).pop.map fun popped =>
      { c with queues := Function.update c.queues kind popped.2 }
  | .closeAdmission => some { c with closed := true }

/-- Nothing happens after the assertion of a push has fired. -/
def step (label : Label) : Option Controls :=
  if c.overflowed then none else c.act label

/-- No slot is freed while its token is queued or a frontend is about to push it, and no
frontend begins a request between the release of the slot and its publication. -/
def Undisturbed : Label → Prop
  | .release kind token _ =>
    ∀ control : ControlKind, control.identity = kind →
      token ∉ (c.queues control).queue ∧ token ∉ c.calls control
  | .check kind token => ((c.registry kind.identity).get? token).isSome
  | _ => True

instance (c : Controls) : DecidablePred c.Undisturbed
  | .release kind token _ => inferInstanceAs (Decidable (∀ control : ControlKind,
      control.identity = kind → token ∉ (c.queues control).queue ∧ token ∉ c.calls control))
  | .check kind token =>
    inferInstanceAs (Decidable (((c.registry kind.identity).get? token).isSome = true))
  | .acquire .. | .publish .. | .push .. | .pop _ | .closeAdmission => isTrue trivial

/-- Every token that is queued, or is about to be, names an occupied slot. -/
structure Sound (c : Controls) : Prop where
  capacity : ∀ kind, (c.queues kind).capacity = (c.registry kind.identity).capacity
  nodup : ∀ kind, (c.queues kind).queue.Nodup
  queued : ∀ kind, ∀ t ∈ (c.queues kind).queue, ((c.registry kind.identity).get? t).isSome
  called : ∀ kind, ∀ t ∈ c.calls kind, ((c.registry kind.identity).get? t).isSome
  fits : c.overflowed = false

theorem sound_new : (new connectionCapacity operationCapacity).Sound := by
  constructor <;> intros <;> simp_all [new, Registry.capacity, Registry.new, Table.new]

variable {c : Controls}

/-- The push of a call finds its token queued, or room for it. -/
theorem Sound.push_ne_none (h : c.Sound) {kind : ControlKind} {token : Token}
    (hcall : token ∈ c.calls kind) : (c.queues kind).push token ≠ none := by
  unfold CoalescedQueue.push
  by_cases hmem : token ∈ (c.queues kind).queue
  · simp [hmem]
  · have hnodup : (token :: (c.queues kind).queue).Nodup :=
      List.nodup_cons.mpr ⟨hmem, h.nodup kind⟩
    have hlength := Registry.length_le_capacity hnodup (r := c.registry kind.identity)
      (List.forall_mem_cons.mpr ⟨h.called kind token hcall, h.queued kind⟩)
    rw [List.length_cons, ← h.capacity kind] at hlength
    simp [hmem, Nat.lt_of_succ_le hlength]

theorem Sound.endCall (h : c.Sound) (kind : ControlKind) (token : Token) :
    (c.endCall kind token).Sound := by
  refine ⟨h.capacity, h.nodup, h.queued, fun other t ht => ?_, h.fits⟩
  simp only [Controls.endCall] at ht
  by_cases heq : other = kind
  · subst heq
    rw [update_self] at ht
    exact h.called other t (List.mem_of_mem_erase ht)
  · rw [update_of_ne heq] at ht
    exact h.called other t ht

/-- Replacing a queue by one whose tokens are alive. -/
theorem Sound.setQueue (h : c.Sound) {kind : ControlKind} {q : CoalescedQueue}
    (hcapacity : q.capacity = (c.queues kind).capacity) (hnodup : q.queue.Nodup)
    (hqueued : ∀ t ∈ q.queue, ((c.registry kind.identity).get? t).isSome) :
    { c with queues := Function.update c.queues kind q }.Sound := by
  refine ⟨fun other => ?_, fun other => ?_, fun other => ?_, h.called, h.fits⟩ <;>
    by_cases heq : other = kind
  · subst heq
    simpa [hcapacity] using h.capacity other
  · simpa [update_of_ne heq] using h.capacity other
  · subst heq
    simpa using hnodup
  · simpa [update_of_ne heq] using h.nodup other
  · subst heq
    simpa using hqueued
  · simpa [update_of_ne heq] using h.queued other

/-- Replacing a registry by one of the same size that keeps every token in use. -/
theorem Sound.setRegistry (h : c.Sound) {kind : IdentityKind}
    {r : Registry Unit} (hcapacity : r.capacity = (c.registry kind).capacity)
    (hkept : ∀ control : ControlKind, control.identity = kind →
      ∀ t, t ∈ (c.queues control).queue ∨ t ∈ c.calls control →
        ((c.registry kind).get? t).isSome → (r.get? t).isSome)
    (unpublished : IdentityKind → List Token) :
    { c with
      registry := Function.update c.registry kind r
      unpublished := unpublished }.Sound := by
  refine ⟨fun other => ?_, h.nodup, fun other t ht => ?_, fun other t ht => ?_, h.fits⟩ <;>
    by_cases heq : other.identity = kind
  · subst heq
    simpa [hcapacity] using h.capacity other
  · simpa [update_of_ne heq] using h.capacity other
  · subst heq
    simpa using hkept other rfl t (.inl ht) (h.queued other t ht)
  · simpa [update_of_ne heq] using h.queued other t ht
  · subst heq
    simpa using hkept other rfl t (.inr ht) (h.called other t ht)
  · simpa [update_of_ne heq] using h.called other t ht

theorem Sound.finishCall (h : c.Sound) {kind : ControlKind} {token : Token}
    (hcall : token ∈ c.calls kind) : (c.finishCall kind token).Sound := by
  unfold Controls.finishCall
  split
  · exact h.endCall kind token
  · split
    next hpush =>
      obtain ⟨hcapacity, hnodup, hmem⟩ := CoalescedQueue.push_eq_some hpush
      refine (h.endCall kind token).setQueue hcapacity (hnodup (h.nodup kind)) ?_
      intro t ht
      rcases hmem t ht with hold | rfl
      · exact h.queued kind t hold
      · exact h.called kind t hcall
    next hnone => exact absurd hnone (h.push_ne_none hcall)

theorem Sound.step {c' : Controls} {label : Label} (h : c.Sound) (hok : c.Undisturbed label)
    (hstep : c.step label = some c') : c'.Sound := by
  simp only [Controls.step, h.fits, Bool.false_eq_true, if_false] at hstep
  cases label with
  | acquire =>
    simp only [act] at hstep
    split at hstep
    next hallocate =>
      cases hstep
      refine h.setRegistry (Registry.capacity_allocate hallocate) ?_ c.unpublished
      intro control _ t _ halive
      rw [Registry.get?_allocate hallocate]
      split
      · rfl
      · exact halive
    next => cases hstep
  | release _ token =>
    obtain ⟨⟨_, r⟩, hrelease, rfl⟩ := Option.map_eq_some_iff.mp hstep
    refine h.setRegistry (Registry.capacity_release hrelease) ?_ _
    intro control hcontrol t hused halive
    have hne : t ≠ token := by
      rintro rfl
      obtain ⟨hqueue, hcalls⟩ := hok control hcontrol
      rcases hused with hqueued | hcalled
      · exact hqueue hqueued
      · exact hcalls hcalled
    rwa [Registry.get?_release hrelease, if_neg hne]
  | publish | closeAdmission =>
    cases hstep
    exact ⟨h.capacity, h.nodup, h.queued, h.called, h.fits⟩
  | check kind =>
    simp only [act] at hstep
    split at hstep
    · cases hstep
      refine ⟨h.capacity, h.nodup, h.queued, fun other t ht => ?_, h.fits⟩
      simp only at ht
      by_cases heq : other = kind
      · subst heq
        rw [update_self] at ht
        rcases List.mem_cons.mp ht with rfl | ht
        · exact hok
        · exact h.called other t ht
      · rw [update_of_ne heq] at ht
        exact h.called other t ht
    · cases hstep
  | push =>
    simp only [act] at hstep
    split at hstep
    next hcall =>
      cases hstep
      exact h.finishCall hcall
    · cases hstep
  | pop kind =>
    obtain ⟨⟨token, q⟩, hpop, rfl⟩ := Option.map_eq_some_iff.mp hstep
    obtain ⟨hcapacity, hqueue⟩ := CoalescedQueue.pop_eq_some hpop
    have hnodup := h.nodup kind
    rw [hqueue] at hnodup
    refine h.setQueue hcapacity (List.nodup_cons.mp hnodup).2 ?_
    intro t ht
    apply h.queued kind t
    rw [hqueue]
    exact List.mem_cons_of_mem token ht

/-- In a run that never frees the slot of a token in use, no control queue overflows, and
every request under way finds room. -/
theorem controls_never_overflow (connectionCapacity operationCapacity : Nat)
    (labels : List Label) (c : Controls)
    (halong : Machine.Along step Undisturbed (new connectionCapacity operationCapacity) labels)
    (hrun : Machine.run step (new connectionCapacity operationCapacity) labels = some c) :
    c.overflowed = false ∧
      ∀ kind, ∀ token ∈ c.calls kind, (c.queues kind).push token ≠ none := by
  have hsound : c.Sound := Machine.run_invariant (fun _ _ _ hs hok hstep => hs.step hok hstep)
    (sound_new connectionCapacity operationCapacity) halong hrun
  exact ⟨hsound.fits, fun kind token hcall => hsound.push_ne_none hcall⟩

/-- Two connections share a slot one after the other, each closed by its handle. -/
def reuseTrace : List Label :=
  [.acquire .connection true, .check .connectionClose ⟨0, 1⟩, .push .connectionClose ⟨0, 1⟩,
    .pop .connectionClose, .release .connection ⟨0, 1⟩ true, .publish .connection ⟨0, 1⟩,
    .acquire .connection true, .check .connectionClose ⟨0, 2⟩]

theorem controls_never_overflow_reuse :
    ∃ c, Machine.run step (new 1 1) reuseTrace = some c ∧ ⟨0, 2⟩ ∈ c.calls .connectionClose ∧
      c.overflowed = false ∧ (c.queues .connectionClose).push ⟨0, 2⟩ ≠ none := by
  obtain ⟨c, hrun, hcalls⟩ : ∃ c, Machine.run step (new 1 1) reuseTrace = some c ∧
      ⟨0, 2⟩ ∈ c.calls .connectionClose := by
    decide +kernel
  have halong : Machine.Along step Undisturbed (new 1 1) reuseTrace := by decide +kernel
  obtain ⟨hfits, hpush⟩ := controls_never_overflow 1 1 reuseTrace c halong hrun
  exact ⟨c, hrun, hcalls, hfits, hpush .connectionClose ⟨0, 2⟩ hcalls⟩

/-- A handle finds its connection alive and is held up; the peer's disconnect retires the
connection, its slot goes to another one, and that one's close is queued first. -/
def staleCloseTrace : List Label :=
  [.acquire .connection true, .check .connectionClose ⟨0, 1⟩, .release .connection ⟨0, 1⟩ true,
    .publish .connection ⟨0, 1⟩, .acquire .connection true, .check .connectionClose ⟨0, 2⟩,
    .push .connectionClose ⟨0, 2⟩, .push .connectionClose ⟨0, 1⟩]

/-- The live-identity assertion of a control queue can fire. -/
theorem stale_close_overflows :
    (Machine.run step (new 1 1) staleCloseTrace).any Controls.overflowed = true := by
  decide +kernel

end Controls

end RdmaIo.Engine
