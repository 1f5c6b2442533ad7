/-
The CM event channel of a v1 transport and `poll_cm_disconnect`.

The descriptor of the channel is registered for edges: readiness is reported for the events
that have arrived since the last report, and stays up until it is cleared.  The poll clears
it before it reads one event, and other threads run between its steps.
-/
import RdmaIo.Lib.Run

namespace RdmaIo

/-- The type of a CM event; the poll treats all but one alike. -/
inductive CmEventType where
  | disconnected
  | other
deriving Repr, DecidableEq

/-- Where a call of `poll_cm_disconnect` is. -/
inductive CmPoll where
  | idle
  /-- About to ask for readiness. -/
  | polling
  /-- The readiness is cleared and one event is about to be read. -/
  | checking
deriving Repr, DecidableEq

structure CmChannel where
  /-- The unread events that had arrived when readiness was last reported. -/
  reported : List CmEventType
  /-- The events that have arrived since. -/
  fresh : List CmEventType
  ready : Bool
  peerDisconnected : Bool
  call : CmPoll
deriving Repr, DecidableEq

inductive CmLabel where
  | arrive (event : CmEventType)
  | report
  | pollCmDisconnect
  /-- `poll_read_ready`, which fails when the reactor is gone. -/
  | pollReadReady (failed : Bool)
  /-- `check_cm_event`; `failed` is an error other than `WouldBlock`. -/
  | checkCmEvent (failed : Bool)
deriving Repr, DecidableEq

namespace CmChannel

def init : CmChannel := ⟨[], [], false, false, .idle⟩

variable (c : CmChannel)

/-- The call takes the peer for disconnected and returns `true`. -/
def disconnect : CmChannel :=
  { c with peerDisconnected := true, call := .idle }

def tryGetEvent : Option (CmEventType × CmChannel) :=
  match c.reported, c.fresh with
  | event :: reported, _ => some (event, { c with reported })
  | [], event :: fresh => some (event, { c with fresh })
  | [], [] => none

def step : CmLabel → Option CmChannel
  | .arrive event => some { c with fresh := c.fresh ++ [event] }
  | .report =>
    if c.fresh ≠ [] then
      some { c with reported := c.reported ++ c.fresh, fresh := [], ready := true }
    else none
  | .pollCmDisconnect =>
    if c.call = .idle then
      if c.peerDisconnected then some c else some { c with call := .polling }
    else none
  | .pollReadReady failed =>
    if c.call = .polling then
      if failed then some c.disconnect
      else if c.ready then some { c with ready := false, call := .checking }
      -- `false` is returned with the waker registered
      else some { c with call := .idle }
    else none
  | .checkCmEvent failed =>
    if c.call = .checking then
      if failed then some c.disconnect
      else
        match c.tryGetEvent with
        | none => some { c with call := .polling }
        | some (.disconnected, c) => some c.disconnect
        | some (.other, c) => some { c with call := .polling }
    else none

/-- Readiness is not reported while a disconnect waits behind another event. -/
def InFront : CmLabel → Prop
  | .report => .disconnected ∉ (c.reported ++ c.fresh).tail
  | .arrive _ | .pollCmDisconnect | .pollReadReady _ | .checkCmEvent _ => True

instance (c : CmChannel) (l : CmLabel) : Decidable (c.InFront l) := by
  cases l <;> unfold InFront <;> infer_instance

/-- A reported disconnect is the event to be read next, and will be. -/
structure Heard (c : CmChannel) : Prop where
  first : .disconnected ∉ c.reported.tail
  live : c.call ≠ .idle → c.peerDisconnected = false
  next : .disconnected ∉ c.reported ∨ c.ready = true ∨ c.call = .checking ∨
    c.peerDisconnected = true

variable {c c' : CmChannel} {l : CmLabel}

/-- Reading takes the first reported event. -/
theorem tryGetEvent_tail {event : CmEventType} (hget : c.tryGetEvent = some (event, c')) :
    c'.reported = c.reported.tail ∧ c'.peerDisconnected = c.peerDisconnected := by
  unfold tryGetEvent at hget
  split at hget <;> cases hget <;> simp_all

theorem tryGetEvent_none (hget : c.tryGetEvent = none) : c.reported = [] := by
  unfold tryGetEvent at hget
  split at hget <;> simp_all

namespace Heard

theorem disconnect (hfirst : .disconnected ∉ c.reported.tail) : c.disconnect.Heard :=
  ⟨hfirst, fun hcall => absurd rfl hcall, .inr (.inr (.inr rfl))⟩

theorem of_none {call : CmPoll} (hnone : .disconnected ∉ c.reported)
    (hlive : c.peerDisconnected = false) : Heard { c with call } :=
  ⟨fun hmem => hnone (List.mem_of_mem_tail hmem), fun _ => hlive, .inl hnone⟩

variable (h : c.Heard)
include h

/-- A call that finds no readiness leaves no reported disconnect behind. -/
theorem pending (hcall : c.call = .polling) (hready : ¬c.ready) : .disconnected ∉ c.reported := by
  have hlive := h.live (by rw [hcall]; nofun)
  simpa [hcall, hready, hlive] using h.next

theorem checkCmEvent {failed : Bool} (hstep : c.step (.checkCmEvent failed) = some c') :
    c'.Heard := by
  simp only [CmChannel.step, Option.ite_none_right_eq_some] at hstep
  obtain ⟨hcall, hstep⟩ := hstep
  have hlive := h.live (by rw [hcall]; nofun)
  have hfirst := h.first
  split at hstep
  · cases hstep
    exact disconnect hfirst
  cases hget : c.tryGetEvent with
  | none =>
    rw [hget] at hstep
    cases hstep
    exact of_none (by simp [tryGetEvent_none hget]) hlive
  | some read =>
    obtain ⟨htail, hpeer⟩ := tryGetEvent_tail hget
    rw [← htail] at hfirst
    rw [hget] at hstep
    obtain ⟨_ | _, read⟩ := read <;> cases hstep
    · exact disconnect fun hmem => hfirst (List.mem_of_mem_tail hmem)
    · exact of_none hfirst (hpeer.trans hlive)

theorem step (hl : c.InFront l) (hstep : c.step l = some c') : c'.Heard := by
  cases l with
  | arrive =>
    cases hstep
    exact { h with }
  | report =>
    obtain ⟨-, rfl⟩ := Machine.of_guard hstep
    exact { h with first := hl, next := .inr (.inl rfl) }
  | pollCmDisconnect =>
    simp only [CmChannel.step, Option.ite_none_right_eq_some] at hstep
    obtain ⟨hcall, hstep⟩ := hstep
    split at hstep <;> cases hstep
    · exact h
    · next hlive =>
      exact ⟨h.first, fun _ => eq_false_of_ne_true hlive, by simpa [hcall] using h.next⟩
  | pollReadReady =>
    simp only [CmChannel.step, Option.ite_none_right_eq_some] at hstep
    obtain ⟨hcall, hstep⟩ := hstep
    have hlive := h.live (by rw [hcall]; nofun)
    split at hstep
    · cases hstep
      exact disconnect h.first
    split at hstep <;> cases hstep
    · exact ⟨h.first, fun _ => hlive, .inr (.inr (.inl rfl))⟩
    · next hready => exact of_none (h.pending hcall hready) hlive
  | checkCmEvent => exact h.checkCmEvent hstep

end Heard

/-- Whenever the poll returns `false`, no disconnect that the cleared readiness covered is
left unread. -/
theorem disconnect_not_missed {trace : List CmLabel}
    (halong : Machine.Along step InFront init trace) (hrun : Machine.run step init trace = some c)
    (hpoll : c.step (.pollReadReady false) = some c') (hfalse : c'.call = .idle) :
    .disconnected ∉ c'.reported := by
  have hinit : init.Heard := ⟨nofun, nofun, .inl nofun⟩
  have h : c.Heard := Machine.run_invariant (fun _ _ _ h => h.step) hinit halong hrun
  simp only [step, Option.ite_none_right_eq_some] at hpoll
  obtain ⟨hcall, hpoll⟩ := hpoll
  rw [if_neg Bool.false_ne_true] at hpoll
  split at hpoll <;> cases hpoll
  · cases hfalse
  · next hready => exact h.pending hcall hready

def cmTrace (burst : List CmLabel) : List CmLabel :=
  burst ++ [.report, .pollCmDisconnect, .pollReadReady false, .checkCmEvent false]

/-- The disconnect arrives after the readiness of another event was cleared, and the poll
returns before it is reported. -/
theorem disconnect_not_missed_other :
    let trace : List CmLabel := [.arrive .other, .report, .pollCmDisconnect,
      .pollReadReady false, .arrive .disconnected, .checkCmEvent false]
    ∃ c c', Machine.run step init trace = some c ∧ c.step (.pollReadReady false) = some c' ∧
      c'.call = .idle ∧ .disconnected ∈ c'.fresh ∧ .disconnected ∉ c'.reported := by
  intro trace
  have halong : Machine.Along step InFront init trace := by decide
  exact ⟨_, _, rfl, rfl, rfl, by decide, disconnect_not_missed halong rfl rfl rfl⟩

/-- The second event of a burst gets no readiness of its own. -/
theorem disconnect_missed :
    ∃ c, Machine.run step init (cmTrace [.arrive .other, .arrive .disconnected]) = some c ∧
      ∃ c', c.step (.pollReadReady false) = some c' ∧ c'.call = .idle ∧
        .disconnected ∈ c'.reported := by
  decide

end CmChannel

end RdmaIo
