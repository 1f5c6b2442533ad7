/-
Closing a transport in every interleaving.

Whatever the order in which the calls take their steps, the first terminal state
is the last, a drained queue stays drained, and every event that the queue accepted
is processed or disposed of once.
-/
import RdmaIo.Message.CloseRaceRequests

namespace RdmaIo.Message

namespace RaceState

variable {c c' : RaceState} {label : RaceLabel} {labels : List RaceLabel}

/-- Every call that closes the transport has taken the queue and closed the port. -/
def settled (c : RaceState) : Bool :=
  !c.pending.any RaceOp.takes && !c.pending.any RaceOp.shuts

theorem Sound.run (h : c.Sound) (hrun : Machine.run RaceState.step c labels = some c') : c'.Sound :=
  Machine.run_invariant_of_step (fun _ _ _ hsound hstep => hsound.step hstep) h hrun

theorem RequestsSound.run (h : c.RequestsSound)
    (hrun : Machine.run RaceState.step c labels = some c') : c'.RequestsSound :=
  Machine.run_invariant_of_step (fun _ _ _ hsound hstep => hsound.step hstep) h hrun

/-- What becomes of a request: until it is started it is queued or in the hands of
one call; it has its buffer and its credit until then, and its output from its one
completion on, which a call that disposed of it has made or is about to make. -/
structure RequestClean (c : RaceState) (r : Nat) : Prop where
  once : (c.pending.flatMap RaceOp.sends).count r +
    (c.msg.events.flatMap EngineMessageEvent.requests).count r + c.shared.started.count r = 1
  holding : ∀ q, c.msg.requests[r]? = some q → (q.mr.isSome = true ↔ r ∉ c.shared.started) ∧
    (q.credit = true ↔ r ∉ c.shared.started) ∧ (q.output.isSome = true ↔ r ∈ c.shared.completed)
  completed : c.shared.completed.count r ≤ 1
  released : r ∈ c.shared.disposed → ∀ q, c.msg.requests[r]? = some q →
    q.output.isSome = true ∨ r ∈ c.pending.flatMap RaceOp.finishes

theorem RequestsSound.clean (h : c.RequestsSound) {r : Nat}
    (hr : r < c.msg.requests.length) : c.RequestClean r := by
  have hlength : r < c.shared.requestCustody.holdings.length := by
    change r < (c.msg.requests.map _).length
    rw [List.length_map]
    exact hr
  have honce : (c.pending.flatMap RaceOp.sends).count r +
      (c.msg.events.flatMap EngineMessageEvent.requests).count r +
        c.shared.started.count r = 1 := (h.once r).trans (if_pos hlength)
  have hholding (q : EngineSendRequest) (hq : c.msg.requests[r]? = some q) :
      (q.mr.isSome = true ↔ r ∉ c.shared.started) ∧ (q.credit = true ↔ r ∉ c.shared.started) ∧
        (q.output.isSome = true ↔ r ∈ c.shared.completed) := by
    have hheld : q.holding = c.shared.requestCustody.expected r := by
      apply h.held r
      change (c.msg.requests.map EngineSendRequest.holding)[r]? = _
      rw [List.getElem?_map, hq, Option.map_some]
    simp only [EngineSendRequest.holding, RequestCustody.expected, Prod.mk.injEq] at hheld
    obtain ⟨hmr, hcredit, houtput⟩ := hheld
    rw [hmr, hcredit, houtput, beq_iff_eq, bne_iff_ne, List.count_eq_zero, Ne,
      List.count_eq_zero, not_not]
    exact ⟨Iff.rfl, Iff.rfl, Iff.rfl⟩
  refine ⟨honce, hholding, ?_, fun hdisposed q hq => ?_⟩
  · have howes : _ + _ + c.shared.completed.count r ≤ c.shared.started.count r := h.owes r
    omega
  · have hfinishes : c.shared.disposed.count r ≤
        (c.pending.flatMap RaceOp.finishes).count r + c.shared.completed.count r :=
      h.finishes r
    have hpos := List.count_pos_iff.mpr hdisposed
    rw [(hholding q hq).2.2]
    by_cases hcompleted : r ∈ c.shared.completed
    · exact .inl hcompleted
    · rw [List.count_eq_zero.mpr hcompleted] at hfinishes
      exact .inr (List.count_pos_iff.mp (by omega))

end RaceState

end RdmaIo.Message
