/-
What a listener resolves.  A waiter and a child that can be paired are paired by the next
service; the failure of the engine resolves every waiter; and a listener that closes ends
with its finalization, because every step that is due lowers a rank.
-/
import RdmaIo.Engine.Arbitration

namespace RdmaIo.Engine

open AcceptSystem
open List
open SlotRegistry

def SelectedAccept.rank : SelectedAccept → Nat
  | .ready _ _ => 8
  | .processing _ => 6
  | .routed _ _ false => 5
  | .routed _ _ true => 3

def ListenerAction.rank : ListenerAction → Nat
  | .acknowledgeDelivery _ _ => 0
  | .none | .processSelected _ _ | .rejectSelected _ _ _ => 1
  | .cancelledBeforeSelection _ | .failUnselected _ | .rejectChild _ _
  | .cancelAfterAccept _ _ | .finalizeClose => 2

/-- What is left to do for the queues; a pair weighs as much as its waiter and its child. -/
def ListenerQueues.rank (q : ListenerQueues) : Nat :=
  4 * (q.waiters.length + q.children.length) + q.selected.elim 0 SelectedAccept.rank

def ListenerEntry.rank (l : ListenerEntry) : Nat :=
  l.queues.rank + 2 * (!l.finalizationStarted).toNat

/-- The steps that a closing listener is owed: its services, the execution of what they
chose, and the end of the selected route. -/
def AcceptLabel.due : List AcceptLabel :=
  [.service, .execute .routes, .routeEnds]

theorem selectPair_rank (cancelled : RequestId → Bool) (q : ListenerQueues) :
    (selectPair cancelled q).rank = q.rank := by
  obtain heq | ⟨r, _, c, _, rfl, _, heq⟩ := selectPair_cases cancelled q
  · rw [heq]
  · rw [heq]
    simp only [ListenerQueues.rank, length_cons, Option.elim, SelectedAccept.rank]
    omega

namespace ListenerEntry

variable {cancelled delivered : RequestId → Bool} {l : ListenerEntry} {request : RequestId}

theorem withoutPair_rank {selected : SelectedAccept} (h : l.queues.selected = some selected) :
    (l.withoutPair cancelled request).rank + selected.rank = l.rank := by
  have hrank := selectPair_rank cancelled { l.queues with selected := .none }
  have hclosed : (l.withoutPair cancelled request).rank =
      (selectPair cancelled { l.queues with selected := .none }).rank +
        2 * (!l.finalizationStarted).toNat := rfl
  rw [hclosed, hrank]
  simp only [rank, ListenerQueues.rank, h, Option.elim]
  omega

/-- A closing listener has nothing to do: its close is finalized, or the selected pair
stands in the way. -/
def Waits (l : ListenerEntry) : Prop :=
  l.finalizationStarted = true ∨ ∃ selected, l.queues.selected = some selected ∧
    ∀ request child, selected ≠ .ready request child

theorem waits_processing (h : l.queues.selected = some (.processing request)) : l.Waits :=
  .inr ⟨_, h, nofun⟩

theorem waits_routed {route : ConnectionToken} {started : Bool}
    (h : l.queues.selected = some (.routed request route started)) : l.Waits :=
  .inr ⟨_, h, nofun⟩

/-- What a closing listener chooses lowers the rank, and no other request is selected. -/
structure Closes (l : ListenerEntry) (next : ListenerAction × ListenerEntry) : Prop where
  falls : next.2.rank + next.1.rank < l.rank + 1 ∨ (next = (.none, l) ∧ l.Waits)
  request : next.2.queues.request = l.queues.request

theorem nextClosingAction_closes (l : ListenerEntry) : l.Closes l.nextClosingAction := by
  unfold nextClosingAction
  split
  · next hwaiters =>
    refine ⟨.inl ?_, rfl⟩
    simp only [rank, releasePermit, ListenerQueues.rank, hwaiters, length_cons, ListenerAction.rank]
    omega
  · next hchildren =>
    refine ⟨.inl ?_, rfl⟩
    simp only [rank, ListenerQueues.rank, hchildren, length_cons, ListenerAction.rank]
    omega
  · split
    · next hselected =>
      refine ⟨.inl ?_, by simp [ListenerQueues.request, hselected, SelectedAccept.request]⟩
      simp only [rank, ListenerQueues.rank, hselected, Option.elim, SelectedAccept.rank,
        ListenerAction.rank]
      omega
    · next started hselected =>
      refine ⟨?_, by simp [ListenerQueues.request, hselected, SelectedAccept.request]⟩
      cases started with
      | false =>
        left
        simp only [rank, ListenerQueues.rank, hselected, Option.elim, SelectedAccept.rank]
        change _ + 2 < _
        omega
      | true =>
        refine .inr ⟨?_, waits_routed hselected⟩
        rw [← hselected]
        rfl
    · next hselected => exact ⟨.inr ⟨rfl, waits_processing hselected⟩, rfl⟩
    · split
      · next hstarted => exact ⟨.inr ⟨rfl, .inl hstarted⟩, rfl⟩
      · next hstarted =>
        refine ⟨.inl ?_, rfl⟩
        obtain hstarted := eq_false_of_ne_true hstarted
        simp only [rank, hstarted, ListenerAction.rank, Bool.not_false, Bool.not_true,
          Bool.toNat_true, Bool.toNat_false]
        omega

theorem nextAction_closes (cancelled delivered : RequestId → Bool) (l : ListenerEntry)
    (hclosing : l.isClosing = true) : l.Closes (l.nextAction cancelled delivered) := by
  have hqueued : l.Closes (l.nextQueuedAction cancelled) := by
    unfold nextQueuedAction
    split
    · next hwaiters =>
      split
      · refine ⟨.inl ?_, rfl⟩
        simp only [rank, releasePermit, ListenerQueues.rank, hwaiters, length_cons,
          ListenerAction.rank]
        omega
      · exact l.nextClosingAction_closes
    · rw [if_pos hclosing]
      exact l.nextClosingAction_closes
  unfold nextAction
  split
  · next hselected =>
    split
    · exact ⟨.inl (Nat.lt_succ_self _), rfl⟩
    · rw [hclosing, Bool.true_or, if_pos rfl]
      split
      · exact ⟨.inr ⟨rfl, waits_routed hselected⟩, rfl⟩
      · next hstarted =>
        refine ⟨.inl ?_, by simp [ListenerQueues.request, hselected, SelectedAccept.request]⟩
        obtain rfl := eq_false_of_ne_true hstarted
        simp only [rank, ListenerQueues.rank, hselected, Option.elim, SelectedAccept.rank,
          ListenerAction.rank]
        omega
  all_goals exact hqueued

theorem popWaiters_all {budget : Nat} (hbudget : l.queues.waiters.length ≤ budget) :
    (popWaiters budget l).1 = l.queues.waiters ∧
      (popWaiters budget l).2.queues.waiters = [] := by
  induction budget generalizing l with
  | zero =>
    have hnone := length_eq_zero_iff.mp (Nat.le_zero.mp hbudget)
    exact ⟨hnone.symm, hnone⟩
  | succ _ ih =>
    unfold popWaiters
    split
    · next hwaiters => exact ⟨hwaiters.symm, hwaiters⟩
    · next request waiters hwaiters =>
      rw [hwaiters, length_cons] at hbudget
      obtain ⟨hpopped, hnone⟩ := ih (l := { l with
        queues := { l.queues with waiters := waiters } }.releasePermit request)
          (Nat.le_of_succ_le_succ hbudget)
      exact ⟨(congrArg (request :: ·) hpopped).trans hwaiters.symm, hnone⟩

/-- With budget for all of them, the failure of the engine takes every waiter, and the
selected request has no permit afterwards. -/
theorem terminalizeWaiters_all {error : Error} {budget : Nat}
    (hbudget : l.queues.line.length ≤ budget) :
    l.queues.waiters ⊆ (l.terminalizeWaiters error budget).1 ∧
      (l.terminalizeWaiters error budget).2.queues.waiters = [] ∧
      (∀ r ∈ l.queues.request, r ∉ (l.terminalizeWaiters error budget).2.permits) ∧
      (l.terminalizeWaiters error budget).2.isClosing = true := by
  rw [ListenerQueues.line, length_append] at hbudget
  obtain ⟨hpopped, hnone⟩ := @popWaiters_all (l.closedBy error) budget
    (le_trans (Nat.le_add_left _ _) hbudget)
  obtain ⟨hselected, hclosing⟩ := popWaiters_frame budget (l.closedBy error)
  have hselected : (popWaiters budget (l.closedBy error)).2.queues.selected =
      l.queues.selected := hselected
  have hwaiters : (l.closedBy error).queues.waiters = l.queues.waiters := rfl
  unfold terminalizeWaiters
  simp only [requestClose_eq, Bool.and_false]
  rw [← closedBy]
  cases hpair : l.queues.selected with
  | none =>
    simp only [hselected, hpair]
    refine ⟨hpopped ▸ List.Subset.refl _, hnone, ?_, hclosing⟩
    simp [ListenerQueues.request, hpair]
  | some =>
    have hroom : (popWaiters budget (l.closedBy error)).1.length < budget := by
      rw [hpopped, hwaiters]
      simp only [ListenerQueues.request, hpair, Option.map_some, Option.toList_some,
        length_singleton] at hbudget
      omega
    simp only [hselected, hpair, hroom, true_and]
    split
    · refine ⟨?_, hnone, ?_, hclosing⟩
      · rw [hpopped]
        exact subset_append_left _ _
      · simp [ListenerQueues.request, hpair, releasePermit]
    · next hheld =>
      refine ⟨hpopped ▸ List.Subset.refl _, hnone, ?_, hclosing⟩
      simpa [ListenerQueues.request, hpair] using hheld

end ListenerEntry

namespace AcceptSystem

variable {sys after : AcceptSystem} {request : RequestId}

def rank (sys : AcceptSystem) : Nat := sys.entry.rank + sys.hand.rank

/-- The listener closes, and a request that is selected still has its child: no engine
error has given its pair up. -/
structure Closing (sys : AcceptSystem) : Prop where
  arbitrated : sys.Arbitrated
  closing : sys.entry.isClosing = true
  paired : sys.pair = none → sys.entry.queues.request = []

namespace Closing

/-- The selected pair is over, and another one may be selected. -/
theorem pairOver {selected : SelectedAccept} (h : sys.Closing) (harbitrated : after.Arbitrated)
    (hselected : sys.entry.queues.selected = some selected) (hhand : after.hand = .none)
    (hentry : after.entry = sys.entry.withoutPair sys.isCancelled request)
    (hrank : 1 < selected.rank + sys.hand.rank) : after.rank < sys.rank ∧ after.Closing := by
  have hover := @ListenerEntry.withoutPair_rank sys.isCancelled sys.entry request _ hselected
  refine ⟨?_, harbitrated, ?_, ?_⟩
  · rw [rank, rank, hentry, hhand, ListenerAction.rank]
    omega
  · rw [hentry]
    exact h.closing
  · rw [pair, hentry, hhand]
    intro hnone
    obtain heq | ⟨r, _, c, _, _, _, heq⟩ :=
      selectPair_cases sys.isCancelled { sys.entry.queues with selected := .none }
    · change (selectPair sys.isCancelled _).request = _
      rw [heq]
      rfl
    · change ListenerAction.none.pair (selectPair sys.isCancelled _).selected = _ at hnone
      rw [heq] at hnone
      cases hnone

theorem execute (h : sys.Closing) (hstep : sys.step (.execute .routes) = some after) :
    after.rank < sys.rank ∧ after.Closing := by
  have harbitrated := (h.arbitrated.step hstep).1
  have hstep : sys.execute .routes = some after := hstep
  have hdown (hhand : sys.hand.rank = 2) (hrank : after.entry.rank = sys.entry.rank)
      (hidle : after.hand = .none) (hclosing : after.entry.isClosing = sys.entry.isClosing)
      (hqueues : after.entry.queues = sys.entry.queues) : after.rank < sys.rank ∧ after.Closing := by
    refine ⟨?_, harbitrated, hclosing.trans h.closing, fun hnone => ?_⟩
    · rw [rank, rank, hidle, hhand, hrank, ListenerAction.rank]
      omega
    · rw [hqueues]
      apply h.paired
      rw [pair, hidle, hqueues] at hnone
      rw [pair, ← hnone]
      cases heq : sys.hand <;> rw [heq] at hhand <;> first | rfl | cases hhand
  unfold AcceptSystem.execute at hstep
  split at hstep
  case h_4 request child hhand =>
    obtain ⟨hselected, _⟩ := h.arbitrated.taken (.inl hhand)
    have hroutes := ListenerEntry.routeSelected_of_processing child.route hselected
    simp only [processSelected, hroutes, Option.some.injEq] at hstep
    rw [withEntry_of_permits (by rfl)] at hstep
    subst hstep
    refine ⟨?_, harbitrated, h.closing, fun hnone => by cases hnone⟩
    simp only [rank, ListenerEntry.rank, ListenerQueues.rank, hselected, hhand,
      ListenerAction.rank, Option.elim, SelectedAccept.rank]
    omega
  case h_5 request child reason hhand =>
    cases hstep
    obtain ⟨hselected, _⟩ := h.arbitrated.taken (.inr ⟨reason, hhand⟩)
    refine h.pairOver harbitrated hselected rfl
      (ListenerEntry.finishSelectedRequest_of_processing hselected) ?_
    rw [hhand, ListenerAction.rank, SelectedAccept.rank]
    omega
  case h_6 request route hhand =>
    cases hstep
    obtain ⟨started, hselected⟩ : ∃ started,
        sys.entry.queues.selected = some (.routed request route started) := by
      have hfits := h.arbitrated.fits
      rwa [hhand] at hfits
    refine h.pairOver harbitrated hselected rfl
      (ListenerEntry.finishSelectedRoute_of_routed hselected) ?_
    cases started <;> rw [SelectedAccept.rank] <;> omega
  case h_9 => cases hstep
  all_goals
    next hhand =>
      cases hstep
      exact hdown (by rw [hhand]; rfl) rfl rfl rfl rfl

theorem routeEnds (h : sys.Closing) (hstep : sys.step .routeEnds = some after) :
    after.rank < sys.rank ∧ after.Closing := by
  have harbitrated := (h.arbitrated.step hstep).1
  simp only [step] at hstep
  split at hstep
  · next started hhand hselected =>
    cases hstep
    refine h.pairOver harbitrated hselected hhand
      (ListenerEntry.finishSelectedRoute_of_routed hselected) ?_
    cases started <;> rw [SelectedAccept.rank] <;> omega
  · cases hstep

theorem service (h : sys.Closing) (hstep : sys.step .service = some after) :
    (after.rank < sys.rank ∨ (after = sys ∧ sys.entry.Waits)) ∧ after.Closing := by
  have harbitrated := (h.arbitrated.step hstep).1
  obtain ⟨hhand, rfl⟩ := Machine.of_guard hstep
  have hnext := ListenerEntry.nextAction_chooses sys.isCancelled sys.isDelivered sys.entry
  obtain ⟨hfalls, hrequest⟩ :=
    ListenerEntry.nextAction_closes sys.isCancelled sys.isDelivered sys.entry h.closing
  refine ⟨?_, harbitrated, hnext.closing.trans h.closing, fun hnone => ?_⟩
  · have hrank : sys.rank = sys.entry.rank + 1 := by
      rw [rank, hhand]
      rfl
    rcases hfalls with hlt | ⟨heq, hwaits⟩
    · exact .inl (hrank ▸ hlt)
    · rw [heq, withEntry_of_permits rfl, ← hhand]
      exact .inr ⟨rfl, hwaits⟩
  · refine hrequest.trans (h.paired ?_)
    rw [pair, hhand]
    rcases hnext.pair with hsame | ⟨hnone, _⟩
    · exact hsame.symm.trans hnone
    · exact hnone

theorem due {label : AcceptLabel} (h : sys.Closing) (hdue : label ∈ AcceptLabel.due)
    (hstep : sys.step label = some after) :
    (after.rank < sys.rank ∨ after = sys) ∧ after.Closing := by
  simp only [AcceptLabel.due, mem_cons, not_mem_nil, or_false] at hdue
  rcases hdue with rfl | rfl | rfl
  · exact (h.service hstep).imp (Or.imp id And.left) id
  · exact (h.execute hstep).imp .inl id
  · exact (h.routeEnds hstep).imp .inl id

/-- Where no due step changes anything, the close is finalized. -/
theorem finalized (h : sys.Closing) (hrest : Machine.AtRest step AcceptLabel.due sys) :
    sys.entry.finalizationStarted = true := by
  have hhand : sys.hand = .none := by
    cases hstep : sys.step (.execute .routes) with
    | some =>
      exact hrest.idle (by simp [AcceptLabel.due]) hstep (.inl (h.execute hstep).1)
    | none =>
      have hstep : sys.execute .routes = none := hstep
      unfold AcceptSystem.execute at hstep
      split at hstep
      case h_4 request child hhand =>
        obtain ⟨hselected, _⟩ := h.arbitrated.taken (.inl hhand)
        simp [processSelected,
          ListenerEntry.routeSelected_of_processing child.route hselected] at hstep
      case h_9 hhand => exact hhand
      all_goals cases hstep
  have hstep : sys.step .service = some _ := if_pos hhand
  obtain ⟨_, hwaits⟩ := hrest.idle (by simp [AcceptLabel.due]) hstep (h.service hstep).1
  rcases hwaits with hstarted | ⟨selected, hselected, hready⟩
  · exact hstarted
  cases selected with
  | ready request child => exact absurd rfl (hready request child)
  | processing =>
    have hnone := h.paired (by rw [pair, hhand, hselected]; rfl)
    rw [ListenerQueues.request, hselected] at hnone
    cases hnone
  | routed request route =>
    have hstep : sys.step .routeEnds = some (sys.finishRoute request route
        (if request ∈ sys.delivered then .paired else .failed) .paired) := by
      simp only [step, hhand, hselected]
    exact hrest.idle (by simp [AcceptLabel.due]) hstep (.inl (h.routeEnds hstep).1)

end Closing

/-- The failure of the engine, with budget for all of them, resolves every request of the
listener, and every permit is given back. -/
theorem Arbitrated.terminalized (h : sys.Arbitrated) {error : Error} {budget : Nat}
    (hbudget : sys.entry.queues.line.length ≤ budget)
    (hstep : sys.step (.terminalize error budget) = some after) :
    after.entry.isClosing = true ∧ after.entry.queues.waiters = [] ∧ after.entry.permits = [] ∧
      (∀ r ∈ sys.line, r ∈ after.completed ∧ r ∈ after.returned) ∧
      ∀ r ∈ sys.entry.queues.waiters, (r, WaiterEnd.failed) ∈ after.left := by
  have hafter := (h.step hstep).1
  obtain ⟨hhand, heq⟩ := Machine.of_guard hstep
  rw [foldl_complete] at heq
  have hentry : after.entry = (sys.entry.terminalizeWaiters error budget).2 := by rw [heq]; rfl
  have hgranted : after.granted = sys.granted := by rw [heq]; rfl
  have hingress : after.ingress = sys.ingress := by rw [heq]; rfl
  obtain ⟨hpopped, hwaiters, hpermit, hclosing⟩ :=
    @ListenerEntry.terminalizeWaiters_all sys.entry error budget hbudget
  have hselected := ListenerEntry.terminalizeWaiters_selected sys.entry error budget
  rw [← hentry] at hwaiters hpermit hclosing hselected
  have hleft (r : RequestId) (hr : r ∈ sys.entry.queues.waiters) :
      (r, WaiterEnd.failed) ∈ after.left := by
    rw [heq]
    refine mem_append_right _ (mem_map_of_mem (mem_filter.mpr ⟨hpopped hr, ?_⟩))
    exact decide_eq_true hr
  have hrequest : after.entry.queues.request = sys.entry.queues.request := by
    rw [ListenerQueues.request, hselected]
    rfl
  have hnone : after.entry.permits = [] := by
    refine eq_nil_iff_forall_not_mem.mpr fun r hr => hpermit r ?_ hr
    have hheld := (hafter.requests r).permitHeld
    have hpos := count_pos_iff.mpr hr
    rw [hwaiters, hrequest, count_nil] at hheld
    exact count_pos_iff.mp (by omega)
  refine ⟨hclosing, hwaiters, hnone, fun r hr => ?_, hleft⟩
  have hregistered := count_pos_iff.mpr (h.lineOrder.subset hr)
  have hknown := (h.requests r).known
  have hpermits := (hafter.requests r).permits
  rw [hnone, hgranted, hingress, count_nil] at hpermits
  refine ⟨?_, count_pos_iff.mp (by omega)⟩
  simp only [line, hhand, ListenerAction.requests, append_nil, ← hrequest] at hr
  rcases mem_append.mp hr with hr | hr
  · have hdone := (hafter.requests r).selectedDone
    have hpos := count_pos_iff.mpr hr
    rw [hnone, count_nil] at hdone
    exact count_pos_iff.mp (by omega)
  · have hresolved := (hafter.requests r).resolved
    have hpos : 0 < (after.left.map Prod.fst).count r :=
      count_pos_iff.mpr (mem_map_of_mem (hleft r hr))
    exact count_pos_iff.mp (by omega)

/-- What a listener resolves.  A waiter and a child that can be paired are paired by the
next service; an engine that fails resolves every request that the listener has; and a
listener that closes is finalized by the steps that are due. -/
structure Resolves (sys : AcceptSystem) : Prop where
  pairs : ∀ r ws c cs after, sys.entry.isClosing = false →
    sys.entry.queues = ⟨r :: ws, c :: cs, none⟩ → sys.isCancelled r = false →
    sys.step .service = some after → after.pair = some (r, c)
  terminalizes : ∀ error budget after, sys.entry.queues.line.length ≤ budget →
    sys.step (.terminalize error budget) = some after →
    after.entry.isClosing = true ∧ after.entry.queues.waiters = [] ∧ after.entry.permits = [] ∧
      (∀ r ∈ sys.line, r ∈ after.completed ∧ r ∈ after.returned) ∧
      ∀ r ∈ sys.entry.queues.waiters, (r, WaiterEnd.failed) ∈ after.left
  /-- Unless an engine error has given up the selected pair. -/
  finalizes : sys.entry.isClosing = true → (sys.pair = none → sys.entry.queues.request = []) →
    Machine.Settles step AcceptLabel.due rank (fun rest => rest.entry.finalizationStarted = true)
      sys

end AcceptSystem

end RdmaIo.Engine
