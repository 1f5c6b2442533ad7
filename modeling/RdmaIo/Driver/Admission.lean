/-
How many connections a core of a busy-poll pool can hold at once.

Every connection whose queue pair exists is in use by a task that holds a guard,
or waits in the reclaim queue with the guard that its bundle carries, or waits
there without one.  The guards are bounded by the cap, so one bundle without a
guard is what the depth of the shared completion queues leaves room for.
-/
import RdmaIo.Driver.BusyPool
import RdmaIo.Driver.Routing
import Mathlib.Algebra.Order.BigOperators.Group.List

namespace RdmaIo

open ReadRingConfig
open BusyPool
open List
open CoreWorker (new)

/-- Two predicates that differ at one index only. -/
theorem countP_range_of_eq_off {p q : Nat → Bool} {i n : Nat} (hi : i < n)
    (hoff : ∀ j, j ≠ i → q j = p j) :
    (List.range n).countP q + (p i).toNat = (List.range n).countP p + (q i).toNat := by
  have hbelow : ∀ m ≤ i, (List.range m).countP q = (List.range m).countP p := by
    intro m hm
    apply countP_congr
    intro j hj
    rw [hoff j (by have := mem_range.mp hj; omega)]
  induction n with
  | zero => omega
  | succ n ih =>
    simp only [range_succ, countP_append, countP_singleton]
    by_cases hin : i = n
    · subst hin
      rw [hbelow i le_rfl]
      cases q i <;> cases p i <;> simp
    · rw [hoff n (Ne.symm hin)]
      have := ih (by omega)
      omega

namespace BusyCore

/-- Connections in use by a task. -/
def tasks (core : BusyCore) : Nat :=
  (List.range core.issued).countP core.inUse

/-- Guards held by the bundles of a list. -/
abbrev leases (bundles : List Bundle) : Nat :=
  bundles.countP fun b => b.lease.isSome

abbrev bundles (core : BusyCore) : List Bundle :=
  core.reclaim.map ReclaimEntry.bundle

/-- Nothing that admission counts has changed. -/
structure Keeps (core core' : BusyCore) : Prop where
  issued : core'.issued = core.issued
  reclaim : core'.reclaim = core.reclaim
  inUse : ∀ i, core'.inUse i = core.inUse i
  leased : (∀ i, core.owner i ≠ .transport none) → ∀ i, core'.owner i ≠ .transport none
  present : ∀ i, core'.present i = true → core.present i = true ∨ core.inUse i = true
  capacity : ∀ i d, ((core'.slotOf i).dir d).capacity = ((core.slotOf i).dir d).capacity
  posted : (∀ i d, (core.slotOf i).posted d ≤ ((core.slotOf i).dir d).capacity) →
    ∀ i d, (core'.slotOf i).posted d ≤ ((core'.slotOf i).dir d).capacity

end BusyCore

namespace ConnSlot

/-- A slot with the same number, state and room that posted no more than fits. -/
structure Calm (s t : ConnSlot) : Prop where
  qpNum : t.qpNum = s.qpNum
  state : t.state = s.state
  capacity : ∀ d, (t.dir d).capacity = (s.dir d).capacity
  posted : ∀ d, s.posted d ≤ (s.dir d).capacity → t.posted d ≤ (t.dir d).capacity

variable (s : ConnSlot)

theorem Calm.refl : s.Calm s :=
  ⟨rfl, rfl, fun _ => rfl, fun _ h => h⟩

theorem Calm.trans {s t u : ConnSlot} (hst : s.Calm t) (htu : t.Calm u) : s.Calm u where
  qpNum := htu.qpNum.trans hst.qpNum
  state := htu.state.trans hst.state
  capacity d := (htu.capacity d).trans (hst.capacity d)
  posted d h := htu.posted d (hst.posted d h)

theorem setDir_calm (d : Dir) {ds : DirState} (hcap : ds.capacity = (s.dir d).capacity)
    (hposted : s.posted d ≤ (s.dir d).capacity → ds.posted ≤ ds.capacity) :
    s.Calm (s.setDir d ds) where
  qpNum := rfl
  state := rfl
  capacity e := by
    by_cases he : e = d
    · subst he; simpa [setDir] using hcap
    · simp [setDir, he]
  posted e h := by
    by_cases he : e = d
    · subst he; simpa [ConnSlot.posted, setDir] using hposted h
    · simpa [ConnSlot.posted, setDir, he] using h

theorem drainInbox_calm (d : Dir) (out : Nat) : s.Calm (s.drainInbox d out).2 :=
  s.setDir_calm d rfl id

theorem pollInbox_calm (d : Dir) (out : Nat) : s.Calm (s.pollInbox d out).2 := by
  unfold pollInbox
  split
  · exact .refl s
  · exact s.drainInbox_calm d out

theorem decPosted_calm {s t : ConnSlot} {d : Dir} (h : s.decPosted d = some t) : s.Calm t := by
  unfold decPosted at h
  split at h
  · cases h
  · rw [Option.some.injEq] at h
    subst h
    exact s.setDir_calm d rfl fun hle => le_trans (Nat.sub_le _ _) hle

theorem deliver_calm {s t : ConnSlot} {d : Dir} {wc : Cqe}
    (h : s.deliver d wc = some t) : s.Calm t := by
  unfold deliver at h
  split at h
  · cases h
  · rw [Option.some.injEq] at h
    subst h
    exact s.setDir_calm d rfl id

theorem markFatal_calm (fault : TerminalFault) : s.Calm (s.markFatal fault) :=
  ⟨rfl, rfl, fun _ => rfl, fun _ h => h⟩

end ConnSlot

namespace BusyCore

variable {core core' : BusyCore} {i j : Nat} {d : Dir}

namespace Keeps

theorem refl (core : BusyCore) : core.Keeps core where
  issued := rfl
  reclaim := rfl
  inUse _ := rfl
  leased h := h
  present _ h := .inl h
  capacity _ _ := rfl
  posted h := h

theorem trans {core'' : BusyCore} (h : core.Keeps core') (h' : core'.Keeps core'') :
    core.Keeps core'' where
  issued := h'.issued.trans h.issued
  reclaim := h'.reclaim.trans h.reclaim
  inUse i := (h'.inUse i).trans (h.inUse i)
  leased hl := h'.leased (h.leased hl)
  present i hi := by
    rcases h'.present i hi with hi | hi
    · exact h.present i hi
    · exact .inr ((h.inUse i).symm.trans hi)
  capacity i d := (h'.capacity i d).trans (h.capacity i d)
  posted hp := h'.posted (h.posted hp)

/-- Only the slots changed, each calmly, and parts that admission never reads. -/
theorem of_slots (hissued : core'.issued = core.issued)
    (hreclaim : core'.reclaim = core.reclaim) (howner : core'.owner = core.owner)
    (hslots : core'.slots = core.slots) (hqp : core'.qp = core.qp)
    (hcalm : ∀ i, (core.slotOf i).Calm (core'.slotOf i)) : core.Keeps core' where
  issued := hissued
  reclaim := hreclaim
  inUse i := by rw [BusyCore.inUse, BusyCore.inUse, howner]
  leased h := by rwa [howner]
  present i hi := by
    left
    simpa only [BusyCore.present, hslots, hqp, (hcalm i).qpNum, (hcalm i).state] using hi
  capacity i d := (hcalm i).capacity d
  posted h i d := (hcalm i).posted d (h i d)

theorem setSlot {slot : ConnSlot} (hslot : (core.slotOf i).Calm slot) :
    core.Keeps (core.setSlot i slot) := by
  refine of_slots rfl rfl rfl rfl rfl fun j => ?_
  by_cases hj : j = i
  · subst hj
    rwa [slotOf_setSlot_self]
  · rw [slotOf_setSlot_ne _ _ hj]
    exact .refl _

/-- A connection in use passes to another owner on its core. -/
theorem setOwner {o : Owner} (hi : core.inUse i = true) (ho : o.inUse = true)
    (hnone : o ≠ .transport none) : core.Keeps (core.setOwner i o) where
  issued := rfl
  reclaim := rfl
  inUse j := by
    rw [inUse_setOwner]
    split
    · next hj => rw [ho, hj, hi]
    · rfl
  leased h j := by
    by_cases hj : j = i
    · subst hj
      simpa [BusyCore.setOwner] using hnone
    · simpa [BusyCore.setOwner, hj] using h j
  present _ h := .inl h
  capacity _ _ := rfl
  posted h := h

end Keeps

theorem routeOne_keeps {wc : Cqe} (h : routeOne d core wc = some core') : core.Keeps core' := by
  unfold routeOne at h
  split at h
  · next i _ =>
    rw [Option.map_eq_some_iff] at h
    obtain ⟨slot, hdec, rfl⟩ := h
    have hslot := ConnSlot.decPosted_calm hdec
    have hcount : core.Keeps { core with counted := core.counted ++ [(i, wc)] } :=
      .of_slots rfl rfl rfl rfl rfl fun _ => .refl _
    apply hcount.trans
    dsimp only
    split
    · exact .setSlot hslot
    · split
      · next hdeliver => exact .setSlot (hslot.trans (ConnSlot.deliver_calm hdeliver))
      · exact .setSlot (hslot.trans (slot.markFatal_calm _))
  · rw [Option.some.injEq] at h
    subst h
    exact .of_slots rfl rfl rfl rfl rfl fun _ => .refl _

theorem routeInto_keeps {batch : List Cqe} (h : routeInto d batch core = some core') :
    core.Keeps core' := by
  induction batch generalizing core with
  | nil =>
    rw [routeInto, Option.some.injEq] at h
    exact h ▸ .refl core
  | cons _ _ ih =>
    rw [routeInto, Option.bind_eq_some_iff] at h
    obtain ⟨_, hone, hrest⟩ := h
    exact (routeOne_keeps hone).trans (ih hrest)

theorem sweep_keeps (core : BusyCore) (d : Dir) (polled : Option Nat) :
    core.Keeps (core.sweep d polled) := by
  cases polled with
  | none =>
    refine .of_slots rfl rfl rfl rfl rfl fun i => ?_
    simp only [sweep, failAllSlots]
    split
    · exact ConnSlot.markFatal_calm _ _
    · exact .refl _
  | some n =>
    have hpolled : core.Keeps { core with cq := Function.update core.cq d ((core.cq d).drop n) } :=
      .of_slots rfl rfl rfl rfl rfl fun _ => .refl _
    simp only [sweep]
    cases hroute : routeInto d ((core.cq d).take n)
        { core with cq := Function.update core.cq d ((core.cq d).drop n) } with
    | none => exact .of_slots rfl rfl rfl rfl rfl fun _ => .refl _
    | some => exact hpolled.trans (routeInto_keeps hroute)

theorem tasks_setOwner (core : BusyCore) (o : Owner) (hi : i < core.issued) :
    (core.setOwner i o).tasks + (core.inUse i).toNat = core.tasks + o.inUse.toNat := by
  have hself : (core.setOwner i o).inUse i = o.inUse := by
    rw [inUse_setOwner, if_pos rfl]
  rw [← hself]
  apply countP_range_of_eq_off hi
  intro j hj
  rw [inUse_setOwner, if_neg hj]

theorem tasks_preparePending {qpNum : Nat} (sendCap recvCap : Nat)
    (hfree : core.slots qpNum = none) :
    (core.preparePending qpNum sendCap recvCap).tasks = core.tasks + 1 := by
  rw [preparePending_of_free _ _ hfree, tasks, tasks, range_succ, countP_append]
  congr 1
  · apply countP_congr
    intro j hj
    simp only [inUse, Function.update_of_ne (ne_of_lt (mem_range.mp hj))]
  · simp [inUse, Owner.inUse]

theorem Keeps.tasks (h : core.Keeps core') : core'.tasks = core.tasks := by
  rw [BusyCore.tasks, BusyCore.tasks, h.issued]
  exact countP_congr fun i _ => by rw [h.inUse]

/-- What reclaiming the bundles in hand changes: a bundle is kept or freed, and
a freed connection is no longer present. -/
structure Reclaims (core : BusyCore) (hand : List Bundle) (core' : BusyCore) : Prop where
  issued : core'.issued = core.issued
  inUse : ∀ i, core'.inUse i = core.inUse i
  leased : (∀ i, core.owner i ≠ .transport none) → ∀ i, core'.owner i ≠ .transport none
  present : ∀ i, core'.present i = true → core.present i = true
  cover : ∀ i, core'.present i = true → i ∈ (core.bundles ++ hand).map Bundle.conn →
    i ∈ core'.bundles.map Bundle.conn
  capacity : ∀ i d, ((core'.slotOf i).dir d).capacity = ((core.slotOf i).dir d).capacity
  posted : ∀ i d, (core'.slotOf i).posted d = (core.slotOf i).posted d
  freed : ∃ freed, core'.released = core.released ++ freed ∧
    (core'.bundles ++ freed).Perm (core.bundles ++ hand)

theorem present_unregister {q : Nat} (h : (core.unregister q).present i = true) :
    core.present i = true := by
  simp only [present, Bool.or_eq_true, Bool.and_eq_true, beq_iff_eq] at h ⊢
  apply h.imp id
  rintro ⟨hslot, hstate⟩
  refine ⟨?_, hstate⟩
  by_cases hq : (core.slotOf i).qpNum = q
  · simp [unregister, hq] at hslot
  · simpa [unregister, hq] using hslot

theorem present_freed {b : Bundle} (h : (core.freed b).present i = true) :
    i ≠ b.conn ∧ core.present i = true := by
  by_cases hi : i = b.conn
  · subst hi
    simp [present, freed, destroyQp, setSlot, ConnSlot.retire, ConnSlot.setState] at h
  · refine ⟨hi, ?_⟩
    simpa [present, freed, destroyQp, setSlot, setOwner, hi] using h

theorem discardInbox_calm (s : ConnSlot) (d : Dir) : s.Calm (s.discardInbox d) :=
  s.setDir_calm d rfl id

theorem emptied_calm (core : BusyCore) (i : Nat) : (core.slotOf i).Calm (core.emptied i) :=
  (discardInbox_calm _ _).trans (discardInbox_calm _ _)

/-- A slot replaced by the emptied one, whatever its state and generation. -/
theorem emptied_slot {slot : ConnSlot} (hdir : slot.dir = (core.emptied i).dir)
    (j : Nat) (d : Dir) : (((core.setSlot i slot).slotOf j).dir d).capacity =
        ((core.slotOf j).dir d).capacity ∧
      ((core.setSlot i slot).slotOf j).posted d = (core.slotOf j).posted d := by
  by_cases hj : j = i
  · subst hj
    rw [slotOf_setSlot_self, ConnSlot.posted, hdir]
    exact ⟨(core.emptied_calm j).capacity d, (core.emptied_sameAccounts j).posted d⟩
  · rw [slotOf_setSlot_ne _ _ hj]
    exact ⟨rfl, rfl⟩

theorem leased_setOwner {o : Owner} (ho : o ≠ .transport none)
    (h : ∀ i, core.owner i ≠ .transport none) (j : Nat) :
    (core.setOwner i o).owner j ≠ .transport none := by
  by_cases hj : j = i
  · subst hj
    simpa [setOwner] using ho
  · simpa [setOwner, hj] using h j

theorem freed_slot (core : BusyCore) (b : Bundle) (j : Nat) (d : Dir) :
    (((core.freed b).slotOf j).dir d).capacity = ((core.slotOf j).dir d).capacity ∧
      ((core.freed b).slotOf j).posted d = (core.slotOf j).posted d := by
  have hdir : (((core.emptied b.conn).setState .drained).retire).dir =
      (core.emptied b.conn).dir := rfl
  exact emptied_slot hdir j d

theorem freed_reclaims {b : Bundle} (hb : core.inUse b.conn = false) :
    core.Reclaims [b] (core.freed b) where
  issued := rfl
  inUse j := by
    refine (inUse_setOwner core b.conn j .nobody).trans ?_
    split
    · next hj => exact hj ▸ hb.symm
    · rfl
  leased h := leased_setOwner (by simp) h
  present _ h := (present_freed h).2
  cover j hj hmem := by
    rw [map_append, mem_append] at hmem
    rcases hmem with hmem | hmem
    · exact hmem
    · exact absurd (mem_singleton.mp hmem) (present_freed hj).1
  capacity j d := (core.freed_slot b j d).1
  posted j d := (core.freed_slot b j d).2
  freed := ⟨[b], rfl, Perm.refl _⟩

theorem reclaimEntry_reclaims (budget : Nat) {entry : ReclaimEntry}
    (hentry : core.inUse entry.bundle.conn = false) :
    core.Reclaims [entry.bundle] (core.reclaimEntry budget entry) := by
  have hfreed := freed_reclaims hentry
  cases hdone : (core.emptied entry.bundle.conn).drainComplete with
  | true =>
    rw [reclaimEntry_of_drained hdone]
    exact { hfreed with
      present := fun j hj => hfreed.present j (present_unregister hj)
      cover := fun j hj => hfreed.cover j (present_unregister hj) }
  | false =>
    by_cases hturns : entry.turns + 1 < budget
    · rw [reclaimEntry_of_kept hdone hturns]
      have hkeeps : core.Keeps (core.setSlot entry.bundle.conn
          (core.emptied entry.bundle.conn)) := .setSlot (core.emptied_calm _)
      have hpresent : ∀ j, (core.setSlot entry.bundle.conn
          (core.emptied entry.bundle.conn)).present j = core.present j := by
        intro j
        by_cases hj : j = entry.bundle.conn
        · subst hj
          simp only [present, slotOf_setSlot_self, (core.emptied_calm _).qpNum,
            (core.emptied_calm _).state]
          rfl
        · simp only [present, slotOf_setSlot_ne _ _ hj]
          rfl
      exact
        { issued := rfl
          inUse := fun _ => rfl
          leased := fun h => h
          present := fun j hj => (hpresent j).symm.trans hj
          cover := fun j _ hmem => by simpa using hmem
          capacity := hkeeps.capacity
          posted := fun j d => (emptied_slot rfl j d).2
          freed := ⟨[], (append_nil _).symm, by
            simp only [bundles, append_nil, map_append, map_cons, map_nil]
            exact Perm.refl _⟩ }
    · rw [reclaimEntry_of_wedged hdone hturns]
      exact hfreed

theorem Reclaims.append {core'' : BusyCore} {hand rest : List Bundle} (h : core.Reclaims hand core')
    (h' : core'.Reclaims rest core'') : core.Reclaims (hand ++ rest) core'' where
  issued := h'.issued.trans h.issued
  inUse i := (h'.inUse i).trans (h.inUse i)
  leased hl := h'.leased (h.leased hl)
  present i hi := h.present i (h'.present i hi)
  cover i hi hmem := by
    apply h'.cover i hi
    rw [← append_assoc, map_append, mem_append] at hmem
    rw [map_append, mem_append]
    exact hmem.imp (h.cover i (h'.present i hi)) id
  capacity i d := (h'.capacity i d).trans (h.capacity i d)
  posted i d := (h'.posted i d).trans (h.posted i d)
  freed := by
    obtain ⟨freed, hreleased, hperm⟩ := h.freed
    obtain ⟨freed', hreleased', hperm'⟩ := h'.freed
    refine ⟨freed ++ freed', by rw [hreleased', hreleased, append_assoc], ?_⟩
    calc (core''.bundles ++ (freed ++ freed')).Perm (core''.bundles ++ freed' ++ freed) := by
            rw [append_assoc]
            exact perm_append_comm.append_left _
      _ |>.Perm (core'.bundles ++ rest ++ freed) := hperm'.append_right _
      _ |>.Perm (core'.bundles ++ freed ++ rest) := by
            rw [append_assoc, append_assoc]
            exact perm_append_comm.append_left _
      _ |>.Perm (core.bundles ++ hand ++ rest) := hperm.append_right _
      _ = core.bundles ++ (hand ++ rest) := append_assoc _ _ _

theorem foldl_reclaims (budget : Nat) (entries : List ReclaimEntry)
    (hidle : ∀ e ∈ entries, core.inUse e.bundle.conn = false) :
    core.Reclaims (entries.map ReclaimEntry.bundle)
      (entries.foldl (reclaimEntry budget) core) := by
  induction entries generalizing core with
  | nil =>
    exact
      { issued := rfl
        inUse := fun _ => rfl
        leased := fun h => h
        present := fun _ h => h
        cover := fun _ _ h => by simpa using h
        capacity := fun _ _ => rfl
        posted := fun _ _ => rfl
        freed := ⟨[], (append_nil _).symm, Perm.refl _⟩ }
  | cons entry _ ih =>
    have hone := reclaimEntry_reclaims budget (hidle entry mem_cons_self)
    apply hone.append
    apply ih
    intro e he
    rw [hone.inUse]
    exact hidle e (mem_cons_of_mem _ he)

theorem processReclaim_reclaims (budget : Nat)
    (hidle : ∀ e ∈ core.reclaim, core.inUse e.bundle.conn = false) :
    { core with reclaim := [] }.Reclaims core.bundles (core.processReclaim budget) :=
  @foldl_reclaims { core with reclaim := [] } budget core.reclaim hidle

theorem unleased_eq (core : BusyCore) :
    core.unleased = core.bundles.countP fun b => b.lease.isNone := by
  rw [unleased, bundles, countP_map]
  rfl

theorem bundles_length (core : BusyCore) :
    core.bundles.length = leases core.bundles + core.unleased := by
  rw [unleased_eq, leases, length_eq_countP_add_countP fun b : Bundle => b.lease.isSome]
  congr 1
  apply countP_congr
  intro b _
  cases b.lease <;> simp

end BusyCore

open BusyCore (leases setOwner init present inUse setSlot tasks pushReclaim bundles
  unleased_eq inUse_of_owner leased_setOwner inUse_setOwner destroyQp unregister flush)

namespace CoreWorker

/-- Guards, owners and bundles of a worker add up. -/
structure Accounted (config : ReadRingConfig) (deviceLimit : Nat) (w : CoreWorker) : Prop where
  issued : ∀ i, w.core.inUse i = true → i < w.core.issued
  leased : ∀ i, w.core.owner i ≠ .transport none
  idle : ∀ b ∈ w.core.bundles, b.conn < w.core.issued ∧ w.core.inUse b.conn = false
  places : ∀ i, i < w.core.issued → w.core.present i = true →
    w.core.inUse i = true ∨ i ∈ w.core.bundles.map Bundle.conn
  balance : w.admitted = w.overCap + (w.starting + w.core.tasks + BusyCore.leases w.core.bundles)
  capped : w.starting + w.core.tasks + BusyCore.leases w.core.bundles ≤ w.cap
  unleased : w.core.unleased ≤ 1
  posted : ∀ i d, (w.core.slotOf i).posted d ≤ ((w.core.slotOf i).dir d).capacity
  capacity : ∀ i, i < w.core.issued → ∀ d,
    ((w.core.slotOf i).dir d).capacity ≤ config.wrDepth deviceLimit d

variable {config : ReadRingConfig} {deviceLimit : Nat} {w w' : CoreWorker}
  {core : BusyCore} {i : Nat}

theorem accounted_new (config : ReadRingConfig) (deviceLimit cap : Nat) :
    (new cap).Accounted config deviceLimit where
  issued := by simp [new, init, inUse, Owner.inUse]
  leased := by simp [new, init]
  idle := by simp [new, init]
  places := by simp [new, init]
  balance := by simp [new, init, tasks]
  capped := by simp [new, init, tasks]
  unleased := by simp [new, init, BusyCore.unleased]
  posted i d := by cases d <;> simp [new, init, ConnSlot.new, ConnSlot.posted]
  capacity := by simp [new, init]

namespace Accounted

variable (h : w.Accounted config deviceLimit)

include h

theorem keeps (hk : w.core.Keeps core) : { w with core }.Accounted config deviceLimit where
  issued i hi := by
    rw [hk.issued]
    exact h.issued i ((hk.inUse i).symm.trans hi)
  leased := hk.leased h.leased
  idle b hb := by
    rw [bundles, hk.reclaim] at hb
    rw [hk.issued, hk.inUse]
    exact h.idle b hb
  places i hi hp := by
    rw [hk.inUse, bundles, hk.reclaim]
    rw [hk.issued] at hi
    rcases hk.present i hp with hp | hu
    · exact h.places i hi hp
    · exact .inl hu
  balance := by
    rw [hk.tasks, bundles, hk.reclaim]
    exact h.balance
  capped := by
    rw [hk.tasks, bundles, hk.reclaim]
    exact h.capped
  unleased := by
    rw [BusyCore.unleased, hk.reclaim]
    exact h.unleased
  posted := hk.posted h.posted
  capacity i hi d := by
    rw [hk.issued] at hi
    rw [hk.capacity]
    exact h.capacity i hi d

/-- The connection leaves the hands of its task, which holds one guard. -/
theorem tasks_release {o : Owner} (hi : w.core.inUse i = true) (ho : o.inUse = false) :
    (w.core.setOwner i o).tasks + 1 = w.core.tasks := by
  have := w.core.tasks_setOwner o (h.issued i hi)
  rw [hi, ho] at this
  simpa using this

theorem starting_lt (hi : w.core.inUse i = true) : 0 < w.core.tasks ∧ 0 < w.admitted := by
  have htasks : 0 < w.core.tasks :=
    countP_pos_iff.mpr ⟨i, mem_range.mpr (h.issued i hi), hi⟩
  have := h.balance
  omega

/-- A bundle goes to the reclaim queue, with the guard of its task or without;
in that case the guard is dropped. -/
theorem handOff (hi : w.core.inUse i = true) {lease : Option Nat} {admitted : Nat}
    (hadmitted : admitted + 1 = w.admitted + lease.isSome.toNat)
    (halone : lease = none → w.core.unleased = 0) :
    { w with core := w.core.handOff i lease, admitted }.Accounted config
      deviceLimit := by
  have htasks : (w.core.handOff i lease).tasks + 1 = w.core.tasks :=
    h.tasks_release hi rfl
  have hbundles : (w.core.handOff i lease).bundles = w.core.bundles ++ [⟨i, lease⟩] := by
    simp [bundles, BusyCore.handOff, pushReclaim, setOwner, setSlot]
  have hinUse : ∀ j, (w.core.handOff i lease).inUse j =
      if j = i then false else w.core.inUse j :=
    fun j => inUse_setOwner w.core i j .driver
  have hleases : leases (w.core.bundles ++ [⟨i, lease⟩]) =
      leases w.core.bundles + lease.isSome.toNat := by
    cases lease <;> simp [leases, countP_append]
  have hbalance := h.balance
  have hcapped := h.capped
  have hone : lease.isSome.toNat ≤ 1 := Bool.toNat_le _
  exact
    { issued := fun j hj => by
        rw [hinUse] at hj
        split at hj
        · cases hj
        · exact h.issued j hj
      leased := leased_setOwner (by simp) h.leased
      idle := fun b hb => by
        rw [hbundles] at hb
        rw [hinUse]
        rcases mem_append.mp hb with hb | hb
        · refine ⟨(h.idle b hb).1, ?_⟩
          split
          · rfl
          · exact (h.idle b hb).2
        · rw [mem_singleton.mp hb, if_pos rfl]
          exact ⟨h.issued i hi, rfl⟩
      places := fun j hj hp => by
        rw [hbundles, hinUse, map_append, mem_append]
        by_cases hji : j = i
        · subst hji
          simp
        · rw [if_neg hji]
          have hold : w.core.present j = true := by
            simpa [present, BusyCore.handOff, pushReclaim, setOwner, setSlot, hji] using hp
          exact (h.places j hj hold).imp id .inl
      balance := by
        rw [hbundles, hleases]
        show admitted = w.overCap + (w.starting + (w.core.handOff i lease).tasks + _)
        omega
      capped := by
        rw [hbundles, hleases]
        show w.starting + (w.core.handOff i lease).tasks + _ ≤ w.cap
        omega
      unleased := by
        rw [unleased_eq, hbundles, countP_append, ← unleased_eq]
        cases lease with
        | none => simp [halone rfl]
        | some => simpa using h.unleased
      posted := fun j d => by
        by_cases hji : j = i
        · subst hji
          simpa [BusyCore.handOff, pushReclaim, setOwner,
            setSlot, ConnSlot.setState, ConnSlot.posted] using h.posted j d
        · simpa [BusyCore.handOff, pushReclaim, setOwner, setSlot, hji] using h.posted j d
      capacity := fun j hj d => by
        by_cases hji : j = i
        · subst hji
          simpa [BusyCore.handOff, pushReclaim, setOwner,
            setSlot, ConnSlot.setState] using h.capacity j hj d
        · simpa [BusyCore.handOff, pushReclaim, setOwner, setSlot, hji] using h.capacity j hj d }

/-- A setup fails before its CM connection is attached: the queue pair is
destroyed and its number leaves the map before the guard is dropped. -/
theorem dropPending (hi : w.core.inUse i = true) (flushed : Dir → Nat) :
    { w with
      core := w.core.dropPending i false flushed
      admitted := w.admitted - 1 }.Accounted config deviceLimit := by
  have htasks : (w.core.dropPending i false flushed).tasks + 1 = w.core.tasks :=
    h.tasks_release hi rfl
  have hinUse : ∀ j, (w.core.dropPending i false flushed).inUse j =
      if j = i then false else w.core.inUse j :=
    fun j => inUse_setOwner w.core i j .nobody
  have hbalance := h.balance
  have hcapped := h.capped
  have hpos := h.starting_lt hi
  exact { h with
      issued := fun j hj => by
        rw [hinUse] at hj
        split at hj
        · cases hj
        · exact h.issued j hj
      leased := leased_setOwner (by simp) h.leased
      idle := fun b hb => by
        refine ⟨(h.idle b hb).1, ?_⟩
        rw [hinUse]
        split
        · rfl
        · exact (h.idle b hb).2
      places := fun j hj hp => by
        have hji : j ≠ i := by
          rintro rfl
          simp [present, BusyCore.dropPending, setOwner, destroyQp, unregister, flush] at hp
        rw [hinUse, if_neg hji]
        apply h.places j hj
        have hout : (w.core.unregister (w.core.slotOf i).qpNum).present j = true := by
          simpa [present, BusyCore.dropPending, setOwner,
            destroyQp, unregister, flush, hji] using hp
        exact BusyCore.present_unregister hout
      balance := by
        show w.admitted - 1 = w.overCap + (w.starting + (w.core.dropPending i false flushed).tasks +
            leases w.core.bundles)
        omega
      capped := by
        show w.starting + (w.core.dropPending i false flushed).tasks + leases w.core.bundles ≤ w.cap
        omega }

theorem preparePending (qpNum : Nat) (hstarting : 0 < w.starting)
    (hfree : w.core.slots qpNum = none) :
    { w with
      core := w.core.preparePending qpNum (config.wrDepth deviceLimit .send)
        (config.wrDepth deviceLimit .recv)
      starting := w.starting - 1 }.Accounted config deviceLimit := by
  have htasks := BusyCore.tasks_preparePending (config.wrDepth deviceLimit .send)
    (config.wrDepth deviceLimit .recv) hfree
  rw [BusyCore.preparePending_of_free _ _ hfree] at htasks ⊢
  have hlt : ∀ b ∈ w.core.bundles, b.conn ≠ w.core.issued :=
    fun b hb => ne_of_lt (h.idle b hb).1
  have hbalance := h.balance
  have hcapped := h.capped
  exact
    { issued := fun j hj => by
        by_cases hji : j = w.core.issued
        · subst hji
          exact Nat.lt_succ_self _
        · simp only [inUse, Function.update_of_ne hji] at hj
          exact Nat.lt_succ_of_lt (h.issued j hj)
      leased := leased_setOwner (by simp) h.leased
      idle := fun b hb => by
        simp only [inUse, Function.update_of_ne (hlt b hb)]
        exact ⟨Nat.lt_succ_of_lt (h.idle b hb).1, (h.idle b hb).2⟩
      places := fun j hj hp => by
        by_cases hji : j = w.core.issued
        · subst hji
          left
          simp [inUse, Owner.inUse]
        · simp only [inUse, present, Function.update_of_ne hji] at hp ⊢
          have hold : w.core.present j = true := by
            by_cases hq : (w.core.slotOf j).qpNum = qpNum
            · have hqp : w.core.qp j = true := by simpa [hq, Ne.symm hji] using hp
              simp [present, hqp]
            · simpa [present, hq] using hp
          exact h.places j (by
            have : j < w.core.issued + 1 := hj
            omega) hold
      balance := by
        rw [htasks]
        show w.admitted = w.overCap + (w.starting - 1 + (w.core.tasks + 1) + leases w.core.bundles)
        omega
      capped := by
        rw [htasks]
        show w.starting - 1 + (w.core.tasks + 1) + leases w.core.bundles ≤ w.cap
        omega
      unleased := h.unleased
      posted := fun j d => by
        by_cases hji : j = w.core.issued
        · subst hji
          cases d <;> simp [ConnSlot.posted, ConnSlot.incPosted, ConnSlot.setDir,
            ConnSlot.new, wrDepth]
        · simpa [hji] using h.posted j d
      capacity := fun j hj d => by
        by_cases hji : j = w.core.issued
        · subst hji
          cases d <;> simp [ConnSlot.incPosted, ConnSlot.setDir, ConnSlot.new]
        · simp only [Function.update_of_ne hji]
          exact h.capacity j (by
            have : j < w.core.issued + 1 := hj
            omega) d }

theorem processReclaim (budget : Nat) :
    { w with
      core := w.core.processReclaim budget
      admitted := w.admitted - ((w.core.processReclaim budget).released.drop
        w.core.released.length).countP fun b : Bundle => b.lease.isSome }.Accounted config
      deviceLimit := by
  have hidle : ∀ e ∈ w.core.reclaim, w.core.inUse e.bundle.conn = false :=
    fun e he => (h.idle e.bundle (mem_map_of_mem he)).2
  have hpass := BusyCore.processReclaim_reclaims budget hidle
  obtain ⟨freed, hreleased, hperm⟩ := hpass.freed
  have hcount : ∀ p : Bundle → Bool, (w.core.processReclaim budget).bundles.countP p +
      freed.countP p = w.core.bundles.countP p := by
    intro p
    rw [← countP_append, hperm.countP_eq]
    rfl
  have htasks : (w.core.processReclaim budget).tasks = w.core.tasks := by
    rw [tasks, tasks, hpass.issued]
    exact countP_congr fun i _ => by rw [hpass.inUse]; rfl
  have hdropped : (w.core.processReclaim budget).released.drop w.core.released.length = freed := by
    rw [hreleased]
    exact drop_left
  have hbalance := h.balance
  have hcapped := h.capped
  have hleases : leases (w.core.processReclaim budget).bundles +
      leases freed = leases w.core.bundles := hcount _
  have hunleased : (w.core.processReclaim budget).unleased ≤ w.core.unleased := by
    rw [unleased_eq, unleased_eq, ← hcount]
    exact Nat.le_add_right _ _
  rw [hdropped]
  exact
    { issued := fun i hi => by
        rw [hpass.issued]
        exact h.issued i ((hpass.inUse i).symm.trans hi)
      leased := hpass.leased h.leased
      idle := fun b hb => by
        rw [hpass.issued, hpass.inUse]
        exact h.idle b (by simpa using hperm.subset (mem_append_left _ hb))
      places := fun i hi hp => by
        rw [hpass.issued] at hi
        rw [hpass.inUse]
        rcases h.places i hi (hpass.present i hp) with hu | hmem
        · exact .inl hu
        · exact .inr (hpass.cover i hp (by simpa using hmem))
      balance := by
        rw [htasks]
        show w.admitted - leases freed = w.overCap + (w.starting + w.core.tasks +
            leases (w.core.processReclaim budget).bundles)
        omega
      capped := by
        rw [htasks]
        show w.starting + w.core.tasks + leases (w.core.processReclaim budget).bundles ≤ w.cap
        omega
      unleased := hunleased.trans h.unleased
      posted := fun i d => by
        rw [hpass.posted, hpass.capacity]
        exact h.posted i d
      capacity := fun i hi d => by
        rw [hpass.issued] at hi
        rw [hpass.capacity]
        exact h.capacity i hi d }

/-- Every present connection is in use or in the reclaim queue. -/
theorem present_le : w.core.presentConns.length ≤ w.cap + 1 := by
  have hsub : w.core.presentConns ⊆ (List.range w.core.issued).filter w.core.inUse ++
      w.core.bundles.map Bundle.conn := by
    intro i hi
    obtain ⟨hrange, hpresent⟩ := mem_filter.mp hi
    rw [mem_append, mem_filter]
    exact (h.places i (mem_range.mp hrange) hpresent).imp (fun hu => ⟨hrange, hu⟩) id
  have hnodup : w.core.presentConns.Nodup := nodup_range.filter _
  have hle := (subperm_of_subset hnodup hsub).length_le
  rw [length_append, length_map, ← countP_eq_length_filter] at hle
  calc w.core.presentConns.length ≤ w.core.tasks + w.core.bundles.length := hle
    _ = w.core.tasks + leases w.core.bundles + w.core.unleased := by
        rw [w.core.bundles_length, add_assoc]
    _ ≤ w.cap + 1 :=
        Nat.add_le_add ((Nat.add_le_add_right (Nat.le_add_left _ _) _).trans h.capped) h.unleased

theorem outstanding_le (d : Dir) :
    w.core.outstanding d ≤ (w.cap + 1) * config.wrDepth deviceLimit d := by
  have hsum := sum_le_card_nsmul (w.core.presentConns.map fun i => (w.core.slotOf i).posted d)
    (config.wrDepth deviceLimit d) (by
      intro n hn
      obtain ⟨i, hi, rfl⟩ := mem_map.mp hn
      have hrange := mem_range.mp (mem_filter.mp hi).1
      exact (h.posted i d).trans (h.capacity i hrange d))
  rw [length_map, Nat.nsmul_eq_mul] at hsum
  exact hsum.trans (Nat.mul_le_mul_right _ h.present_le)

theorem setupCompletes (hstep : w.step deviceLimit (.setupCompletes i) = some w') :
    w'.Accounted config deviceLimit := by
  simp only [CoreWorker.step, onCore, BusyCore.step, Option.bind_eq_some_iff,
    Option.map_eq_some_iff, Option.ite_none_right_eq_some, Option.some.injEq] at hstep
  obtain ⟨_, ⟨_, ⟨hown, rfl⟩, rfl⟩, _, ⟨_, rfl⟩, rfl⟩ := hstep
  have hi := inUse_of_owner hown rfl
  -- both owners are tasks of this core, and the slot only changes its state
  have hestablished : w.core.Keeps (w.core.setSlot i ((w.core.slotOf i).setState .established)) :=
    { issued := rfl
      reclaim := rfl
      inUse := fun _ => rfl
      leased := fun hl => hl
      present := fun j hj => by
        by_cases hji : j = i
        · exact .inr (hji ▸ hi)
        · left
          simpa [present, setSlot, hji] using hj
      capacity := fun j d => by
        by_cases hji : j = i
        · subst hji; rw [BusyCore.slotOf_setSlot_self]; rfl
        · rw [BusyCore.slotOf_setSlot_ne _ _ hji]
      posted := fun hp j d => by
        by_cases hji : j = i
        · subst hji; rw [BusyCore.slotOf_setSlot_self]; exact hp j d
        · rw [BusyCore.slotOf_setSlot_ne _ _ hji]; exact hp j d }
  have howner : (w.core.setSlot i ((w.core.slotOf i).setState .established)).Keeps
      ((w.core.setSlot i ((w.core.slotOf i).setState .established)).setOwner i
        (.transport (some i))) := .setOwner hi rfl (by simp)
  have hboth := h.keeps (hestablished.trans howner)
  simpa [setOwner] using hboth

theorem admission {l : WorkerLabel} (hadmission : l = .fetchAdd ∨ l = .fetchSub ∨ l = .setupEnds)
    (hstep : w.step deviceLimit l = some w') :
    w'.Accounted config deviceLimit ∧ w'.cap = w.cap := by
  have hbalance := h.balance
  have hcapped := h.capped
  rcases hadmission with rfl | rfl | rfl
  · simp only [CoreWorker.step] at hstep
    split at hstep
    all_goals
      rw [Option.some.injEq] at hstep
      subst hstep
      exact ⟨{ h with
        balance := by dsimp only; omega
        capped := by dsimp only; omega }, rfl⟩
  · simp only [CoreWorker.step, Option.ite_none_right_eq_some, Option.some.injEq] at hstep
    obtain ⟨_, rfl⟩ := hstep
    exact ⟨{ h with balance := by dsimp only; omega }, rfl⟩
  · simp only [CoreWorker.step, Option.ite_none_right_eq_some, Option.some.injEq] at hstep
    obtain ⟨_, rfl⟩ := hstep
    exact ⟨{ h with
      balance := by dsimp only; omega
      capped := by dsimp only; omega }, rfl⟩

/-- A label of the core that admission does not notice. -/
theorem quiet {l : CoreLabel} (hstep : w.onCore l = some w')
    (hk : ∀ core, w.core.step l = some core → w.core.Keeps core) :
    w'.Accounted config deviceLimit ∧ w'.cap = w.cap := by
  rw [onCore, Option.map_eq_some_iff] at hstep
  obtain ⟨core, hcore, rfl⟩ := hstep
  exact ⟨h.keeps (hk core hcore), rfl⟩

theorem step {l : WorkerLabel} (hl : w.Covered config l) (hstep : w.step deviceLimit l = some w') :
    w'.Accounted config deviceLimit ∧ w'.cap = w.cap := by
  cases l with
  | fetchAdd => exact h.admission (.inl rfl) hstep
  | fetchSub => exact h.admission (.inr (.inl rfl)) hstep
  | setupEnds => exact h.admission (.inr (.inr rfl)) hstep
  | preparePending qpNum c =>
    obtain rfl : c = config := hl
    simp only [CoreWorker.step, BusyCore.step, Option.ite_none_right_eq_some,
      Option.map_eq_some_iff, Option.some.injEq] at hstep
    obtain ⟨⟨hstarting, hfree⟩, _, ⟨_, rfl⟩, rfl⟩ := hstep
    exact ⟨h.preparePending qpNum hstarting hfree, rfl⟩
  | setupCompletes =>
    refine ⟨h.setupCompletes hstep, ?_⟩
    simp only [CoreWorker.step, onCore, Option.bind_eq_some_iff, Option.map_eq_some_iff] at hstep
    obtain ⟨_, ⟨_, _, rfl⟩, _, _, rfl⟩ := hstep
    rfl
  | setupFails _ flushed =>
    simp only [CoreWorker.step, onCore, BusyCore.step, Option.map_eq_some_iff] at hstep
    obtain ⟨_, ⟨core, hcore, rfl⟩, rfl⟩ := hstep
    split at hcore
    · next cm hown =>
      simp only [Option.ite_none_right_eq_some, Option.some.injEq] at hcore
      obtain ⟨_, rfl⟩ := hcore
      have hi := inUse_of_owner hown rfl
      have hpos := (h.starting_lt hi).2
      cases cm with
      | true => exact ⟨h.handOff hi (by simp; omega) fun _ => hl hown, rfl⟩
      | false => exact ⟨h.dropPending hi flushed, rfl⟩
    · cases hcore
  | attachCm =>
    apply h.quiet hstep
    intro core hcore
    obtain ⟨hown, rfl⟩ := Machine.of_guard hcore
    exact .setOwner (inUse_of_owner hown rfl) rfl (by simp)
  | post i d =>
    apply h.quiet hstep
    intro core hcore
    obtain ⟨⟨_, hroom⟩, rfl⟩ := Machine.of_guard hcore
    have hcalm : (w.core.slotOf i).Calm ((w.core.slotOf i).incPosted d) :=
      ConnSlot.setDir_calm _ d rfl fun _ => hroom
    exact (BusyCore.Keeps.setSlot hcalm).trans (.of_slots rfl rfl rfl rfl rfl fun _ => .refl _)
  | complete =>
    apply h.quiet hstep
    intro core hcore
    obtain ⟨_, rfl⟩ := Machine.of_guard hcore
    exact .of_slots rfl rfl rfl rfl rfl fun _ => .refl _
  | pollInbox _ d out =>
    apply h.quiet hstep
    intro core hcore
    obtain ⟨_, rfl⟩ := Machine.of_guard hcore
    exact .setSlot (ConnSlot.pollInbox_calm _ d out)
  | drainInbox _ d out =>
    apply h.quiet hstep
    intro core hcore
    obtain ⟨_, rfl⟩ := Machine.of_guard hcore
    exact .setSlot (ConnSlot.drainInbox_calm _ d out)
  | appEnds i =>
    simp only [CoreWorker.step, onCore, BusyCore.step, Option.map_eq_some_iff] at hstep
    obtain ⟨core, hcore, rfl⟩ := hstep
    split at hcore
    · next lease hown =>
      rw [Option.some.injEq] at hcore
      subst hcore
      cases lease with
      | none => exact absurd hown (h.leased i)
      | some =>
        exact ⟨h.handOff (inUse_of_owner hown rfl) rfl (by simp), rfl⟩
    · cases hcore
  | sweep d polled =>
    apply h.quiet hstep
    intro core hcore
    obtain ⟨_, rfl⟩ := Machine.of_guard hcore
    exact w.core.sweep_keeps d polled
  | processReclaim =>
    simp only [CoreWorker.step, BusyCore.step, Option.map_eq_some_iff,
      Option.ite_none_left_eq_some, Option.some.injEq] at hstep
    obtain ⟨_, ⟨_, rfl⟩, rfl⟩ := hstep
    exact ⟨h.processReclaim _, rfl⟩

end Accounted

end CoreWorker

namespace BusyPool

/-- Every worker accounts for its guards against the cap of the pool, and the
shared queues are as deep as `cap + 1` connections need. -/
structure Bounded (config : ReadRingConfig) (connsPerCore : Nat) (pool : BusyPool) : Prop where
  workers : ∀ w ∈ pool.workers, w.Accounted config pool.deviceLimit ∧ w.cap = connsPerCore
  depth : ∀ d, pool.depth d = ((connsPerCore + 1) * config.wrDepth pool.deviceLimit d : Nat)

theorem asI32_of_lt {n : Nat} (h : n < 2 ^ 31) : asI32 n = n := by
  apply Int.bmod_eq_of_le <;> omega

theorem asI32_lt (n : Int) : asI32 n < 2 ^ 31 :=
  Int.bmod_lt (by decide)

/-- The depth that `with_config` computes is exact while it fits in `i32`. -/
theorem depth_exact {slots wrs : Nat} (hwrs : 0 < wrs) (hfits : slots * wrs < 2 ^ 31) :
    asI32 (asI32 (slots % 2 ^ 64 : Nat) * asI32 wrs) = (slots * wrs : Nat) := by
  have hslots : slots < 2 ^ 31 :=
    lt_of_le_of_lt (Nat.le_mul_of_pos_right slots hwrs) hfits
  rcases Nat.eq_zero_or_pos slots with rfl | hpos
  · rw [Nat.zero_mod, asI32_of_lt (by omega)]
    simp [asI32]
  · have hwrs' : wrs < 2 ^ 31 :=
      lt_of_le_of_lt (Nat.le_mul_of_pos_left wrs hpos) hfits
    rw [Nat.mod_eq_of_lt (by omega), asI32_of_lt hslots, asI32_of_lt hwrs',
      ← Int.natCast_mul, asI32_of_lt hfits]

theorem wrDepth_le_send (config : ReadRingConfig) (deviceLimit : Nat) (d : Dir) :
    config.wrDepth deviceLimit d ≤ config.wrDepth deviceLimit .send := by
  cases d
  · exact le_refl _
  · simp [wrDepth, readRingSqHeadroom]

theorem wrDepth_pos (config : ReadRingConfig) (deviceLimit : Nat) (d : Dir) :
    0 < config.wrDepth deviceLimit d := by
  cases d <;> simp [wrDepth, readRingSqHeadroom]

variable {config : ReadRingConfig} {deviceLimit cores connsPerCore : Nat} {maxCqe : Int}
  {pool pool' : BusyPool}

theorem depth_le {sendDepth recvDepth : Int} {workers : List CoreWorker}
    (h : ¬(sendDepth > maxCqe ∨ recvDepth > maxCqe)) (d : Dir) :
    (mk deviceLimit sendDepth recvDepth workers).depth d ≤ maxCqe := by
  rw [not_or, Int.not_lt, Int.not_lt] at h
  cases d
  · exact h.1
  · exact h.2

section WithConfig

variable (hbuild : withConfig deviceLimit maxCqe cores config connsPerCore = .ok pool)

include hbuild

theorem withConfig_ok : pool.deviceLimit = deviceLimit ∧
      pool.workers = List.replicate cores (new connsPerCore) ∧
      (∀ d, pool.depth d = asI32 (asI32 ((connsPerCore + 1) % 2 ^ 64 : Nat) *
        asI32 (config.wrDepth deviceLimit d))) ∧ ∀ d, pool.depth d ≤ maxCqe := by
  simp only [withConfig] at hbuild
  split at hbuild
  · cases hbuild
  · next hle =>
    rw [Except.ok.injEq] at hbuild
    subst hbuild
    refine ⟨rfl, rfl, fun d => ?_, fun d => ?_⟩
    · cases d
      · rw [depth, wrBudget]
      · rw [depth, wrBudget]
    · exact depth_le hle d

variable (hfits : (connsPerCore + 1) * config.wrDepth deviceLimit .send < 2 ^ 31)

include hfits

theorem depth_withConfig (d : Dir) :
    pool.depth d = ((connsPerCore + 1) * config.wrDepth deviceLimit d : Nat) := by
  rw [(withConfig_ok hbuild).2.2.1 d]
  apply depth_exact (wrDepth_pos config _ d)
  exact lt_of_le_of_lt (Nat.mul_le_mul_left _ (wrDepth_le_send config _ d)) hfits

theorem bounded_withConfig : pool.Bounded config connsPerCore := by
  have hdepth := depth_withConfig hbuild hfits
  obtain ⟨rfl, hworkers, -⟩ := withConfig_ok hbuild
  refine ⟨fun w hw => ?_, hdepth⟩
  rw [hworkers] at hw
  rw [eq_of_mem_replicate hw]
  exact ⟨CoreWorker.accounted_new config _ connsPerCore, rfl⟩

end WithConfig

theorem Bounded.step {l : Nat × WorkerLabel} (h : pool.Bounded config connsPerCore)
    (hl : pool.Covered config l) (hstep : pool.step l = some pool') :
    pool'.Bounded config connsPerCore := by
  simp only [BusyPool.step, Option.bind_eq_some_iff, Option.map_eq_some_iff] at hstep
  obtain ⟨w, hw, _, hw', rfl⟩ := hstep
  have hold := h.workers w (mem_of_getElem? hw)
  obtain ⟨hacc, hcap⟩ := hold.1.step (hl w hw) hw'
  refine ⟨fun v hv => ?_, h.depth⟩
  rcases mem_or_eq_of_mem_set hv with hv | rfl
  · exact h.workers v hv
  · exact ⟨hacc, hcap.trans hold.2⟩

end BusyPool

/-- In every run of a pool in which each setup uses the configuration of the
pool, and fails with its CM connection attached only while no bundle without a
guard waits on its core, a core holds at most one connection more than its cap
and its shared queues are deep enough for all their completions. -/
theorem busy_pool_admission_bounded {config : ReadRingConfig} {deviceLimit cores connsPerCore : Nat}
    {maxCqe : Int} {pool₀ pool : BusyPool} {labels : List (Nat × WorkerLabel)}
    (hbuild : withConfig deviceLimit maxCqe cores config connsPerCore =
      .ok pool₀)
    (hfits : (connsPerCore + 1) * config.wrDepth deviceLimit .send < 2 ^ 31)
    (halong : Machine.Along BusyPool.step (BusyPool.Covered config) pool₀ labels)
    (hrun : Machine.run BusyPool.step pool₀ labels = some pool) :
    ∀ w ∈ pool.workers, w.core.presentConns.length ≤ connsPerCore + 1 ∧
      ∀ d, (w.core.outstanding d : Int) ≤ pool.depth d := by
  have hbounded : pool.Bounded config connsPerCore :=
    @Machine.run_invariant _ _ BusyPool.step (BusyPool.Covered config)
      (BusyPool.Bounded config connsPerCore) (fun _ _ _ h hl hstep => h.step hl hstep)
      _ _ _ (bounded_withConfig hbuild hfits) halong hrun
  intro w hw
  obtain ⟨hacc, rfl⟩ := hbounded.workers w hw
  refine ⟨hacc.present_le, fun d => ?_⟩
  rw [hbounded.depth d]
  exact_mod_cast hacc.outstanding_le d

/-- A configuration with room for one message, as the examples below use it. -/
def oneInFlight : ReadRingConfig where
  ringCapacity := 65536
  maxMessageSize := 1500
  maxInFlight := some 1
  minFreeThreshold := 0

/-- A pool of one core and one connection per core, for `oneInFlight`. -/
def onePerCore : BusyPool where
  deviceLimit := 1000
  sendDepth := 8
  recvDepth := 6
  workers := [CoreWorker.new 1]

theorem withConfig_onePerCore : withConfig 1000 1000 1 oneInFlight 1 = .ok onePerCore := by
  rfl

/-- A pool that is built passes its workers the exact depths, positive and no larger than the
device allows, if and only if they fit in `i32` or the check refuses the wrapped ones. -/
theorem busy_pool_depths_exact (config : ReadRingConfig) (deviceLimit cores connsPerCore : Nat)
    (maxCqe : Int) : (∀ pool, withConfig deviceLimit maxCqe cores config connsPerCore = .ok pool →
      ∀ d, pool.depth d = ((connsPerCore + 1) * config.wrDepth deviceLimit d : Nat) ∧
        0 < pool.depth d ∧ pool.depth d ≤ maxCqe) ↔
    (∀ d, (connsPerCore + 1) * config.wrDepth deviceLimit d < 2 ^ 31) ∨
      ∃ d, maxCqe < asI32 (asI32 ((connsPerCore + 1) % 2 ^ 64 : Nat) *
        asI32 (config.wrDepth deviceLimit d)) := by
  constructor
  · intro hexact
    by_cases hover : ∃ d, maxCqe < asI32 (asI32 ((connsPerCore + 1) % 2 ^ 64 : Nat) *
        asI32 (config.wrDepth deviceLimit d))
    · exact .inr hover
    · refine .inl fun d => ?_
      obtain ⟨pool, hbuild⟩ : ∃ pool,
          withConfig deviceLimit maxCqe cores config connsPerCore = .ok pool := by
        have hsends : (config.wrBudget deviceLimit).sendWrs =
            asI32 (config.wrDepth deviceLimit .send) := by
          rw [wrBudget]
        have hrecvs : (config.wrBudget deviceLimit).recvWrs =
            asI32 (config.wrDepth deviceLimit .recv) := by
          rw [wrBudget]
        simp only [withConfig]
        rw [hsends, hrecvs, if_neg]
        · exact ⟨_, rfl⟩
        · rintro (hsend | hrecv)
          · exact hover ⟨.send, hsend⟩
          · exact hover ⟨.recv, hrecv⟩
      have hdepth := (hexact pool hbuild d).1
      rw [(withConfig_ok hbuild).2.2.1 d] at hdepth
      have hlt := asI32_lt
        (asI32 ((connsPerCore + 1) % 2 ^ 64 : Nat) * asI32 (config.wrDepth deviceLimit d))
      rw [hdepth] at hlt
      exact_mod_cast hlt
  · rintro (hfits | ⟨d, hover⟩) _ hbuild
    · intro d
      have hdepth := depth_withConfig hbuild (hfits .send) d
      refine ⟨hdepth, ?_, (withConfig_ok hbuild).2.2.2 d⟩
      rw [hdepth]
      exact_mod_cast Nat.mul_pos connsPerCore.succ_pos (wrDepth_pos config deviceLimit d)
    · have hle := (withConfig_ok hbuild).2.2.2 d
      rw [(withConfig_ok hbuild).2.2.1 d] at hle
      exact absurd hover (Int.not_lt.mpr hle)

theorem busy_pool_depths_exact_onePerCore :
    onePerCore.depth .recv = 2 * 3 ∧ 0 < onePerCore.depth .recv ∧
      onePerCore.depth .recv ≤ 1000 :=
  (busy_pool_depths_exact oneInFlight 1000 1 1 1000).mpr (.inl fun d => by cases d <;> decide)
    onePerCore withConfig_onePerCore .recv

/-- With 2 ^ 32 connections per core the slot count is narrowed to one, and the pool is
built with queues for a single connection. -/
theorem busy_pool_depths_wrap : ∃ pool, withConfig 1000 1000 1 oneInFlight (2 ^ 32) = .ok pool ∧
      pool.depth .send = 4 ∧ (2 ^ 32 + 1) * oneInFlight.wrDepth 1000 .send = 17179869188 :=
  ⟨{ onePerCore with
      sendDepth := 4, recvDepth := 3, workers := [CoreWorker.new (2 ^ 32)] }, rfl, rfl, rfl⟩

/-- One setup that fails late, a connection that is set up meanwhile and ends,
and the passes that reclaim both. -/
theorem busy_pool_admission_bounded_reclaim :
    let labels : List (Nat × WorkerLabel) :=
      [(0, .fetchAdd), (0, .preparePending 7 oneInFlight), (0, .attachCm 0),
        (0, .setupFails 0 fun _ => 0), (0, .fetchAdd), (0, .preparePending 8 oneInFlight),
        (0, .attachCm 1), (0, .setupCompletes 1), (0, .complete 0 .recv),
        (0, .sweep .recv (some 1)), (0, .processReclaim), (0, .appEnds 1)]
    Machine.Along BusyPool.step (BusyPool.Covered oneInFlight) onePerCore labels ∧
      ∃ pool, Machine.run BusyPool.step onePerCore labels = some pool ∧
        (pool.workers.map fun w => w.core.presentConns) = [[1]] ∧
        ∀ w ∈ pool.workers, w.core.presentConns.length ≤ 2 ∧
          ∀ d, (w.core.outstanding d : Int) ≤ pool.depth d := by
  intro labels
  have halong : Machine.Along BusyPool.step (BusyPool.Covered oneInFlight) onePerCore labels := by
    decide +kernel
  obtain ⟨pool, hrun, hpool⟩ : ∃ pool, Machine.run BusyPool.step onePerCore labels = some pool ∧
      (pool.workers.map fun w => w.core.presentConns) = [[1]] := by
    decide +kernel
  exact ⟨halong, pool, hrun, hpool,
    busy_pool_admission_bounded withConfig_onePerCore (by decide) halong hrun⟩

/-- Two setups fail after their CM connections are attached, each with its bind
and token requests posted.  Their guards are dropped while the driver still has
their queue pairs, so a third setup starts: three connections on a core with a
cap of one, and nine requests for a send queue of depth eight. -/
theorem busy_pool_over_admits : withConfig 1000 1000 1 oneInFlight 1 = .ok onePerCore ∧
    ∃ pool, Machine.run BusyPool.step onePerCore
        [(0, .fetchAdd), (0, .preparePending 7 oneInFlight), (0, .attachCm 0),
          (0, .post 0 .send), (0, .post 0 .send), (0, .post 0 .send), (0, .setupFails 0 fun _ => 0),
          (0, .fetchAdd), (0, .preparePending 8 oneInFlight), (0, .attachCm 1),
          (0, .post 1 .send), (0, .post 1 .send), (0, .post 1 .send),
          (0, .setupFails 1 fun _ => 0), (0, .processReclaim),
          (0, .fetchAdd), (0, .preparePending 9 oneInFlight), (0, .attachCm 2),
          (0, .post 2 .send), (0, .post 2 .send), (0, .post 2 .send)] = some pool ∧
      (pool.workers.map fun w => w.core.presentConns) = [[0, 1, 2]] ∧
      (pool.workers.map fun w => w.core.outstanding .send) = [9] ∧
      pool.depth .send = 8 := by
  refine ⟨withConfig_onePerCore, ?_⟩
  decide +kernel

end RdmaIo
