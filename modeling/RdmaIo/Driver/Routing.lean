/-
Routing by queue pair number, across every reuse of a number.

The routing map, the slots and the queued completions agree as long as a number
leaves the map only when none of its completions is queued.  A drained retire
leaves none, because the counters of the slot bound them; a quarantined number
never leaves the map.  The rollback of a setup whose CM connection is not
attached is the one removal without that barrier.
-/
import RdmaIo.Driver.CoreDriver
import Mathlib.Data.List.Perm.Basic
import Mathlib.Logic.Function.Iterate

namespace RdmaIo

open Machine
open ConnSlot
open BusyCore
open Function
open List
open ReclaimEntry (bundle)

namespace ConnSlot

/-- A slot that counts the same work and holds no other completion. -/
structure SameAccounts (s t : ConnSlot) : Prop where
  qpNum : t.qpNum = s.qpNum
  posted : ∀ d, t.posted d = s.posted d
  inbox : ∀ d, (t.dir d).inbox ⊆ (s.dir d).inbox

variable {s : ConnSlot}

variable {t : ConnSlot} {d : Dir}

theorem SameAccounts.of_dir (hnum : t.qpNum = s.qpNum) (hdir : t.dir = s.dir) :
    s.SameAccounts t where
  qpNum := hnum
  posted d := by rw [ConnSlot.posted, ConnSlot.posted, hdir]
  inbox d := by rw [hdir]; exact List.Subset.refl _

theorem SameAccounts.trans {u : ConnSlot} (hst : s.SameAccounts t)
    (htu : t.SameAccounts u) : s.SameAccounts u where
  qpNum := htu.qpNum.trans hst.qpNum
  posted d := (htu.posted d).trans (hst.posted d)
  inbox d := List.Subset.trans (htu.inbox d) (hst.inbox d)

section

variable (s : ConnSlot)

theorem setDir_sameAccounts (d : Dir) {ds : DirState} (hposted : ds.posted = s.posted d)
    (hinbox : ds.inbox ⊆ (s.dir d).inbox) : s.SameAccounts (s.setDir d ds) where
  qpNum := rfl
  posted e := by
    by_cases he : e = d
    · subst he; simp only [posted, setDir, update_self, hposted]
    · simp only [posted, setDir, update_of_ne he]
  inbox e := by
    by_cases he : e = d
    · subst he; simpa only [setDir, update_self] using hinbox
    · simp only [setDir, update_of_ne he]; exact List.Subset.refl _

theorem drainInbox_sameAccounts (d : Dir) (out : Nat) : s.SameAccounts (s.drainInbox d out).2 :=
  s.setDir_sameAccounts d rfl (drop_subset _ _)

theorem pollInbox_sameAccounts (d : Dir) (out : Nat) : s.SameAccounts (s.pollInbox d out).2 := by
  unfold pollInbox
  split
  · exact .of_dir rfl rfl
  · exact s.drainInbox_sameAccounts d out

theorem discardInbox_sameAccounts (d : Dir) : s.SameAccounts (s.discardInbox d) :=
  s.setDir_sameAccounts d rfl (nil_subset _)

theorem markFatal_sameAccounts (fault : TerminalFault) : s.SameAccounts (s.markFatal fault) :=
  .of_dir rfl rfl

theorem posted_incPosted (d e : Dir) :
    (s.incPosted d).posted e = s.posted e + if e = d then 1 else 0 := by
  by_cases he : e = d
  · subst he; simp [incPosted, posted, setDir]
  · simp [incPosted, posted, setDir, he]

theorem inbox_incPosted (d e : Dir) : ((s.incPosted d).dir e).inbox = (s.dir e).inbox := by
  by_cases he : e = d
  · subst he; simp [incPosted, setDir]
  · simp [incPosted, setDir, update_of_ne he]

end

/-- A count that is not at zero goes down by one in its own direction. -/
theorem decPosted_spec (hpos : 0 < s.posted d) : ∃ t, s.decPosted d = some t ∧ t.qpNum = s.qpNum ∧
      (∀ e, s.posted e = t.posted e + if e = d then 1 else 0) ∧
      ∀ e, (t.dir e).inbox = (s.dir e).inbox := by
  refine ⟨_, if_neg (by omega), rfl, fun e => ?_, fun e => ?_⟩
  · by_cases he : e = d
    · subst he
      simp only [posted, setDir, update_self] at hpos ⊢
      simp only [if_true]
      omega
    · simp [posted, setDir, he]
  · by_cases he : e = d
    · subst he; simp [setDir]
    · simp [setDir, update_of_ne he]

theorem deliver_spec {wc : Cqe} (h : s.deliver d wc = some t) :
    t.qpNum = s.qpNum ∧ (∀ e, t.posted e = s.posted e) ∧
      ∀ e, ∀ c ∈ (t.dir e).inbox, c ∈ (s.dir e).inbox ∨ c = wc := by
  unfold deliver at h
  split at h
  · simp at h
  · rw [Option.some.injEq] at h
    subst h
    refine ⟨rfl, fun e => ?_, fun e c hc => ?_⟩
    · by_cases he : e = d
      · subst he; simp [posted, setDir]
      · simp [posted, setDir, update_of_ne he]
    · by_cases he : e = d
      · subst he
        simpa [setDir] using hc
      · simp only [setDir, update_of_ne he] at hc
        exact .inl hc

theorem drainComplete_posted (h : s.drainComplete = true) (d : Dir) : s.posted d = 0 := by
  simp only [drainComplete, Bool.and_eq_true, beq_iff_eq] at h
  cases d
  · exact h.1.1.1
  · exact h.1.1.2

end ConnSlot

namespace BusyCore

/-- Completions of connection `i` among `cqes`. -/
abbrev ofConn (i : Nat) (cqes : List Cqe) : Nat :=
  cqes.countP fun wc => wc.poster == i

/-- What the driver relies on, with `queue` the bundles still to be reclaimed
and `cqs` the completions still to be routed. -/
structure Sound (core : BusyCore) (queue : List Bundle) (cqs : Dir → List Cqe) : Prop where
  mapped : ∀ q i, core.slots q = some i → i < core.issued ∧ (core.slotOf i).qpNum = q
  registered : ∀ i, core.qp i = true → core.slots (core.slotOf i).qpNum = some i
  routed : ∀ d, ∀ wc ∈ cqs d, core.slots wc.qpNum = some wc.poster
  balance : ∀ i d, core.slots (core.slotOf i).qpNum = some i →
    ofConn i (cqs d) + core.wrs i d ≤ (core.slotOf i).posted d
  delivered : ∀ i d, ∀ wc ∈ ((core.slotOf i).dir d).inbox, wc.poster = i
  tallied : ∀ c ∈ core.counted, c.2.poster = c.1
  known : core.unknownQp = 0
  running : core.panicked = false
  owned : ∀ i, core.inUse i = true → core.qp i = true
  queued : ∀ b ∈ queue, core.qp b.conn = true
  ledger : core.handed.Perm (core.released ++ queue)
  distinct : (core.handed.map Bundle.conn).Nodup
  handedOff : ∀ b ∈ core.handed, b.conn < core.issued ∧ core.inUse b.conn = false
  dropped : ∀ b ∈ core.released, core.qp b.conn = false

section
variable {core : BusyCore} {queue : List Bundle} {cqs : Dir → List Cqe} {i : Nat} {d : Dir}

namespace Sound

variable (h : core.Sound queue cqs)

include h

theorem lt_issued (hqp : core.qp i = true) : i < core.issued :=
  (h.mapped _ _ (h.registered i hqp)).1

theorem poster_lt {wc : Cqe} (hwc : wc ∈ cqs d) : wc.poster < core.issued :=
  (h.mapped _ _ (h.routed d wc hwc)).1

variable {b : Bundle}

theorem released_handed (hb : b ∈ core.released) : b ∈ core.handed :=
  h.ledger.mem_iff.mpr (mem_append_left _ hb)

theorem queue_handed (hb : b ∈ queue) : b ∈ core.handed :=
  h.ledger.mem_iff.mpr (mem_append_right _ hb)

/-- A connection in use has never been handed off. -/
theorem conn_ne_of_inUse (hi : core.inUse i = true) (hb : b ∈ core.handed) : b.conn ≠ i := by
  intro hbi
  have hnot := (h.handedOff b hb).2
  rw [hbi, hi] at hnot
  cases hnot

theorem no_completion (hi : core.slots (core.slotOf i).qpNum = some i)
    (hzero : (core.slotOf i).posted d = 0) : ∀ wc ∈ cqs d, wc.poster ≠ i := by
  have hcount : ofConn i (cqs d) = 0 := by
    have := h.balance i d hi
    omega
  rw [ofConn, countP_eq_zero] at hcount
  intro wc hwc
  simpa using hcount wc hwc

/-- Slots may change in anything but their number and their accounts. -/
theorem of_slots {slotOf : Nat → ConnSlot} (hs : ∀ j, (core.slotOf j).SameAccounts (slotOf j)) :
    { core with slotOf }.Sound queue cqs :=
  { h with
    mapped := fun q j hq =>
      ⟨(h.mapped q j hq).1, (hs j).qpNum.trans (h.mapped q j hq).2⟩
    registered := fun j hj => by
      show core.slots (slotOf j).qpNum = some j
      rw [(hs j).qpNum]
      exact h.registered j hj
    balance := fun j d hj => by
      have hj' : core.slots (slotOf j).qpNum = some j := hj
      rw [(hs j).qpNum] at hj'
      have hle := h.balance j d hj'
      show _ ≤ (slotOf j).posted d
      rw [(hs j).posted]
      exact hle
    delivered := fun j d wc hwc => h.delivered j d wc ((hs j).inbox d hwc) }

theorem setSlot {slot : ConnSlot} (hs : (core.slotOf i).SameAccounts slot) :
    (core.setSlot i slot).Sound queue cqs := by
  apply h.of_slots
  intro j
  by_cases hj : j = i
  · subst hj
    rwa [update_self]
  · rw [update_of_ne hj]
    exact .of_dir rfl rfl

end Sound

theorem slotOf_setSlot_self (core : BusyCore) (i : Nat) (slot : ConnSlot) :
    (core.setSlot i slot).slotOf i = slot :=
  update_self _ _ _

variable {j qpNum n : Nat} {slot : ConnSlot} {wc : Cqe} {wcs : List Cqe}
  {before rest : List Bundle} {b : Bundle} {entry : ReclaimEntry}

theorem slotOf_setSlot_ne (core : BusyCore) (slot : ConnSlot) (hj : j ≠ i) :
    (core.setSlot i slot).slotOf j = core.slotOf j :=
  update_of_ne hj _ _

/-- A slot replaced by one of the same number leaves every number as it was. -/
theorem qpNum_setSlot (hnum : slot.qpNum = (core.slotOf i).qpNum) (j : Nat) :
    ((core.setSlot i slot).slotOf j).qpNum = (core.slotOf j).qpNum := by
  by_cases hj : j = i
  · subst hj
    rw [slotOf_setSlot_self]
    exact hnum
  · rw [slotOf_setSlot_ne _ _ hj]

theorem inUse_setOwner (core : BusyCore) (i j : Nat) (o : Owner) :
    (core.setOwner i o).inUse j = if j = i then o.inUse else core.inUse j := by
  by_cases hj : j = i
  · subst hj; simp [setOwner, inUse]
  · simp [setOwner, inUse, hj]

namespace Sound

variable (h : core.Sound queue cqs)

include h

theorem setOwner {o : Owner} (hi : core.inUse i = true ∨ o.inUse = false) :
    (core.setOwner i o).Sound queue cqs :=
  { h with
    owned := fun j hj => by
      rw [inUse_setOwner] at hj
      split at hj
      · next hji =>
        rcases hi with hi | ho
        · exact hji ▸ h.owned i hi
        · rw [ho] at hj; cases hj
      · exact h.owned j hj
    handedOff := fun b hb => by
      refine ⟨(h.handedOff b hb).1, ?_⟩
      rw [inUse_setOwner]
      split
      · next hbi =>
        rcases hi with hi | ho
        · exact absurd hbi (h.conn_ne_of_inUse hi hb)
        · exact ho
      · exact (h.handedOff b hb).2 }

/-- The queue pair of a connection that is not in use is destroyed, and its
bundle, if it had one, goes from the queue to the released ones. -/
theorem destroyQp {queue' released : List Bundle} (hown : core.inUse i = false)
    (hqueue : ∀ b ∈ queue', core.qp b.conn = true ∧ b.conn ≠ i)
    (hledger : core.handed.Perm (released ++ queue'))
    (hreleased : ∀ b ∈ released, b.conn = i ∨ b ∈ core.released) :
    { core.destroyQp i with released }.Sound queue' cqs := by
  have hother : ∀ j, j ≠ i → (core.destroyQp i).qp j = core.qp j :=
    fun j hj => update_of_ne hj _ _
  have hself : (core.destroyQp i).qp i = false := update_self _ _ _
  have hne : ∀ j, (core.destroyQp i).qp j = true → j ≠ i := by
    rintro j hj rfl
    exact Bool.false_ne_true (hself.symm.trans hj)
  exact { h with
    registered := fun j hj => h.registered j ((hother j (hne j hj)).symm.trans hj)
    owned := fun j hj => by
      have hji : j ≠ i := by
        rintro rfl
        exact Bool.false_ne_true (hown.symm.trans hj)
      exact (hother j hji).trans (h.owned j hj)
    queued := fun b hb => (hother _ (hqueue b hb).2).trans (hqueue b hb).1
    ledger := hledger
    dropped := fun b hb => by
      by_cases hbi : b.conn = i
      · exact hbi ▸ hself
      · exact (hother _ hbi).trans (h.dropped b ((hreleased b hb).resolve_left hbi)) }

/-- A number may leave the map once its queue pair is gone and none of its
completions is left to route. -/
theorem unregister (hi : core.slots (core.slotOf i).qpNum = some i)
    (hqp : core.qp i = false) (hnone : ∀ d, ∀ wc ∈ cqs d, wc.poster ≠ i) :
    (core.unregister (core.slotOf i).qpNum).Sound queue cqs := by
  have hkeep : ∀ q j, core.slots q = some j → j ≠ i →
      (core.unregister (core.slotOf i).qpNum).slots q = some j := by
    intro q j hq hji
    have hne : q ≠ (core.slotOf i).qpNum := by
      rintro rfl
      rw [hi] at hq
      exact hji (Option.some.inj hq).symm
    exact (update_of_ne hne _ _).trans hq
  have hold : ∀ q j, (core.unregister (core.slotOf i).qpNum).slots q = some j →
      core.slots q = some j := by
    intro q j hq
    by_cases hne : q = (core.slotOf i).qpNum
    · subst hne
      simp [BusyCore.unregister] at hq
    · exact (update_of_ne hne _ _).symm.trans hq
  exact { h with
    mapped := fun q j hq => h.mapped q j (hold q j hq)
    registered := fun j hj => by
      apply hkeep _ _ (h.registered j hj)
      rintro rfl
      rw [show core.qp j = true from hj] at hqp
      cases hqp
    routed := fun d wc hwc => hkeep _ _ (h.routed d wc hwc) (hnone d wc hwc)
    balance := fun j d hj => h.balance j d (hold _ _ hj) }

theorem pushReclaim (lease : Option Nat) (hqp : core.qp i = true)
    (hown : core.inUse i = false) (hfresh : ∀ b ∈ core.handed, b.conn ≠ i) :
    (core.pushReclaim ⟨i, lease⟩).Sound (queue ++ [⟨i, lease⟩]) cqs :=
  { h with
    queued := forall_mem_append.mpr ⟨h.queued, forall_mem_singleton.mpr hqp⟩
    ledger := by
      show (core.handed ++ [_]).Perm (core.released ++ (queue ++ [_]))
      rw [← append_assoc]
      exact h.ledger.append_right _
    distinct := by
      show ((core.handed ++ [_]).map Bundle.conn).Nodup
      rw [map_append, nodup_append]
      refine ⟨h.distinct, by simp, ?_⟩
      intro c hc e he
      obtain ⟨b, hb, rfl⟩ := mem_map.mp hc
      simp only [map_cons, map_nil, mem_singleton] at he
      exact he ▸ hfresh b hb
    handedOff := forall_mem_append.mpr
      ⟨h.handedOff, forall_mem_singleton.mpr ⟨h.lt_issued hqp, hown⟩⟩ }

theorem handOff (lease : Option Nat) (hi : core.inUse i = true) :
    (core.handOff i lease).Sound (queue ++ [⟨i, lease⟩]) cqs := by
  have hclosing : (core.setSlot i ((core.slotOf i).setState .closing)).Sound queue cqs :=
    h.setSlot (.of_dir rfl rfl)
  have hdriver : ((core.setSlot i ((core.slotOf i).setState .closing)).setOwner i
      .driver).Sound queue cqs := hclosing.setOwner (.inr rfl)
  apply hdriver.pushReclaim lease (h.owned i hi)
  · rw [inUse_setOwner, if_pos rfl]
    rfl
  · exact fun b hb => h.conn_ne_of_inUse hi hb

end Sound

theorem preparePending_of_free (sendCap recvCap : Nat) (hfree : core.slots qpNum = none) :
    core.preparePending qpNum sendCap recvCap =
      { core with
        issued := core.issued + 1
        slotOf := update core.slotOf core.issued ((new qpNum sendCap recvCap).incPosted .recv)
        owner := update core.owner core.issued (.pending false)
        slots := update core.slots qpNum (some core.issued)
        qp := update core.qp core.issued true
        wrs := update core.wrs core.issued fun d =>
          if d = .recv then 1 else 0 } := by
  have hreg : (core.setSlot core.issued (new qpNum sendCap recvCap)).slots
      ((core.setSlot core.issued
        (new qpNum sendCap recvCap)).slotOf core.issued).qpNum = none := by
    simpa [setSlot, new] using hfree
  simp only [preparePending, register, hreg]
  simp [setSlot, setOwner, new]

theorem preparePending_of_taken (sendCap recvCap : Nat) (htaken : core.slots qpNum = some j) :
    core.preparePending qpNum sendCap recvCap = core := by
  have hreg : (core.setSlot core.issued (new qpNum sendCap recvCap)).slots
      ((core.setSlot core.issued
        (new qpNum sendCap recvCap)).slotOf core.issued).qpNum = some j := by
    simpa [setSlot, new] using htaken
  simp only [preparePending, register, hreg]

theorem Sound.preparePending (h : core.Sound queue cqs) (qpNum sendCap recvCap : Nat) :
    (core.preparePending qpNum sendCap recvCap).Sound queue cqs := by
  cases hslot : core.slots qpNum with
  | some =>
    rw [preparePending_of_taken sendCap recvCap hslot]
    exact h
  | none =>
    rw [preparePending_of_free sendCap recvCap hslot]
    -- the new name and the new number are unknown to the old state
    have hnum : ∀ q j, core.slots q = some j → q ≠ qpNum := by
      rintro q j hq rfl
      rw [hslot] at hq
      cases hq
    have hlt : ∀ b ∈ core.handed, b.conn ≠ core.issued := fun b hb =>
      Nat.ne_of_lt (h.handedOff b hb).1
    exact { h with
      mapped := fun q j hq => by
        by_cases hqn : q = qpNum
        · subst hqn
          simp only [update_self, Option.some.injEq] at hq
          subst hq
          exact ⟨Nat.lt_succ_self _, by simp [incPosted, setDir, new]⟩
        · simp only [update_of_ne hqn] at hq
          have hj := h.mapped q j hq
          exact ⟨Nat.lt_succ_of_lt hj.1, by simpa [update_of_ne (Nat.ne_of_lt hj.1)] using hj.2⟩
      registered := fun j hj => by
        by_cases hji : j = core.issued
        · subst hji
          simp [incPosted, setDir, new]
        · simp only [update_of_ne hji] at hj ⊢
          have hreg := h.registered j hj
          rw [update_of_ne (hnum _ _ hreg)]
          exact hreg
      routed := fun d wc hwc => by
        have hreg := h.routed d wc hwc
        show update core.slots qpNum _ wc.qpNum = _
        rw [update_of_ne (hnum _ _ hreg)]
        exact hreg
      balance := fun j d hj => by
        by_cases hji : j = core.issued
        · subst hji
          have hnone : ofConn core.issued (cqs d) = 0 := by
            rw [ofConn, countP_eq_zero]
            intro wc hwc
            simpa using Nat.ne_of_lt (h.poster_lt hwc)
          simp only [update_self, posted_incPosted, hnone]
          cases d <;> simp [ConnSlot.posted, new]
        · simp only [update_of_ne hji] at hj ⊢
          apply h.balance j d
          by_cases hqn : (core.slotOf j).qpNum = qpNum
          · rw [hqn, update_self, Option.some.injEq] at hj
            exact absurd hj.symm hji
          · rwa [update_of_ne hqn] at hj
      delivered := fun j d wc hwc => by
        by_cases hji : j = core.issued
        · subst hji
          simp only [update_self, inbox_incPosted] at hwc
          cases d <;> simp [new] at hwc
        · simp only [update_of_ne hji] at hwc
          exact h.delivered j d wc hwc
      owned := fun j hj => by
        by_cases hji : j = core.issued
        · subst hji
          simp
        · simp only [inUse, update_of_ne hji] at hj ⊢
          exact h.owned j hj
      queued := fun b hb => by
        simp only [update_of_ne (hlt b (h.queue_handed hb))]
        exact h.queued b hb
      handedOff := fun b hb => by
        have hold := h.handedOff b hb
        simp only [inUse, update_of_ne (hlt b hb)]
        exact ⟨Nat.lt_succ_of_lt hold.1, hold.2⟩
      dropped := fun b hb => by
        simp only [update_of_ne (hlt b (h.released_handed hb))]
        exact h.dropped b hb }

theorem Sound.post (h : core.Sound queue cqs) (i : Nat) (d : Dir) :
    { core.setSlot i ((core.slotOf i).incPosted d) with
      wrs := update core.wrs i
        (update (core.wrs i) d (core.wrs i d + 1)) }.Sound queue cqs := by
  have hnum : ∀ j, ((core.setSlot i ((core.slotOf i).incPosted d)).slotOf j).qpNum =
      (core.slotOf j).qpNum := qpNum_setSlot rfl
  exact { h with
    mapped := fun q j hq => ⟨(h.mapped q j hq).1, (hnum j).trans (h.mapped q j hq).2⟩
    registered := fun j hj => (congrArg core.slots (hnum j)).trans (h.registered j hj)
    balance := fun j e hj => by
      have hle := h.balance j e ((congrArg core.slots (hnum j)).symm.trans hj)
      by_cases hji : j = i
      · subst hji
        simp only [slotOf_setSlot_self, update_self, posted_incPosted]
        by_cases he : e = d
        · subst he
          simp only [update_self, if_true]
          omega
        · simp only [update_of_ne he, if_neg he]
          omega
      · simpa only [slotOf_setSlot_ne _ _ hji, update_of_ne hji] using hle
    delivered := fun j e wc hwc => by
      by_cases hji : j = i
      · subst hji
        simp only [slotOf_setSlot_self, inbox_incPosted] at hwc
        exact h.delivered j e wc hwc
      · simp only [slotOf_setSlot_ne _ _ hji] at hwc
        exact h.delivered j e wc hwc }

theorem flush_zero (core : BusyCore) (i : Nat) (d : Dir) : core.flush i d 0 = core := by
  simp [flush]

theorem ofConn_flush (core : BusyCore) (i j : Nat) (d e : Dir) (n : Nat) :
    ofConn j ((core.flush i d n).cq e) =
      ofConn j (core.cq e) + if e = d ∧ j = i then n else 0 := by
  by_cases he : e = d
  · subst he
    by_cases hj : j = i
    · subst hj; simp [flush, ofConn, countP_replicate]
    · simp [flush, ofConn, countP_replicate, hj, Ne.symm hj]
  · simp [flush, he]

theorem Sound.flush (h : core.Sound queue core.cq) (hqp : core.qp i = true)
    (hn : n ≤ core.wrs i d) : (core.flush i d n).Sound queue (core.flush i d n).cq :=
  { h with
    routed := fun e wc hwc => by
      by_cases he : e = d
      · subst he
        simp only [BusyCore.flush, update_self, mem_append] at hwc
        rcases hwc with hwc | hwc
        · exact h.routed e wc hwc
        · rw [eq_of_mem_replicate hwc]
          exact h.registered i hqp
      · simp only [BusyCore.flush, update_of_ne he] at hwc
        exact h.routed e wc hwc
    balance := fun j e hj => by
      have hle := h.balance j e hj
      rw [ofConn_flush]
      simp only [BusyCore.flush]
      by_cases hji : j = i
      · subst hji
        by_cases he : e = d
        · subst he
          simp only [update_self, and_self, if_true]
          omega
        · simp only [update_self, update_of_ne he, he, false_and, if_false]
          omega
      · simp only [update_of_ne hji, hji, and_false, if_false]
        omega }

theorem dropPending_of_unqueued {flushed : Dir → Nat} (hzero : ∀ d, flushed d = 0) :
    core.dropPending i false flushed =
      ((core.unregister (core.slotOf i).qpNum).destroyQp i).setOwner i .nobody := by
  rw [dropPending, if_neg Bool.false_ne_true, hzero, hzero, flush_zero, flush_zero]

theorem Sound.dropPending (h : core.Sound queue cqs) (hi : core.inUse i = true)
    (hnone : ∀ d, ∀ wc ∈ cqs d, wc.poster ≠ i) :
    (((core.unregister (core.slotOf i).qpNum).destroyQp i).setOwner i
      .nobody).Sound queue cqs := by
  have hnobody : (core.setOwner i .nobody).Sound queue cqs := h.setOwner (.inr rfl)
  have hgone : ((core.setOwner i .nobody).destroyQp i).Sound queue cqs := by
    apply hnobody.destroyQp
    · rw [inUse_setOwner, if_pos rfl]
      rfl
    · exact fun b hb => ⟨h.queued b hb, h.conn_ne_of_inUse hi (h.queue_handed hb)⟩
    · exact h.ledger
    · exact fun b hb => .inr hb
  exact hgone.unregister (h.registered i (h.owned i hi)) (update_self _ _ _) hnone

/-- Counting a completion on the slot of its poster, delivered or not. -/
theorem Sound.count (h : core.Sound queue (update cqs d (wc :: wcs)))
    (hnum : slot.qpNum = (core.slotOf wc.poster).qpNum)
    (hposted : ∀ e, (core.slotOf wc.poster).posted e =
      slot.posted e + if e = d then 1 else 0) (hinbox : ∀ e, ∀ c ∈ (slot.dir e).inbox,
      c ∈ ((core.slotOf wc.poster).dir e).inbox ∨ c = wc) :
    ({ core with counted := core.counted ++ [(wc.poster, wc)] }.setSlot wc.poster
      slot).Sound queue (update cqs d wcs) := by
  have hnums := qpNum_setSlot hnum
  exact { h with
    mapped := fun q j hq => ⟨(h.mapped q j hq).1, (hnums j).trans (h.mapped q j hq).2⟩
    registered := fun j hj => (congrArg core.slots (hnums j)).trans (h.registered j hj)
    routed := fun e c hc => by
      apply h.routed e c
      by_cases he : e = d
      · subst he
        rw [update_self] at hc ⊢
        exact mem_cons_of_mem _ hc
      · rwa [update_of_ne he] at hc ⊢
    balance := fun j e hj => by
      have hle := h.balance j e ((congrArg core.slots (hnums j)).symm.trans hj)
      have hpost := hposted e
      by_cases hjp : j = wc.poster
      · subst hjp
        rw [slotOf_setSlot_self]
        by_cases he : e = d
        · subst he
          simp only [update_self, ofConn, countP_cons, beq_self_eq_true, if_true] at hle hpost ⊢
          show _ + core.wrs wc.poster e ≤ _
          omega
        · simp only [update_of_ne he, if_neg he] at hle hpost ⊢
          show _ + core.wrs wc.poster e ≤ _
          omega
      · rw [slotOf_setSlot_ne _ _ hjp]
        refine Nat.le_trans (Nat.add_le_add_right ?_ _) hle
        by_cases he : e = d
        · subst he
          simp only [update_self, ofConn, countP_cons]
          omega
        · exact Nat.le_of_eq (by rw [update_of_ne he, update_of_ne he])
    delivered := fun j e c hc => by
      by_cases hjp : j = wc.poster
      · subst hjp
        rw [slotOf_setSlot_self] at hc
        rcases hinbox e c hc with hold | rfl
        · exact h.delivered wc.poster e c hold
        · rfl
      · rw [slotOf_setSlot_ne _ _ hjp] at hc
        exact h.delivered j e c hc
    tallied := forall_mem_append.mpr ⟨h.tallied, forall_mem_singleton.mpr rfl⟩ }

theorem Sound.routeOne (h : core.Sound queue (update cqs d (wc :: wcs))) :
    ∃ core', routeOne d core wc = some core' ∧
      core'.Sound queue (update cqs d wcs) ∧
      core'.cq = core.cq ∧ core'.reclaim = core.reclaim := by
  have hhead : wc ∈ update cqs d (wc :: wcs) d := by simp
  have hmap := h.routed d wc hhead
  have hnum := (h.mapped _ _ hmap).2
  have hpos : 0 < (core.slotOf wc.poster).posted d := by
    have hle := h.balance wc.poster d (hnum.symm ▸ hmap)
    simp only [update_self, ofConn, countP_cons, beq_self_eq_true, if_true] at hle
    omega
  obtain ⟨_, hdec, hslot, hposted, hinbox⟩ := decPosted_spec hpos
  simp only [BusyCore.routeOne, hmap, hdec, Option.map_some, Option.some.injEq, exists_eq_left']
  split
  · exact ⟨h.count hslot hposted fun e c hc => .inl (hinbox e ▸ hc), rfl, rfl⟩
  · split
    · next hdeliver =>
      obtain ⟨hq, hp, hin⟩ := deliver_spec hdeliver
      refine ⟨h.count (hq.trans hslot) (fun e => ?_) fun e c hc => ?_, rfl, rfl⟩
      · rw [hp]
        exact hposted e
      · rw [← hinbox e]
        exact hin e c hc
    · exact ⟨h.count hslot hposted fun e c hc => .inl (hinbox e ▸ hc), rfl, rfl⟩

theorem Sound.routeInto (batch : List Cqe) (h : core.Sound queue (update cqs d (batch ++ wcs))) :
    ∃ core', routeInto d batch core = some core' ∧
      core'.Sound queue (update cqs d wcs) ∧
      core'.cq = core.cq ∧ core'.reclaim = core.reclaim := by
  induction batch generalizing core with
  | nil => exact ⟨core, rfl, h, rfl, rfl⟩
  | cons _ _ ih =>
    obtain ⟨_, hone, hsound, hcq, hreclaim⟩ := h.routeOne
    obtain ⟨core₂, hrest, hsound₂, hcq₂, hreclaim₂⟩ := ih hsound
    refine ⟨core₂, ?_, hsound₂, hcq₂.trans hcq, hreclaim₂.trans hreclaim⟩
    rw [routeInto, hone]
    exact hrest

theorem Sound.sweep (h : core.Sound queue core.cq) (d : Dir) (polled : Option Nat) :
    (core.sweep d polled).Sound queue (core.sweep d polled).cq ∧
      (core.sweep d polled).reclaim = core.reclaim := by
  cases polled with
  | none =>
    refine ⟨h.of_slots fun j => ?_, rfl⟩
    split
    · exact markFatal_sameAccounts _ _
    · exact .of_dir rfl rfl
  | some n =>
    have hall : { core with
        cq := update core.cq d ((core.cq d).drop n) }.Sound queue
          (update core.cq d ((core.cq d).take n ++ (core.cq d).drop n)) := by
      rw [take_append_drop, update_eq_self]
      exact { h with }
    obtain ⟨_, hroute, hsound, hcq, hreclaim⟩ := hall.routeInto
    simp only [BusyCore.sweep, hroute, Option.getD_some]
    exact ⟨hcq ▸ hsound, hreclaim⟩

/-- Distinct bundles: the one taken from the middle of the queue is not among
the rest. -/
theorem Sound.conn_ne_of_split (h : core.Sound (before ++ b :: rest) cqs) :
    ∀ c ∈ before ++ rest, c.conn ≠ b.conn := by
  have hperm : (core.handed.map Bundle.conn).Perm
      ((core.released ++ (b :: (before ++ rest))).map Bundle.conn) :=
    (h.ledger.trans (perm_middle.append_left _)).map _
  have hnodup := hperm.nodup_iff.mp h.distinct
  rw [map_append, nodup_append, map_cons, nodup_cons] at hnodup
  intro c hc hcb
  exact hnodup.2.1.1 (hcb ▸ mem_map_of_mem hc)

/-- The slot of a bundle after a pass discarded what its inboxes held. -/
def emptied (core : BusyCore) (i : Nat) : ConnSlot :=
  ((core.slotOf i).discardInbox .send).discardInbox .recv

theorem emptied_sameAccounts (core : BusyCore) (i : Nat) :
    (core.slotOf i).SameAccounts (core.emptied i) :=
  (discardInbox_sameAccounts _ _).trans (discardInbox_sameAccounts _ _)

variable {budget : Nat}

theorem reclaimEntry_of_kept (hdone : (core.emptied entry.bundle.conn).drainComplete = false)
    (hturns : entry.turns + 1 < budget) : core.reclaimEntry budget entry =
      { core.setSlot entry.bundle.conn (core.emptied entry.bundle.conn) with
        reclaim := core.reclaim ++ [{ entry with turns := entry.turns + 1 }] } := by
  unfold emptied at hdone
  simp only [reclaimEntry, hdone, hturns, decide_true, Bool.not_false, Bool.and_self, if_true]
  rfl

/-- The resources of the bundle and its lease are dropped. -/
def freed (core : BusyCore) (b : Bundle) : BusyCore :=
  { ((core.setOwner b.conn .nobody).setSlot b.conn
      ((core.emptied b.conn).setState .drained).retire).destroyQp b.conn with
    released := core.released ++ [b] }

theorem reclaimEntry_of_drained (hdone : (core.emptied entry.bundle.conn).drainComplete = true) :
    core.reclaimEntry budget entry =
      (core.freed entry.bundle).unregister (core.emptied entry.bundle.conn).qpNum := by
  have hdone' : ((core.emptied entry.bundle.conn).setState .drained).drainComplete = true := hdone
  unfold emptied at hdone hdone'
  simp only [reclaimEntry, hdone, hdone', Bool.not_true, Bool.false_and, if_true,
    Bool.false_eq_true, if_false]
  rfl

theorem reclaimEntry_of_wedged (hdone : (core.emptied entry.bundle.conn).drainComplete = false)
    (hturns : ¬entry.turns + 1 < budget) :
    core.reclaimEntry budget entry = core.freed entry.bundle := by
  have hdone' : ((core.emptied entry.bundle.conn).setState .drained).drainComplete = false := hdone
  unfold emptied at hdone hdone'
  simp only [reclaimEntry, hdone, hdone', hturns, decide_false, Bool.and_false,
    Bool.false_eq_true, if_false]
  rfl

theorem Sound.freed (h : core.Sound (before ++ b :: rest) cqs) :
    (core.freed b).Sound (before ++ rest) cqs := by
  have hslot : ((core.setOwner b.conn .nobody).setSlot b.conn
      ((core.emptied b.conn).setState .drained).retire).Sound
        (before ++ b :: rest) cqs :=
    (h.setOwner (.inr rfl)).setSlot ((core.emptied_sameAccounts b.conn).trans (.of_dir rfl rfl))
  apply hslot.destroyQp
  · exact (inUse_setOwner core b.conn b.conn .nobody).trans (if_pos rfl)
  · intro c hc
    refine ⟨h.queued c ?_, h.conn_ne_of_split c hc⟩
    rw [mem_append, mem_cons]
    exact (mem_append.mp hc).imp id .inr
  · rw [append_assoc, singleton_append]
    exact h.ledger.trans (perm_middle.append_left _)
  · intro c hc
    rcases mem_append.mp hc with hc | hc
    · exact .inr hc
    · exact .inl (congrArg Bundle.conn (mem_singleton.mp hc))

theorem Sound.reclaimEntry (budget : Nat) (entry : ReclaimEntry)
    (h : core.Sound (core.reclaim.map bundle ++ entry.bundle :: rest) cqs) :
    (core.reclaimEntry budget entry).Sound
      ((core.reclaimEntry budget entry).reclaim.map bundle ++ rest) cqs := by
  have hacc := core.emptied_sameAccounts entry.bundle.conn
  cases hdone : (core.emptied entry.bundle.conn).drainComplete with
  | true =>
    -- the counters are at zero, so no completion of the number is left
    rw [reclaimEntry_of_drained hdone]
    have hreg := h.registered _ (h.queued entry.bundle (by simp))
    have hfreed := h.freed
    have hnum : ((core.freed entry.bundle).slotOf entry.bundle.conn).qpNum =
        (core.emptied entry.bundle.conn).qpNum := by
      simp [BusyCore.freed, BusyCore.setSlot, BusyCore.setOwner, BusyCore.destroyQp,
        retire, setState]
    rw [← hnum]
    apply hfreed.unregister
    · rw [hnum, hacc.qpNum]
      exact hreg
    · exact update_self _ _ _
    · intro d
      apply h.no_completion hreg
      rw [← hacc.posted]
      exact drainComplete_posted hdone d
  | false =>
    by_cases hturns : entry.turns + 1 < budget
    · rw [reclaimEntry_of_kept hdone hturns]
      have hkept := h.setSlot hacc
      simp only [map_append, map_cons, map_nil, append_assoc, cons_append, nil_append]
      exact { hkept with }
    · rw [reclaimEntry_of_wedged hdone hturns]
      exact h.freed

theorem reclaimEntry_cq (core : BusyCore) (budget : Nat) (entry : ReclaimEntry) :
    (core.reclaimEntry budget entry).cq = core.cq := by
  simp only [reclaimEntry]
  split
  · rfl
  · split <;> rfl

theorem Sound.foldl_reclaimEntry (budget : Nat) (entries : List ReclaimEntry)
    (h : core.Sound (core.reclaim.map bundle ++
      entries.map bundle) cqs) :
    (entries.foldl (BusyCore.reclaimEntry budget) core).Sound
      ((entries.foldl (BusyCore.reclaimEntry budget) core).reclaim.map
        bundle) cqs := by
  induction entries generalizing core with
  | nil => simpa using h
  | cons entry _ ih => exact ih (h.reclaimEntry budget entry)

theorem foldl_reclaimEntry_cq (budget : Nat) (entries : List ReclaimEntry) (core : BusyCore) :
    (entries.foldl (reclaimEntry budget) core).cq = core.cq := by
  induction entries generalizing core with
  | nil => rfl
  | cons entry _ ih => exact (ih _).trans (core.reclaimEntry_cq budget entry)

/-- The invariant of a core between two steps. -/
def Steady (core : BusyCore) : Prop :=
  core.Sound (core.reclaim.map ReclaimEntry.bundle) core.cq

theorem Steady.processReclaim (h : core.Steady) (budget : Nat) :
    (core.processReclaim budget).Steady := by
  have hempty : { core with reclaim := [] }.Sound
      ([] ++ core.reclaim.map bundle) core.cq := { h with }
  have hfold := hempty.foldl_reclaimEntry budget core.reclaim
  rw [Steady, BusyCore.processReclaim, foldl_reclaimEntry_cq]
  exact hfold

theorem Steady.handOff (h : core.Steady) (lease : Option Nat)
    (hi : core.inUse i = true) : (core.handOff i lease).Steady := by
  have hqueue : (core.handOff i lease).reclaim.map bundle =
      core.reclaim.map bundle ++ [⟨i, lease⟩] := by
    simp [BusyCore.handOff, pushReclaim, setOwner, setSlot]
  rw [Steady, hqueue]
  exact Sound.handOff h lease hi

theorem steady_init : init.Steady where
  mapped := by simp [init]
  registered := by simp [init]
  routed := by simp [init]
  balance := by simp [init]
  delivered := by
    intro i d
    cases d <;> simp [init, new]
  tallied := by simp [init]
  known := rfl
  running := rfl
  owned := by simp [init, inUse, Owner.inUse]
  queued := by simp [init]
  ledger := Perm.refl _
  distinct := nodup_nil
  handedOff := by simp [init]
  dropped := by simp [init]

theorem inUse_of_owner {o : Owner} (h : core.owner i = o) (ho : o.inUse = true) :
    core.inUse i = true := by
  rw [inUse, h, ho]

theorem Steady.step {core' : BusyCore} {l : CoreLabel} (h : core.Steady)
    (hl : core.Unqueued l) (hstep : core.step l = some core') : core'.Steady := by
  cases l with
  | preparePending qpNum sendCap recvCap =>
    obtain ⟨_, rfl⟩ := of_guard hstep
    have hprep := Sound.preparePending h qpNum sendCap recvCap
    cases hslot : core.slots qpNum with
    | some => rwa [preparePending_of_taken sendCap recvCap hslot]
    | none =>
      rw [preparePending_of_free sendCap recvCap hslot] at hprep ⊢
      exact hprep
  | attachCm | setReclaimLease =>
    obtain ⟨hown, rfl⟩ := of_guard hstep
    exact Sound.setOwner h (.inl (inUse_of_owner hown rfl))
  | commit i =>
    obtain ⟨hown, rfl⟩ := of_guard hstep
    have hslot : (core.setSlot i ((core.slotOf i).setState .established)).Steady :=
      Sound.setSlot h (.of_dir rfl rfl)
    exact Sound.setOwner hslot (.inl (inUse_of_owner hown rfl))
  | post i d =>
    obtain ⟨_, rfl⟩ := of_guard hstep
    exact Sound.post h i d
  | complete =>
    obtain ⟨⟨hqp, hpos⟩, rfl⟩ := of_guard hstep
    exact Sound.flush h hqp hpos
  | pollInbox _ d out =>
    obtain ⟨_, rfl⟩ := of_guard hstep
    exact Sound.setSlot h (pollInbox_sameAccounts _ d out)
  | drainInbox _ d out =>
    obtain ⟨_, rfl⟩ := of_guard hstep
    exact Sound.setSlot h (drainInbox_sameAccounts _ d out)
  | dropPending i flushed =>
    simp only [BusyCore.step] at hstep
    split at hstep
    · next cm hown =>
      simp only [Option.ite_none_right_eq_some, Option.some.injEq] at hstep
      obtain ⟨_, rfl⟩ := hstep
      have hi := inUse_of_owner hown rfl
      cases cm with
      | true => exact Steady.handOff h none hi
      | false =>
        have hclean : ∀ d, flushed d = 0 ∧ ∀ wc ∈ core.cq d, wc.poster ≠ i := by
          intro d
          apply hl hown
          cases d <;> simp
        rw [dropPending_of_unqueued fun d => (hclean d).1]
        exact Sound.dropPending h hi fun d => (hclean d).2
    · cases hstep
  | dropTransport =>
    simp only [BusyCore.step] at hstep
    split at hstep
    · next lease hown =>
      rw [Option.some.injEq] at hstep
      subst hstep
      exact Steady.handOff h lease (inUse_of_owner hown rfl)
    · cases hstep
  | sweep d polled =>
    obtain ⟨_, rfl⟩ := of_guard hstep
    obtain ⟨hsound, hreclaim⟩ := Sound.sweep h d polled
    rw [Steady, hreclaim]
    exact hsound
  | processReclaim =>
    simp only [BusyCore.step, Option.ite_none_left_eq_some, Option.some.injEq] at hstep
    obtain ⟨_, rfl⟩ := hstep
    exact h.processReclaim _

/-- A pass keeps an entry only with one more turn, below the budget. -/
theorem turns_reclaimEntry (hentry : n ≤ entry.turns)
    (hqueue : ∀ e ∈ core.reclaim, n < e.turns ∧ e.turns < budget) :
    ∀ e ∈ (core.reclaimEntry budget entry).reclaim, n < e.turns ∧ e.turns < budget := by
  cases hdone : (core.emptied entry.bundle.conn).drainComplete with
  | true =>
    rw [reclaimEntry_of_drained hdone]
    exact hqueue
  | false =>
    by_cases hturns : entry.turns + 1 < budget
    · rw [reclaimEntry_of_kept hdone hturns]
      refine forall_mem_append.mpr ⟨hqueue, forall_mem_singleton.mpr ?_⟩
      exact ⟨Nat.lt_succ_of_le hentry, hturns⟩
    · rw [reclaimEntry_of_wedged hdone hturns]
      exact hqueue

theorem turns_foldl (entries : List ReclaimEntry) (hentries : ∀ e ∈ entries, n ≤ e.turns)
    (hqueue : ∀ e ∈ core.reclaim, n < e.turns ∧ e.turns < budget) :
    ∀ e ∈ (entries.foldl (reclaimEntry budget) core).reclaim,
      n < e.turns ∧ e.turns < budget := by
  induction entries generalizing core with
  | nil => exact hqueue
  | cons entry _ ih =>
    exact ih (fun e he => hentries e (mem_cons_of_mem _ he))
      (turns_reclaimEntry (hentries entry mem_cons_self) hqueue)

/-- As many passes as the budget allows free every bundle of the queue. -/
theorem processReclaim_drains (core : BusyCore) (hbudget : 0 < budget) :
    ((processReclaim budget)^[budget] core).reclaim = [] := by
  have hturns : ∀ n, ∀ e ∈ ((processReclaim budget)^[n + 1] core).reclaim,
      n < e.turns ∧ e.turns < budget := by
    intro n
    induction n with
    | zero =>
      exact turns_foldl core.reclaim (fun e _ => Nat.zero_le _) (by simp)
    | succ _ ih =>
      rw [iterate_succ_apply']
      exact turns_foldl _ (fun e he => (ih e he).1) (by simp)
  obtain ⟨n, rfl⟩ : ∃ n, budget = n + 1 := ⟨budget - 1, by omega⟩
  apply eq_nil_iff_forall_not_mem.mpr
  intro e he
  have := hturns n e he
  omega

end

/-- Routing is exact in a state: what is queued goes to the slot of its poster
and can be counted there, what was counted or delivered went there, and every
bundle handed off was released once or is still queued to be. -/
structure Exact (core : BusyCore) : Prop where
  routed : ∀ d, ∀ wc ∈ core.cq d, core.slots wc.qpNum = some wc.poster
  countable : ∀ i d, ofConn i (core.cq d) ≤ (core.slotOf i).posted d
  counted : ∀ c ∈ core.counted, c.2.poster = c.1
  delivered : ∀ i d, ∀ wc ∈ ((core.slotOf i).dir d).inbox, wc.poster = i
  noUnderflow : core.panicked = false
  noUnknown : core.unknownQp = 0
  ledger : core.handed.Perm (core.released ++ core.reclaim.map ReclaimEntry.bundle)
  distinct : (core.handed.map Bundle.conn).Nodup
  held : ∀ e ∈ core.reclaim, core.qp e.bundle.conn = true
  freed : ∀ b ∈ core.released, core.qp b.conn = false
  drains : ((processReclaim reclaimMaxTurns)^[reclaimMaxTurns] core).reclaim = []

theorem Steady.exact {core : BusyCore} (h : core.Steady) : core.Exact where
  __ := h
  countable i d := by
    by_cases hi : core.slots (core.slotOf i).qpNum = some i
    · exact Nat.le_trans (Nat.le_add_right _ _) (h.balance i d hi)
    · -- a number that left the map has no completion queued
      have hnone : ofConn i (core.cq d) = 0 := by
        rw [ofConn, countP_eq_zero]
        intro wc hwc hposter
        rw [beq_iff_eq] at hposter
        subst hposter
        have hmap := h.routed d wc hwc
        rw [(h.mapped _ _ hmap).2] at hi
        exact hi hmap
      rw [hnone]
      exact Nat.zero_le _
  counted := h.tallied
  noUnderflow := h.running
  noUnknown := h.known
  held e he := h.queued _ (mem_map_of_mem he)
  freed := h.dropped
  drains := core.processReclaim_drains (by decide)

end BusyCore

/-- In every run of a core in which a setup rolled back before its CM connection
is attached leaves no completion queued, routing is exact in every state. -/
theorem routing_exact_of_unqueued {labels : List CoreLabel} {core : BusyCore}
    (halong : Machine.Along BusyCore.step BusyCore.Unqueued init labels)
    (hrun : run BusyCore.step init labels = some core) : core.Exact :=
  (@run_invariant _ _ BusyCore.step BusyCore.Unqueued BusyCore.Steady
    (fun _ _ _ h hl hstep => h.step hl hstep) _ _ _ steady_init halong hrun).exact

/-- Both removals with a barrier and a rollback without completions: a number is
retired and reused, the next connection is given up before its handshake, and
the number is used a third time. -/
theorem routing_exact_of_unqueued_reuse :
    let labels : List CoreLabel :=
      [.preparePending 7 4 4, .attachCm 0, .commit 0, .setReclaimLease 0 5,
        .complete 0 .recv, .sweep .recv (some 1), .post 0 .send, .dropTransport 0,
        .processReclaim, .complete 0 .send, .sweep .send (some 1), .processReclaim,
        .preparePending 7 4 4, .dropPending 1 fun _ => 0, .preparePending 7 4 4]
    Machine.Along BusyCore.step BusyCore.Unqueued init labels ∧
      ∃ core, run BusyCore.step init labels = some core ∧
        core.issued = 3 ∧ core.released = [⟨0, some 5⟩] ∧ core.Exact := by
  intro labels
  have halong : Machine.Along BusyCore.step BusyCore.Unqueued init labels := by
    decide +kernel
  obtain ⟨core, hrun, hissued, hreleased⟩ : ∃ core, run BusyCore.step init labels = some core ∧
        core.issued = 3 ∧ core.released = [⟨0, some 5⟩] := by
    decide +kernel
  exact ⟨halong, core, hrun, hissued, hreleased, routing_exact_of_unqueued halong hrun⟩

/-- A setup is given up before its handshake and its token receive is flushed.
The completion is polled after the number left the map, and counts as unknown;
or, when the provider reuses the number first, it is counted on the slot of the
new connection, whose own completion then underflows the counter. -/
theorem routing_misses_rolled_back_setup : (∃ core, run BusyCore.step init
        [.preparePending 7 4 4, .dropPending 0 (fun d => if d = .recv then 1 else 0),
          .sweep .recv (some 1)] = some core ∧
      core.unknownQp = 1) ∧
    ∃ core, run BusyCore.step init
        [.preparePending 7 4 4, .dropPending 0 (fun d => if d = .recv then 1 else 0),
          .preparePending 7 4 4, .sweep .recv (some 1), .complete 1 .recv,
          .sweep .recv (some 1)] = some core ∧
      core.counted = [(1, ⟨7, 0⟩)] ∧ core.panicked = true := by
  decide +kernel

end RdmaIo
