/-
Doorbell receives of the ring transports.

An immediate consumes a doorbell receive at the peer.  The read ring reposts it when the
completion is polled, the credit ring when the message is released; until then the request
is unanswered.  A peer is supplied while the unanswered requests of the other side do not
exceed the doorbells it posted at setup, for then each request still on the wire finds one.
-/
import RdmaIo.Ring.CreditBalance
import RdmaIo.Ring.ReadRingLoad

namespace RdmaIo

open CreditEndpoint
open ReadRingSystem
open List

namespace ReadRingSystem

/-- Requests of `p` whose doorbell the peer has not reposted: on the wire, or arrived on a
doorbell that is still missing from the queue pair. -/
def unanswered (sys : ReadRingSystem) (p : Side) : Nat :=
  (sys.get p).wire.length +
    ((sys.get p.other).inner.maxOutstanding - (sys.get p.other).inner.doorbells)

/-- The doorbells of the peer cover the requests of `p`. -/
structure Supplied (sys : ReadRingSystem) (p : Side) : Prop where
  posted : (sys.get p.other).inner.doorbells ≤ (sys.get p.other).inner.maxOutstanding
  bounded : sys.unanswered p ≤ (sys.get p.other).inner.maxOutstanding
  found : (sys.get p).wire.length ≤ (sys.get p.other).inner.doorbells

/-- Every doorbell of a peer is posted or its completion waits for a poll. -/
def Belled (sys : ReadRingSystem) : Prop :=
  ∀ p, (sys.get p).inner.doorbells + (sys.get p).recvCq.length = (sys.get p).inner.maxOutstanding

variable {c : Nat} {m s : Side → Nat} {sys sys' : ReadRingSystem} {label : ReadRingLabel}

theorem step_belled (hc : c ≤ 65536) (hpos : 0 < c) (hroom : ∀ p, c ≤ (m p.other + 1) * s p)
    (hw : WithinSlots c m s sys) (hb : Belled sys) (hloaded : Loaded s sys label)
    (hstep : step sys label = some sys') : WithinSlots c m s sys' ∧ Belled sys' := by
  obtain ⟨hw', hbells⟩ := step_withinSlots hc hpos hroom hw hloaded hstep
  refine ⟨hw', fun p => ?_⟩
  rw [(hbells p).bells, (hbells p).slots]
  exact hb p

/-- Each side has room for all that the other has posted, so its doorbells cover it. -/
theorem WithinSlots.supplied (hw : WithinSlots c m s sys) (hroom : ∀ p, c ≤ (m p.other + 1) * s p)
    (hb : Belled sys) (p : Side) : Supplied sys p := by
  obtain ⟨_, arrived, pending, _, _, h, hf, hwide⟩ := hw.carries p
  have hcount := hf.entries_le hwide (hroom p)
  have hhead := hf.head_le
  have hwire : (sys.get p).wire.length = pending.length := by
    rw [← hf.wire, length_map]
  have hqueue : (sys.get p.other).recvCq.length = arrived.length := by
    rw [hf.recvCq, length_map]
  have hbells := hb p.other
  have hslots := hw.slots p.other
  constructor
  · omega
  · rw [unanswered]
    omega
  · omega

theorem supplied_of_loaded {config : ReadRingConfig} {deviceLimit : Side → Nat}
    {trace : List ReadRingLabel} (hcap : config.ringCapacity < 2 ^ 32)
    (hbuild : build config deviceLimit = some sys)
    (hshare : ∀ p, config.ringCapacity ≤ (slotsOf config (deviceLimit p.other) + 1) * s p)
    (hloaded : Machine.Along step (Loaded s) sys trace)
    (hrun : Machine.run step sys trace = some sys') (p : Side) : Supplied sys' p := by
  obtain ⟨hpos, hle, hstart⟩ := build_withinSlots hcap hbuild s
  have hbelled : Belled sys := by
    unfold build at hbuild
    split at hbuild
    · cases hbuild
    · simp only [Option.some.injEq] at hbuild
      subst hbuild
      intro q
      cases q <;> rfl
  obtain ⟨hw, hb⟩ := @Machine.run_invariant _ _ step (Loaded s)
    (fun sys => WithinSlots config.ringCapacity (fun p => slotsOf config (deviceLimit p)) s
      sys ∧ Belled sys)
    (fun _ _ _ hinv hl hstep => step_belled hle hpos hshare hinv.1 hinv.2 hl hstep)
    _ _ _ ⟨hstart, hbelled⟩ hloaded hrun
  exact hw.supplied hshare hb p

end ReadRingSystem

namespace CreditRing

/-- The virtual index map has its full size, and the scan starts inside it. -/
structure Shelf (s : CreditRing) : Prop where
  size : s.virtualIdxMap.length = s.maxOutstanding
  cursor : s.nextVirtIdx < s.maxOutstanding

end CreditRing

theorem length_le_of_increasing {r n : Nat} {counts : List Nat}
    (hinc : (r :: counts).Pairwise (· < ·)) (hle : ∀ k ∈ r :: counts, k ≤ n) :
    r + counts.length ≤ n := by
  induction counts generalizing r with
  | nil => simpa using hle r mem_cons_self
  | cons k _ ih =>
    obtain ⟨hfirst, hrest⟩ := pairwise_cons.mp hinc
    have hrk := hfirst k mem_cons_self
    have htail := ih hrest fun j hj => hle j (mem_cons_of_mem r hj)
    rw [length_cons]
    omega

namespace CreditFlow

variable {c m slots r h : Nat} {done arrived pending : List Entry} {counts : List Nat}
  {e f : CreditEndpoint}

variable (hf : CreditFlow c m slots done arrived pending r counts h e f)

include hf

/-- The credit Sends on their way to `e` are paid for by credits `e` has spent. -/
theorem counts_le : counts.length + e.inner.remoteCredits ≤ slots := by
  have hcounts := length_le_of_increasing hf.increasing hf.bounded
  have hcredits := hf.send.credits
  have hsent := hf.sentLe
  have hhead := hf.head_le
  simp only [length_append] at hcredits
  omega

/-- The Writes that `f` has not released are paid for by credits `e` has spent. -/
theorem writes_le : pending.length + arrived.length + occupied f.inner.virtualIdxMap +
      e.inner.remoteCredits ≤ slots := by
  have hheld := occupied_le hf.recv.window.inj fun idx o l q hq =>
    ⟨(hf.recv.window.held idx o l q hq).1, (hf.recv.window.held idx o l q hq).2.1⟩
  have hlength := hf.length_le
  have hhead := hf.head_le
  rw [hf.recv.count] at hheld
  simp only [length_append] at hlength
  omega

/-- A queue pair carries Writes and credit Sends. -/
theorem wire_length : e.inner.qp.wire.length =
      pending.length + (e.inner.qp.wire.filter SendWr.isCredit).length := by
  have hsplit := length_eq_length_filter_add (l := e.inner.qp.wire) SendWr.isWrite
  have hcredits : e.inner.qp.wire.filter (fun wr => !wr.isWrite) =
      e.inner.qp.wire.filter SendWr.isCredit := by
    apply filter_congr
    intro wr hwr
    cases hcredit : wr.isCredit with
    | true => simp [SendWr.isWrite_of_isCredit hcredit]
    | false =>
      have hwrite := (hf.kinds wr hwr).resolve_right (by simp [hcredit])
      simp [hwrite]
  rw [hcredits] at hsplit
  rw [hsplit, ← hf.wire, length_map]

/-- A receive queue holds Writes that have arrived and credit Sends. -/
theorem recvCq_length :
    f.recvCq.length = arrived.length + (f.recvCq.filter WorkCompletion.isCredit).length := by
  have hsplit := length_eq_length_filter_add (l := f.recvCq) WorkCompletion.isCredit
  rw [hf.recvCq, length_map] at hsplit
  omega

end CreditFlow

namespace CreditRingSystem

/-- Requests of `p` whose doorbell the peer has not reposted. -/
def unanswered (sys : CreditRingSystem) (p : Side) : Nat :=
  (sys.get p).inner.qp.wire.length +
    ((sys.get p.other).inner.maxOutstanding - (sys.get p.other).inner.qp.doorbells)

/-- The doorbells of the peer cover the requests of `p`. -/
structure Supplied (sys : CreditRingSystem) (p : Side) : Prop where
  posted : (sys.get p.other).inner.qp.doorbells ≤ (sys.get p.other).inner.maxOutstanding
  bounded : sys.unanswered p ≤ (sys.get p.other).inner.maxOutstanding
  found : (sys.get p).inner.qp.wire.length ≤ (sys.get p.other).inner.qp.doorbells

/-- What a run must keep to: no post fails, and a peer sends only while the other holds all
of its credits or both together hold two more than there are slots. -/
def Shared (slots : Nat) (sys : CreditRingSystem) : CreditRingLabel → Prop
  | .sendGather p bufs post drain =>
    PostsOk (.sendGather p bufs post drain) ∧ ((bufs.map List.length).sum = 0 ∨
        (sys.get p.other).inner.remoteCredits = slots ∨
        slots + 2 ≤ (sys.get p).inner.remoteCredits + (sys.get p.other).inner.remoteCredits)
  | label => PostsOk label

instance (slots : Nat) (sys : CreditRingSystem) : (label : CreditRingLabel) →
    Decidable (Shared slots sys label)
  | .sendGather _ _ _ _ => inferInstanceAs (Decidable (_ ∧ _))
  | .pollSend p poll post => inferInstanceAs (Decidable (PostsOk (.pollSend p poll post)))
  | .pollRecv p outLen drains post polls =>
    inferInstanceAs (Decidable (PostsOk (.pollRecv p outLen drains post polls)))
  | .repostRecv p bufIdx posts =>
    inferInstanceAs (Decidable (PostsOk (.repostRecv p bufIdx posts)))
  | .arrive _ | .complete _ => inferInstanceAs (Decidable True)

variable {c m slots : Nat} {sys sys' : CreditRingSystem} {label : CreditRingLabel}

theorem Shared.postsOk (h : Shared slots sys label) : PostsOk label := by
  cases label with
  | sendGather => exact h.1
  | arrive | complete | pollSend | pollRecv | repostRecv => exact h

/-- Every doorbell is posted, held, waiting for a poll or lost with its completion, and the
two peers together keep as many credits as there are slots. -/
structure Covered (slots : Nat) (sys : CreditRingSystem) : Prop where
  shelf : ∀ p, (sys.get p).inner.Shelf
  bells : ∀ p, (sys.get p).inner.bells + (sys.get p).recvCq.length + (sys.get p).lost.length = slots
  credits : ∀ p, slots ≤ (sys.get p).inner.remoteCredits + (sys.get p.other).inner.remoteCredits

theorem step_covered (hl : ∀ p, LinkedAt c m slots sys p) (hc : Covered slots sys)
    (hshared : Shared slots sys label) (hkept : Kept c m slots sys label sys') :
    Covered slots sys' where
  shelf p := by
    obtain ⟨-, ⟨_, _, _, _, _, _, hg⟩⟩ := hkept.linked p
    refine ⟨?_, ?_⟩
    · rw [hg.recv.maxOutstanding, hg.recv.window.mapSize]
    · rw [hg.recv.maxOutstanding]
      exact hg.recv.cursor
  bells p := by
    obtain ⟨-, ⟨_, _, _, _, _, _, hg⟩⟩ := hl p
    obtain ⟨-, ⟨_, _, _, _, _, _, hg'⟩⟩ := hkept.linked p
    rw [(hkept.answers p).bells, hg'.lost, ← hg.lost]
    exact hc.bells p
  credits p := by
    have hself := (hkept.answers p).credits
    have hother := (hkept.answers p.other).credits
    have hsum := hc.credits p
    cases label with
    | sendGather q =>
      simp only [spent] at hself hother
      rcases hshared.2 with hnone | hcase
      · simp only [hnone, if_true, ite_self] at hself hother
        omega
      rcases Side.eq_or_eq_other p q with rfl | rfl
      · rw [if_neg (by cases q <;> decide)] at hother
        rw [if_pos rfl] at hself
        split at hself <;> omega
      · rw [if_neg (by cases p <;> decide)] at hself
        rw [if_pos rfl] at hother
        rw [Side.other_other] at hcase
        split at hother <;> omega
    | arrive | complete | pollSend | pollRecv | repostRecv =>
      simp only [spent] at hself hother
      omega

/-- What `p` has posted is paid for by credits that it or the peer has spent, and together
they have spent no more than the slots. -/
theorem Covered.supplied (hc : Covered slots sys) (hl : ∀ p, LinkedAt c m slots sys p)
    (p : Side) : Supplied sys p := by
  obtain ⟨⟨_, _, _, _, _, _, hf⟩, ⟨_, _, _, _, counts, _, hg⟩⟩ := hl p
  have hwrites := hf.writes_le
  have hcounts := hg.counts_le
  have hway : (((sys.get p.other).recvCq.filter WorkCompletion.isCredit).length +
      ((sys.get p).inner.qp.wire.filter SendWr.isCredit).length) = counts.length := by
    simpa using congrArg List.length hg.onTheWay
  have hwire := hf.wire_length
  have hqueue := hf.recvCq_length
  have hsum := hc.credits p
  have hbells := hc.bells p.other
  have hslots := hf.recv.maxOutstanding
  rw [hf.lost, length_nil, add_zero, CreditRing.bells] at hbells
  constructor
  · omega
  · rw [unanswered]
    omega
  · omega

theorem build_covered {config : CreditRingConfig} {deviceLimit : Side → Nat}
    (hsame : ∀ p, maxOutstanding config (deviceLimit p) = slots)
    (hbuild : build config deviceLimit = some sys) : Covered slots sys := by
  have hpos : 0 < slots := hsame .a ▸ clampMaxOutstanding_pos _ _ _ _ _
  unfold build at hbuild
  split at hbuild
  · cases hbuild
  rename_i capacity _
  simp only [Option.some.injEq] at hbuild
  have hget : ∀ p, sys.get p = new config capacity (deviceLimit p) := by
    rw [← hbuild]
    intro p
    cases p <;> rfl
  constructor
  · intro p
    rw [hget, new, hsame]
    exact ⟨length_replicate, hpos⟩
  · intro p
    rw [hget, new, hsame]
    simp [CreditRing.fromParts, CreditRing.bells, occupied, countP_replicate]
  · intro p
    rw [hget, new, hsame]
    exact Nat.le_add_right _ _

theorem supplied_of_shared {config : CreditRingConfig} {deviceLimit : Side → Nat}
    {trace : List CreditRingLabel} (hcap : config.ringCapacity < 2 ^ 32)
    (hsame : ∀ p, maxOutstanding config (deviceLimit p) = slots)
    (hnarrow : slots < 2 ^ 32) (hbuild : build config deviceLimit = some sys)
    (hshared : Machine.Along step (Shared slots) sys trace)
    (hrun : Machine.run step sys trace = some sys') (p : Side) : Supplied sys' p := by
  obtain ⟨hle, hlinked⟩ := build_linked_of_same hcap hsame hbuild
  obtain ⟨hl, hc⟩ := @Machine.run_invariant _ _ step (Shared slots)
    (fun sys => (∀ p, LinkedAt config.ringCapacity
      (min (min config.maxMessageSize config.ringCapacity) 0xFFFF) slots sys p) ∧ Covered slots sys)
    (fun _ _ _ hinv hs hstep =>
      have hkept := step_kept hle hnarrow hinv.1 hs.postsOk hstep
      ⟨hkept.linked, step_covered hinv.1 hinv.2 hs hkept⟩)
    _ _ _ ⟨hlinked, build_covered hsame hbuild⟩ hshared hrun
  exact hc.supplied hl p

end CreditRingSystem

/-- Both ring transports, in every run whose sends leave the doorbells they need: the read
ring while each message is long enough for its share of the ring, the credit ring while the
two peers together keep as many credits as there are slots. -/
theorem ring_doorbells_suffice (deviceLimit : Side → Nat) (p : Side) :
    (∀ (config : ReadRingConfig) (s : Side → Nat) (sys sys' : ReadRingSystem)
        (trace : List ReadRingLabel), config.ringCapacity < 2 ^ 32 →
      build config deviceLimit = some sys →
      (∀ q : Side, config.ringCapacity ≤ (slotsOf config (deviceLimit q.other) + 1) * s q) →
      Machine.Along step (ReadRingSystem.Loaded s) sys trace →
      Machine.run step sys trace = some sys' →
      ReadRingSystem.Supplied sys' p) ∧
    ∀ (config : CreditRingConfig) (slots : Nat) (sys sys' : CreditRingSystem)
        (trace : List CreditRingLabel), config.ringCapacity < 2 ^ 32 →
      (∀ q, maxOutstanding config (deviceLimit q) = slots) →
      slots < 2 ^ 32 → CreditRingSystem.build config deviceLimit = some sys →
      Machine.Along CreditRingSystem.step (CreditRingSystem.Shared slots) sys trace →
      Machine.run CreditRingSystem.step sys trace = some sys' →
      CreditRingSystem.Supplied sys' p := by
  constructor
  · intro config s sys sys' trace hcap hbuild hshare hloaded hrun
    exact supplied_of_loaded hcap hbuild hshare hloaded hrun p
  · intro config slots sys sys' trace hcap hsame hnarrow hbuild hshared hrun
    exact CreditRingSystem.supplied_of_shared hcap hsame hnarrow hbuild hshared hrun p

/-- Two messages of full size over the read ring, one over the credit ring. -/
theorem ring_doorbells_suffice_pass : (∃ sys, Machine.run step smallStart
        (passMessage 2 ++ passMessage 2) = some sys ∧
      ReadRingSystem.Supplied sys .a) ∧
    ∃ sys, Machine.run CreditRingSystem.step (CreditRingSystem.smallStart none)
        (CreditRingSystem.passMessage 4) = some sys ∧
      CreditRingSystem.Supplied sys .a := by
  constructor
  · refine Machine.ends_imp (fun _ => True) (by decide +kernel) fun sys hsys _ => ?_
    refine (ring_doorbells_suffice (fun _ => 1024) .a).1 smallConfig
      (fun _ => 2) _ sys _ (by decide) rfl (fun _ => by decide) ?_ hsys
    decide +kernel
  · refine Machine.ends_imp (fun _ => True) (by decide +kernel) fun sys hsys _ => ?_
    refine (ring_doorbells_suffice (fun _ => 1024) .a).2 (CreditRingSystem.smallConfig none)
      2 _ sys _ (by decide) (fun _ => by decide) (by decide) rfl ?_ hsys
    decide +kernel

/-- Peer `a` sends one byte and reaps the completion; `b` does not poll. -/
def ReadRingSystem.unpolledMessage : List ReadRingLabel :=
  [.sendGather .a [[0]] (fun _ => true), .arrive .a, .complete .a, .pollSend .a [.ok 8]]

/-- Five messages of one byte that `b` does not poll. -/
def ReadRingSystem.unpolledMessages : List ReadRingLabel :=
  unpolledMessage ++ unpolledMessage ++ unpolledMessage ++ unpolledMessage ++
    [.sendGather .a [[0]] (fun _ => true)]

/-- Peer `a` takes a message, spends both of its credits and then releases the message. -/
def CreditRingSystem.creditAfterWrites : List CreditRingLabel :=
  [.sendGather .b [[0]] (fun _ => true) (.ok []), .arrive .b,
    .pollRecv .a 1 [] true [.ok [⟨true, true⟩]], .sendGather .a [[0]] (fun _ => true) (.ok []),
    .sendGather .a [[0]] (fun _ => true) (.ok []), .repostRecv .a 0 ⟨true, true⟩]

/-- A Write of the read ring completes before its doorbell is reposted, so a fifth one is
posted against four doorbells; in the credit ring the credit Send comes on top of the Writes
that have taken every doorbell. -/
theorem ring_doorbells_exhausted : (build smallConfig (fun _ => 1024) =
        some smallStart ∧
      ∃ sys, Machine.run step smallStart unpolledMessages = some sys ∧
        (sys.get .b).inner.maxOutstanding < unanswered sys .a ∧
        (sys.get .a).wire ≠ [] ∧ (sys.get .b).inner.doorbells = 0) ∧
    CreditRingSystem.build (CreditRingSystem.smallConfig none) (fun _ => 1024) =
        some (CreditRingSystem.smallStart none) ∧
      ∃ sys, Machine.run CreditRingSystem.step (CreditRingSystem.smallStart none)
          CreditRingSystem.creditAfterWrites = some sys ∧
        (sys.get .b).inner.maxOutstanding < CreditRingSystem.unanswered sys .a ∧
        (sys.get .b).inner.qp.doorbells < (sys.get .a).inner.qp.wire.length := by
  refine ⟨⟨rfl, ?_⟩, rfl, ?_⟩
  · decide +kernel
  · decide +kernel

end RdmaIo
