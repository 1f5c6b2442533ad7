/-
How many messages a read-ring sender can have ahead of the reader.

The sender counts bytes, the receiver slots: a virtual index, a tracker slot and a doorbell
for each Write.  Less than one ring of bytes holds at most `max_outstanding` entries when
the messages are long enough, and a padding, of which there is one in a ring at most, is
no shorter than what it takes the place of.
-/
import RdmaIo.Ring.ReadRingSafety

namespace RdmaIo

/-- Messages of at least `s` bytes, and paddings that together with `m` such messages fill
a ring of `c` bytes. -/
def Wide (c m s : Nat) (log : List Entry) : Prop :=
  ∀ e ∈ log, (e.data = true → s ≤ e.len) ∧ (e.data = false → c ≤ m * s + e.len)

variable {log : List Entry}

/-- The bytes of `k` entries from number `a` on, of at least `s` bytes each. -/
theorem logPos_add_mul_le {s a k : Nat}
    (h : ∀ i, a ≤ i → i < a + k → ∃ e, log[i]? = some e ∧ s ≤ e.len) :
    logPos log a + k * s ≤ logPos log (a + k) := by
  induction k with
  | zero => simp
  | succ k ih =>
    obtain ⟨e, he, _⟩ := h (a + k) (by omega) (by omega)
    have hprev := ih fun i hlo hhi => h i hlo (by omega)
    rw [← add_assoc, logPos_succ he, Nat.succ_mul]
    omega

/-- A padding ends at the end of the ring. -/
theorem Layout.padding_end {c : Nat} (hlog : Layout c log) {i : Nat}
    {e : Entry} (he : log[i]? = some e) (hpad : e.data = false) :
    c ∣ logPos log (i + 1) := by
  obtain ⟨_, -, -, hend, -⟩ := hlog i e he
  have hfull := hend hpad
  have hdiv := Nat.div_add_mod (logPos log i) c
  refine ⟨logPos log i / c + 1, ?_⟩
  rw [logPos_succ he, Nat.mul_succ]
  omega

/-- Two paddings are a ring apart. -/
theorem Layout.paddings_apart {c : Nat} (hlog : Layout c log)
    {i j : Nat} {e f : Entry} (hij : i < j) (he : log[i]? = some e)
    (hf : log[j]? = some f) (hpad : e.data = false) (hpad' : f.data = false) :
    logPos log i + c < logPos log (j + 1) := by
  obtain ⟨x, _⟩ := hlog.padding_end he hpad
  obtain ⟨y, _⟩ := hlog.padding_end hf hpad'
  have hpos := (hlog i e he).2.1
  have hpos' := (hlog j f hf).2.1
  have hfirst := logPos_succ he
  have hlast := logPos_succ hf
  have hmono := logPos_mono log (show i + 1 ≤ j by omega)
  have hlt : c * x < c * y := by omega
  have hle := Nat.mul_le_mul_left c (Nat.lt_of_mul_lt_mul_left hlt)
  rw [Nat.mul_succ] at hle
  omega

/-- Less than a ring of bytes is at most `m` entries. -/
theorem Wide.count_le {c m s : Nat} (hwide : Wide c m s log)
    (hlog : Layout c log) (hroom : c ≤ (m + 1) * s) {h n : Nat} (hn : n ≤ log.length)
    (hbytes : logPos log n < logPos log h + c) : n ≤ h + m := by
  by_contra hmany
  have hentry : ∀ i, i < n → ∃ e, log[i]? = some e := fun i hi =>
    ⟨log[i], List.getElem?_eq_getElem (by omega)⟩
  have hmono := logPos_mono log (show h + m + 1 ≤ n by omega)
  by_cases hpad : ∃ i e, h ≤ i ∧ i < h + m + 1 ∧ log[i]? = some e ∧ e.data = false
  · obtain ⟨i, e, hlo, _, he, hdata⟩ := hpad
    -- a second padding would be a ring away from the first
    have hothers : ∀ j, h ≤ j → j < h + m + 1 → j ≠ i → ∃ f, log[j]? = some f ∧ s ≤ f.len := by
      intro j hj hj' hne
      obtain ⟨f, hf⟩ := hentry j (by omega)
      refine ⟨f, hf, (hwide f (List.mem_of_getElem? hf)).1 ?_⟩
      by_contra hother
      have hother' : f.data = false := by simpa using hother
      rcases Nat.lt_or_gt_of_ne hne with hlt | hgt
      · have hapart := hlog.paddings_apart hlt hf he hother' hdata
        have := logPos_mono log hj
        have := logPos_mono log (show i + 1 ≤ n by omega)
        omega
      · have hapart := hlog.paddings_apart hgt he hf hdata hother'
        have := logPos_mono log hlo
        have := logPos_mono log (show j + 1 ≤ n by omega)
        omega
    have hbefore := @logPos_add_mul_le log s h (i - h)
      fun j hj hj' => hothers j hj (by omega) (by omega)
    have hafter := @logPos_add_mul_le log s (i + 1) (h + m - i)
      fun j hj hj' => hothers j (by omega) (by omega) (by omega)
    rw [Nat.add_sub_cancel' hlo] at hbefore
    rw [show i + 1 + (h + m - i) = h + m + 1 by omega, logPos_succ he] at hafter
    have hcover := (hwide e (List.mem_of_getElem? he)).2 hdata
    have hsplit : m * s = (i - h) * s + (h + m - i) * s := by
      rw [← Nat.add_mul]
      congr 1
      omega
    omega
  · have hall := @logPos_add_mul_le log s h (m + 1)
      fun j hj hj' => by
        obtain ⟨f, hf⟩ := hentry j (by omega)
        refine ⟨f, hf, (hwide f (List.mem_of_getElem? hf)).1 ?_⟩
        by_contra hother
        exact hpad ⟨j, f, hj, by omega, hf, by simpa using hother⟩
    rw [← add_assoc] at hall
    omega

/-- A send keeps a log wide if its message is long enough and a wrap starts early. -/
theorem Wide.sent {c m s : Nat} (hwide : Wide c m s log)
    {sendRing ring : RingBuffer} {tail len offset padding : Nat} (hin : sendRing.InRing)
    (hcap : sendRing.capacity = c)
    (hreserve : sendRing.reserve len = some (ring, offset, padding)) (hlen : s ≤ len)
    (hwrap : sendRing.tail + len ≤ c ∨ sendRing.tail ≤ m * s) :
    Wide c m s (log ++ sentEntries tail len padding) := by
  intro e he
  rcases List.mem_append.mp he with hold | hnew
  · exact hwide e hold
  rcases List.mem_append.mp hnew with hpad | hdata
  · unfold padEntries at hpad
    split at hpad
    · rename_i hpos
      rw [List.mem_singleton] at hpad
      subst hpad
      obtain ⟨-, -, -, -, ⟨_, -⟩ | ⟨-, _, -, _, -⟩⟩ :=
        RingBuffer.reserve_some hin hreserve
      · omega
      · refine ⟨by simp, fun _ => ?_⟩
        simp only
        omega
    · simp at hpad
  · rw [List.mem_singleton] at hdata
    subst hdata
    exact ⟨fun _ => hlen, by simp⟩

namespace Flow

variable {c cached landed h : Nat} {done arrived pending : List Entry} {e f : ReadEndpoint}

variable (hf : Flow c done arrived pending cached landed h e f)

include hf

/-- What is posted and not released is less than a ring. -/
theorem bytes_lt : logPos (done ++ arrived ++ pending) (done ++ arrived ++ pending).length <
      logPos (done ++ arrived ++ pending) h + c := by
  have hahead := hf.send.ahead
  have hcached := hf.cachedLe
  have hlanded := hf.landedLe
  rw [hf.logPos_head]
  omega

/-- Everything posted and not released has a slot at the receiver. -/
theorem entries_le {m s : Nat} (hwide : Wide c m s (done ++ arrived ++ pending))
    (hroom : c ≤ (m + 1) * s) : done.length + arrived.length + pending.length ≤ h + m := by
  have hcount := hwide.count_le hf.layout hroom le_rfl hf.bytes_lt
  simpa only [List.length_append] using hcount

/-- The receiver has room for all that has arrived. -/
theorem room
    (hcount : done.length + arrived.length + pending.length ≤ h + f.inner.maxOutstanding)
    {r : Nat} (hr : r ≤ f.recvCq.length) : f.inner.Room r := by
  apply ReadRingInner.room_iff.mpr
  intro idx o l q hq
  have hhead := (hf.recv.window.held idx o l q hq).1
  have harrived : f.recvCq.length = arrived.length := by rw [hf.recvCq, List.length_map]
  rw [hf.recv.count]
  omega

end Flow

namespace ReadRingSystem

/-- What a run must keep to: no Write post and no doorbell repost fails, every message of
`p` has at least `s p` bytes, and one that wraps begins within `s p` bytes for each slot of
the peer. -/
def Loaded (s : Side → Nat) (sys : ReadRingSystem) : ReadRingLabel → Prop
  | .sendGather p bufs post =>
    (post .padding = true ∧ post .data = true) ∧ ((bufs.map List.length).sum = 0 ∨
        s p ≤ (sys.get p).inner.dataLen (bufs.map List.length).sum ∧
          ((sys.get p).inner.sendRing.tail +
              (sys.get p).inner.dataLen (bufs.map List.length).sum ≤
              (sys.get p).inner.sendRing.capacity ∨
            (sys.get p).inner.sendRing.tail ≤ (sys.get p.other).inner.maxOutstanding * s p))
  | .pollRecv _ _ polls => ReadRingInner.reposts polls = true
  | _ => True

instance (s : Side → Nat) (sys : ReadRingSystem) : (label : ReadRingLabel) →
    Decidable (Loaded s sys label)
  | .sendGather _ _ _ => inferInstanceAs (Decidable (_ ∧ _))
  | .pollRecv _ _ _ => inferInstanceAs (Decidable (_ = _))
  | .arrive _ | .complete _ | .pollSend _ _ | .readSnapshot _ | .readLand _
  | .repostRecv _ _ => inferInstanceAs (Decidable True)

/-- Both directions flow within the slots of their receivers. -/
structure WithinSlots (c : Nat) (m s : Side → Nat) (sys : ReadRingSystem) : Prop where
  slots : ∀ p, (sys.get p).inner.maxOutstanding = m p
  carries : Carries c (fun p => Wide c (m p.other) (s p)) sys

variable {c : Nat} {m s : Side → Nat} {sys sys' : ReadRingSystem} {label : ReadRingLabel}

/-- A loaded run is a spaced one. -/
theorem WithinSlots.spaced (hw : WithinSlots c m s sys) (hroom : ∀ p, c ≤ (m p.other + 1) * s p)
    (hloaded : Loaded s sys label) : Spaced sys label := by
  cases label with
  | sendGather => exact hloaded.1
  | pollRecv p =>
    obtain ⟨_, _, _, _, _, h, hf, hwide⟩ := hw.carries.back p
    refine ⟨hloaded, hf.room ?_ (min_le_left _ _)⟩
    rw [hw.slots]
    have hcount := hf.entries_le hwide (hroom p.other)
    rwa [Side.other_other] at hcount
  | arrive | complete | pollSend | readSnapshot | readLand | repostRecv => trivial

theorem WithinSlots.adds (hw : WithinSlots c m s sys) (hloaded : Loaded s sys label) :
    Adds (fun p => Wide c (m p.other) (s p)) sys label := by
  cases label with
  | sendGather p =>
    obtain ⟨_, _, _, _, _, h, hf, -⟩ := hw.carries p
    intro log ring offset padding hin hreserve hwide
    rcases hloaded.2 with hempty | ⟨hlen, hwrap⟩
    · simp [hempty, ReadRingInner.dataLen, RingBuffer.reserve] at hreserve
    · rw [hf.send.ringCapacity, hw.slots] at hwrap
      exact hwide.sent hin hf.send.ringCapacity hreserve hlen hwrap
  | arrive | complete | pollSend | readSnapshot | readLand | pollRecv | repostRecv =>
    trivial

theorem step_withinSlots (hc : c ≤ 65536) (hpos : 0 < c)
    (hroom : ∀ p, c ≤ (m p.other + 1) * s p) (hw : WithinSlots c m s sys)
    (hloaded : Loaded s sys label) (hstep : step sys label = some sys') :
    WithinSlots c m s sys' ∧ ∀ p, SameBells (sys.get p) (sys'.get p) := by
  obtain ⟨hcarries, hbells⟩ :=
    step_carries hc hpos hw.carries (hw.spaced hroom hloaded) (hw.adds hloaded) hstep
  exact ⟨⟨fun p => (hbells p).slots.trans (hw.slots p), hcarries⟩, hbells⟩

/-- The slots a peer of this configuration gets on its device. -/
def slotsOf (config : ReadRingConfig) (deviceLimit : Nat) : Nat :=
  clampMaxOutstanding config.ringCapacity config.maxMessageSize config.maxInFlight
    readRingSqHeadroom deviceLimit

theorem build_withinSlots {config : ReadRingConfig} {deviceLimit : Side → Nat}
    (hcap : config.ringCapacity < 2 ^ 32) (hbuild : build config deviceLimit = some sys)
    (s : Side → Nat) : 0 < config.ringCapacity ∧ config.ringCapacity ≤ 65536 ∧
      WithinSlots config.ringCapacity (fun p => slotsOf config (deviceLimit p)) s sys := by
  unfold build at hbuild
  split at hbuild
  · cases hbuild
  rename_i c haccept
  obtain ⟨hc, hpos, hle⟩ := acceptPeerCapacity_ok haccept
  rw [Nat.mod_eq_of_lt hcap] at hc
  subst hc
  simp only [Option.some.injEq] at hbuild
  subst hbuild
  refine ⟨hpos, hle, ?_, carries_of .a ?_ ?_⟩
  · intro p
    cases p <;> rfl
  · exact ⟨_, _, _, _, _, _, flow_new rfl hpos _ _, by simp [Wide]⟩
  · exact ⟨_, _, _, _, _, _, flow_new rfl hpos _ _, by simp [Wide]⟩

/-- Messages that have arrived at `p` and are not released: in the receive queue or held
under a virtual index. -/
def unread (sys : ReadRingSystem) (p : Side) : Nat :=
  (rangesOf (sys.get p).recvCq).length + occupied (sys.get p).inner.virtualIdxMap

theorem WithinSlots.unread_le (hw : WithinSlots c m s sys) (hroom : ∀ p, c ≤ (m p.other + 1) * s p)
    (p : Side) : sys.unread p ≤ (sys.get p).inner.maxOutstanding := by
  obtain ⟨_, arrived, _, _, _, h, hf, hwide⟩ := hw.carries.back p
  have hcount := hf.entries_le hwide (hroom p.other)
  rw [Side.other_other] at hcount
  have hheld := occupied_le hf.recv.window.inj fun idx o l q hq =>
    ⟨(hf.recv.window.held idx o l q hq).1, (hf.recv.window.held idx o l q hq).2.1⟩
  have hqueue : (rangesOf (sys.get p).recvCq).length ≤ arrived.length := by
    rw [rangesOf]
    refine (List.length_filter_le _ _).trans ?_
    rw [List.length_map, hf.recvCq]
    refine (List.length_filter_le _ _).trans ?_
    rw [List.length_map]
  have hhead := hf.head_le
  rw [hf.recv.count] at hheld
  rw [unread, hw.slots]
  omega

/-- While every message is long enough for its share of the ring, the peer has a slot for
everything that reaches it: a poll fails only with the completion queue or for a doorbell
that cannot be reposted. -/
theorem unread_within_slots {config : ReadRingConfig} {deviceLimit : Side → Nat}
    {trace : List ReadRingLabel} (hcap : config.ringCapacity < 2 ^ 32)
    (hbuild : build config deviceLimit = some sys)
    (hshare : ∀ p, config.ringCapacity ≤ (slotsOf config (deviceLimit p.other) + 1) * s p)
    (hloaded : Machine.Along step (Loaded s) sys trace)
    (hrun : Machine.run step sys trace = some sys') (p : Side) :
    sys'.unread p ≤ (sys'.get p).inner.maxOutstanding ∧
      ∀ (outLen : Nat) (polls : List (Except TransportError (List Bool))) (e : TransportError),
        ((sys'.get p).inner.pollRecv outLen (sys'.get p).recvCq polls).ready =
          some (.error e) → ReadRingInner.PollError polls e := by
  obtain ⟨hpos, hle, hstart⟩ := build_withinSlots hcap hbuild s
  have hw := Machine.run_invariant
    (fun _ _ _ hw hl hstep => (step_withinSlots hle hpos hshare hw hl hstep).1) hstart hloaded hrun
  refine ⟨hw.unread_le hshare p, ?_⟩
  intro outLen polls e herror
  obtain ⟨_, arrived, _, _, _, h, hf, hwide⟩ := hw.carries.back p
  have hcount := hf.entries_le hwide (hshare p.other)
  rw [Side.other_other, ← hw.slots] at hcount
  have hbells := hf.doorbells
  have harrived : (sys'.get p).recvCq.length = arrived.length := by
    rw [hf.recvCq, List.length_map]
  rw [hf.recvCq] at herror
  exact (ReadRingInner.pollRecv_took hle outLen hf.recv hf.fits_arrived
    (hf.room hcount (by omega)) (by omega)).error e herror

/-- Five messages of one byte, none of them released. -/
def tinyMessages : List ReadRingLabel :=
  passMessage 1 ++ passMessage 1 ++ passMessage 1 ++ passMessage 1 ++
    [.sendGather .a [[0]] (fun _ => true), .arrive .a]

/-- With four slots in a ring of eight bytes the fifth message of one byte finds no virtual
index. -/
theorem tinyMessages_exhaust_map : build smallConfig (fun _ => 1024) = some smallStart ∧
      ∃ sys, Machine.run step smallStart tinyMessages = some sys ∧
        ((sys.get .b).inner.pollRecv 1 (sys.get .b).recvCq [.ok [true]]).ready =
          some (.error (.invalidArg "recv virtual index map exhausted")) ∧
        (sys.get .b).inner.maxOutstanding < sys.unread .b := by
  refine ⟨rfl, ?_⟩
  decide +kernel

/-- Two messages of full size, both held. -/
theorem unread_within_slots_fullSize :
    ∃ sys, Machine.run step smallStart (passMessage 2 ++ passMessage 2) =
      some sys ∧ sys.unread .b ≤ (sys.get .b).inner.maxOutstanding := by
  have hbuild : build smallConfig (fun _ => 1024) = some smallStart := rfl
  have hshare : ∀ p : Side, smallConfig.ringCapacity ≤
      (slotsOf smallConfig 1024 + 1) * 2 := fun _ => by decide
  refine Machine.ends_imp (fun _ => True) (by decide +kernel) fun sys hsys _ => ?_
  refine (unread_within_slots (s := fun _ => 2) (by decide) hbuild hshare ?_ hsys .b).1
  decide +kernel

end ReadRingSystem

end RdmaIo
